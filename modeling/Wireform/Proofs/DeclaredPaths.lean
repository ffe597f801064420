import Mathlib.Data.List.Basic
import Mathlib.Data.List.Flatten
import Wireform.Index.Build

set_option autoImplicit false

namespace Wireform

namespace Schema

inductive Message.Holds : Message → List String → Message → Prop
  | here (m : Message) : Holds m [] m
  | inner {m child n : Message} {path : List String} (nested : child ∈ m.nested) (below : Holds child path n) :
      Holds m (child.name :: path) n

theorem Message.holds_iff {m n : Message} {path : List String} : m.Holds path n ↔
    (path = [] ∧ n = m) ∨ ∃ child ∈ m.nested, ∃ rest, path = child.name :: rest ∧ child.Holds rest n := by
  constructor
  · intro holds
    cases holds with
    | here => exact .inl ⟨rfl, rfl⟩
    | inner nested below => exact .inr ⟨_, nested, _, rfl, below⟩
  · rintro (⟨rfl, rfl⟩ | ⟨child, nested, rest, rfl, below⟩)
    · exact .here _
    · exact .inner nested below

/-- A message that a file declares at any depth, under the names from the file to it. -/
def File.Declares (file : File) (path : List String) (m : Message) : Prop :=
  ∃ top ∈ file.messages, ∃ rest, path = top.name :: rest ∧ top.Holds rest m

end Schema

namespace Index

def localNameOf (path : List String) : String := path.foldl join ""

inductive DeclaresEnum (file : Schema.File) : List String → Schema.Enum → Prop
  | own {e : Schema.Enum} (inside : e ∈ file.enums) : DeclaresEnum file [] e
  | nested {path : List String} {m : Schema.Message} {e : Schema.Enum} (declares : file.Declares path m)
      (inside : e ∈ m.enums) : DeclaresEnum file path e

def declaredAt (file : Schema.File) (path : List String) (m : Schema.Message) : Declared Schema.Message :=
  ⟨file, localNameOf path, path.length, m⟩

def declaredEnumAt (file : Schema.File) (path : List String) (e : Schema.Enum) : Declared Schema.Enum :=
  ⟨file, if path.isEmpty then e.name else localNameOf path ++ "." ++ e.name, path.length + 1, e⟩

section Listing

variable {file : Schema.File}

theorem mem_declaredMessages {parent : String} {depth : Nat} {m : Schema.Message} {d : Declared Schema.Message} :
    d ∈ declaredMessages file parent depth m ↔
      ∃ path n, m.Holds path n ∧ d = ⟨file, path.foldl join (join parent m.name), depth + path.length, n⟩ := by
  -- The recursion goes through the list of nested messages, so what the listing of a list holds is said beside.
  refine declaredMessages.induct
    (fun depth localName ms => d ∈ declaredMessages.nestedMessages file depth localName ms ↔
      ∃ child ∈ ms, ∃ path n, child.Holds path n ∧
        d = ⟨file, path.foldl join (join localName child.name), depth + 1 + path.length, n⟩)
    (fun parent depth m => d ∈ declaredMessages file parent depth m ↔
      ∃ path n, m.Holds path n ∧ d = ⟨file, path.foldl join (join parent m.name), depth + path.length, n⟩)
    ?message ?none ?more parent depth m
  case message =>
    intro parent depth name fields nested enums oneofs options localName ih
    rw [declaredMessages, List.mem_cons, ih]
    constructor
    · rintro (rfl | ⟨child, inside, path, n, holds, rfl⟩)
      · exact ⟨[], _, .here _, rfl⟩
      · refine ⟨child.name :: path, n, .inner inside holds, ?_⟩
        rw [List.length_cons, List.foldl_cons, Nat.add_right_comm, Nat.add_assoc]
    · rintro ⟨path, n, holds, rfl⟩
      rcases Schema.Message.holds_iff.mp holds with ⟨rfl, rfl⟩ | ⟨child, inside, rest, rfl, below⟩
      · exact .inl rfl
      · refine .inr ⟨child, inside, rest, n, below, ?_⟩
        rw [List.length_cons, List.foldl_cons, Nat.add_right_comm, Nat.add_assoc]
  case none =>
    intro depth localName
    simp [declaredMessages.nestedMessages]
  case more =>
    intro depth localName m rest first others
    rw [declaredMessages.nestedMessages, List.mem_append, first, others, List.exists_mem_cons_iff]

theorem mem_messagesOf {d : Declared Schema.Message} :
    d ∈ messagesOf file ↔ ∃ path m, file.Declares path m ∧ d = declaredAt file path m := by
  simp only [messagesOf, List.mem_flatMap, mem_declaredMessages]
  constructor
  · rintro ⟨top, inside, path, m, holds, rfl⟩
    refine ⟨top.name :: path, m, ⟨top, inside, path, rfl, holds⟩, ?_⟩
    rw [declaredAt, localNameOf, List.foldl_cons, List.length_cons, Nat.add_comm]
  · rintro ⟨_, m, ⟨top, inside, path, rfl, holds⟩, rfl⟩
    refine ⟨top, inside, path, m, holds, ?_⟩
    rw [declaredAt, localNameOf, List.foldl_cons, List.length_cons, Nat.add_comm]

theorem mem_enumsOf {d : Declared Schema.Enum} :
    d ∈ enumsOf file ↔ ∃ path e, DeclaresEnum file path e ∧ d = declaredEnumAt file path e := by
  simp only [enumsOf, List.mem_append, List.mem_flatMap, List.mem_map, mem_messagesOf]
  constructor
  · rintro (⟨_, ⟨path, m, declares, rfl⟩, e, inside, rfl⟩ | ⟨e, inside, rfl⟩)
    · refine ⟨path, e, .nested declares inside, ?_⟩
      obtain ⟨top, _, rest, rfl, _⟩ := declares
      rfl
    · exact ⟨[], e, .own inside, rfl⟩
  · rintro ⟨path, e, declares, rfl⟩
    cases declares with
    | own inside => exact .inr ⟨e, inside, rfl⟩
    | @nested path m e declares inside =>
      refine .inl ⟨_, ⟨path, m, declares, rfl⟩, e, inside, ?_⟩
      obtain ⟨top, _, rest, rfl, _⟩ := declares
      rfl

theorem sublist_nestedMessages {localName : String} {depth : Nat} {child : Schema.Message} {ms : List Schema.Message}
    (inside : child ∈ ms) : (declaredMessages file localName (depth + 1) child).Sublist
      (declaredMessages.nestedMessages file depth localName ms) := by
  induction ms with
  | nil => cases inside
  | cons m rest ih =>
    rw [declaredMessages.nestedMessages]
    rcases List.mem_cons.mp inside with rfl | later
    · exact List.sublist_append_left _ _
    · exact (ih later).trans (List.sublist_append_right _ _)

theorem sublist_declaredMessages {parent : String} {depth : Nat} {m outer inner : Schema.Message}
    {path more : List String} (holds : m.Holds path outer) (below : outer.Holds more inner) (proper : more ≠ []) :
    [⟨file, path.foldl join (join parent m.name), depth + path.length, outer⟩,
      ⟨file, (path ++ more).foldl join (join parent m.name), depth + (path ++ more).length, inner⟩].Sublist
        (declaredMessages file parent depth m) := by
  induction holds generalizing parent depth with
  | here m =>
    have listed : (⟨file, more.foldl join (join parent m.name), depth + more.length, inner⟩ : Declared _) ∈
        declaredMessages file parent depth m := mem_declaredMessages.mpr ⟨more, inner, below, rfl⟩
    obtain ⟨name, fields, nested, enums, oneofs, options⟩ := m
    rw [declaredMessages] at listed ⊢
    rcases List.mem_cons.mp listed with itself | later
    · have same : depth + more.length = depth := congrArg Declared.depth itself
      exact absurd (List.length_eq_zero_iff.mp (Nat.add_eq_left.mp same)) proper
    · exact (List.singleton_sublist.mpr later).cons_cons _
  | @inner m child n path nested _ ih =>
    have within : (declaredMessages file (join parent m.name) (depth + 1) child).Sublist
        (declaredMessages file parent depth m) := by
      obtain ⟨name, fields, nested, enums, oneofs, options⟩ := m
      rw [declaredMessages]
      exact (sublist_nestedMessages nested).cons _
    have pair := (@ih (join parent m.name) (depth + 1) below).trans within
    simpa only [List.foldl_cons, List.cons_append, List.length_cons, Nat.add_assoc, Nat.add_comm 1] using pair

theorem sublist_messagesOf {path more : List String} {outer inner : Schema.Message} (declares : file.Declares path outer)
    (below : outer.Holds more inner) (proper : more ≠ []) :
    [declaredAt file path outer, declaredAt file (path ++ more) inner].Sublist (messagesOf file) := by
  obtain ⟨top, inside, rest, rfl, holds⟩ := declares
  have pair := @sublist_declaredMessages file "" 1 top outer inner rest more holds below proper
  have within : (declaredMessages file "" 1 top).Sublist (messagesOf file) := by
    have part := (List.singleton_sublist.mpr inside).flatMap (declaredMessages file "" 1)
    rwa [List.flatMap_singleton] at part
  simp only [declaredAt, localNameOf, List.cons_append, List.foldl_cons, List.length_cons, ← Nat.add_comm 1]
  exact pair.trans within

end Listing

end Index

end Wireform
