import Wireform.Json
import Wireform.Proofs.KeyMaps

/-!
Documents up to the order of keys: two are alike if no object of either has a key twice, and they are one
document once the members of every object are listed by increasing key.
-/

set_option autoImplicit false

namespace Wireform

namespace Json

def Distinct : Json → Prop
  | .arr items => ofItems items
  | .obj members => Entries.Distinct members ∧ ofMembers members
  | _ => True
where
  ofItems : List Json → Prop
    | [] => True
    | item :: rest => Distinct item ∧ ofItems rest
  ofMembers : List (String × Json) → Prop
    | [] => True
    | (_, value) :: rest => Distinct value ∧ ofMembers rest

theorem distinct_items {items : List Json} :
    Distinct.ofItems items ↔ ∀ item ∈ items, item.Distinct := by
  induction items with
  | nil => simp [Distinct.ofItems]
  | cons item rest ih => simp [Distinct.ofItems, ih]

theorem distinct_members {members : List (String × Json)} :
    Distinct.ofMembers members ↔ ∀ key value, (key, value) ∈ members → value.Distinct := by
  induction members with
  | nil => simp [Distinct.ofMembers]
  | cons entry rest ih =>
    obtain ⟨k, v⟩ := entry
    simp only [Distinct.ofMembers, ih, List.mem_cons, Prod.mk.injEq]
    constructor
    · rintro ⟨first, others⟩ key value (⟨rfl, rfl⟩ | later)
      · exact first
      · exact others key value later
    · intro all
      exact ⟨all k v (.inl ⟨rfl, rfl⟩), fun key value later => all key value (.inr later)⟩

theorem distinct_arr {items : List Json} :
    (Json.arr items).Distinct ↔ ∀ item ∈ items, item.Distinct := by
  rw [Distinct, distinct_items]

theorem distinct_obj {members : Entries Json} :
    (Json.obj members).Distinct ↔
      members.Distinct ∧ ∀ key value, members.get? key = some value → value.Distinct := by
  rw [Distinct, distinct_members]
  constructor
  · rintro ⟨keys, values⟩
    exact ⟨keys, fun key value found => values key value (Entries.mem_of_get? found)⟩
  · rintro ⟨keys, values⟩
    exact ⟨keys, fun key value inside => values key value (Entries.get?_of_mem keys inside)⟩

theorem distinct_empty : (Json.obj []).Distinct := ⟨Entries.distinct_nil, trivial⟩

theorem distinct_single (key : String) {value : Json} (distinct : value.Distinct) :
    (Json.obj [(key, value)]).Distinct := ⟨Entries.distinct_single key value, distinct, trivial⟩

def sorted : Json → Json
  | .arr items => .arr (ofItems items)
  | .obj members => .obj (ofMembers members)
  | value => value
where
  ofItems : List Json → List Json
    | [] => []
    | item :: rest => sorted item :: ofItems rest
  ofMembers : List (String × Json) → List (String × Json)
    | [] => []
    | (key, value) :: rest => Entries.put (ofMembers rest) key (sorted value)

theorem sorted_ofItems (items : List Json) : sorted.ofItems items = items.map sorted := by
  induction items with
  | nil => rfl
  | cons item rest ih => rw [sorted.ofItems, ih, List.map_cons]

theorem sorted_ofMembers (members : List (String × Json)) :
    Entries.Sorted (sorted.ofMembers members) := by
  induction members with
  | nil => exact List.Pairwise.nil
  | cons entry rest ih => exact Entries.sorted_put ih _ _

theorem get?_sorted (members : Entries Json) (key : String) :
    Entries.get? (sorted.ofMembers members) key = (members.get? key).map sorted := by
  induction members with
  | nil => rfl
  | cons entry rest ih =>
    obtain ⟨k, v⟩ := entry
    rw [sorted.ofMembers, Entries.get?_put, ih, Entries.get?]
    split <;> simp

def Alike (a b : Json) : Prop := a.Distinct ∧ b.Distinct ∧ a.sorted = b.sorted

variable {a b c : Json}

theorem Alike.refl (distinct : a.Distinct) : Alike a a := ⟨distinct, distinct, rfl⟩

theorem Alike.symm (alike : Alike a b) : Alike b a := ⟨alike.2.1, alike.1, alike.2.2.symm⟩

theorem Alike.trans (first : Alike a b) (second : Alike b c) : Alike a c :=
  ⟨first.1, second.2.1, first.2.2.trans second.2.2⟩

def AlikeAt : Option Json → Option Json → Prop
  | none, none => True
  | some a, some b => Alike a b
  | _, _ => False

theorem alikeAt_refl {o : Option Json} (distinct : ∀ v ∈ o, v.Distinct) : AlikeAt o o := by
  cases o with
  | none => trivial
  | some v => exact Alike.refl (distinct v rfl)

theorem AlikeAt.trans {o p q : Option Json} (first : AlikeAt o p) (second : AlikeAt p q) :
    AlikeAt o q := by
  match o, p, q with
  | none, none, none => trivial
  | some a, some b, some c => exact Alike.trans first second

theorem AlikeAt.symm {o p : Option Json} (alike : AlikeAt o p) : AlikeAt p o := by
  match o, p with
  | none, none => trivial
  | some a, some b => exact Alike.symm alike

theorem alikeAt_some {o : Option Json} {v : Json} (alike : AlikeAt o (some v)) :
    ∃ w, o = some w ∧ Alike w v := by
  match o with
  | some w => exact ⟨w, rfl, alike⟩

theorem some_alikeAt {o : Option Json} {v : Json} (alike : AlikeAt (some v) o) :
    ∃ w, o = some w ∧ Alike v w := by
  match o with
  | some w => exact ⟨w, rfl, alike⟩

theorem alikeAt_none {o : Option Json} (alike : AlikeAt o none) : o = none := by
  match o with
  | none => rfl

theorem none_alikeAt {o : Option Json} (alike : AlikeAt none o) : o = none := by
  match o with
  | none => rfl

theorem alike_obj {as bs : Entries Json} :
    Alike (.obj as) (.obj bs) ↔
      as.Distinct ∧ bs.Distinct ∧ ∀ key, AlikeAt (as.get? key) (bs.get? key) := by
  rw [Alike, distinct_obj, distinct_obj]
  constructor
  · rintro ⟨⟨keys, values⟩, ⟨other_keys, other_values⟩, same⟩
    refine ⟨keys, other_keys, fun key => ?_⟩
    have under : (as.get? key).map sorted = (bs.get? key).map sorted := by
      rw [← get?_sorted, ← get?_sorted, Json.obj.inj same]
    cases first : as.get? key with
    | none =>
      cases second : bs.get? key with
      | none => trivial
      | some b => simp [first, second] at under
    | some a =>
      cases second : bs.get? key with
      | none => simp [first, second] at under
      | some b =>
        rw [first, second] at under
        exact ⟨values key a first, other_values key b second, Option.some.inj under⟩
  -- Sorted members come in one order, so the values under each key determine the object.
  · rintro ⟨keys, other_keys, under⟩
    refine ⟨⟨keys, ?_⟩, ⟨other_keys, ?_⟩, ?_⟩
    · intro key value found
      have alike := under key
      rw [found] at alike
      obtain ⟨_, _, alike⟩ := some_alikeAt alike
      exact alike.1
    · intro key value found
      have alike := under key
      rw [found] at alike
      obtain ⟨_, _, alike⟩ := alikeAt_some alike
      exact alike.2.1
    · rw [sorted, sorted]
      refine congrArg Json.obj (Entries.Sorted.ext (sorted_ofMembers as) (sorted_ofMembers bs) ?_)
      intro key
      rw [get?_sorted, get?_sorted]
      have alike := under key
      match first : as.get? key, second : bs.get? key with
      | none, none => rfl
      | some a, some b =>
        rw [first, second] at alike
        exact congrArg some alike.2.2
      | none, some b =>
        rw [first, second] at alike
        exact alike.elim
      | some a, none =>
        rw [first, second] at alike
        exact alike.elim

theorem alike_arr {as bs : List Json} : Alike (.arr as) (.arr bs) ↔ List.Forall₂ Alike as bs := by
  rw [Alike, distinct_arr, distinct_arr, sorted, sorted, sorted_ofItems, sorted_ofItems,
    Json.arr.injEq]
  induction as generalizing bs with
  | nil =>
    cases bs with
    | nil => simp
    | cons b bs => simp
  | cons a as ih =>
    cases bs with
    | nil => simp
    | cons b bs =>
      rw [List.forall₂_cons, ← ih]
      simp only [List.forall_mem_cons, List.map_cons, List.cons.injEq, Alike]
      constructor
      · rintro ⟨⟨first, firsts⟩, ⟨second, seconds⟩, same, sames⟩
        exact ⟨⟨first, second, same⟩, firsts, seconds, sames⟩
      · rintro ⟨⟨first, second, same⟩, firsts, seconds, sames⟩
        exact ⟨⟨first, firsts⟩, ⟨second, seconds⟩, same, sames⟩

theorem alike_leaf (alike : Alike a b) (no_array : ∀ items, b ≠ .arr items)
    (no_object : ∀ members, b ≠ .obj members) : a = b := by
  have same : a.sorted = b.sorted := alike.2.2
  cases b with
  | arr items => exact absurd rfl (no_array items)
  | obj members => exact absurd rfl (no_object members)
  | _ => cases a <;> first | exact same | cases same

theorem alike_null (alike : Alike a .null) : a = .null := alike_leaf alike nofun nofun

theorem alike_bool {value : Bool} (alike : Alike a (.bool value)) : a = .bool value :=
  alike_leaf alike nofun nofun

theorem alike_num {number : Number} (alike : Alike a (.num number)) : a = .num number :=
  alike_leaf alike nofun nofun

theorem alike_str {text : String} (alike : Alike a (.str text)) : a = .str text :=
  alike_leaf alike nofun nofun

theorem alike_of_arr {items : List Json} (alike : Alike a (.arr items)) :
    ∃ others, a = .arr others ∧ List.Forall₂ Alike others items := by
  cases a with
  | arr others => exact ⟨others, rfl, alike_arr.mp alike⟩
  | _ => cases alike.2.2

theorem alike_of_obj {members : Entries Json} (alike : Alike a (.obj members)) :
    ∃ others, a = .obj others ∧ Alike (.obj others) (.obj members) := by
  cases a with
  | obj others => exact ⟨others, rfl, alike⟩
  | _ => cases alike.2.2

theorem alike_isNull (alike : Alike a b) : a.isNull = b.isNull := by
  cases b with
  | null => rw [alike_null alike]
  | bool value => rw [alike_bool alike]
  | num number => rw [alike_num alike]
  | str text => rw [alike_str alike]
  | arr items =>
    obtain ⟨others, rfl, _⟩ := alike_of_arr alike
    rfl
  | obj members =>
    obtain ⟨others, rfl, _⟩ := alike_of_obj alike
    rfl

theorem isNull_of_alikeAt {o p : Option Json} (alike : AlikeAt o p) : o.map isNull = p.map isNull := by
  cases p with
  | none => rw [alikeAt_none alike]
  | some value =>
    obtain ⟨other, rfl, alike⟩ := alikeAt_some alike
    exact congrArg some (alike_isNull alike)

theorem alike_getD {o p : Option Json} (alike : AlikeAt o p) {instead : Json} (distinct : instead.Distinct) :
    Alike (o.getD instead) (p.getD instead) := by
  cases p with
  | none =>
    cases alikeAt_none alike
    exact Alike.refl distinct
  | some value =>
    obtain ⟨other, rfl, alike⟩ := alikeAt_some alike
    exact alike

end Json

end Wireform
