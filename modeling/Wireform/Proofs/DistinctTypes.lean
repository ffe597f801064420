import Wireform.Proofs.Basic
import Wireform.Proofs.ReachedNames
import Wireform.Proofs.ResolvedReferences

set_option autoImplicit false

namespace Wireform

theorem eq_of_mem_flatMap {α β : Type} {items : List α} {share : α → List β} (distinct : (items.flatMap share).Nodup)
    {a b : α} (first : a ∈ items) (second : b ∈ items) {x : β} (one : x ∈ share a) (two : x ∈ share b) : a = b := by
  by_contra differ
  have apart := pairwise_forall (R := Function.onFun List.Disjoint share)
    (fun a b (apart : (share a).Disjoint (share b)) => apart.symm)
    (List.nodup_flatMap.mp distinct).2 first second differ
  exact apart one two

namespace KeyMap

variable {α : Type}

theorem ext_get? {a b : KeyMap α} (same : ∀ key, a.get? key = b.get? key) : a = b := by
  obtain ⟨entries, sorted⟩ := a
  obtain ⟨others, others_sorted⟩ := b
  cases sorted.ext others_sorted same
  rfl

theorem ofList_perm {entries others : List (String × α)} (order : entries.Perm others)
    (unique : ∀ key value other, (key, value) ∈ entries → (key, other) ∈ entries → other = value) :
    ofList entries = ofList others := by
  refine ext_get? fun key => ?_
  cases found : (ofList entries).get? key with
  | some value =>
    have inside := mem_of_get?_ofList found
    exact (get?_ofList_of_unique (order.subset inside) fun other there =>
      unique key value other inside (order.symm.subset there)).symm
  | none =>
    refine (Option.eq_none_iff_forall_ne_some.mpr fun value there => ?_).symm
    obtain ⟨other, here⟩ := exists_get?_ofList (order.symm.subset (mem_of_get?_ofList there))
    rw [found] at here
    cases here

end KeyMap

namespace Imports

theorem fileOf?_iff {set : Schema.FileSet} (distinct : (set.files.map (·.name)).Nodup) {name : String}
    {f : Schema.File} : fileOf? set name = some f ↔ f ∈ set.files ∧ f.name = name := by
  refine ⟨fileOf?_eq_some, fun ⟨inside, same⟩ => ?_⟩
  have picked : f ∈ set.files.filter (·.name == name) := List.mem_filter.mpr ⟨inside, by simpa using same⟩
  cases last : fileOf? set name with
  | none => exact absurd (List.getLast?_eq_none_iff.mp last) (List.ne_nil_of_mem picked)
  | some g =>
    obtain ⟨there, named⟩ := fileOf?_eq_some last
    rw [eq_of_nodup distinct there inside (named.trans same.symm)]

end Imports

namespace Index

def typeNames (file : Schema.File) : List String :=
  (messagesOf file).map (·.fullName) ++ (enumsOf file).map (·.fullName)

theorem mem_typeNames {file : Schema.File} {name : String} : name ∈ typeNames file ↔
    (∃ d ∈ messagesOf file, d.fullName = name) ∨ ∃ d ∈ enumsOf file, d.fullName = name := by
  rw [typeNames, List.mem_append, List.mem_map, List.mem_map]

section Declared

variable {α : Type} {of : Schema.File → List (Declared α)} (typed : ∀ f, ((of f).map (·.fullName)).Sublist (typeNames f))
  {all : List Schema.File} (distinct : (all.flatMap typeNames).Nodup)

include typed distinct

theorem declared_unique {f g : Schema.File} (first : f ∈ all) (second : g ∈ all) {d d' : Declared α} (one : d ∈ of f)
    (two : d' ∈ of g) (same : d.fullName = d'.fullName) : d = d' := by
  have inside : d'.fullName ∈ typeNames f := (typed f).subset (List.mem_map.mpr ⟨d, one, same⟩)
  cases eq_of_mem_flatMap distinct first second inside ((typed g).subset (List.mem_map_of_mem two))
  exact eq_of_nodup (((List.nodup_flatMap.mp distinct).1 f first).sublist (typed f)) one two same

theorem found_iff {files : List Schema.File} (part : ∀ f ∈ files, f ∈ all) {name : String} {d : Declared α} :
    (KeyMap.ofList ((files.flatMap of).map fun d => (d.fullName, d))).get? name = some d ↔
      d.fullName = name ∧ ∃ f ∈ files, d ∈ of f := by
  constructor
  · intro found
    obtain ⟨other, inside, same⟩ := List.mem_map.mp (KeyMap.mem_of_get?_ofList found)
    obtain ⟨rfl, rfl⟩ := Prod.mk.inj same
    exact ⟨rfl, List.mem_flatMap.mp inside⟩
  · rintro ⟨rfl, f, inside, there⟩
    refine KeyMap.get?_ofList_of_unique ?_ fun other listed => ?_
    · exact List.mem_map.mpr ⟨d, List.mem_flatMap.mpr ⟨f, inside, there⟩, rfl⟩
    · obtain ⟨d', listed, same⟩ := List.mem_map.mp listed
      obtain ⟨g, inside', there'⟩ := List.mem_flatMap.mp listed
      obtain ⟨named, rfl⟩ := Prod.mk.inj same
      exact declared_unique typed distinct (part g inside') (part f inside) there' there named

end Declared

theorem sublist_messages (f : Schema.File) : ((messagesOf f).map (·.fullName)).Sublist (typeNames f) :=
  List.sublist_append_left _ _

theorem sublist_enums (f : Schema.File) : ((enumsOf f).map (·.fullName)).Sublist (typeNames f) :=
  List.sublist_append_right _ _

section Defined

variable {file : Schema.File}

theorem mem_ofMessage {name parent : String} (depth : Nat) {m : Schema.Message}
    (defined : name ∈ definedNames.ofMessage file.package parent m) : ∃ d ∈ declaredMessages file parent depth m,
      name = d.fullName ∨ ∃ e ∈ d.declaration.enums, name = qualify file.package (join d.localName e.name) := by
  -- Messages nest through lists of messages, so both functions are followed in one induction.
  refine definedNames.ofMessage.induct
    (fun parent m => ∀ depth, name ∈ definedNames.ofMessage file.package parent m →
      ∃ d ∈ declaredMessages file parent depth m,
        name = d.fullName ∨ ∃ e ∈ d.declaration.enums, name = qualify file.package (join d.localName e.name))
    (fun parent ms => ∀ depth, name ∈ definedNames.ofMessages file.package parent ms →
      ∃ d ∈ declaredMessages.nestedMessages file depth parent ms,
        name = d.fullName ∨ ∃ e ∈ d.declaration.enums, name = qualify file.package (join d.localName e.name))
    ?message ?none ?more parent m depth defined
  case message =>
    intro parent own fields nested enums oneofs options localName ih depth defined
    rw [definedNames.ofMessage] at defined
    rw [declaredMessages]
    rcases List.mem_append.mp defined with here | below
    · refine ⟨_, List.mem_cons_self, ?_⟩
      rcases List.mem_cons.mp here with itself | enum
      · exact .inl itself
      · obtain ⟨e, inside, rfl⟩ := List.mem_map.mp enum
        exact .inr ⟨e, inside, rfl⟩
    · obtain ⟨d, inside, named⟩ := ih depth below
      exact ⟨d, List.mem_cons_of_mem _ inside, named⟩
  case none => exact fun _ _ never => nomatch never
  case more =>
    intro parent m rest first others depth defined
    rw [definedNames.ofMessages] at defined
    rw [declaredMessages.nestedMessages]
    rcases List.mem_append.mp defined with here | later
    · obtain ⟨d, inside, named⟩ := first (depth + 1) here
      exact ⟨d, List.mem_append_left _ inside, named⟩
    · obtain ⟨d, inside, named⟩ := others depth later
      exact ⟨d, List.mem_append_right _ inside, named⟩

/-- No message that goes by an empty name within its package holds enums. -/
def NamesHolders (file : Schema.File) : Prop :=
  ∀ d ∈ messagesOf file, d.localName = "" → d.declaration.enums = []

instance (file : Schema.File) : Decidable (NamesHolders file) :=
  inferInstanceAs (Decidable (∀ d ∈ messagesOf file, _ → _))

theorem mem_typeNames_of_defined (names : NamesHolders file) {name : String}
    (defined : name ∈ definedNames file.package "" file.enums file.messages) : name ∈ typeNames file := by
  rw [definedNames] at defined
  rcases List.mem_append.mp defined with enum | message
  · obtain ⟨e, inside, rfl⟩ := List.mem_map.mp enum
    refine mem_typeNames.mpr (.inr ⟨⟨file, e.name, 1, e⟩, List.mem_append_right _ (List.mem_map.mpr ⟨e, inside, rfl⟩), ?_⟩)
    rw [join, if_pos (by decide)]
    rfl
  · obtain ⟨d, inside, named⟩ : ∃ d ∈ messagesOf file,
        name = d.fullName ∨ ∃ e ∈ d.declaration.enums, name = qualify file.package (join d.localName e.name) := by
      rw [messagesOf]
      generalize file.messages = messages at message ⊢
      induction messages with
      | nil => cases message
      | cons m rest ih =>
        rw [definedNames.ofMessages] at message
        rw [List.flatMap_cons]
        rcases List.mem_append.mp message with here | later
        · obtain ⟨d, inside, named⟩ := mem_ofMessage 1 here
          exact ⟨d, List.mem_append_left _ inside, named⟩
        · obtain ⟨d, inside, named⟩ := ih later
          exact ⟨d, List.mem_append_right _ inside, named⟩
    rcases named with rfl | ⟨e, holds, rfl⟩
    · exact mem_typeNames.mpr (.inl ⟨d, inside, rfl⟩)
    · have named : d.localName ≠ "" := fun empty => by
        rw [names d inside empty] at holds
        cases holds
      refine mem_typeNames.mpr (.inr ⟨⟨file, d.localName ++ "." ++ e.name, d.depth + 1, e⟩, List.mem_append_left _
        (List.mem_flatMap.mpr ⟨d, inside, List.mem_map.mpr ⟨e, holds, rfl⟩⟩), ?_⟩)
      rw [join, if_neg (by simpa [String.isEmpty_iff] using named)]
      rfl

end Defined

end Index

end Wireform
