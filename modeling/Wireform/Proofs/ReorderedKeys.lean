import Mathlib.Data.List.Perm.Basic
import Wireform.Proofs.OrderlyMessages

set_option autoImplicit false

namespace Wireform.Index

open scoped List

structure Oneof.Reordered (o other : Oneof) : Prop where
  name : o.name = other.name
  config : o.config = other.config
  members : o.members.Perm other.members

structure Message.Reordered (m other : Message) : Prop where
  fullName : m.fullName = other.fullName
  wellKnown : m.wellKnown = other.wellKnown
  fields : m.fields.Perm other.fields
  oneofs : List.Forall₂ Oneof.Reordered m.oneofs other.oneofs

abbrev GroupReordered (group other : Oneof × OneofConfig) : Prop :=
  group.1.Reordered other.1 ∧ group.2 = other.2

namespace Message.Reordered

variable {m other : Message}

theorem refl (m : Message) : m.Reordered m :=
  ⟨rfl, rfl, .refl _, List.forall₂_same.mpr fun _ _ => ⟨rfl, rfl, .refl _⟩⟩

variable (reordered : m.Reordered other)

include reordered

theorem discriminated : List.Forall₂ GroupReordered m.discriminated other.discriminated := by
  refine List.rel_filterMap (fun o o' same => ?_) reordered.oneofs
  rw [← same.config]
  cases o.config with
  | none => exact .none
  | some config => exact .some ⟨same, rfl⟩

theorem oneofNames : m.oneofs.map (·.name) = other.oneofs.map (·.name) :=
  map_eq_of_forall₂ reordered.oneofs fun _ _ same => same.name

theorem groupOf? (f : Field) : Option.Rel GroupReordered (m.groupOf? f) (other.groupOf? f) := by
  rw [Message.groupOf?, Message.groupOf?]
  cases f.oneof with
  | none => exact .none
  | some name =>
    have groups := reordered.discriminated
    change Option.Rel _ (m.discriminated.find? _) (other.discriminated.find? _)
    generalize m.discriminated = first at groups
    generalize other.discriminated = second at groups
    induction groups with
    | nil => exact .none
    | @cons a b rest rest' same _ ih =>
      obtain ⟨o, config⟩ := a
      obtain ⟨o', config'⟩ := b
      have named : o.name = o'.name := same.1.name
      rw [List.find?_cons, List.find?_cons]
      dsimp only
      rw [← named]
      split
      · exact .some same
      · exact ih

variable (names : (m.fields.map (·.name)).Nodup)

include names

theorem field?_eq (name : String) : m.field? name = other.field? name := by
  have names' : (other.fields.map (·.name)).Nodup := (reordered.fields.map _).nodup_iff.mp names
  refine Option.ext fun f => ⟨fun found => ?_, fun found => ?_⟩
  · obtain ⟨inside, rfl⟩ := mem_of_field? found
    exact find?_of_nodup names' (reordered.fields.subset inside)
  · obtain ⟨inside, rfl⟩ := mem_of_field? found
    exact find?_of_nodup names (reordered.fields.symm.subset inside)

theorem oneofMembers {o o' : Oneof} (same : o.Reordered o') : (m.oneofMembers o).Perm (other.oneofMembers o') := by
  rw [Message.oneofMembers, Message.oneofMembers, funext (reordered.field?_eq names)]
  exact same.members.filterMap _

end Message.Reordered

def Relays (layout other : KeyLayout) : Prop := ∀ keys, layout = .ok keys → ∃ keys', other = .ok keys' ∧ keys.Perm keys'

theorem Relays.refl (layout : KeyLayout) : Relays layout layout := fun keys run => ⟨keys, run, .refl _⟩

section Layout

variable {child other : String → String → KeyLayout} {pre : String}

theorem count_addNew (keys more : List String) (key : String) :
    (addNew keys more).count key = if key ∈ keys then keys.count key else if key ∈ more then 1 else 0 := by
  induction more generalizing keys with
  | nil =>
    rw [addNew, List.foldl_nil]
    split
    · rfl
    · rename_i absent
      rw [List.count_eq_zero_of_not_mem absent]
      rfl
  | cons first rest ih =>
    rw [addNew, List.foldl_cons]
    refine (ih _).trans ?_
    by_cases known : first ∈ keys
    · simp only [List.contains_iff_mem, known, if_true, List.mem_cons]
      grind
    · simp only [List.contains_iff_mem, known, if_false, List.mem_append, List.mem_cons, List.count_append]
      grind

theorem addNew_perm {keys keys' more more' : List String} (same : keys.Perm keys') (also : more.Perm more') :
    (addNew keys more).Perm (addNew keys' more') := by
  rw [List.perm_iff_count]
  intro key
  rw [count_addNew, count_addNew, same.count_eq]
  simp only [same.mem_iff, also.mem_iff]

theorem addNew_swap (keys more further : List String) :
    (addNew (addNew keys more) further).Perm (addNew (addNew keys further) more) := by
  rw [List.perm_iff_count]
  intro key
  simp only [count_addNew, mem_addNew]
  grind

theorem variantKeys_relays (children : ∀ type pre, Relays (child type pre) (other type pre)) {flatten : Bool}
    {members : List Field} {before before' keys : List String} (same : before.Perm before')
    (run : variantKeys child flatten pre before members = .ok keys) :
    ∃ keys', variantKeys other flatten pre before' members = .ok keys' ∧ keys.Perm keys' := by
  induction members generalizing before before' with
  | nil =>
    cases Except.ok.inj run
    exact ⟨before', rfl, same⟩
  | cons member rest ih =>
    by_cases plain : flatten = false ∨ member.message? = none
    · rw [variantKeys_beside plain] at run ⊢
      exact ih (same.append_right _) run
    · obtain ⟨rfl, type, typed⟩ : flatten = true ∧ ∃ type, member.message? = some type := by
        simpa [not_or, Option.ne_none_iff_exists'] using plain
      rw [variantKeys_lifted typed] at run ⊢
      obtain ⟨lifted, found, run⟩ := bind_eq_ok run
      obtain ⟨lifted', found', also⟩ := children type pre lifted found
      rw [found', ok_bind]
      exact ih (addNew_perm same also) run

theorem variantKeys_perm {flatten : Bool} {members members' : List Field} (order : members.Perm members')
    (messages : flatten = true → ∀ member ∈ members, member.message?.isSome = true) {before before' keys : List String}
    (same : before.Perm before') (run : variantKeys child flatten pre before members = .ok keys) :
    ∃ keys', variantKeys child flatten pre before' members' = .ok keys' ∧ keys.Perm keys' := by
  cases flatten with
  | false =>
    rw [variantKeys_names] at run ⊢
    cases Except.ok.inj run
    exact ⟨_, rfl, same.append (order.map _)⟩
  | true =>
    -- Lifted keys accumulate, so the accumulators are permuted along with the members.
    induction order generalizing before before' keys with
    | nil =>
      cases Except.ok.inj run
      exact ⟨before', rfl, same⟩
    | cons member _ ih =>
      obtain ⟨type, typed⟩ := Option.isSome_iff_exists.mp (messages rfl member List.mem_cons_self)
      rw [variantKeys_lifted typed] at run ⊢
      obtain ⟨lifted, found, run⟩ := bind_eq_ok run
      rw [found, ok_bind]
      exact ih (addNew_perm same (.refl _)) (fun flat f inside => messages flat f (List.mem_cons_of_mem _ inside)) run
    | swap a b rest =>
      obtain ⟨type, typed⟩ := Option.isSome_iff_exists.mp (messages rfl b List.mem_cons_self)
      obtain ⟨type', typed'⟩ := Option.isSome_iff_exists.mp (messages rfl a (by simp))
      rw [variantKeys_lifted typed] at run
      obtain ⟨lifted, found, run⟩ := bind_eq_ok run
      rw [variantKeys_lifted typed'] at run
      obtain ⟨lifted', found', run⟩ := bind_eq_ok run
      rw [variantKeys_lifted typed', found', ok_bind, variantKeys_lifted typed, found, ok_bind]
      refine variantKeys_relays (fun _ _ => .refl _) ((addNew_swap before lifted lifted').trans ?_) run
      exact addNew_perm (addNew_perm same (.refl _)) (.refl _)
    | trans first _ ih ih' =>
      obtain ⟨between, run, here⟩ := ih (.refl _) messages run
      obtain ⟨keys', run, there⟩ := ih' same (fun flat f inside => messages flat f (first.symm.subset inside)) run
      exact ⟨keys', run, here.trans there⟩

theorem fieldKeys_relays (children : ∀ type pre, Relays (child type pre) (other type pre)) (m : Message) (f : Field) :
    Relays (fieldKeys child m pre f) (fieldKeys other m pre f) := by
  intro keys run
  rw [fieldKeys] at run ⊢
  split at run
  · split at run
    · rename_i first
      rw [if_pos first]
      obtain ⟨variants, found, same⟩ := bind_eq_ok run
      obtain ⟨variants', found', order⟩ := variantKeys_relays children (.refl _) found
      cases Except.ok.inj same
      exact ⟨_, by rw [found', ok_bind]; rfl, order.cons _⟩
    · rename_i later
      rw [if_neg later]
      exact ⟨keys, run, .refl _⟩
  · split at run
    · exact children _ _ keys run
    · exact ⟨keys, run, .refl _⟩

theorem fieldsKeys_relays (children : ∀ type pre, Relays (child type pre) (other type pre)) (m : Message)
    (fields : List Field) : Relays (fieldsKeys child m pre fields) (fieldsKeys other m pre fields) := by
  induction fields with
  | nil => exact .refl _
  | cons f rest ih =>
    intro keys run
    rw [fieldsKeys] at run ⊢
    obtain ⟨own, first, run⟩ := bind_eq_ok run
    obtain ⟨others, later, same⟩ := bind_eq_ok run
    obtain ⟨own', first', order⟩ := fieldKeys_relays children m f own first
    obtain ⟨others', later', order'⟩ := ih others later
    cases Except.ok.inj same
    exact ⟨_, by rw [first', ok_bind, later', ok_bind]; rfl, order.append order'⟩

end Layout

section Places

variable {child : String → String → KeyLayout} {pre : String} {m other : Message}

def keysOf : KeyLayout → List String
  | .ok keys => keys
  | .error _ => []

theorem fieldsKeys_eq_ok {fields : List Field} {keys : List String} : fieldsKeys child m pre fields = .ok keys ↔
    (∀ f ∈ fields, ∃ own, fieldKeys child m pre f = .ok own) ∧
      keys = fields.flatMap fun f => keysOf (fieldKeys child m pre f) := by
  induction fields generalizing keys with
  | nil =>
    simp [fieldsKeys, eq_comm]
  | cons f rest ih =>
    rw [fieldsKeys, List.forall_mem_cons, List.flatMap_cons]
    cases fieldKeys child m pre f with
    | error cycle =>
      constructor
      · intro run
        cases run
      · rintro ⟨⟨⟨_, never⟩, _⟩, _⟩
        cases never
    | ok own =>
      rw [ok_bind]
      constructor
      · intro run
        obtain ⟨others, later, same⟩ := bind_eq_ok run
        obtain ⟨each, split⟩ := ih.mp later
        rw [← Except.ok.inj same, split]
        exact ⟨⟨⟨own, rfl⟩, each⟩, rfl⟩
      · rintro ⟨⟨_, each⟩, rfl⟩
        rw [ih.mpr ⟨each, rfl⟩]
        rfl

def groupLayout (child : String → String → KeyLayout) (m : Message) (pre : String) (group : Oneof × OneofConfig) :
    KeyLayout := do
  let keys ← variantKeys child group.2.flatten pre [] (m.oneofMembers group.1)
  return (pre ++ group.2.discriminator) :: keys

def headed? (m : Message) (f : Field) : Option (Oneof × OneofConfig) :=
  (m.groupOf? f).filter fun group => group.1.members.head? == some f.name

def aloneKeys (child : String → String → KeyLayout) (m : Message) (pre : String) (f : Field) : List String :=
  if (m.groupOf? f).isSome then [] else keysOf (fieldKeys child m pre f)

def headedKeys (child : String → String → KeyLayout) (m : Message) (pre : String) (f : Field) : List String :=
  match headed? m f with
  | some group => keysOf (groupLayout child m pre group)
  | none => []

theorem keysOf_fieldKeys (f : Field) :
    keysOf (fieldKeys child m pre f) = aloneKeys child m pre f ++ headedKeys child m pre f := by
  rw [aloneKeys, headedKeys, headed?]
  cases group : m.groupOf? f with
  | none => simp
  | some found =>
    obtain ⟨oneof, config⟩ := found
    rw [fieldKeys, group]
    by_cases first : oneof.members.head? = some f.name
    · simp [first, Option.filter, groupLayout]
    · simp [first, Option.filter, keysOf]

theorem flatMap_headedKeys (fields : List Field) : fields.flatMap (headedKeys child m pre) =
    (fields.filterMap (headed? m)).flatMap fun group => keysOf (groupLayout child m pre group) := by
  induction fields with
  | nil => rfl
  | cons f rest ih =>
    rw [List.flatMap_cons, List.filterMap_cons, headedKeys, ih]
    cases headed? m f <;> rfl

theorem flatMap_fieldKeys (fields : List Field) : (fields.flatMap fun f => keysOf (fieldKeys child m pre f)).Perm
    (fields.flatMap (aloneKeys child m pre) ++
      (fields.filterMap (headed? m)).flatMap fun group => keysOf (groupLayout child m pre group)) := by
  rw [← flatMap_headedKeys, List.flatMap_congr fun f _ => keysOf_fieldKeys f]
  exact (List.flatMap_append_perm _ _ _).symm

section Alone

variable (reordered : m.Reordered other)

include reordered

theorem fieldKeys_alone_reordered {f : Field} (alone : m.groupOf? f = none) :
    fieldKeys child other pre f = fieldKeys child m pre f := by
  have related := reordered.groupOf? f
  rw [alone] at related
  generalize given : other.groupOf? f = group at related
  cases related
  rw [fieldKeys_alone alone, fieldKeys_alone given]

theorem aloneKeys_reordered : aloneKeys child m pre = aloneKeys child other pre := by
  funext f
  have related := reordered.groupOf? f
  rw [aloneKeys, aloneKeys]
  generalize here : m.groupOf? f = group at related
  generalize there : other.groupOf? f = group' at related
  cases related with
  | none => simp [fieldKeys_alone_reordered reordered here]
  | some => rfl

end Alone

variable (wellFormed : m.WellFormed) (names : (m.fields.map (·.name)).Nodup) (distinct : (m.oneofs.map (·.name)).Nodup)

include wellFormed names distinct

theorem headed_perm : (m.fields.filterMap (headed? m)).Perm m.discriminated := by
  have headed {f : Field} {group : Oneof × OneofConfig} :
      headed? m f = some group ↔ m.groupOf? f = some group ∧ group.1.members.head? = some f.name := by
    rw [headed?, Option.filter_eq_some_iff, beq_iff_eq]
  refine (List.perm_ext_iff_of_nodup ?_ (discriminated_names distinct).of_map).mpr fun group => ?_
  · rw [List.Nodup, List.pairwise_filterMap]
    refine (List.pairwise_map.mp names).imp fun {f g} differ group first other second same => ?_
    subst same
    exact differ (Option.some.inj ((headed.mp first).2.symm.trans (headed.mp second).2))
  · rw [List.mem_filterMap]
    constructor
    · rintro ⟨f, _, found⟩
      exact (mem_of_groupOf? (headed.mp found).1).1
    · intro inside
      obtain ⟨f, there, group, first⟩ := exists_place wellFormed distinct inside
      exact ⟨f, there, headed.mpr ⟨group, first⟩⟩

variable (reordered : m.Reordered other)
  (messages : ∀ group ∈ m.discriminated, group.2.flatten = true →
    ∀ member ∈ m.oneofMembers group.1, member.message?.isSome = true)
  (each : ∀ f ∈ m.fields, ∃ own, fieldKeys child m pre f = .ok own)

include reordered messages each

theorem groupLayout_reordered {group group' : Oneof × OneofConfig} (same : GroupReordered group group')
    (inside : group ∈ m.discriminated) : ∃ own own', groupLayout child m pre group = .ok own ∧
      groupLayout child other pre group' = .ok own' ∧ own.Perm own' := by
  obtain ⟨oneof, config⟩ := group
  obtain ⟨oneof', config'⟩ := group'
  obtain ⟨reoneof, rfl⟩ := same
  obtain ⟨f, there, owned, first⟩ := exists_place wellFormed distinct inside
  obtain ⟨own, laid⟩ := each f there
  rw [fieldKeys, owned] at laid
  dsimp only at laid
  rw [if_pos first] at laid
  obtain ⟨variants, found, _⟩ := bind_eq_ok laid
  obtain ⟨variants', found', order⟩ := variantKeys_perm (reordered.oneofMembers names reoneof)
    (fun flat => messages _ inside flat) (.refl _) found
  exact ⟨_, _, by rw [groupLayout, found, ok_bind]; rfl, by rw [groupLayout, found', ok_bind]; rfl, order.cons _⟩

theorem groups_reordered : (m.discriminated.flatMap fun group => keysOf (groupLayout child m pre group)).Perm
    (other.discriminated.flatMap fun group => keysOf (groupLayout child other pre group)) := by
  have groups : List.Forall₂ (fun group group' => keysOf (groupLayout child m pre group) ~
      keysOf (groupLayout child other pre group')) m.discriminated other.discriminated := by
    refine forall₂_imp_mem reordered.discriminated fun group inside group' same => ?_
    obtain ⟨own, own', laid, laid', order⟩ := groupLayout_reordered wellFormed names distinct reordered messages each same
      inside
    rw [laid, laid']
    exact order
  generalize m.discriminated = first at groups ⊢
  generalize other.discriminated = second at groups ⊢
  induction groups with
  | nil => exact .refl _
  | cons order _ ih =>
    rw [List.flatMap_cons, List.flatMap_cons]
    exact order.append ih

omit each in
theorem fieldsKeys_reordered (wellFormed' : other.WellFormed) :
    Relays (fieldsKeys child m pre m.fields) (fieldsKeys child other pre other.fields) := by
  intro keys run
  have names' : (other.fields.map (·.name)).Nodup := (reordered.fields.map _).nodup_iff.mp names
  have distinct' : (other.oneofs.map (·.name)).Nodup := reordered.oneofNames ▸ distinct
  obtain ⟨each, rfl⟩ := fieldsKeys_eq_ok.mp run
  refine ⟨_, fieldsKeys_eq_ok.mpr ⟨fun f inside => ?_, rfl⟩, ?_⟩
  · have related := reordered.groupOf? f
    generalize here : m.groupOf? f = group at related
    generalize there : other.groupOf? f = group' at related
    cases related with
    | none => exact fieldKeys_alone_reordered reordered here ▸ each f (reordered.fields.symm.subset inside)
    | @some group group' same =>
      obtain ⟨_, own', _, laid, _⟩ := groupLayout_reordered wellFormed names distinct reordered messages each same
        (mem_of_groupOf? here).1
      obtain ⟨oneof', config'⟩ := group'
      rw [fieldKeys, there]
      dsimp only
      split
      · exact ⟨own', laid⟩
      · exact ⟨[], rfl⟩
  · calc
      _ ~ _ := flatMap_fieldKeys m.fields
      _ ~ other.fields.flatMap (aloneKeys child other pre) ++
          other.discriminated.flatMap fun group => keysOf (groupLayout child other pre group) := by
        refine .append ?_ ?_
        · rw [aloneKeys_reordered reordered]
          exact reordered.fields.flatMap_right _
        · exact ((headed_perm wellFormed names distinct).flatMap_right _).trans
            (groups_reordered wellFormed names distinct reordered messages each)
      _ ~ _ := .append (.refl _) ((headed_perm wellFormed' names' distinct').flatMap_right _).symm
      _ ~ _ := (flatMap_fieldKeys other.fields).symm

end Places

end Wireform.Index
