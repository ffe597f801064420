import Wireform.OpenApi
import Wireform.Proofs.GivenSteps
import Wireform.Proofs.PlannedMessages
import Wireform.Proofs.RestoredMessages

set_option autoImplicit false

namespace Wireform

section Lists

variable {α β : Type}

theorem findSome?_eq_some {items : List α} {pick : α → Option β} {item : α} {result : β} (inside : item ∈ items)
    (picked : pick item = some result)
    (alike : ∀ other ∈ items, ∀ found, pick other = some found → found = result) :
    items.findSome? pick = some result := by
  cases given : items.findSome? pick with
  | none =>
    rw [List.findSome?_eq_none_iff] at given
    rw [given item inside] at picked
    cases picked
  | some found =>
    obtain ⟨other, there, picked'⟩ := List.exists_of_findSome?_eq_some given
    rw [alike other there found picked']

theorem foldl_of_unchanged {act : β → α → β} (items : List α) (unchanged : ∀ item ∈ items, ∀ b, act b item = b) (b : β) :
    items.foldl act b = b := by
  induction items with
  | nil => rfl
  | cons head rest ih =>
    rw [List.foldl_cons, unchanged head List.mem_cons_self]
    exact ih fun item there => unchanged item (List.mem_cons_of_mem head there)

end Lists

namespace Index

def context (index : Index) (package : String) : OpenApi.Context := ⟨index, index.plans, package⟩

section Steps

variable {index : Index} {m : Message} {planned : String → Bool} {f : Field} {step : Step}

theorem field_of_fieldSteps (inside : step ∈ fieldSteps index m planned f) : step.field = f.name := by
  obtain ⟨_, _, _, rfl⟩ := mem_fieldSteps.mp inside
  rfl

theorem field_of_bodySteps (m : Message) (inside : step ∈ bodySteps index planned f) : step.field = f.name := by
  rw [← filter_fieldSteps index m planned f] at inside
  exact field_of_fieldSteps (List.mem_of_mem_filter inside)

theorem field_of_rootSteps (inside : step ∈ rootSteps m f) : step.field = f.name := by
  rw [(mem_rootSteps.mp inside).2.2]
  rfl

end Steps

theorem field_memberOf (plans : PlanSet) (m : Message) (f : Field) : (Interface.memberOf plans m f).field = f := by
  unfold Interface.memberOf
  split <;> rfl

section Members

variable {index : Index} (keyed : index.Keyed) {name : String} {m : Message}
  (found : index.message? name = some m) (own : m.wellKnown = false)

include keyed found in
theorem message?_fullName : index.message? m.fullName = some m := by
  have same : m.fullName = bareName name := keyed.named _ m found
  rw [message?, same, bareName_idempotent]
  exact found

include found own in
theorem fieldSteps_of_unplanned (unplanned : m.fullName ∉ index.planned) {f : Field} (inside : f ∈ m.fields) :
    fieldSteps index m index.planned.contains f = [] := by
  have there := mem_ownMessages found own
  rw [List.eq_nil_iff_forall_not_mem]
  intro step given
  obtain ⟨container, transform, gives, _⟩ := mem_fieldSteps.mp given
  apply unplanned
  by_cases nests : ∃ child, f.message? = some child ∧ index.planned.contains child = true
  · obtain ⟨child, typed, below⟩ := nests
    exact planned_of_field there inside typed (by simpa using below)
  · -- Whatever is not a nested plan is given without any plans.
    refine planned_of_direct there (hasDirectTransform_iff.mpr (.inr ⟨f, inside, container, transform, ?_⟩))
    exact gives.mono fun child typed below => absurd ⟨child, typed, below⟩ nests

variable (names : (m.fields.map (·.name)).Nodup) {f : Field} (inside : f ∈ m.fields)

include keyed found own names inside

theorem transforms_memberOf : ∃ oneofs : List Transform, (∀ t ∈ oneofs, t.tag = .oneofDiscriminator) ∧
    (Interface.memberOf index.plans m f).transforms =
      (bodySteps index index.planned.contains f).map (·.transform) ++ oneofs
        ++ (rootSteps m f).map (·.transform) := by
  have itself := message?_fullName keyed found
  by_cases planned : m.fullName ∈ index.planned
  · have given := (plan?_eq_some keyed).mpr ⟨m, itself, planned, rfl⟩
    refine ⟨(((m.discriminated.map fun group => oneofStep index m group.1 group.2).filter
      (·.field == f.name)).map (·.transform)), ?_, ?_⟩
    · intro t listed
      obtain ⟨step, there, rfl⟩ := List.mem_map.mp listed
      obtain ⟨group, _, rfl⟩ := List.mem_map.mp (List.mem_of_mem_filter there)
      rfl
    -- Of the steps of all fields only those of this name are seen.
    · have body := flatMap_of_nodup names inside
        (fun g => (bodySteps index index.planned.contains g).filter (·.field == f.name))
        fun other _ differs => List.filter_eq_nil_iff.mpr fun step given => by
          simpa [field_of_bodySteps m given] using differs
      have root := flatMap_of_nodup names inside (fun g => (rootSteps m g).filter (·.field == f.name))
        fun other _ differs => List.filter_eq_nil_iff.mpr fun step given => by
          simpa [field_of_rootSteps given] using differs
      have body_all : (bodySteps index index.planned.contains f).filter (·.field == f.name) =
          bodySteps index index.planned.contains f :=
        List.filter_eq_self.mpr fun step given => by simp [field_of_bodySteps m given]
      have root_all : (rootSteps m f).filter (·.field == f.name) = rootSteps m f :=
        List.filter_eq_self.mpr fun step given => by simp [field_of_rootSteps given]
      simp only [Interface.memberOf, given, planOf_steps, List.filter_append, List.filter_flatMap, body, root,
        body_all, root_all, List.map_append]
  · have unplanned : index.plans.plan? m.fullName = none := by
      rw [Option.eq_none_iff_forall_ne_some]
      intro plan given
      obtain ⟨other, there, listed, _⟩ := (plan?_eq_some keyed).mp given
      cases Option.some.inj (there.symm.trans itself)
      exact planned listed
    have nothing := fieldSteps_of_unplanned found own planned inside
    refine ⟨[], by simp, ?_⟩
    simp only [Interface.memberOf, unplanned, ← filter_fieldSteps index m, ← filter_fieldSteps_root index m
      index.planned.contains, nothing, List.filter_nil, List.map_nil, List.append_nil]

theorem mem_transforms {t : Transform} (other : t.tag ≠ .oneofDiscriminator) :
    t ∈ (Interface.memberOf index.plans m f).transforms ↔
      ∃ container, f.Gives index m index.planned.contains container t := by
  obtain ⟨oneofs, tagged, transforms⟩ := transforms_memberOf keyed found own names inside
  have apart : t ∉ oneofs := fun listed => other (tagged t listed)
  have parts : t ∈ (Interface.memberOf index.plans m f).transforms ↔
      ∃ step ∈ fieldSteps index m index.planned.contains f, step.transform = t := by
    simp only [transforms, ← filter_fieldSteps index m, ← filter_fieldSteps_root index m index.planned.contains,
      List.mem_append, List.mem_map, List.mem_filter, apart, or_false]
    constructor
    · rintro (⟨step, there, rfl⟩ | ⟨step, there, rfl⟩) <;> exact ⟨step, there.1, rfl⟩
    · rintro ⟨step, there, rfl⟩
      cases root : step.transform.isRootUnwrap
      · exact .inl ⟨step, ⟨there, by simp [root]⟩, rfl⟩
      · exact .inr ⟨step, ⟨there, root⟩, rfl⟩
  rw [parts]
  constructor
  · rintro ⟨step, there, rfl⟩
    obtain ⟨container, transform, gives, rfl⟩ := mem_fieldSteps.mp there
    exact ⟨container, gives⟩
  · rintro ⟨container, gives⟩
    exact ⟨_, mem_fieldSteps.mpr ⟨container, t, gives, rfl⟩, rfl⟩

theorem findSome?_transforms {β : Type} {pick : Transform → Option β} (meant : β → Prop)
    (apart : ∀ t, t.tag = .oneofDiscriminator → pick t = none)
    (sound : ∀ c t b, f.Gives index m index.planned.contains c t → pick t = some b → meant b)
    (complete : ∀ b, meant b → ∃ c t, f.Gives index m index.planned.contains c t ∧ pick t = some b)
    (unique : ∀ b e, meant b → meant e → b = e) {result : β} :
    (Interface.memberOf index.plans m f).transforms.findSome? pick = some result ↔ meant result := by
  have listed_iff {t : Transform} {b : β} (picked : pick t = some b) :
      t ∈ (Interface.memberOf index.plans m f).transforms ↔
        ∃ container, f.Gives index m index.planned.contains container t := by
    refine mem_transforms keyed found own names inside fun tagged => ?_
    rw [apart t tagged] at picked
    cases picked
  have said {t : Transform} (listed : t ∈ (Interface.memberOf index.plans m f).transforms) {b : β}
      (picked : pick t = some b) : meant b := by
    obtain ⟨container, gives⟩ := (listed_iff picked).mp listed
    exact sound container t b gives picked
  constructor
  · intro picked
    obtain ⟨t, listed, picked⟩ := List.exists_of_findSome?_eq_some picked
    exact said listed picked
  · intro given
    obtain ⟨container, t, gives, picked⟩ := complete result given
    exact findSome?_eq_some ((listed_iff picked).mpr ⟨container, gives⟩) picked fun other listed b picked' =>
      unique b result (said listed picked') given

theorem flattened?_memberOf : (Interface.memberOf index.plans m f).flattened? = f.lifted? := by
  refine Option.ext fun target => findSome?_transforms keyed found own names inside (f.lifted? = some ·)
    (fun t tagged => ?_) (fun c t b gives picked => ?_) (fun b lifted => ⟨_, _, .lifted lifted, rfl⟩)
    (fun b e first second => Option.some.inj (first.symm.trans second))
  · cases t <;> first | rfl | cases tagged
  · cases gives <;> cases picked
    assumption

theorem unwrappedKey?_memberOf {key : String} : (Interface.memberOf index.plans m f).unwrappedKey? = some key ↔
    ∃ child element, f.message? = some child ∧ unwrapValues? index f child = some (.unwrapValues element key) := by
  refine findSome?_transforms keyed found own names inside
    (fun key => ∃ child element, f.message? = some child ∧
      unwrapValues? index f child = some (.unwrapValues element key))
    (fun t tagged => ?_) (fun c t b gives picked => ?_) ?_ ?_
  · cases t <;> first | rfl | cases tagged
  · cases gives <;> cases picked
    rename_i map typed there first apart list
    exact ⟨_, _, typed, by simp [unwrapValues?, there, first, map, apart, list]; rfl⟩
  · rintro b ⟨child, element, typed, given⟩
    obtain ⟨value, inner, there, first, map, apart, list, same⟩ := unwrapValues?_eq_some index f given
    cases same
    exact ⟨_, _, .values map typed there first apart list, rfl⟩
  · rintro b e ⟨child, element, typed, given⟩ ⟨child', element', typed', given'⟩
    cases typed.symm.trans typed'
    cases given.symm.trans given'
    rfl

theorem has_integerAsNumber : (Interface.memberOf index.plans m f).has .integerAsNumber = true ↔
    f.annotations.int64 = .number ∧ ∃ scalar, f.type = .scalar scalar := by
  rw [Member.has, List.any_eq_true]
  constructor
  · rintro ⟨t, listed, tagged⟩
    have tag := beq_iff_eq.mp tagged
    obtain ⟨container, gives⟩ := (mem_transforms keyed found own names inside (by simp [tag])).mp listed
    cases gives <;> cases tag
    exact ⟨‹_›, _, ‹_›⟩
  · rintro ⟨number, scalar, typed⟩
    exact ⟨_, (mem_transforms keyed found own names inside (by simp [Transform.tag])).mpr
      ⟨_, .integer number typed⟩, rfl⟩

theorem bytesEncoding?_memberOf : (Interface.memberOf index.plans m f).bytesEncoding? =
    if f.annotations.changesBytes then some f.annotations.bytes else none := by
  refine Option.ext fun encoding => findSome?_transforms keyed found own names inside (_ = some ·)
    (fun t tagged => ?_) (fun c t b gives picked => ?_) (fun b given => ?_)
    (fun b e first second => Option.some.inj (first.symm.trans second))
  · cases t <;> first | rfl | cases tagged
  · cases gives <;> cases picked
    rename_i changes
    rw [if_pos changes]
  · obtain ⟨changes, same⟩ := Option.ite_none_right_eq_some.mp given
    exact ⟨_, _, .bytes changes, same⟩

theorem timestampFormat?_memberOf : (Interface.memberOf index.plans m f).timestampFormat? =
    if f.annotations.changesTimestamp then some f.annotations.timestamp else none := by
  refine Option.ext fun format => findSome?_transforms keyed found own names inside (_ = some ·)
    (fun t tagged => ?_) (fun c t b gives picked => ?_) (fun b given => ?_)
    (fun b e first second => Option.some.inj (first.symm.trans second))
  · cases t <;> first | rfl | cases tagged
  · cases gives <;> cases picked
    rename_i changes
    rw [if_pos changes]
  · obtain ⟨changes, same⟩ := Option.ite_none_right_eq_some.mp given
    exact ⟨_, _, .timestamp changes, same⟩

theorem numberedValues?_memberOf (table : List EnumName) :
    (Interface.memberOf index.plans m f).numberedValues? = some table ↔
      f.annotations.enumeration = .number ∧ ∃ target e, f.enum? = some target ∧ index.enum? target = some e ∧
        table = e.table fun v => toString v.number := by
  refine findSome?_transforms keyed found own names inside
    (fun table => f.annotations.enumeration = .number ∧ ∃ target e, f.enum? = some target ∧
      index.enum? target = some e ∧ table = e.table fun v => toString v.number)
    (fun t tagged => ?_) (fun c t b gives picked => ?_) ?_ ?_
  · cases t <;> first | rfl | cases tagged
  · cases gives <;> cases picked
    rename_i typed there number
    exact ⟨number, _, _, typed, there, rfl⟩
  · rintro b ⟨number, target, e, typed, there, rfl⟩
    exact ⟨_, _, .enumNumber typed there number, rfl⟩
  · rintro _ _ ⟨_, target, e, typed, there, rfl⟩ ⟨_, target', e', typed', there', rfl⟩
    cases typed.symm.trans typed'
    cases there.symm.trans there'
    rfl

end Members

def Field.writesNull (f : Field) : Bool := f.annotations.nullable || f.annotations.empty == .null

section Properties

variable {index : Index} (sound : index.Sound) {name : String} {m : Message}
  (found : index.message? name = some m) (own : m.wellKnown = false)
  (names : (m.fields.map (·.name)).Nodup) {f : Field} (inside : f ∈ m.fields) (package : String)

include sound found own names inside in
theorem propertySchema_memberOf :
    (index.context package).propertySchema (Interface.memberOf index.plans m f) =
      if f.writesNull then ((index.context package).memberSchema (Interface.memberOf index.plans m f)).nullable
      else (index.context package).memberSchema (Interface.memberOf index.plans m f) := by
  have checked := Codec.checked_of_sound sound found f inside
  obtain ⟨oneofs, tagged, transforms⟩ := transforms_memberOf sound.toKeyed found own names inside
  rw [OpenApi.Context.propertySchema, transforms]
  simp only [bodySteps, List.map_append, List.foldl_append]
  -- Of the parts of a plan, only the first and the last but the root may write null.
  rw [foldl_of_unchanged ((rootSteps m f).map (·.transform)), foldl_of_unchanged oneofs,
    foldl_of_unchanged ((recodeSteps index f).map (·.transform)),
    foldl_of_unchanged ((liftSteps index f).map (·.transform)),
    foldl_of_unchanged ((childSteps index index.planned.contains f).map (·.transform))]
  · simp only [emptySteps, nullSteps, Field.writesNull]
    by_cases marked : f.annotations.nullable = true
    · -- A nullable field holds no message, and an empty one does.
      have kept : f.annotations.changesEmpty = false := by
        rw [← Bool.not_eq_true]
        intro changes
        have typed := (checked.empty_type changes).2
        simp [(checked.nullable marked).1] at typed
      simp [marked, kept, Field.step]
    · by_cases changes : f.annotations.changesEmpty = true
      · have single : f.isSingular = true := (checked.empty_type changes).1
        simp only [marked, changes, single, Bool.and_self, if_true, List.map_nil, List.map_cons, List.foldl_nil,
          List.foldl_cons, Bool.false_eq_true, if_false, Bool.false_or, Field.step]
        cases f.annotations.empty <;> rfl
      · have other : f.annotations.empty ≠ .null := fun same => changes (by simp [Annotations.changesEmpty, same])
        simp [marked, changes, other]
  · intro t listed schema
    obtain ⟨step, there, rfl⟩ := List.mem_map.mp listed
    obtain ⟨child, _, ⟨_, rfl⟩ | ⟨t, given, rfl⟩⟩ := mem_childSteps.mp there
    · rfl
    · obtain ⟨_, _, _, _, _, _, _, rfl⟩ := unwrapValues?_eq_some index f given
      rfl
  · intro t listed schema
    obtain ⟨step, there, rfl⟩ := List.mem_map.mp listed
    obtain ⟨_, _, _, rfl⟩ := mem_liftSteps.mp there
    rfl
  · intro t listed schema
    obtain ⟨step, there, rfl⟩ := List.mem_map.mp listed
    obtain ⟨transform, rfl, recodes⟩ := recodes_of_mem index f there
    cases transform <;> first | rfl | cases recodes
  · intro t listed schema
    have tag := tagged t listed
    cases t <;> first | rfl | cases tag
  · intro t listed schema
    obtain ⟨step, there, rfl⟩ := List.mem_map.mp listed
    rw [(mem_rootSteps.mp there).2.2]
    rfl

end Properties

section Groups

variable {index : Index} {m : Message}

def seenGroup (index : Index) (m : Message) (group : Oneof × OneofConfig) : Interface.Group :=
  ⟨group.2.discriminator, group.2.flatten, (m.oneofMembers group.1).map (index.variantOf group.2)⟩

variable (keyed : index.Keyed) {name : String} (found : index.message? name = some m) (own : m.wellKnown = false)
  (names : (m.fields.map (·.name)).Nodup) (oneofs : (m.oneofs.map (·.name)).Nodup) (resolved : m.Resolved)
  {f : Field} (inside : f ∈ m.fields)

include names resolved inside in
theorem owner_of_variant {group : Oneof × OneofConfig} (grouped : group ∈ m.discriminated)
    (listed : ((m.oneofMembers group.1).map (index.variantOf group.2)).any (·.field == f.name) = true) :
    f.oneof = some group.1.name := by
  obtain ⟨variant, there, same⟩ := List.any_eq_true.mp listed
  obtain ⟨member, among, rfl⟩ := List.mem_map.mp there
  obtain ⟨declared, owner⟩ := (resolved group.1 group.2 grouped member).mp among
  rw [← eq_of_nodup names declared inside (by simpa [variantOf] using same)]
  exact owner

include keyed found own names oneofs resolved inside

theorem group?_eq : Interface.group? index.plans m f = (m.groupOf? f).map (index.seenGroup m) := by
  have itself := message?_fullName keyed found
  have pick {plan : Plan} (given : index.plans.plan? m.fullName = some plan) :
      plan = planOf index index.planned m := by
    obtain ⟨other, there, _, rfl⟩ := (plan?_eq_some keyed).mp given
    rw [Option.some.inj (there.symm.trans itself)]
  cases owner : f.oneof with
  | none =>
    have alone : m.groupOf? f = none := by rw [Message.groupOf?, owner]; rfl
    rw [Interface.group?, owner, alone]
    rfl
  | some oneofName =>
    cases grouped : m.groupOf? f with
    | none =>
      simp only [Interface.group?, owner, Option.isNone_some, Bool.false_eq_true, if_false, Option.map_none,
        Option.bind_eq_none_iff, List.findSome?_eq_none_iff]
      intro plan given step listed
      rw [pick given] at listed
      rcases mem_planOf.mp listed with ⟨g, _, container, transform, gives, rfl⟩ | ⟨group, there, rfl⟩
      · cases gives <;> rfl
      · simp only [oneofStep_eq, ite_eq_right_iff]
        intro among
        have owner := owner_of_variant names resolved inside there among
        rw [groupOf?_of_mem oneofs there owner] at grouped
        cases grouped
    | some group =>
      obtain ⟨there, owner⟩ := mem_of_groupOf? grouped
      have planned : m.fullName ∈ index.planned :=
        planned_of_direct (mem_ownMessages found own)
          (hasDirectTransform_iff.mpr (.inl (List.ne_nil_of_mem there)))
      have given := (plan?_eq_some keyed).mpr ⟨m, itself, planned, rfl⟩
      -- The oneof of the field is the only one with a variant of its name.
      have among : f ∈ m.oneofMembers group.1 := (resolved group.1 group.2 there f).mpr ⟨inside, owner⟩
      simp only [Interface.group?, owner, Option.isNone_some, Bool.false_eq_true, if_false, given, Option.bind_some,
        Option.map_some]
      refine findSome?_eq_some (mem_planOf.mpr (.inr ⟨group, there, rfl⟩)) ?_ ?_
      · have named : ((m.oneofMembers group.1).map (index.variantOf group.2)).any (·.field == f.name) = true :=
          List.any_eq_true.mpr ⟨_, List.mem_map.mpr ⟨f, among, rfl⟩, by simp [variantOf]⟩
        simp only [oneofStep_eq, named, if_true]
        rfl
      · intro other listed result picked
        rcases mem_planOf.mp listed with ⟨g, _, container, transform, gives, rfl⟩ | ⟨group', there', rfl⟩
        · cases gives <;> cases picked
        · simp only [oneofStep_eq] at picked
          split at picked
          · rename_i among'
            have owner' := owner_of_variant names resolved inside there' among'
            cases group_eq_of_name oneofs there there' (Option.some.inj (owner.symm.trans owner'))
            exact (Option.some.inj picked).symm
          · cases picked

end Groups

end Index

end Wireform
