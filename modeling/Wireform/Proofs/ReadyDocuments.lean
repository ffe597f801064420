import Wireform.Proofs.AppliedPlans
import Wireform.Proofs.Documents
import Wireform.Proofs.RestoredMessages

set_option autoImplicit false

namespace Wireform

theorem Container.distinct_of_mem {container : Container} {value x : Json} (distinct : value.Distinct)
    (inside : x ∈ container.values value) : x.Distinct := by
  unfold Container.values at inside
  split at inside
  · cases List.mem_singleton.mp inside
    exact distinct
  · exact Json.distinct_arr.mp distinct x inside
  · obtain ⟨⟨key, _⟩, there, rfl⟩ := List.mem_map.mp inside
    obtain ⟨keys, values⟩ := Json.distinct_obj.mp distinct
    exact values key _ (Entries.get?_of_mem keys there)
  · cases inside

theorem Container.values_singular {value : Json} : Container.single.values value = [value] := rfl

namespace Index

variable {index : Index}

section Planned

theorem subset_addHolders {names : List String} {name : String} (inside : name ∈ names) :
    name ∈ addHolders index names := List.mem_append_left _ inside

theorem subset_repeat {names : List String} (rounds : Nat) {name : String} (inside : name ∈ names) :
    name ∈ Nat.repeat (addHolders index) rounds names := by
  induction rounds with
  | zero => exact inside
  | succ rounds ih => exact subset_addHolders ih

theorem planned_of_direct {m : Message} (own : m ∈ index.ownMessages)
    (direct : hasDirectTransform index m = true) : m.fullName ∈ index.planned :=
  subset_repeat _ (List.mem_map.mpr ⟨m, List.mem_filter.mpr ⟨own, direct⟩, rfl⟩)

theorem mem_ownMessages {name : String} {m : Message} (found : index.message? name = some m)
    (own : m.wellKnown = false) : m ∈ index.ownMessages :=
  List.mem_filter.mpr ⟨KeyMap.mem_values.mpr ⟨_, found⟩, by simp [own]⟩

theorem plain_of_unplanned {name : String} {m : Message} (found : index.message? name = some m)
    (own : m.wellKnown = false) (unplanned : m.fullName ∉ index.planned) :
    m.discriminated = [] ∧ ∀ f ∈ m.fields, f.lifted? = none := by
  have indirect : hasDirectTransform index m = false := by
    rw [← Bool.not_eq_true]
    exact fun direct => unplanned (planned_of_direct (mem_ownMessages found own) direct)
  simp only [hasDirectTransform, Bool.or_eq_false_iff, Bool.not_eq_false', List.isEmpty_iff,
    List.any_eq_false, Bool.not_eq_true] at indirect
  refine ⟨indirect.1, fun f inside => ?_⟩
  have none_left := indirect.2 f inside
  rw [fieldSteps_eq] at none_left
  cases lifted : f.lifted? with
  | none => rfl
  | some target => simp [liftSteps, lifted] at none_left

variable (keyed : index.Keyed)

include keyed

theorem plan?_codec {name : String} {m : Message} (found : index.message? name = some m)
    (planned : m.fullName ∈ index.planned) (levels : Nat) :
    index.codec.plan? (levels + 1) name = .ok (some (planOf index index.planned m)) := by
  have given := (plan?_eq_some keyed).mpr ⟨m, found, planned, rfl⟩
  simp only [Codec.plan?, codec, found, Option.isNone_some, Bool.false_eq_true, if_false,
    Nat.add_one_ne_zero, given]

theorem plan?_codec_none {name : String} {m : Message} (found : index.message? name = some m)
    (unplanned : m.fullName ∉ index.planned) (levels : Nat) :
    index.codec.plan? (levels + 1) name = .ok none := by
  have absent : index.plans.plan? name = none := by
    by_contra given
    obtain ⟨plan, given⟩ := Option.ne_none_iff_exists'.mp given
    obtain ⟨other, there, planned, _⟩ := (plan?_eq_some keyed).mp given
    cases Option.some.inj (found.symm.trans there)
    exact unplanned planned
  simp only [Codec.plan?, codec, found, Option.isNone_some, Bool.false_eq_true, if_false,
    Nat.add_one_ne_zero, absent]

theorem found_of_planned {name : String} (inside : name ∈ index.planned) :
    ∃ m, index.messages.get? name = some m ∧ m.fullName = name ∧ m.wellKnown = false := by
  obtain ⟨m, own, rfl⟩ := own_of_planned inside
  obtain ⟨listed, plain⟩ := List.mem_filter.mp own
  exact ⟨m, get?_of_values keyed listed, rfl, by simpa using plain⟩

theorem timestamp_unplanned : index.planned.contains WellKnown.timestamp = false := by
  rw [← Bool.not_eq_true, List.contains_iff_mem]
  intro inside
  obtain ⟨m, found, named, own⟩ := found_of_planned keyed inside
  have same : index.message? WellKnown.timestamp = some m := by
    rw [message?, show bareName WellKnown.timestamp = WellKnown.timestamp by decide +kernel]
    exact found
  exact ne_timestamp_of_own keyed same own rfl

theorem child_of_planned {name child : String} {m : Message} {f : Field} (found : index.message? name = some m)
    (inside : f ∈ m.fields) (typed : f.message? = some child) (planned : index.planned.contains child = true) :
    ∃ c, index.message? child = some c ∧ c.fullName = child ∧ c.wellKnown = false ∧
      c.fullName ∈ index.planned := by
  have listed := List.contains_iff_mem.mp planned
  obtain ⟨c, known, named, own⟩ := found_of_planned keyed listed
  have bare := (keyed.wellFormed name m found).typeName f inside child typed
  exact ⟨c, by rw [message?, bare]; exact known, named, own, named ▸ listed⟩

theorem obj_of_fits {rule : Rule} {name : String} {m : Message} (found : index.message? name = some m)
    (own : m.wellKnown = false) {value : Json} (fits : Fits index rule (.message name) value) :
    ∃ doc : Codec.Doc, value = .obj doc ∧ (∀ k, doc.get? k ≠ none → ∃ f ∈ m.fields, f.jsonName = k) ∧
      (∀ f ∈ m.fields, ∀ value, doc.get? f.jsonName = some value →
        value.isNull = false ∧ f.container.Shapes value ∧ rule.value m f value) ∧
      (∀ f ∈ m.fields, ∀ value, doc.get? f.jsonName = some value →
        ∀ x ∈ f.container.values value, Fits index rule f.type x) ∧ rule.document m doc := by
  cases fits with
  | builtIn builtIn _ =>
    rw [keyed.wellKnown _ m found, builtIn] at own
    cases own
  | foreign _ unknown =>
    rw [found] at unknown
    cases unknown
  | message there own known shapes values document =>
    cases Option.some.inj (found.symm.trans there)
    exact ⟨_, rfl, known, shapes, values, document⟩

end Planned

end Index

namespace Codec

open Json (Alike AlikeAt)
open Index

structure RestoredBy (index : Index) (levels : Nat) (name : String) (m : Message) (value : Json) : Prop where
  restores : Restores (encodeWithin index.codec levels name) (decodeWithin index.codec levels name) value
  laid : m.isRootUnwrap = false → ∀ wire, encodeWithin index.codec levels name value = .ok wire →
    ∃ child : Doc, wire = .obj child ∧ ∀ k ∈ child.keys, k ∈ index.laidKeys m.fullName
  collapse : m.isRootUnwrap = false → ∀ inner, m.unwrapField? = some inner → inner.isList = true →
    Collapsed inner.jsonName value → CollapseRestores (encodeWithin index.codec levels name)
      (decodeWithin index.codec levels name) inner.jsonName value

structure Restoring (index : Index) (rule : Rule) (root : String) : Prop where
  orderly : ∀ name m, index.Reaches root name → index.message? name = some m → index.Orderly m
  single : ∀ name m, index.Reaches root name → index.message? name = some m → ∀ doc, rule.document m doc →
    m.OneMember doc
  lossless : ∀ name m, index.Reaches root name → index.message? name = some m → ∀ f ∈ m.fields, ∀ value,
    rule.value m f value → index.Lossless f value
  filled : ∀ name m, index.Reaches root name → index.message? name = some m → ∀ f ∈ m.fields, ∀ value,
    rule.value m f value → ∀ type pre, f.lifted? = some (type, pre) →
      ∀ levels, encodeWithin index.codec levels type value ≠ .ok (.obj [])

section Ready

variable {index : Index} {rule : Rule} {root : String} {levels : Nat} (sound : index.Sound)
  (regular : index.Regular) (restoring : Restoring index rule root)
  (below : ∀ name m value, index.Reaches root name → index.message? name = some m →
    m.fullName ∈ index.planned → Fits index rule (.message name) value → value.Distinct →
      NestsWithin index.codec levels name value → RestoredBy index levels name m value)
  {name : String} {m : Message} (reached : index.Reaches root name) (found : index.message? name = some m)

structure Nested (index : Index) (rule : Rule) (levels : Nat) (f : Field) (value : Json) : Prop where
  present : value.isNull = false
  distinct : value.Distinct
  shapes : f.container.Shapes value
  fits : ∀ x ∈ f.container.values value, Fits index rule f.type x
  nests : ∀ child, f.message? = some child → index.planned.contains child = true →
    ∀ x ∈ addressed f.container value, NestsWithin index.codec levels child x

include sound below reached found

theorem restoredBy_of_nested {f : Field} (inside : f ∈ m.fields) {value : Json}
    (nested : Nested index rule levels f value) {child : String} (typed : f.message? = some child)
    (planned : index.planned.contains child = true) {x : Json} (there : x ∈ addressed f.container value) :
    ∃ c, index.message? child = some c ∧ c.fullName = child ∧ RestoredBy index levels child c x := by
  obtain ⟨c, known, named, own, listed⟩ := child_of_planned sound.toKeyed found inside typed planned
  have fits := nested.fits x (mem_addressed there).1
  rw [type_of_message? typed] at fits
  exact ⟨c, known, named, below child c x (.field reached found inside typed) known listed fits
    (Container.distinct_of_mem nested.distinct (mem_addressed there).1) (nested.nests child typed planned x there)⟩

include regular restoring

theorem restorable_of_nested {f : Field} (inside : f ∈ m.fields) {value : Json} (rules : rule.value m f value)
    (nested : Nested index rule levels f value) :
    Restorable index index.planned.contains (encodeWithin index.codec levels)
      (decodeWithin index.codec levels) f value := by
  have lossless := restoring.lossless name m reached found f inside value rules
  have checked := checked_of_sound sound found f inside
  refine
    { present := nested.present, distinct := nested.distinct, kept := lossless.kept
      shaped := fun map => ?_
      child := fun child typed planned _ x there => ?_
      collapsed := fun child elementType inner typed unwraps x there => ?_
      recode := fun step recodes x there => ?_ }
  · have shapes := nested.shapes
    rw [container_of_map map] at shapes
    cases value <;> first | exact ⟨_, rfl⟩ | exact shapes.elim
  · obtain ⟨_, _, _, restored⟩ := restoredBy_of_nested sound below reached found inside nested typed planned there
    exact restored.restores
  · obtain ⟨target, list, known, first, map, plain, isList, same⟩ := unwrapValues?_eq_some index f unwraps
    cases same
    rw [← container_of_map map] at there
    have collapsed := lossless.collapsed child _ _ typed unwraps x (mem_addressed there).1
    refine ⟨collapsed, fun planned => ?_⟩
    obtain ⟨c, known', _, restored⟩ :=
      restoredBy_of_nested sound below reached found inside nested typed planned there
    cases Option.some.inj (known.symm.trans known')
    exact restored.collapse plain list first isList collapsed
  · obtain ⟨transform, rfl, recoding⟩ := recoding_of_mem checked recodes
    obtain ⟨listed, present⟩ := mem_addressed there
    exact recoding_restores sound regular recoding lossless listed (nested.fits x listed) present

omit regular in
theorem laid_of_nested {f : Field} (inside : f ∈ m.fields) {value : Json}
    (nested : Nested index rule levels f value) (singular : f.isSingular = true) {child : String} {c : Message}
    (typed : f.message? = some child) (known : index.message? child = some c) (own : c.wellKnown = false)
    (plain : c.isRootUnwrap = false) {wire : Json}
    (encoded : ChildWire index.planned.contains (encodeWithin index.codec levels) child value wire) :
    ∃ doc : Doc, wire = .obj doc ∧ ∀ k ∈ doc.keys, k ∈ index.laidKeys child := by
  have bare := (sound.wellFormed name m found).typeName f inside child typed
  have named : c.fullName = child := fullName_eq sound bare known
  have container := container_of_singular singular
  -- With a plan the message was restored one level down; without one its wire form is the document.
  cases planned : index.planned.contains child with
  | true =>
    have there : value ∈ addressed f.container value := by
      rw [addressed_eq, container, Container.values_singular]
      simp [nested.present]
    obtain ⟨other, known', _, restored⟩ :=
      restoredBy_of_nested sound below reached found inside nested typed planned there
    cases Option.some.inj (known.symm.trans known')
    rw [ChildWire, if_pos planned] at encoded
    exact named ▸ restored.laid plain wire encoded
  | false =>
    rw [ChildWire, if_neg (by rw [planned]; simp)] at encoded
    subst encoded
    have fits := nested.fits wire (by rw [container, Container.values_singular]; simp)
    rw [type_of_message? typed] at fits
    obtain ⟨doc, rfl, keys, _⟩ := obj_of_fits sound.toKeyed known own fits
    have orderly := restoring.orderly child c (.field reached found inside typed) known
    have unplanned : c.fullName ∉ index.planned := by
      rw [named, ← List.contains_iff_mem, planned]
      simp
    obtain ⟨alone, flat⟩ := plain_of_unplanned known own unplanned
    refine ⟨doc, rfl, fun k listed => ?_⟩
    obtain ⟨g, there, rfl⟩ := keys k (Option.ne_none_iff_exists'.mpr (Entries.mem_keys_iff.mp listed))
    have not_lifted : ¬ c.LiftedMember g := by
      rintro ⟨_, _, never, _⟩
      rw [alone] at never
      cases never
    have laid := orderly.fieldsLaid g there not_lifted g.jsonName (by simp [ownKeys_of_unlifted (flat g there)])
    rwa [named] at laid

omit regular in
theorem liftFits_of_nested {f : Field} (inside : f ∈ m.fields) {value : Json} (rules : rule.value m f value)
    (nested : Nested index rule levels f value) :
    LiftFits index index.planned.contains (encodeWithin index.codec levels) f value := by
  intro type pre lifted wire encoded
  obtain ⟨flatten, typed, singular⟩ := lifted?_eq_some lifted
  obtain ⟨child, c, typed', known, _, own, plain, _⟩ :=
    (checked_of_sound sound found f inside).flatten flatten
  cases Option.some.inj (typed.symm.trans typed')
  obtain ⟨doc, rfl, keys⟩ := laid_of_nested sound restoring below reached found inside nested singular typed
    known own plain encoded
  refine ⟨doc, rfl, ?_, keys⟩
  have filled := restoring.filled name m reached found f inside value rules type pre lifted
  cases doc with
  | cons => rfl
  | nil =>
    refine absurd ?_ (filled (levels + 1))
    cases planned : index.planned.contains type with
    | true =>
      rw [ChildWire, if_pos planned] at encoded
      exact encodeWithin_succ encoded
    | false =>
      rw [ChildWire, if_neg (by rw [planned]; simp)] at encoded
      have named := fullName_eq sound ((sound.wellFormed name m found).typeName f inside type typed) known
      have unplanned : c.fullName ∉ index.planned := by
        rw [named, ← List.contains_iff_mem, planned]
        simp
      rw [encodeWithin_unplanned (plan?_codec_none sound.toKeyed known unplanned levels), encoded]

theorem messageReady_of_nested {doc : Doc} (known : ∀ k, doc.get? k ≠ none → ∃ f ∈ m.fields, f.jsonName = k)
    (document : rule.document m doc)
    (values : ∀ f ∈ m.fields, ∀ value, doc.get? f.jsonName = some value →
      rule.value m f value ∧ Nested index rule levels f value) :
    MessageReady index m index.planned.contains (encodeWithin index.codec levels)
      (decodeWithin index.codec levels) doc := by
  obtain ⟨_, _, oneofErrors, _⟩ := Message.errors_parts (sound.errors name m found)
  refine ⟨known, fun f inside value given => ?_, restoring.single name m reached found doc document,
    fun f inside member value given type typed wire encoded => ?_⟩
  · obtain ⟨rules, nested⟩ := values f inside value given
    exact ⟨restorable_of_nested sound regular restoring below reached found inside rules nested,
      liftFits_of_nested sound restoring below reached found inside rules nested⟩
  · obtain ⟨oneof, config, group, flatten, listed⟩ := member
    have owner := ((restoring.orderly name m reached found).members oneof config group f).mp listed
    have singular := regular.members m (KeyMap.mem_values.mpr ⟨_, found⟩) f inside (by rw [owner.2]; simp)
    have clean := Message.member_of_memberErrors (Message.memberErrors_of_oneofErrors oneofErrors group) f listed
    obtain ⟨child, c, typed', target, own, plain⟩ :=
      Message.message_of_variantIssues clean.2 (sound.resolved name m found f inside) flatten
    cases Option.some.inj (typed.symm.trans typed')
    exact laid_of_nested sound restoring below reached found inside (values f inside value given).2 singular typed
      target own plain encoded

end Ready

end Codec

end Wireform
