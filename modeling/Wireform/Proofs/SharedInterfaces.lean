import Wireform.Interface
import Wireform.Proofs.LiftingCycles
import Wireform.Proofs.PlannedMessages
import Wireform.Proofs.SeenMembers

set_option autoImplicit false

namespace Wireform.Index

def Field.RefersTo (f : Field) (name : String) : Prop := f.message? = some name ∨ f.enum? = some name

structure KnowAlike (index other : Index) (name : String) : Prop where
  message : index.message? name = other.message? name
  enum : index.enum? name = other.enum? name
  keys : index.flattenedKeys name = other.flattenedKeys name

section Steps

variable {index other : Index}

theorem fieldSteps_alike {m : Message} {f : Field} (alike : ∀ type, f.RefersTo type → KnowAlike index other type)
    {planned planned' : String → Bool} (agree : ∀ child, f.message? = some child → planned child = planned' child) :
    fieldSteps index m planned f = fieldSteps other m planned' f := by
  have children : childSteps index planned f = childSteps other planned' f := by
    rw [childSteps, childSteps]
    cases typed : f.message? with
    | none => rfl
    | some child =>
      dsimp only
      rw [agree child typed, unwrapValues?, unwrapValues?, (alike child (.inl typed)).message]
  have lifts : liftSteps index f = liftSteps other f := by
    rw [liftSteps, liftSteps]
    cases lifted : f.lifted? with
    | none => rfl
    | some target =>
      dsimp only
      rw [laidKeys, laidKeys, (alike _ (.inl (message_of_lifted lifted))).keys]
  have recoded : recodeSteps index f = recodeSteps other f := by
    have enums : enumSteps index f = enumSteps other f := by
      rw [enumSteps, enumSteps]
      cases typed : f.enum? with
      | none => rfl
      | some e =>
        dsimp only
        rw [(alike e (.inr typed)).enum]
    rw [recodeSteps, recodeSteps, enums]
  rw [Index.fieldSteps_eq, Index.fieldSteps_eq, children, lifts, recoded]

variable {m : Message} (alike : ∀ f ∈ m.fields, ∀ type, f.RefersTo type → KnowAlike index other type)

include alike

theorem oneofStep_alike (oneof : Oneof) (config : OneofConfig) :
    oneofStep index m oneof config = oneofStep other m oneof config := by
  rw [Index.oneofStep_eq, Index.oneofStep_eq]
  congr 2
  refine List.map_congr_left fun member listed => ?_
  rw [variantOf, variantOf]
  congr 1
  split
  · rename_i child _ typed
    obtain ⟨_, _, named⟩ := mem_oneofMembers.mp listed
    rw [laidKeys, laidKeys, (alike member (mem_of_field? named).1 child (.inl typed)).keys]
  · rfl

theorem hasDirectTransform_alike : hasDirectTransform index m = hasDirectTransform other m := by
  rw [hasDirectTransform, hasDirectTransform]
  congr 1
  rw [Bool.eq_iff_iff, List.any_eq_true, List.any_eq_true]
  refine exists_congr fun f => and_congr_right fun inside => ?_
  rw [fieldSteps_alike (alike f inside) fun _ _ => rfl]

theorem planOf_alike {names names' : List String} (agree : ∀ f ∈ m.fields, ∀ child, f.message? = some child →
    names.contains child = names'.contains child) : planOf index names m = planOf other names' m := by
  have fields : m.fields.flatMap (fieldSteps index m names.contains) =
      m.fields.flatMap (fieldSteps other m names'.contains) :=
    List.flatMap_congr fun f inside => fieldSteps_alike (alike f inside) (agree f inside)
  rw [planOf, planOf, fields, List.map_congr_left fun group _ => oneofStep_alike alike group.1 group.2]

end Steps

structure Shares (index other : Index) (common : String → Prop) : Prop where
  keyed : index.Keyed
  other_keyed : other.Keyed
  messages : ∀ name, common name → index.messages.get? name = other.messages.get? name
  enums : ∀ name, common name → index.enums.get? name = other.enums.get? name
  closed : ∀ name m, common name → index.messages.get? name = some m →
    ∀ f ∈ m.fields, ∀ type, f.RefersTo type → common type
  maxDepth : index.maxDepth = other.maxDepth

namespace Shares

variable {index other : Index} {common : String → Prop}

theorem symm (shares : index.Shares other common) : other.Shares index common where
  keyed := shares.other_keyed
  other_keyed := shares.keyed
  messages name known := (shares.messages name known).symm
  enums name known := (shares.enums name known).symm
  closed name m known found := shares.closed name m known ((shares.messages name known).trans found)
  maxDepth := shares.maxDepth.symm

section Names

variable (shares : index.Shares other common) {name : String} (known : common (bareName name))

include shares known

theorem message?_eq : index.message? name = other.message? name := shares.messages _ known

theorem enum?_eq : index.enum? name = other.enum? name := shares.enums _ known

variable {m : Message} (found : index.message? name = some m)

include found

theorem common_of_type {f : Field} (inside : f ∈ m.fields) {child : String}
    (typed : f.message? = some child) : common (bareName child) := by
  rw [(shares.keyed.wellFormed name m found).typeName f inside child typed]
  exact shares.closed _ m known found f inside child (.inl typed)

theorem common_of_enum {f : Field} (inside : f ∈ m.fields) {e : String}
    (typed : f.enum? = some e) : common (bareName e) := by
  rw [(shares.keyed.wellFormed name m found).enumName f inside e typed]
  exact shares.closed _ m known found f inside e (.inr typed)

end Names

section Plans

variable (shares : index.Shares other common)

include shares

theorem flattenedKeys_eq {name : String} (known : common (bareName name)) :
    index.flattenedKeys name = other.flattenedKeys name := by
  have agrees : index.LaysAlike other fun name => common (bareName name) :=
    ⟨fun name known => shares.message?_eq known, fun name m known found child opens => by
      obtain ⟨f, inside, typed⟩ := opens.field
      exact shares.common_of_type known found inside typed⟩
  exact flattenedKeys_agree shares.keyed agrees known

theorem knowAlike {name : String} (known : common (bareName name)) : KnowAlike index other name :=
  ⟨shares.message?_eq known, shares.enum?_eq known, shares.flattenedKeys_eq known⟩

theorem references_alike {name : String} (known : common (bareName name)) {m : Message}
    (found : index.message? name = some m) : ∀ f ∈ m.fields, ∀ type, f.RefersTo type → KnowAlike index other type := by
  rintro f inside type (typed | typed)
  · exact shares.knowAlike (shares.common_of_type known found inside typed)
  · exact shares.knowAlike (shares.common_of_enum known found inside typed)

theorem rewritten {name : String} (known : common (bareName name)) (rewritten : index.Rewritten name) :
    other.Rewritten name := by
  obtain ⟨target, t, path, there, own, deviates⟩ := rewritten
  induction path with
  | here name =>
    rw [← hasDirectTransform_iff, hasDirectTransform_alike (shares.references_alike known there),
      hasDirectTransform_iff] at deviates
    exact ⟨name, t, .here name, shares.message?_eq known ▸ there, own, deviates⟩
  | @field name child target m f found plain inside typed rest ih =>
    obtain ⟨target, t, path, rest⟩ := ih (shares.common_of_type known found inside typed) there
    exact ⟨target, t, .field (shares.message?_eq known ▸ found) plain inside typed path, rest⟩

theorem rewritten_iff {name : String} (known : common (bareName name)) :
    index.Rewritten name ↔ other.Rewritten name :=
  ⟨shares.rewritten known, shares.symm.rewritten known⟩

section Messages

variable {name : String} (known : common (bareName name)) {m : Message} (found : index.message? name = some m)

include known found

theorem planned_eq {f : Field} (inside : f ∈ m.fields) {child : String} (typed : f.message? = some child) :
    index.planned.contains child = other.planned.contains child := by
  have bare := (shares.keyed.wellFormed name m found).typeName f inside child typed
  rw [Bool.eq_iff_iff, contains_planned_iff shares.keyed bare, contains_planned_iff shares.other_keyed bare]
  exact shares.rewritten_iff (shares.common_of_type known found inside typed)

theorem planOf_eq : planOf index index.planned m = planOf other other.planned m :=
  planOf_alike (shares.references_alike known found) fun _ inside _ typed => shares.planned_eq known found inside typed

end Messages

theorem plan?_eq {name : String} (known : common (bareName name)) :
    index.plans.plan? name = other.plans.plan? name := by
  refine Option.ext fun plan => ?_
  rw [plan?_eq_some shares.keyed, plan?_eq_some shares.other_keyed, ← shares.message?_eq known]
  refine exists_congr fun m => and_congr_right fun found => ?_
  rw [shares.planOf_eq known found]
  refine and_congr_left fun _ => ?_
  rw [shares.keyed.named _ m found, mem_planned shares.keyed, mem_planned shares.other_keyed]
  exact shares.rewritten_iff known

end Plans

end Shares

end Wireform.Index

namespace Wireform

inductive Property.Among (P : Index.Field → Prop) : Property → Prop
  | discriminator (key : String) (values : List String) : Among P (.discriminator key values)
  | own (key : String) (role : Role) {member : Member} (holds : P member.field) : Among P (.own key role member)
  | lifted {properties : List Property} (each : ∀ p ∈ properties, p.Among P) : Among P (.lifted properties)

inductive Interface.Among (P : Index.Field → Prop) : Interface → Prop
  | single {member : Member} (holds : P member.field) : Among P (.alias member)
  | object {properties : List Property} (each : ∀ p ∈ properties, p.Among P) : Among P (.object properties)

namespace Index

def Field.Within (common : String → Prop) (f : Field) : Prop :=
  ∀ type, f.RefersTo type → bareName type = type ∧ common type

section Planned

variable {index : Index} (keyed : index.Keyed) {m : Message} (found : index.message? m.fullName = some m)

include keyed found

theorem steps_of_plan {plan : Plan} (given : index.plans.plan? m.fullName = some plan) :
    plan = planOf index index.planned m := by
  obtain ⟨other, there, _, rfl⟩ := (plan?_eq_some keyed).mp given
  rw [Option.some.inj (there.symm.trans found)]

theorem field_of_variant {f : Field} {group : Interface.Group} (given : Interface.group? index.plans m f = some group)
    {v : Variant} (inside : v ∈ group.variants) {child : String} (typed : v.messageType = some child) :
    ∃ g ∈ m.fields, g.message? = some child := by
  rw [Interface.group?] at given
  split at given
  · cases given
  · obtain ⟨plan, planned, given⟩ := Option.bind_eq_some_iff.mp given
    obtain ⟨step, listed, picked⟩ := List.exists_of_findSome?_eq_some given
    rw [steps_of_plan keyed found planned] at listed
    rcases mem_planOf.mp listed with ⟨g, _, container, transform, gives, rfl⟩ | ⟨⟨oneof, config⟩, _, rfl⟩
    · cases gives <;> cases picked
    · simp only [oneofStep_eq, Option.ite_none_right_eq_some] at picked
      obtain ⟨_, rfl⟩ := And.imp_right Option.some.inj picked
      obtain ⟨member, joined, rfl⟩ := List.mem_map.mp inside
      obtain ⟨_, _, named⟩ := mem_oneofMembers.mp joined
      exact ⟨member, (mem_of_field? named).1, typed⟩

theorem field_of_flattened {f : Field} {child pre : String}
    (given : (Interface.memberOf index.plans m f).flattened? = some (child, pre)) :
    ∃ g ∈ m.fields, g.message? = some child := by
  rw [Interface.memberOf] at given
  split at given
  · cases given
  · rename_i plan planned
    obtain ⟨transform, listed, picked⟩ := List.exists_of_findSome?_eq_some given
    obtain ⟨step, inside, rfl⟩ := List.mem_map.mp listed
    have inside := List.mem_of_mem_filter inside
    rw [steps_of_plan keyed found planned] at inside
    rcases mem_planOf.mp inside with ⟨g, there, container, transform, gives, rfl⟩ | ⟨group, _, rfl⟩
    · cases gives with
      | lifted lifts =>
        cases picked
        exact ⟨g, there, message_of_lifted lifts⟩
      | _ => cases picked
    · cases picked

end Planned

namespace Shares

variable {index other : Index} {common : String → Prop} (shares : index.Shares other common)

include shares

theorem memberOf_eq {m : Message} (known : common (bareName m.fullName)) (f : Field) :
    Interface.memberOf index.plans m f = Interface.memberOf other.plans m f := by
  rw [Interface.memberOf, Interface.memberOf, shares.plan?_eq known]

theorem within {m : Message} (known : common (bareName m.fullName)) (found : index.message? m.fullName = some m)
    {f : Field} (inside : f ∈ m.fields) : f.Within common := by
  intro type refers
  refine ⟨?_, shares.closed _ m known found f inside type refers⟩
  rcases refers with typed | typed
  · exact (shares.keyed.wellFormed _ m found).typeName f inside type typed
  · exact (shares.keyed.wellFormed _ m found).enumName f inside type typed

theorem common_fullName {name : String} (known : common (bareName name)) {m : Message}
    (found : index.message? name = some m) :
    common (bareName m.fullName) ∧ index.message? m.fullName = some m := by
  refine ⟨?_, message?_fullName shares.keyed found⟩
  rw [shares.keyed.named _ m found, bareName_idempotent]
  exact known

section Properties

variable {child child' : Message → String → List Property}
  (agree : ∀ c, common (bareName c.fullName) → index.message? c.fullName = some c → ∀ pre,
    child c pre = child' c pre ∧ ∀ p ∈ child c pre, p.Among (Field.Within common))
  {m : Message} (known : common (bareName m.fullName)) (found : index.message? m.fullName = some m)

include agree known found

theorem variantProperties_eq {f : Field} {group : Interface.Group}
    (given : Interface.group? index.plans m f = some group) {v : Variant} (inside : v ∈ group.variants) (pre : String) :
    Interface.variantProperties index index.plans child m pre group v =
        Interface.variantProperties other other.plans child' m pre group v ∧
      ∀ p ∈ Interface.variantProperties index index.plans child m pre group v, p.Among (Field.Within common) := by
  -- What a variant spreads is looked up in the index, and the type it names is common to both.
  have lifted : (if group.flatten then v.messageType.bind index.message? else none) =
      if group.flatten then v.messageType.bind other.message? else none := by
    split
    · cases typed : v.messageType with
      | none => rfl
      | some type =>
        obtain ⟨g, there, typed⟩ := field_of_variant shares.keyed found given inside typed
        exact shares.message?_eq (shares.common_of_type known found there typed)
    · rfl
  rw [Interface.variantProperties, Interface.variantProperties, ← lifted]
  cases target : (if group.flatten then v.messageType.bind index.message? else none) with
  | none =>
    dsimp only
    cases named : m.field? v.field with
    | none => exact ⟨rfl, fun _ never => nomatch never⟩
    | some g =>
      dsimp only
      refine ⟨by rw [shares.memberOf_eq known], fun p listed => ?_⟩
      cases List.mem_singleton.mp listed
      refine .own _ _ ?_
      rw [field_memberOf]
      exact shares.within known found (mem_of_field? named).1
  | some c =>
    split at target
    · obtain ⟨type, typed, there⟩ := Option.bind_eq_some_iff.mp target
      obtain ⟨g, holder, typed⟩ := field_of_variant shares.keyed found given inside typed
      obtain ⟨known_child, found_child⟩ :=
        shares.common_fullName (shares.common_of_type known found holder typed) there
      obtain ⟨same, among⟩ := agree c known_child found_child pre
      dsimp only
      refine ⟨by rw [same], fun p listed => ?_⟩
      cases List.mem_singleton.mp listed
      exact .lifted among
    · cases target

theorem fieldProperties_eq {f : Field} (inside : f ∈ m.fields) (pre : String) :
    Interface.fieldProperties index index.plans child m pre f =
        Interface.fieldProperties other other.plans child' m pre f ∧
      ∀ p ∈ Interface.fieldProperties index index.plans child m pre f, p.Among (Field.Within common) := by
  -- Both see the same plan of the message, and so the same oneof and the same member.
  have groups : Interface.group? index.plans m f = Interface.group? other.plans m f := by
    rw [Interface.group?, Interface.group?, shares.plan?_eq known]
  rw [Interface.fieldProperties, Interface.fieldProperties, ← groups, ← shares.memberOf_eq known]
  have own (key : String) (role : Role) : (Property.own key role (Interface.memberOf index.plans m f)).Among
      (Field.Within common) := by
    refine .own _ _ ?_
    rw [field_memberOf]
    exact shares.within known found inside
  cases grouped : Interface.group? index.plans m f with
  | some group =>
    dsimp only
    split
    · have each := fun v (listed : v ∈ group.variants) => shares.variantProperties_eq agree known found grouped listed pre
      refine ⟨by rw [List.flatMap_congr fun v listed => (each v listed).1], fun p listed => ?_⟩
      rcases List.mem_cons.mp listed with rfl | variant
      · exact .discriminator _ _
      · obtain ⟨v, listed, inside⟩ := List.mem_flatMap.mp variant
        exact (each v listed).2 p inside
    · exact ⟨rfl, fun _ never => absurd never List.not_mem_nil⟩
  | none =>
    dsimp only
    cases target : (Interface.memberOf index.plans m f).flattened? with
    | none =>
      refine ⟨rfl, fun p listed => ?_⟩
      cases List.mem_singleton.mp listed
      exact own _ _
    | some pair =>
      obtain ⟨type, childPre⟩ := pair
      obtain ⟨g, holder, typed⟩ := field_of_flattened shares.keyed found target
      dsimp only
      rw [← shares.message?_eq (shares.common_of_type known found holder typed)]
      cases there : index.message? type with
      | none =>
        refine ⟨rfl, fun p listed => ?_⟩
        cases List.mem_singleton.mp listed
        exact own _ _
      | some c =>
        obtain ⟨known_child, found_child⟩ :=
        shares.common_fullName (shares.common_of_type known found holder typed) there
        exact agree c known_child found_child _

theorem fields_eq (pre : String) : m.fields.flatMap (Interface.fieldProperties index index.plans child m pre) =
      m.fields.flatMap (Interface.fieldProperties other other.plans child' m pre) ∧
    ∀ p ∈ m.fields.flatMap (Interface.fieldProperties index index.plans child m pre),
      p.Among (Field.Within common) := by
  have each := fun f (inside : f ∈ m.fields) => shares.fieldProperties_eq agree known found inside pre
  refine ⟨List.flatMap_congr fun f inside => (each f inside).1, fun p listed => ?_⟩
  obtain ⟨f, inside, there⟩ := List.mem_flatMap.mp listed
  exact (each f inside).2 p there

end Properties

theorem propertiesWithin_eq (levels : Nat) : ∀ m, common (bareName m.fullName) → index.message? m.fullName = some m →
    ∀ pre, Interface.propertiesWithin index index.plans levels m pre =
        Interface.propertiesWithin other other.plans levels m pre ∧
      ∀ p ∈ Interface.propertiesWithin index index.plans levels m pre, p.Among (Field.Within common) := by
  induction levels with
  | zero =>
    intro m known found pre
    exact shares.fields_eq (fun _ _ _ _ => ⟨rfl, by simp⟩) known found pre
  | succ levels ih =>
    intro m known found pre
    exact shares.fields_eq ih known found pre

theorem ofMessage_eq {m : Message} (known : common (bareName m.fullName)) (found : index.message? m.fullName = some m) :
    Interface.ofMessage index index.plans m = Interface.ofMessage other other.plans m ∧
      (Interface.ofMessage index index.plans m).Among (Field.Within common) := by
  have properties : Interface.properties index index.plans m = Interface.properties other other.plans m ∧
      (Interface.object (Interface.properties index index.plans m)).Among (Field.Within common) := by
    obtain ⟨same, among⟩ := shares.propertiesWithin_eq index.maxDepth m known found ""
    rw [Interface.properties, Interface.properties, ← shares.maxDepth]
    exact ⟨same, .object among⟩
  rw [Interface.ofMessage, Interface.ofMessage, ← properties.1, ← shares.plan?_eq known]
  split
  · rename_i f rest fields
    rw [← shares.memberOf_eq known]
    refine ⟨rfl, ?_⟩
    split
    · refine .single ?_
      rw [field_memberOf]
      exact shares.within known found (fields ▸ List.mem_cons_self)
    · exact properties.2
  · exact ⟨rfl, properties.2⟩

theorem unwrappedList?_eq {member : Member} (within : member.field.Within common) (key : String) :
    Interface.unwrappedList? index index.plans member key = Interface.unwrappedList? other other.plans member key ∧
      ∀ inner, Interface.unwrappedList? index index.plans member key = some inner → inner.field.Within common := by
  simp only [Interface.unwrappedList?, Option.bind_eq_bind, Option.pure_def]
  cases typed : member.field.message? with
  | none => simp only [Option.bind_none, reduceCtorEq, false_imp_iff, implies_true, and_self]
  | some type =>
    have known : common (bareName type) := by
      obtain ⟨bare, known⟩ := within type (.inl typed)
      rw [bare]
      exact known
    simp only [Option.bind_some, ← shares.message?_eq known]
    cases there : index.message? type with
    | none => simp only [Option.bind_none, reduceCtorEq, false_imp_iff, implies_true, and_self]
    | some c =>
      obtain ⟨known_child, found_child⟩ := shares.common_fullName known there
      simp only [Option.bind_some, ← shares.memberOf_eq known_child]
      refine ⟨trivial, fun inner given => ?_⟩
      obtain ⟨g, listed, seen⟩ := Option.bind_eq_some_iff.mp given
      rw [← Option.some.inj seen, field_memberOf]
      exact shares.within known_child found_child (List.mem_of_find?_eq_some listed)

end Shares

end Index

end Wireform
