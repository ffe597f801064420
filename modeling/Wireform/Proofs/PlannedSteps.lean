import Wireform.Codec.Basic
import Wireform.Proofs.OrderlyMessages

set_option autoImplicit false

namespace Wireform

def Transform.recodes : Transform → Bool
  | .integerAsNumber _ | .enumCustomNames _ _ | .enumAsNumber _ _ | .timestampAs _ | .bytesAs _ => true
  | _ => false

namespace Index

section Planned

variable {index : Index}

theorem mem_addHolders {names : List String} {name : String} (inside : name ∈ addHolders index names) :
    name ∈ names ∨ ∃ m ∈ index.ownMessages, m.fullName = name := by
  rcases List.mem_append.mp inside with before | holder
  · exact .inl before
  · obtain ⟨m, picked, rfl⟩ := List.mem_map.mp holder
    exact .inr ⟨m, (List.mem_filter.mp picked).1, rfl⟩

theorem mem_repeat_addHolders {names : List String} (rounds : Nat) {name : String}
    (inside : name ∈ Nat.repeat (addHolders index) rounds names) :
    name ∈ names ∨ ∃ m ∈ index.ownMessages, m.fullName = name := by
  induction rounds with
  | zero => exact .inl inside
  | succ rounds ih =>
    rcases mem_addHolders inside with before | holder
    · exact ih before
    · exact .inr holder

theorem own_of_planned {name : String} (inside : name ∈ index.planned) :
    ∃ m ∈ index.ownMessages, m.fullName = name := by
  rcases mem_repeat_addHolders _ inside with direct | holder
  · obtain ⟨m, picked, rfl⟩ := List.mem_map.mp direct
    exact ⟨m, (List.mem_filter.mp picked).1, rfl⟩
  · exact holder

variable (keyed : index.Keyed)

include keyed

theorem get?_of_values {m : Message} (inside : m ∈ index.messages.values) :
    index.messages.get? m.fullName = some m := by
  obtain ⟨key, found⟩ := KeyMap.mem_values.mp inside
  rw [keyed.named key m found]
  exact found

theorem wellKnown_of_planned {name : String} {m : Message} (found : index.message? name = some m)
    (planned : m.fullName ∈ index.planned) : m.wellKnown = false := by
  obtain ⟨other, own, same⟩ := own_of_planned planned
  obtain ⟨inside, plain⟩ := List.mem_filter.mp own
  have there := get?_of_values keyed inside
  rw [same, keyed.named _ m found, show index.messages.get? (bareName name) = some m from found] at there
  cases Option.some.inj there
  simpa using plain

theorem ne_timestamp_of_own {name : String} {m : Message} (found : index.message? name = some m)
    (own : m.wellKnown = false) : name ≠ WellKnown.timestamp := by
  rintro rfl
  have builtIn : WellKnown.isMessage (bareName WellKnown.timestamp) = true := by decide +kernel
  rw [keyed.wellKnown _ m found, builtIn] at own
  cases own

theorem plan?_eq_some {name : String} {plan : Plan} :
    index.plans.plan? name = some plan ↔ ∃ m, index.message? name = some m ∧
      m.fullName ∈ index.planned ∧ plan = planOf index index.planned m := by
  -- The table has an entry for each planned message, made of what the name of the message leads to.
  have entry {key : String} {plan : Plan} : (key, plan) ∈ (index.messages.values.filterMap fun m =>
      if index.planned.contains m.fullName then
        (index.message? m.fullName).map fun found => (m.fullName, planOf index index.planned found)
      else none) ↔ ∃ m ∈ index.messages.values, m.fullName ∈ index.planned ∧ m.fullName = key ∧
        ∃ found, index.message? key = some found ∧ planOf index index.planned found = plan := by
    rw [List.mem_filterMap]
    refine exists_congr fun m => and_congr_right fun _ => ?_
    simp only [List.contains_iff_mem]
    split
    · rename_i inside
      simp only [inside, true_and, Option.map_eq_some_iff, Prod.mk.injEq]
      constructor
      · rintro ⟨found, there, rfl, same⟩
        exact ⟨rfl, found, there, same⟩
      · rintro ⟨rfl, found, there, same⟩
        exact ⟨found, there, rfl, same⟩
    · rename_i outside
      simp [outside]
  rw [PlanSet.plan?, plans]
  constructor
  · intro found
    obtain ⟨m, inside, planned, same, other, there, rfl⟩ := entry.mp (KeyMap.mem_of_get?_ofList found)
    rw [message?, bareName_idempotent] at there
    have known := get?_of_values keyed inside
    rw [same, there] at known
    cases Option.some.inj known
    exact ⟨m, there, planned, rfl⟩
  · rintro ⟨m, found, planned, rfl⟩
    have known : index.messages.get? (bareName name) = some m := found
    have named := keyed.named _ m known
    have twice : index.message? (bareName name) = some m := by
      rw [message?, bareName_idempotent]
      exact found
    refine KeyMap.get?_ofList_of_unique (entry.mpr ⟨m, KeyMap.mem_values.mpr ⟨_, known⟩, planned, named, m,
      twice, rfl⟩) fun other inside => ?_
    obtain ⟨_, _, _, _, found', there, rfl⟩ := entry.mp inside
    cases Option.some.inj (twice.symm.trans there)
    rfl

end Planned

section Steps

variable (index : Index) (m : Message) (planned : String → Bool) (f : Field)

def Field.step (container : Container) (transform : Transform) : Step :=
  ⟨f.name, f.jsonName, container, transform⟩

def emptySteps : List Step :=
  if f.isSingular && f.annotations.changesEmpty then
    [f.step .single (.emptyValueAs f.annotations.empty)]
  else []

def childSteps : List Step :=
  match f.message? with
  | none => []
  | some child =>
    (if planned child then [f.step f.container (.nested child)] else [])
      ++ ((unwrapValues? index f child).toList.map fun t => f.step .mapValues t)

def rootSteps : List Step :=
  if f.annotations.unwrap && m.isRootUnwrap then [f.step .single (.unwrapRoot f.message? f.isMap)] else []

def liftSteps : List Step :=
  match f.lifted? with
  | some (type, pre) => [f.step .single (.flatten type pre (index.laidKeys type))]
  | none => []

def recodeSteps : List Step :=
  (integerSteps f).map (fun (container, transform) => f.step container transform)
    ++ (enumSteps index f).map (fun (container, transform) => f.step container transform)
    ++ (if f.annotations.changesTimestamp then
        [f.step f.container (.timestampAs f.annotations.timestamp)] else [])
    ++ (if f.annotations.changesBytes then [f.step f.container (.bytesAs f.annotations.bytes)] else [])

def nullSteps : List Step := if f.annotations.nullable then [f.step .single .nullable] else []

def bodySteps : List Step :=
  emptySteps f ++ (childSteps index planned f ++ liftSteps index f) ++ (recodeSteps index f ++ nullSteps f)

theorem messageSteps_eq : ((messageSteps index m f planned).map fun (container, transform) =>
    f.step container transform) = childSteps index planned f ++ rootSteps m f ++ liftSteps index f := by
  rw [messageSteps, List.map_append, List.map_append]
  congr 1
  · congr 1
    · rw [childSteps]
      cases f.message? with
      | none => rfl
      | some child =>
        dsimp only
        rw [List.map_append, List.map_map]
        congr 1
        split <;> rfl
    · rw [rootSteps]
      split <;> rfl
  · rw [liftSteps, Field.lifted?]
    cases f.annotations.flatten <;> cases f.message? <;> cases f.isSingular <;> rfl

theorem scalarSteps_eq : ((scalarSteps index f).map fun (container, transform) =>
    f.step container transform) = recodeSteps index f ++ nullSteps f := by
  rw [scalarSteps, recodeSteps, nullSteps, List.map_append, List.map_append, List.map_append, List.map_append]
  cases f.annotations.changesTimestamp <;> cases f.annotations.changesBytes <;>
    cases f.annotations.nullable <;> rfl

theorem fieldSteps_eq : fieldSteps index m planned f =
    emptySteps f ++ (childSteps index planned f ++ rootSteps m f ++ liftSteps index f)
      ++ (recodeSteps index f ++ nullSteps f) := by
  rw [← messageSteps_eq, ← scalarSteps_eq, fieldSteps, List.map_append, List.map_append, emptySteps]
  cases f.isSingular && f.annotations.changesEmpty <;> rfl

theorem unwrapValues?_eq_some {child : String} {t : Transform} (given : unwrapValues? index f child = some t) :
    ∃ value inner, index.message? child = some value ∧ value.unwrapField? = some inner ∧ f.isMap = true ∧
      value.isRootUnwrap = false ∧ inner.isList = true ∧ t = .unwrapValues inner.message? inner.jsonName := by
  obtain ⟨value, found, given⟩ := Option.bind_eq_some_iff.mp given
  obtain ⟨inner, first, given⟩ := Option.bind_eq_some_iff.mp given
  split at given
  · rename_i fits
    simp only [Bool.and_eq_true, Bool.not_eq_true'] at fits
    exact ⟨value, inner, found, first, fits.1.1, fits.1.2, fits.2, (Option.some.inj given).symm⟩
  · cases given

section Members

variable {index : Index} {m : Message} {planned : String → Bool} {f : Field} {step : Step}

theorem mem_emptySteps : step ∈ emptySteps f ↔ f.isSingular = true ∧ f.annotations.changesEmpty = true ∧
    step = f.step .single (.emptyValueAs f.annotations.empty) := by
  simp only [emptySteps, List.mem_ite_nil_right, List.mem_singleton, Bool.and_eq_true, and_assoc]

theorem mem_childSteps : step ∈ childSteps index planned f ↔ ∃ child, f.message? = some child ∧
    ((planned child = true ∧ step = f.step f.container (.nested child)) ∨
      ∃ t, unwrapValues? index f child = some t ∧ step = f.step .mapValues t) := by
  rw [childSteps]
  cases f.message? with
  | none => simp
  | some child =>
    simp only [List.mem_append, List.mem_ite_nil_right, List.mem_singleton, List.mem_map, Option.mem_toList,
      Option.some.injEq, exists_eq_left', eq_comm (a := step)]

theorem mem_rootSteps : step ∈ rootSteps m f ↔ f.annotations.unwrap = true ∧ m.isRootUnwrap = true ∧
    step = f.step .single (.unwrapRoot f.message? f.isMap) := by
  simp only [rootSteps, List.mem_ite_nil_right, List.mem_singleton, Bool.and_eq_true, and_assoc]

theorem mem_liftSteps : step ∈ liftSteps index f ↔ ∃ child pre, f.lifted? = some (child, pre) ∧
    step = f.step .single (.flatten child pre (index.laidKeys child)) := by
  rw [liftSteps]
  cases f.lifted? with
  | none => simp
  | some target => simp [Prod.ext_iff, eq_comm]

theorem mem_integerSteps {container : Container} {transform : Transform} :
    (container, transform) ∈ integerSteps f ↔ ∃ scalar, f.annotations.int64 = .number ∧ f.type = .scalar scalar ∧
      container = f.container ∧ transform = .integerAsNumber (scalar == .uint64 || scalar == .fixed64) := by
  rw [integerSteps]
  cases f.annotations.int64 <;> cases f.type <;> simp

theorem mem_enumSteps {container : Container} {transform : Transform} :
    (container, transform) ∈ enumSteps index f ↔ ∃ name e, f.enum? = some name ∧ index.enum? name = some e ∧
      container = f.container ∧
        ((f.annotations.enumeration = .number ∧
            transform = .enumAsNumber name (e.table fun v => toString v.number)) ∨
          f.annotations.enumeration ≠ .number ∧ e.hasCustomNames = true ∧
            transform = .enumCustomNames name (e.table EnumValue.wireName)) := by
  rw [enumSteps]
  cases f.enum? with
  | none => simp
  | some name =>
    cases found : index.enum? name with
    | none => simp [found]
    | some e =>
      by_cases number : f.annotations.enumeration = .number
      · simp [found, number]
      · by_cases custom : e.hasCustomNames = true <;> simp [found, number, custom]

theorem mem_nullSteps : step ∈ nullSteps f ↔ f.annotations.nullable = true ∧ step = f.step .single .nullable := by
  simp only [nullSteps, List.mem_ite_nil_right, List.mem_singleton]

end Members

theorem recodes_of_mem {step : Step} (inside : step ∈ recodeSteps index f) :
    ∃ transform : Transform, step = f.step f.container transform ∧ transform.recodes = true := by
  simp only [recodeSteps, List.mem_append, List.mem_map, Prod.exists, List.mem_ite_nil_right,
    List.mem_singleton] at inside
  rcases inside with ((⟨_, _, integer, rfl⟩ | ⟨_, _, enum, rfl⟩) | ⟨_, rfl⟩) | ⟨_, rfl⟩
  · obtain ⟨_, _, _, rfl, rfl⟩ := mem_integerSteps.mp integer
    exact ⟨_, rfl, rfl⟩
  · obtain ⟨_, _, _, _, rfl, ⟨_, rfl⟩ | ⟨_, _, rfl⟩⟩ := mem_enumSteps.mp enum
    · exact ⟨_, rfl, rfl⟩
    · exact ⟨_, rfl, rfl⟩
  · exact ⟨_, rfl, rfl⟩
  · exact ⟨_, rfl, rfl⟩

theorem body_not_root : ∀ step ∈ bodySteps index planned f, step.transform.isRootUnwrap = false := by
  intro step inside
  simp only [bodySteps, List.mem_append] at inside
  rcases inside with (empty | child | lift) | recode | null
  · obtain ⟨_, _, rfl⟩ := mem_emptySteps.mp empty
    rfl
  · obtain ⟨_, _, ⟨_, rfl⟩ | ⟨t, given, rfl⟩⟩ := mem_childSteps.mp child
    · rfl
    · obtain ⟨_, _, _, _, _, _, _, rfl⟩ := unwrapValues?_eq_some index f given
      rfl
  · obtain ⟨_, _, _, rfl⟩ := mem_liftSteps.mp lift
    rfl
  · obtain ⟨transform, rfl, recodes⟩ := recodes_of_mem index f recode
    cases transform <;> first | rfl | cases recodes
  · obtain ⟨_, rfl⟩ := mem_nullSteps.mp null
    rfl

theorem filter_fieldSteps : (fieldSteps index m planned f).filter (!·.transform.isRootUnwrap) =
    bodySteps index planned f := by
  have body := body_not_root index planned f
  have keep : (bodySteps index planned f).filter (!·.transform.isRootUnwrap) = bodySteps index planned f :=
    List.filter_eq_self.mpr fun step inside => by simp [body step inside]
  have drop : (rootSteps m f).filter (!·.transform.isRootUnwrap) = [] :=
    List.filter_eq_nil_iff.mpr fun step inside => by
      obtain ⟨_, _, rfl⟩ := mem_rootSteps.mp inside
      simp [Field.step, Transform.isRootUnwrap]
  rw [fieldSteps_eq]
  simp only [List.filter_append, drop, List.append_nil]
  rw [← keep]
  simp only [bodySteps, List.filter_append]

theorem filter_fieldSteps_root : (fieldSteps index m planned f).filter (·.transform.isRootUnwrap) =
    rootSteps m f := by
  have body := body_not_root index planned f
  have none_left : (bodySteps index planned f).filter (·.transform.isRootUnwrap) = [] :=
    List.filter_eq_nil_iff.mpr fun step inside => by simp [body step inside]
  have keep : (rootSteps m f).filter (·.transform.isRootUnwrap) = rootSteps m f :=
    List.filter_eq_self.mpr fun step inside => by
      obtain ⟨_, _, rfl⟩ := mem_rootSteps.mp inside
      rfl
  simp only [bodySteps, List.filter_append, List.append_eq_nil_iff] at none_left
  obtain ⟨⟨empty, child, lift⟩, recode, null⟩ := none_left
  rw [fieldSteps_eq]
  simp only [List.filter_append, empty, child, lift, recode, null, keep, List.nil_append, List.append_nil]

theorem planOf_steps (names : List String) : (planOf index names m).steps =
    m.fields.flatMap (bodySteps index names.contains)
      ++ m.discriminated.map (fun (oneof, config) => oneofStep index m oneof config)
      ++ m.fields.flatMap (rootSteps m) := by
  have oneofs : (m.discriminated.map fun (oneof, config) => oneofStep index m oneof config).filter
      (!·.transform.isRootUnwrap) =
        m.discriminated.map fun (oneof, config) => oneofStep index m oneof config := by
    refine List.filter_eq_self.mpr fun step inside => ?_
    obtain ⟨group, _, rfl⟩ := List.mem_map.mp inside
    rfl
  have no_root : (m.discriminated.map fun (oneof, config) => oneofStep index m oneof config).filter
      (·.transform.isRootUnwrap) = [] := by
    refine List.filter_eq_nil_iff.mpr fun step inside => ?_
    obtain ⟨group, _, rfl⟩ := List.mem_map.mp inside
    simp [oneofStep, Transform.isRootUnwrap]
  simp only [planOf, List.filter_append, List.filter_flatMap, filter_fieldSteps, filter_fieldSteps_root,
    oneofs, no_root, List.append_nil]

end Steps

end Index

end Wireform
