import Wireform.Proofs.PlannedSteps

set_option autoImplicit false

namespace Wireform.Index

inductive Field.Gives (index : Index) (m : Message) (planned : String → Bool) (f : Field) :
    Container → Transform → Prop
  | empty (single : f.isSingular = true) (changes : f.annotations.changesEmpty = true) :
      Gives index m planned f .single (.emptyValueAs f.annotations.empty)
  | nested {child : String} (typed : f.message? = some child) (below : planned child = true) :
      Gives index m planned f f.container (.nested child)
  | values {child : String} {value : Message} {inner : Field} (map : f.isMap = true)
      (typed : f.message? = some child) (found : index.message? child = some value)
      (first : value.unwrapField? = some inner) (apart : value.isRootUnwrap = false)
      (list : inner.isList = true) :
      Gives index m planned f .mapValues (.unwrapValues inner.message? inner.jsonName)
  | root (unwraps : f.annotations.unwrap = true) (alone : m.isRootUnwrap = true) :
      Gives index m planned f .single (.unwrapRoot f.message? f.isMap)
  | lifted {child pre : String} (lifted : f.lifted? = some (child, pre)) :
      Gives index m planned f .single (.flatten child pre (index.laidKeys child))
  | integer {scalar : Scalar} (number : f.annotations.int64 = .number) (typed : f.type = .scalar scalar) :
      Gives index m planned f f.container (.integerAsNumber (scalar == .uint64 || scalar == .fixed64))
  | enumNumber {name : String} {e : Enum} (typed : f.enum? = some name) (found : index.enum? name = some e)
      (number : f.annotations.enumeration = .number) :
      Gives index m planned f f.container (.enumAsNumber name (e.table fun v => toString v.number))
  | enumNames {name : String} {e : Enum} (typed : f.enum? = some name) (found : index.enum? name = some e)
      (named : f.annotations.enumeration ≠ .number) (custom : e.hasCustomNames = true) :
      Gives index m planned f f.container (.enumCustomNames name (e.table EnumValue.wireName))
  | timestamp (changes : f.annotations.changesTimestamp = true) :
      Gives index m planned f f.container (.timestampAs f.annotations.timestamp)
  | bytes (changes : f.annotations.changesBytes = true) :
      Gives index m planned f f.container (.bytesAs f.annotations.bytes)
  | nullable (marked : f.annotations.nullable = true) : Gives index m planned f .single .nullable

theorem Field.Gives.mono {index : Index} {m : Message} {planned other : String → Bool} {f : Field}
    {container : Container} {transform : Transform}
    (keeps : ∀ child, f.message? = some child → planned child = true → other child = true)
    (gives : f.Gives index m planned container transform) : f.Gives index m other container transform := by
  cases gives with
  | nested typed below => exact .nested typed (keeps _ typed below)
  | empty single changes => exact .empty single changes
  | values map typed found first apart list => exact .values map typed found first apart list
  | root unwraps alone => exact .root unwraps alone
  | lifted lifted => exact .lifted lifted
  | integer number typed => exact .integer number typed
  | enumNumber typed found number => exact .enumNumber typed found number
  | enumNames typed found named custom => exact .enumNames typed found named custom
  | timestamp changes => exact .timestamp changes
  | bytes changes => exact .bytes changes
  | nullable marked => exact .nullable marked

section Fields

variable {index : Index} {m : Message} {planned : String → Bool} {f : Field} {step : Step}

theorem mem_fieldSteps : step ∈ fieldSteps index m planned f ↔ ∃ container transform,
    f.Gives index m planned container transform ∧ step = f.step container transform := by
  rw [fieldSteps_eq]
  simp only [List.mem_append, recodeSteps, List.mem_map, Prod.exists, List.mem_ite_nil_right, List.mem_singleton,
    mem_emptySteps, mem_childSteps, mem_rootSteps, mem_liftSteps, mem_nullSteps]
  -- Both ways by the stage that emits the step, in the order in which the planner runs its stages.
  constructor
  · rintro ((⟨single, changes, rfl⟩ | ((⟨child, typed, ⟨below, rfl⟩ | ⟨t, given, rfl⟩⟩ | ⟨unwraps, alone, rfl⟩)
      | ⟨child, pre, lifted, rfl⟩)) | (((⟨_, _, integer, rfl⟩ | ⟨_, _, enum, rfl⟩) | ⟨changes, rfl⟩)
        | ⟨changes, rfl⟩) | ⟨marked, rfl⟩)
    · exact ⟨_, _, .empty single changes, rfl⟩
    · exact ⟨_, _, .nested typed below, rfl⟩
    · obtain ⟨value, inner, found, first, map, apart, list, rfl⟩ := unwrapValues?_eq_some index f given
      exact ⟨_, _, .values map typed found first apart list, rfl⟩
    · exact ⟨_, _, .root unwraps alone, rfl⟩
    · exact ⟨_, _, .lifted lifted, rfl⟩
    · obtain ⟨scalar, number, typed, rfl, rfl⟩ := mem_integerSteps.mp integer
      exact ⟨_, _, .integer number typed, rfl⟩
    · obtain ⟨name, e, typed, found, rfl, ⟨number, rfl⟩ | ⟨named, custom, rfl⟩⟩ := mem_enumSteps.mp enum
      · exact ⟨_, _, .enumNumber typed found number, rfl⟩
      · exact ⟨_, _, .enumNames typed found named custom, rfl⟩
    · exact ⟨_, _, .timestamp changes, rfl⟩
    · exact ⟨_, _, .bytes changes, rfl⟩
    · exact ⟨_, _, .nullable marked, rfl⟩
  · rintro ⟨container, transform, gives, rfl⟩
    cases gives with
    | empty single changes => exact .inl (.inl ⟨single, changes, rfl⟩)
    | nested typed below => exact .inl (.inr (.inl (.inl ⟨_, typed, .inl ⟨below, rfl⟩⟩)))
    | values map typed found first apart list =>
      refine .inl (.inr (.inl (.inl ⟨_, typed, .inr ⟨_, ?_, rfl⟩⟩)))
      simp [unwrapValues?, found, first, map, apart, list]
    | root unwraps alone => exact .inl (.inr (.inl (.inr ⟨unwraps, alone, rfl⟩)))
    | lifted lifted => exact .inl (.inr (.inr ⟨_, _, lifted, rfl⟩))
    | integer number typed =>
      exact .inr (.inl (.inl (.inl (.inl ⟨_, _, mem_integerSteps.mpr ⟨_, number, typed, rfl, rfl⟩, rfl⟩))))
    | enumNumber typed found number =>
      exact .inr (.inl (.inl (.inl (.inr ⟨_, _,
        mem_enumSteps.mpr ⟨_, _, typed, found, rfl, .inl ⟨number, rfl⟩⟩, rfl⟩))))
    | enumNames typed found named custom =>
      exact .inr (.inl (.inl (.inl (.inr ⟨_, _,
        mem_enumSteps.mpr ⟨_, _, typed, found, rfl, .inr ⟨named, custom, rfl⟩⟩, rfl⟩))))
    | timestamp changes => exact .inr (.inl (.inl (.inr ⟨changes, rfl⟩)))
    | bytes changes => exact .inr (.inl (.inr ⟨changes, rfl⟩))
    | nullable marked => exact .inr (.inr ⟨marked, rfl⟩)

end Fields

theorem mem_planOf {index : Index} {names : List String} {m : Message} {step : Step} :
    step ∈ (planOf index names m).steps ↔
      (∃ f ∈ m.fields, ∃ container transform, f.Gives index m names.contains container transform ∧
        step = f.step container transform) ∨
      ∃ group ∈ m.discriminated, step = oneofStep index m group.1 group.2 := by
  have anywhere : step ∈ (planOf index names m).steps ↔
      step ∈ m.fields.flatMap (fieldSteps index m names.contains) ∨
        step ∈ m.discriminated.map fun group => oneofStep index m group.1 group.2 := by
    -- Only the order differs: an unwrap of the message goes last.
    simp only [planOf, List.mem_append, List.mem_filter, ← and_or_left]
    cases step.transform.isRootUnwrap <;> simp
  rw [anywhere]
  simp only [List.mem_flatMap, mem_fieldSteps, List.mem_map, eq_comm (a := step)]

end Wireform.Index
