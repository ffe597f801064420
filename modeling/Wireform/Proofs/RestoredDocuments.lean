import Wireform.Proofs.ReadyDocuments

set_option autoImplicit false

namespace Wireform.Codec

open Json (Alike AlikeAt)
open Index

section Plans

variable {index : Index} {m : Message} {encode : String → Json → Result Json} {plan : Plan}

theorem inner_not_root (planned : String → Bool) :
    ∀ step ∈ innerSteps index m planned, step.transform.isRootUnwrap = false := by
  intro step inside
  rcases List.mem_append.mp inside with field | oneof
  · obtain ⟨f, _, there⟩ := List.mem_flatMap.mp field
    exact body_not_root index planned f step there
  · obtain ⟨group, _, rfl⟩ := List.mem_map.mp oneof
    rfl

theorem steps_of_plain (plain : m.isRootUnwrap = false) (names : List String) :
    (planOf index names m).steps = innerSteps index m names.contains := by
  have no_root : m.fields.flatMap (rootSteps m) = [] :=
    List.flatMap_eq_nil_iff.mpr fun f _ => by rw [rootSteps, plain, Bool.and_false]; rfl
  rw [planOf_steps, no_root, List.append_nil]
  rfl

theorem rootUnwrap?_of_plain (plain : m.isRootUnwrap = false) (names : List String) :
    (planOf index names m).rootUnwrap? = none := by
  rw [Plan.rootUnwrap?, steps_of_plain plain, List.find?_eq_none]
  intro step inside
  rw [inner_not_root names.contains step inside]
  simp

theorem encodeSteps_inner {steps : List Step} (inner : ∀ step ∈ steps, step.transform.isRootUnwrap = false)
    (doc : Doc) : encodeSteps encode plan steps doc = Json.obj <$> encodeAll encode plan steps doc := by
  have appended := encodeSteps_append encode plan inner [] doc
  rw [List.append_nil] at appended
  rw [appended]
  cases encodeAll encode plan steps doc <;> rfl

end Plans

section Fits

variable {index : Index} {rule : Rule} {levels : Nat} {name : String} {m : Message} {doc : Doc}

theorem nested_of_fits (sound : index.Sound) (found : index.message? name = some m)
    (planned : m.fullName ∈ index.planned) (distinct : (Json.obj doc).Distinct)
    (shapes : ∀ f ∈ m.fields, ∀ value, doc.get? f.jsonName = some value →
      value.isNull = false ∧ f.container.Shapes value ∧ rule.value m f value)
    (values : ∀ f ∈ m.fields, ∀ value, doc.get? f.jsonName = some value →
      ∀ x ∈ f.container.values value, Fits index rule f.type x)
    (nests : NestsWithin index.codec (levels + 1) name (.obj doc)) :
    ∀ f ∈ m.fields, ∀ value, doc.get? f.jsonName = some value →
      rule.value m f value ∧ Nested index rule levels f value := by
  intro f inside value given
  obtain ⟨present, shape, rules⟩ := shapes f inside value given
  refine ⟨rules, present, (Json.distinct_obj.mp distinct).2 _ _ given, shape, values f inside value given,
    fun child typed listed x there => ?_⟩
  have given_plan := (plan?_eq_some sound.toKeyed).mpr ⟨m, found, planned, rfl⟩
  have step_inside : f.step f.container (.nested child) ∈ (planOf index index.planned m).steps := by
    have own : f.step f.container (.nested child) ∈ bodySteps index index.planned.contains f := by
      have nested : f.step f.container (.nested child) ∈ childSteps index index.planned.contains f := by
        rw [childSteps_some typed, if_pos listed]
        simp
      simp [bodySteps, nested]
    rw [planOf_steps]
    exact List.mem_append_left _ (List.mem_append_left _ (List.mem_flatMap.mpr ⟨f, inside, own⟩))
  exact nests _ given_plan _ step_inside child rfl value given x there

end Fits

section Plain

variable {index : Index} {levels : Nat} {name : String} {m : Message} {doc wire : Doc} (sound : index.Sound)
  (found : index.message? name = some m) (planned : m.fullName ∈ index.planned)
  (plain : m.isRootUnwrap = false)

include sound found planned plain

theorem encodeWithin_plain (doc : Doc) : encodeWithin index.codec (levels + 1) name (.obj doc) =
    Json.obj <$> encodeAll (encodeWithin index.codec levels) (planOf index index.planned m)
      (innerSteps index m index.planned.contains) doc := by
  rw [encodeWithin_planned (plan?_codec sound.toKeyed found planned levels), steps_of_plain plain,
    encodeSteps_inner (inner_not_root _)]

theorem decodeWithin_plain (doc : Doc) : decodeWithin index.codec (levels + 1) name (.obj doc) =
    Json.obj <$> decodeSteps (decodeWithin index.codec levels) (planOf index index.planned m)
      (innerSteps index m index.planned.contains).reverse doc := by
  rw [decodeWithin_planned (plan?_codec sound.toKeyed found planned levels), openWire,
    rootUnwrap?_of_plain plain, steps_of_plain plain]
  dsimp only
  rw [expectObject, ok_bind]
  rfl

theorem plain_restores (undone : Undone (encodeWithin index.codec levels) (decodeWithin index.codec levels)
      (planOf index index.planned m) (innerSteps index m index.planned.contains) doc wire) :
    Restores (encodeWithin index.codec (levels + 1) name) (decodeWithin index.codec (levels + 1) name)
      (.obj doc) := by
  obtain ⟨back, decoded, alike⟩ := undone.decoded
  refine ⟨.obj wire, ?_, rfl, undone.distinct, .obj back, ?_, alike⟩
  · rw [encodeWithin_plain sound found planned plain, undone.encoded]
    rfl
  · rw [decodeWithin_plain sound found planned plain, decoded]
    rfl

end Plain

section Plural

variable {index : Index} {m : Message} {planned : String → Bool} {f : Field}
  {encode decode : String → Json → Result Json} {plan : Plan}

theorem bodySteps_of_plural (checked : f.Checked index m) (plural : f.isSingular = false) :
    bodySteps index planned f = childSteps index planned f ++ recodeSteps index f := by
  have unlifted : f.lifted? = none := by
    cases lifted : f.lifted? with
    | none => rfl
    | some target =>
      obtain ⟨_, _, singular⟩ := lifted?_eq_some lifted
      rw [plural] at singular
      cases singular
  have no_null : nullSteps f = [] := by
    rw [nullSteps, if_neg]
    intro nullable
    have optional := (checked.nullable nullable).2
    rw [Field.isSingular, optional] at plural
    cases plural
  rw [bodySteps_of_unlifted unlifted, emptySteps, plural, no_null]
  simp

theorem core_container : ∀ step ∈ childSteps index planned f ++ recodeSteps index f,
    step.container = f.container := by
  intro step inside
  rcases List.mem_append.mp inside with child | recode
  · obtain ⟨_, _, ⟨_, rfl⟩ | ⟨t, given, rfl⟩⟩ := mem_childSteps.mp child
    · rfl
    · obtain ⟨_, _, _, _, map, _⟩ := unwrapValues?_eq_some index f given
      exact (container_of_map map).symm
  · obtain ⟨transform, rfl, _⟩ := recodes_of_mem index f recode
    rfl

theorem absent_plural (checked : f.Checked index m) (plural : f.isSingular = false) :
    UndoneAt encode decode plan (bodySteps index planned f) none none := by
  rw [bodySteps_of_plural checked plural]
  exact UndoneAt.of_passing core_maps (.inl rfl)

variable (plan) in
theorem filled_plural (checked : f.Checked index m) (own : planned WellKnown.timestamp = false)
    (plural : f.isSingular = false) {value : Json} (restorable : Restorable index planned encode decode f value)
    (filled : Filled f.container value) : ∃ wire, Filled f.container wire ∧ wire.isNull = false ∧
      UndoneAt encode decode plan (bodySteps index planned f) (some value) (some wire) := by
  rw [bodySteps_of_plural checked plural]
  obtain ⟨wire, present, undone, _⟩ := core_undone plan checked own restorable
  obtain ⟨other, same, still⟩ := encodeBlock_filled
    (fun step inside => ⟨core_maps step inside, core_container step inside⟩) filled undone.encoded
  cases Option.some.inj same
  exact ⟨wire, still, present, undone⟩

end Plural

section Spared

variable {index : Index} {m : Message} {planned : String → Bool} {f : Field}

theorem bodySteps_spare {g : Field} (checked : g.Checked index m)
    (target : ∀ type pre, g.lifted? = some (type, pre) → type ≠ WellKnown.timestamp)
    (apart : f.jsonName ∉ index.ownKeys g) (differ : g.jsonName ≠ f.jsonName) :
    ∀ step ∈ bodySteps index planned g, Spares f.jsonName step := by
  intro step there
  cases lifted : g.lifted? with
  | none =>
    obtain ⟨same, isLocal⟩ := staysAt_of_unlifted _ _ lifted step there
    exact .inl ⟨isLocal, same ▸ differ⟩
  | some group =>
    obtain ⟨type, pre⟩ := group
    rw [bodySteps_of_lifted checked lifted (target type pre lifted)] at there
    rcases List.mem_append.mp there with child | lift
    · obtain ⟨same, isLocal⟩ := staysAt_childSteps step child
      exact .inl ⟨isLocal, same ▸ differ⟩
    · cases List.mem_singleton.mp lift
      refine .inr (.inl ⟨_, _, _, rfl, fun k inside same => apart ?_⟩)
      rw [ownKeys, lifted]
      exact List.mem_map.mpr ⟨k, inside, same⟩

theorem innerSteps_around (checked : ∀ f ∈ m.fields, f.Checked index m)
    (target : ∀ f ∈ m.fields, ∀ type pre, f.lifted? = some (type, pre) → type ≠ WellKnown.timestamp)
    (orderly : index.Orderly m) (inside : f ∈ m.fields) (unlifted : f.lifted? = none)
    (alone : ¬ m.LiftedMember f) :
    ∃ first last, innerSteps index m planned = first ++ bodySteps index planned f ++ last ∧
      (∀ step ∈ first, Spares f.jsonName step) ∧ ∀ step ∈ last, Spares f.jsonName step := by
  have own : f.jsonName ∈ index.ownKeys f := by simp [ownKeys_of_unlifted unlifted]
  have names : m.fields.Pairwise fun f g => f.jsonName ≠ g.jsonName := List.pairwise_map.mp orderly.names
  have fields := orderly.fields
  obtain ⟨before, after, split⟩ := List.append_of_mem inside
  rw [split, List.pairwise_append, List.pairwise_cons] at names fields
  refine ⟨before.flatMap (bodySteps index planned), after.flatMap (bodySteps index planned)
    ++ m.discriminated.map fun group => oneofStep index m group.1 group.2, ?_, ?_, ?_⟩
  · rw [innerSteps, split, List.flatMap_append, List.flatMap_cons]
    simp only [List.append_assoc]
  · intro step there
    obtain ⟨g, listed, taken⟩ := List.mem_flatMap.mp there
    have in_fields : g ∈ m.fields := by rw [split]; exact List.mem_append_left _ listed
    exact bodySteps_spare (checked g in_fields) (target g in_fields)
      (fields.2.2 g listed f (by simp)).1 (names.2.2 g listed f (by simp)) step taken
  · intro step there
    rcases List.mem_append.mp there with field | tagged
    · obtain ⟨g, listed, taken⟩ := List.mem_flatMap.mp field
      have in_fields : g ∈ m.fields := by rw [split]; simp [listed]
      exact bodySteps_spare (checked g in_fields) (target g in_fields)
        (fun taken => (fields.2.1.1 g listed).2 own taken) (Ne.symm (names.2.1.1 g listed)) step taken
    · obtain ⟨⟨oneof, config⟩, group, rfl⟩ := List.mem_map.mp tagged
      refine .inr (.inr ⟨_, _, _, rfl, fun same => ?_⟩)
      exact orderly.beside oneof config group f inside alone own (same ▸ discriminator_mem)

end Spared

end Wireform.Codec
