import Wireform.Proofs.FieldBlocks

set_option autoImplicit false

namespace Wireform

namespace Index

section Shape

variable {f : Field}

theorem container_of_singular (singular : f.isSingular = true) : f.container = .single := by
  rw [Field.isSingular] at singular
  rw [Field.container, Field.isList, Field.isMap]
  cases cardinality : f.cardinality <;> rw [cardinality] at singular <;> first | rfl | cases singular

theorem container_of_map (map : f.isMap = true) : f.container = .mapValues := by
  rw [Field.isMap] at map
  rw [Field.container, Field.isList, Field.isMap]
  cases cardinality : f.cardinality <;> rw [cardinality] at map <;> first | rfl | cases map

theorem container_of_list (isList : f.isList = true) : f.container = .list := by
  rw [Field.container, isList]
  rfl

theorem not_singular_of_list (isList : f.isList = true) : f.isSingular = false := by
  rw [Field.isList] at isList
  rw [Field.isSingular]
  cases cardinality : f.cardinality <;> rw [cardinality] at isList <;> first | rfl | cases isList

theorem not_map_of_list (isList : f.isList = true) : f.isMap = false := by
  rw [Field.isList] at isList
  rw [Field.isMap]
  cases cardinality : f.cardinality <;> rw [cardinality] at isList <;> first | rfl | cases isList

theorem not_map_of_singular (singular : f.isSingular = true) : f.isMap = false := by
  rw [Field.isSingular] at singular
  rw [Field.isMap]
  cases cardinality : f.cardinality <;> rw [cardinality] at singular <;> first | rfl | cases singular

end Shape

section Kinds

variable {index : Index} {m : Message} {planned : String → Bool} {f : Field}

theorem childSteps_nil (alone : f.message? = none) : childSteps index planned f = [] := by
  rw [childSteps, alone]

theorem childSteps_some {child : String} (typed : f.message? = some child) :
    childSteps index planned f = (if planned child then [f.step f.container (.nested child)] else [])
      ++ ((unwrapValues? index f child).toList.map fun t => f.step .mapValues t) := by
  rw [childSteps, typed]

theorem unwrapValues?_none (plain : f.isMap = false) (child : String) : unwrapValues? index f child = none := by
  cases given : unwrapValues? index f child with
  | none => rfl
  | some t =>
    obtain ⟨_, _, _, _, map, _⟩ := unwrapValues?_eq_some index f given
    rw [plain] at map
    cases map

theorem bytes_unchanged (checked : f.Checked index m) (other : f.type ≠ .scalar .bytes) :
    f.annotations.changesBytes = false := by
  by_contra changes
  exact other (checked.bytes_type (Bool.not_eq_false _ ▸ changes)).2

theorem timestamp_unchanged (checked : f.Checked index m) (other : f.message? ≠ some WellKnown.timestamp) :
    f.annotations.changesTimestamp = false := by
  by_contra changes
  exact other (checked.timestamp_type (Bool.not_eq_false _ ▸ changes)).2

theorem integerSteps_nil (checked : f.Checked index m)
    (other : ∀ s : Scalar, f.type = .scalar s → s.is64Bit = false) : integerSteps f = [] := by
  rw [integerSteps]
  split
  · rename_i s number typed
    obtain ⟨_, s', typed', wide⟩ := checked.int64_type number
    rw [other s' typed'] at wide
    cases wide
  · rfl

theorem recodeSteps_message (checked : f.Checked index m) {name : String} (typed : f.type = .message name) :
    recodeSteps index f = if f.annotations.changesTimestamp then
      [f.step f.container (.timestampAs f.annotations.timestamp)] else [] := by
  have no_enum : enumSteps index f = [] := by rw [enumSteps, Field.enum?, typed]; rfl
  have no_integer := integerSteps_nil checked fun s typed' => by rw [typed] at typed'; cases typed'
  rw [recodeSteps, no_enum, no_integer, bytes_unchanged checked (by rw [typed]; simp)]
  simp

theorem recodeSteps_scalar (checked : f.Checked index m) {s : Scalar} (typed : f.type = .scalar s) :
    recodeSteps index f =
      (if f.annotations.int64 = .number then
        [f.step f.container (.integerAsNumber (s == .uint64 || s == .fixed64))] else [])
      ++ if f.annotations.changesBytes then [f.step f.container (.bytesAs f.annotations.bytes)] else [] := by
  have alone : f.message? = none := by rw [Field.message?, typed]; rfl
  have no_enum : enumSteps index f = [] := by rw [enumSteps, Field.enum?, typed]; rfl
  rw [recodeSteps, no_enum, timestamp_unchanged checked (by simp [alone]), integerSteps, typed]
  cases f.annotations.int64 <;> simp

theorem recodeSteps_eq_enumSteps (checked : f.Checked index m) {name : String} (typed : f.type = .enum name) :
    recodeSteps index f = (enumSteps index f).map fun (container, transform) => f.step container transform := by
  have alone : f.message? = none := by rw [Field.message?, typed]; rfl
  have no_integer := integerSteps_nil checked fun s typed' => by rw [typed] at typed'; cases typed'
  rw [recodeSteps, no_integer, timestamp_unchanged checked (by simp [alone]),
    bytes_unchanged checked (by rw [typed]; simp)]
  simp

theorem recodeSteps_enum (checked : f.Checked index m) {name : String} (typed : f.type = .enum name) {e : Enum}
    (found : index.enum? name = some e) : recodeSteps index f =
      if f.annotations.enumeration = .number then
        [f.step f.container (.enumAsNumber name (e.table fun v => toString v.number))]
      else if e.hasCustomNames = true then [f.step f.container (.enumCustomNames name (e.table EnumValue.wireName))]
      else [] := by
  have held : f.enum? = some name := by rw [Field.enum?, typed]; rfl
  rw [recodeSteps_eq_enumSteps checked typed, enumSteps, held]
  simp only [found]
  split
  · rfl
  · split <;> rfl

theorem recodeSteps_unknown (checked : f.Checked index m) {name : String} (typed : f.type = .enum name)
    (unknown : index.enum? name = none) : recodeSteps index f = [] := by
  have held : f.enum? = some name := by rw [Field.enum?, typed]; rfl
  rw [recodeSteps_eq_enumSteps checked typed, enumSteps, held]
  simp only [unknown]
  rfl

theorem recodeSteps_alone (checked : f.Checked index m) (own : planned WellKnown.timestamp = false) :
    recodeSteps index f = [] ∨ (childSteps index planned f = [] ∧
      ∃ transform : Transform, transform.recodes = true ∧
        recodeSteps index f = [f.step f.container transform]) := by
  -- The type of the field decides which transform may recode it, if any.
  cases typed : f.type with
  | scalar s =>
    have childless : childSteps index planned f = [] := childSteps_nil (by rw [Field.message?, typed]; rfl)
    rw [recodeSteps_scalar checked typed]
    by_cases number : f.annotations.int64 = .number
    · -- No scalar is both a wide integer and bytes.
      obtain ⟨_, s', typed', wide⟩ := checked.int64_type number
      cases typed.symm.trans typed'
      have other : s ≠ .bytes := fun same => by rw [same] at wide; cases wide
      rw [if_pos number, bytes_unchanged checked (by rw [typed]; simpa using other)]
      exact .inr ⟨childless, _, rfl, rfl⟩
    · rw [if_neg number]
      cases f.annotations.changesBytes with
      | false => exact .inl rfl
      | true => exact .inr ⟨childless, _, rfl, rfl⟩
  | enum name =>
    have childless : childSteps index planned f = [] := childSteps_nil (by rw [Field.message?, typed]; rfl)
    cases found : index.enum? name with
    | none => exact .inl (recodeSteps_unknown checked typed found)
    | some e =>
      rw [recodeSteps_enum checked typed found]
      split
      · exact .inr ⟨childless, _, rfl, rfl⟩
      · split
        · exact .inr ⟨childless, _, rfl, rfl⟩
        · exact .inl rfl
  | message name =>
    have is_message : f.message? = some name := by rw [Field.message?, typed]; rfl
    rw [recodeSteps_message checked typed]
    cases changes : f.annotations.changesTimestamp with
    | false => exact .inl rfl
    | true =>
      obtain ⟨plain, time⟩ := checked.timestamp_type changes
      refine .inr ⟨?_, _, rfl, rfl⟩
      rw [is_message] at time
      cases Option.some.inj time
      rw [childSteps_some is_message, own, unwrapValues?_none plain]
      rfl

theorem type_of_message? {child : String} (typed : f.message? = some child) : f.type = .message child := by
  rw [Field.message?] at typed
  cases type : f.type with
  | message name =>
    rw [type] at typed
    rw [Option.some.inj typed]
  | _ =>
    rw [type] at typed
    cases typed

theorem recodeSteps_nil (checked : f.Checked index m) {child : String} (typed : f.message? = some child)
    (other : child ≠ WellKnown.timestamp) : recodeSteps index f = [] := by
  rw [recodeSteps_message checked (type_of_message? typed),
    timestamp_unchanged checked (by rw [typed]; simpa using other)]
  rfl

end Kinds

end Index

namespace Codec

open Json (Alike AlikeAt)
open Index

def ChildWire (planned : String → Bool) (encode : String → Json → Result Json) (child : String)
    (value wire : Json) : Prop :=
  if planned child then encode child value = .ok wire else wire = value

structure Restorable (index : Index) (planned : String → Bool) (encode decode : String → Json → Result Json)
    (f : Field) (value : Json) : Prop where
  present : value.isNull = false
  distinct : value.Distinct
  shaped : f.isMap = true → ∃ members : Entries Json, value = .obj members
  child : ∀ child, f.message? = some child → planned child = true → unwrapValues? index f child = none →
    RestoresWithin (encode child) (decode child) f.container value
  collapsed : ∀ child elementType inner, f.message? = some child →
    unwrapValues? index f child = some (.unwrapValues elementType inner) →
      ∀ x ∈ addressed .mapValues value, Collapsed inner x ∧
        (planned child = true → CollapseRestores (encode child) (decode child) inner x)
  recode : ∀ step ∈ recodeSteps index f,
    RestoresWithin step.transform.encodeValue step.transform.decodeValue f.container value
  kept : f.annotations.empty = .omit → value ≠ .obj []

section Fields

variable {index : Index} {m : Message} {planned : String → Bool} {f : Field}
  {encode decode : String → Json → Result Json} {plan : Plan} {value : Json}

theorem child_maps : ∀ step ∈ childSteps index planned f, step.transform.maps = true := by
  intro step inside
  obtain ⟨_, _, ⟨_, rfl⟩ | ⟨t, given, rfl⟩⟩ := mem_childSteps.mp inside
  · rfl
  · obtain ⟨_, _, _, _, _, _, _, rfl⟩ := unwrapValues?_eq_some index f given
    rfl

theorem recode_maps : ∀ step ∈ recodeSteps index f, step.transform.maps = true := by
  intro step inside
  obtain ⟨transform, rfl, recodes⟩ := recodes_of_mem index f inside
  cases transform <;> first | rfl | cases recodes

theorem core_maps : ∀ step ∈ childSteps index planned f ++ recodeSteps index f,
    step.transform.maps = true := by
  intro step inside
  rcases List.mem_append.mp inside with child | recode
  · exact child_maps step child
  · exact recode_maps step recode

variable (plan) in
theorem child_undone (restorable : Restorable index planned encode decode f value) :
    ∃ w, w.isNull = false ∧ UndoneAt encode decode plan (childSteps index planned f) (some value) (some w) ∧
      ∀ child, f.message? = some child → f.isSingular = true → ChildWire planned encode child value w := by
  have unchanged : UndoneAt encode decode plan [] (some value) (some value) :=
    UndoneAt.nil fun v inside => by cases inside; exact restorable.distinct
  cases typed : f.message? with
  | none =>
    rw [childSteps_nil typed]
    exact ⟨value, restorable.present, unchanged, fun child never => nomatch never⟩
  | some child =>
    rw [childSteps_some typed]
    cases unwraps : unwrapValues? index f child with
    | none =>
      cases own : planned child with
      | false =>
        refine ⟨value, restorable.present, unchanged, fun other same _ => ?_⟩
        cases Option.some.inj same
        simp [ChildWire, own]
      | true =>
        obtain ⟨w, encoded, present, undone⟩ := nested_undone (f.step f.container (.nested child)) rfl
          restorable.distinct restorable.present (restorable.child child typed own unwraps)
        refine ⟨w, present, undone, fun other same singular => ?_⟩
        cases Option.some.inj same
        rw [Field.step, container_of_singular singular, mapContainer_single _ restorable.present] at encoded
        simpa [ChildWire, own] using encoded
    | some t =>
      obtain ⟨_, inner, _, _, map, _, _, rfl⟩ := unwrapValues?_eq_some index f unwraps
      obtain ⟨members, rfl⟩ := restorable.shaped map
      have collapsed := restorable.collapsed child _ _ typed unwraps
      -- A map is not singular, so nothing is said of a single value on the wire.
      have never {p : Prop} : f.isSingular = true → p := fun singular => by
        rw [not_map_of_singular singular] at map
        cases map
      cases own : planned child with
      | false =>
        obtain ⟨w, present, undone⟩ := unwrap_undone (f.step .mapValues _) rfl rfl restorable.distinct
          fun x inside => (collapsed x inside).1
        exact ⟨w, present, undone, fun _ _ singular => never singular⟩
      | true =>
        obtain ⟨w, present, undone⟩ := nested_unwrap_undone (f.step f.container (.nested child))
          (f.step .mapValues _) rfl rfl (container_of_map map) rfl restorable.distinct
          fun x inside => (collapsed x inside).2 own
        exact ⟨w, present, undone, fun _ _ singular => never singular⟩

variable (plan) in
theorem core_undone (checked : f.Checked index m) (own : planned WellKnown.timestamp = false)
    (restorable : Restorable index planned encode decode f value) :
    ∃ w, w.isNull = false ∧
      UndoneAt encode decode plan (childSteps index planned f ++ recodeSteps index f) (some value) (some w) ∧
      (recodeSteps index f = [] → ∀ child, f.message? = some child → f.isSingular = true →
        ChildWire planned encode child value w) := by
  rcases recodeSteps_alone checked own with plain | ⟨childless, transform, recodes, alone⟩
  · obtain ⟨w, present, undone, child⟩ := child_undone plan restorable
    rw [plain, List.append_nil]
    exact ⟨w, present, undone, fun _ => child⟩
  · obtain ⟨w, _, present, undone⟩ := recode_undone recodes restorable.distinct restorable.present
      (restorable.recode _ (by rw [alone]; exact List.mem_singleton_self _))
    rw [childless, alone]
    exact ⟨w, present, undone, fun never => nomatch never⟩

theorem isEmptyObject_iff : isEmptyObject value = true ↔ value = .obj [] := by
  constructor
  · intro empty
    unfold isEmptyObject at empty
    split at empty
    · rfl
    · cases empty
  · rintro rfl
    rfl

theorem empty_undone (distinct : value.Distinct) (present : value.isNull = false)
    (kept : f.annotations.empty = .omit → value ≠ .obj []) :
    ∃ o, UndoneAt encode decode plan (emptySteps f) (some value) o ∧
      (o = some value ∨ (f.annotations.changesEmpty = true ∧ o = some .null)) := by
  have unchanged : UndoneAt encode decode plan [] (some value) (some value) :=
    UndoneAt.nil fun v inside => by cases inside; exact distinct
  rw [emptySteps]
  split
  -- Only an empty object is changed, and to null: there is none where empty ones are omitted.
  · rename_i changes
    have there : some value ≠ some Json.null := fun same => by
      rw [Option.some.inj same] at present
      cases present
    by_cases empty : value = .obj []
    · subst empty
      have behavior : f.annotations.empty = .null := by
        have either := (Bool.and_eq_true_iff.mp changes).2
        simp only [Annotations.changesEmpty, Bool.or_eq_true, beq_iff_eq] at either
        exact either.resolve_right fun omitted => kept omitted rfl
      refine ⟨some .null, ⟨?_, fun v inside => ?_, some (.obj []), ?_, Alike.refl distinct⟩,
        .inr ⟨(Bool.and_eq_true_iff.mp changes).2, rfl⟩⟩
      · rw [behavior]
        rfl
      · cases inside
        trivial
      · rw [behavior]
        rfl
    · have full : isEmptyObject value = false := by
        rw [← Bool.not_eq_true, isEmptyObject_iff]
        exact empty
      refine ⟨some value, ⟨?_, fun v inside => ?_, some value, ?_, Alike.refl distinct⟩, .inl rfl⟩
      · rw [encodeBlock, encodeAt]
        simp [Field.step, full, encodeBlock, ok_bind]
      · cases inside
        exact distinct
      · rw [List.reverse_singleton, decodeBlock, decodeAt]
        simp [Field.step, restoreEmpty_of_ne _ there, decodeBlock, ok_bind]
  · exact ⟨some value, unchanged, .inl rfl⟩

theorem null_undone_present (distinct : value.Distinct) (present : value.isNull = false) :
    UndoneAt encode decode plan (nullSteps f) (some value) (some value) := by
  have there : some value ≠ some Json.null := fun same => by
    rw [Option.some.inj same] at present
    cases present
  have given : ∀ v ∈ some value, v.Distinct := fun v inside => by
    cases inside
    exact distinct
  rw [nullSteps]
  split
  · refine ⟨rfl, given, some value, ?_, Alike.refl distinct⟩
    rw [List.reverse_singleton, decodeBlock, decodeAt]
    simp [Field.step, dropNull_of_ne there, decodeBlock, ok_bind]
  · exact UndoneAt.nil given

def absentWire (f : Field) : Option Json := if f.annotations.nullable then some .null else none

theorem null_undone_absent : UndoneAt encode decode plan (nullSteps f) none (absentWire f) := by
  rw [nullSteps, absentWire]
  split
  · refine ⟨rfl, fun v inside => ?_, none, rfl, trivial⟩
    cases inside
    trivial
  · refine UndoneAt.nil fun v inside => ?_
    cases inside

theorem bodySteps_of_unlifted (unlifted : f.lifted? = none) : bodySteps index planned f =
    emptySteps f ++ (childSteps index planned f ++ recodeSteps index f) ++ nullSteps f := by
  have none_lifted : liftSteps index f = [] := by rw [liftSteps, unlifted]
  rw [bodySteps, none_lifted, List.append_nil, List.append_assoc, List.append_assoc, List.append_assoc]

theorem staysAt_childSteps : StaysAt f.jsonName (childSteps index planned f) := by
  intro step inside
  refine ⟨?_, Transform.isLocal_of_maps (child_maps step inside)⟩
  obtain ⟨_, _, ⟨_, rfl⟩ | ⟨t, _, rfl⟩⟩ := mem_childSteps.mp inside <;> rfl

variable (index planned) in
theorem staysAt_of_unlifted (unlifted : f.lifted? = none) :
    StaysAt f.jsonName (bodySteps index planned f) := by
  intro step inside
  simp only [bodySteps_of_unlifted unlifted, List.mem_append] at inside
  rcases inside with (empty | child | recode) | null
  · obtain ⟨_, _, rfl⟩ := mem_emptySteps.mp empty
    exact ⟨rfl, rfl⟩
  · exact staysAt_childSteps step child
  · have maps := recode_maps step recode
    obtain ⟨transform, rfl, _⟩ := recodes_of_mem index f recode
    exact ⟨rfl, Transform.isLocal_of_maps maps⟩
  · obtain ⟨_, rfl⟩ := mem_nullSteps.mp null
    exact ⟨rfl, rfl⟩

theorem empty_undone_absent : UndoneAt encode decode plan (emptySteps f) none none := by
  rw [emptySteps]
  split
  · refine ⟨rfl, by simp, none, ?_, trivial⟩
    rw [List.reverse_singleton, decodeBlock, decodeAt]
    simp [Field.step, restoreEmpty_of_ne, decodeBlock, ok_bind]
  · exact UndoneAt.nil (by simp)

variable (keeps : ∀ name, KeepsAlike (decode name)) (unlifted : f.lifted? = none)

include keeps unlifted

theorem absent_undone : UndoneAt encode decode plan (bodySteps index planned f) none (absentWire f) := by
  rw [bodySteps_of_unlifted unlifted]
  have core : UndoneAt encode decode plan (childSteps index planned f ++ recodeSteps index f) none none :=
    UndoneAt.of_passing core_maps (.inl rfl)
  exact (empty_undone_absent.append keeps core).append keeps null_undone_absent

theorem present_undone (checked : f.Checked index m) (own : planned WellKnown.timestamp = false)
    (restorable : Restorable index planned encode decode f value) :
    ∃ o, UndoneAt encode decode plan (bodySteps index planned f) (some value) o ∧
      ((f.annotations.changesEmpty = true ∧ o = some .null) ∨
        ∃ w, o = some w ∧ w.isNull = false ∧ (recodeSteps index f = [] → ∀ child,
          f.message? = some child → f.isSingular = true → ChildWire planned encode child value w)) := by
  rw [bodySteps_of_unlifted unlifted]
  obtain ⟨o, empty, outcome⟩ := empty_undone restorable.distinct restorable.present restorable.kept
  rcases outcome with rfl | ⟨changes, rfl⟩
  · obtain ⟨w, present, core, child⟩ := core_undone plan checked own restorable
    have null : UndoneAt encode decode plan (nullSteps f) (some w) (some w) :=
      null_undone_present (core.distinct w rfl) present
    exact ⟨some w, (empty.append keeps core).append keeps null, .inr ⟨w, rfl, present, child⟩⟩
  · have core : UndoneAt encode decode plan (childSteps index planned f ++ recodeSteps index f)
        (some .null) (some .null) := UndoneAt.of_passing core_maps (.inr rfl)
    have no_null : nullSteps f = [] := by
      rw [nullSteps, if_neg]
      intro nullable
      have typed := (checked.empty_type changes).2
      rw [(checked.nullable nullable).1] at typed
      cases typed
    rw [no_null, List.append_nil]
    exact ⟨some .null, empty.append keeps core, .inl ⟨changes, rfl⟩⟩

end Fields

end Codec

end Wireform
