import Wireform.Proofs.RoundTrip
import Wireform.Proofs.SettledValues

set_option autoImplicit false

namespace Wireform.Codec

open Json (AlikeAt)
open Index

theorem mapContainer_all {ε : Type} {f : Json → Except ε Json} {container : Container} {value wire : Json}
    {P : Json → Prop} (distinct : value.Distinct) (shapes : container.Shapes value)
    (run : mapContainer container f value = .ok wire)
    (each : ∀ x ∈ container.values value, x.isNull = false → ∀ y, f x = .ok y →
      y.Distinct ∧ (y.isNull = false → P y)) :
    container.Shapes wire ∧ wire.Distinct ∧ ∀ y ∈ addressed container wire, P y := by
  obtain ⟨stays, origin⟩ := mem_mapContainer shapes run
  have made : ∀ y ∈ container.values wire, y.Distinct ∧ (y.isNull = false → P y) := by
    intro y inside
    obtain ⟨x, there, made⟩ := origin y inside
    cases null : x.isNull with
    | true =>
      -- Null is passed over.
      rw [unlessNull, if_pos null] at made
      cases Except.ok.inj made
      refine ⟨Container.distinct_of_mem distinct there, fun present => ?_⟩
      rw [null] at present
      cases present
    | false =>
      rw [unlessNull, null] at made
      exact each x there null y made
  refine ⟨stays, ?_, fun y inside => ?_⟩
  · cases container with
    | single => exact (made wire (List.mem_singleton_self _)).1
    | list =>
      cases wire with
      | arr items => exact Json.distinct_arr.mpr fun item inside => (made item inside).1
      | _ => exact stays.elim
    | mapValues =>
      cases value with
      | obj members =>
        obtain ⟨results, mapped, rfl⟩ := map_eq_ok run
        have keys := (Json.distinct_obj.mp distinct).1
        refine Json.distinct_obj.mpr ⟨?_, fun key v found => ?_⟩
        · rw [Entries.Distinct, keys_mapMembers mapped]
          exact keys
        · exact (made v (List.mem_map.mpr ⟨_, Entries.mem_of_get? found, rfl⟩)).1
      | _ => exact shapes.elim
  · obtain ⟨there, present⟩ := mem_addressed inside
    exact (made y there).2 present

section Blocks

variable {encode decode : String → Json → Result Json} {plan : Plan}

def ComesBack (encode decode : String → Json → Result Json) (plan : Plan) (steps : List Step) (wire : Json) : Prop :=
  ∃ back, decodeBlock decode plan steps.reverse (some wire) = .ok (some back) ∧ back.isNull = false ∧
    ∃ again, encodeBlock encode plan steps (some back) = .ok (some again) ∧ Json.Alike again wire

def StableAt (encode decode : String → Json → Result Json) (plan : Plan) (steps : List Step) (p : Option Json) :
    Prop :=
  ∃ q, decodeBlock decode plan steps.reverse p = .ok q ∧
    ∃ r, encodeBlock encode plan steps q = .ok r ∧ AlikeAt r p

theorem ComesBack.nil {wire : Json} (present : wire.isNull = false) (distinct : wire.Distinct) :
    ComesBack encode decode plan [] wire :=
  ⟨wire, rfl, present, wire, rfl, Json.Alike.refl distinct⟩

theorem ComesBack.of_restores {step : Step} {f g : Json → Result Json}
    (encodes : encodeAt encode plan step = whenPresent f) (decodes : decodeAt decode plan step = whenPresent g)
    {wire : Json} (restores : Restores g f wire) : ComesBack encode decode plan [step] wire := by
  obtain ⟨back, decoded, present, _, again, encoded, alike⟩ := restores
  refine ⟨back, ?_, present, again, ?_, alike⟩
  · rw [List.reverse_singleton, decodeBlock, decodes, whenPresent, decoded]
    rfl
  · rw [encodeBlock, encodes, whenPresent, encoded]
    rfl

theorem wrapValue_restores {inner : String} {items : List Json} (distinct : (Json.arr items).Distinct) :
    Restores (ε := CodecError) (δ := CodecError) (fun v => .ok (wrapValue inner v))
      (fun v => .ok (unwrapValue inner v)) (.arr items) := by
  refine ⟨_, rfl, isNull_wrapValue _ _, ?_, .arr items, ?_, Json.Alike.refl distinct⟩
  · cases items with
    | nil => exact Json.distinct_empty
    | cons item rest => exact Json.distinct_obj.mpr (by simpa [Entries.Distinct, Entries.keys, Entries.get?] using distinct)
  · cases items with
    | nil => rfl
    | cons item rest => simp [wrapValue, unwrapValue, Json.get?, Entries.get?]

theorem ComesBack.of_collapsed {first second : Step} {child inner : String} {elementType : Option String}
    (nested : first.transform = .nested child) (unwraps : second.transform = .unwrapValues elementType inner)
    (first_container : first.container = .mapValues) (second_container : second.container = .mapValues)
    {wires : Entries Json} (distinct : (Json.obj wires).Distinct)
    (objects : ∀ value result, encode child value = .ok result → value.isNull = false → result.isNull = false)
    (each : ∀ y ∈ addressed .mapValues (.obj wires), Restores (fun v => decode child (wrapValue inner v))
      (fun v => unwrapValue inner <$> encode child v) y) :
    ComesBack encode decode plan [first, second] (.obj wires) := by
  have inside {member : String × Json} (there : member ∈ wires) (present : member.2.isNull = false) :
      member.2 ∈ addressed .mapValues (.obj wires) := by
    simp only [addressed, List.mem_filter, List.mem_map, present, Bool.not_false, and_true]
    exact ⟨member, there, rfl⟩
  obtain ⟨backs, decoded, _, agains, encoded, alike⟩ :=
    mapMembers_restores distinct fun member there present => each _ (inside there present)
  rw [← mapMembers_passed _ fun value _ => isNull_wrapValue inner value] at decoded
  rw [← mapMembers_then_pure _ fun member _ present result made => objects _ result made present] at encoded
  obtain ⟨between, applied, rfl⟩ := map_eq_ok encoded
  refine ⟨.obj backs, ?_, rfl, .obj (passed (unwrapValue inner) between), ?_, alike⟩
  · rw [List.reverse_cons, List.reverse_singleton, List.singleton_append, decodeBlock,
      decodeAt_wraps second_container unwraps, ok_bind, decodeBlock, decodeAt_members first_container nested decoded,
      ok_bind, decodeBlock]
  · rw [encodeBlock, encodeAt_members first_container nested applied, ok_bind, encodeBlock,
      encodeAt_unwraps second_container unwraps, ok_bind, encodeBlock]

end Blocks

section Fields

variable {index : Index} {m : Message} {planned : String → Bool} {f : Field}
  {encode decode : String → Json → Result Json} {plan : Plan}

structure Settling (index : Index) (planned : String → Bool) (encode decode : String → Json → Result Json) (f : Field)
    (value : Json) : Prop where
  shapes : f.container.Shapes value
  distinct : value.Distinct
  child : ∀ child, f.message? = some child → planned child = true →
    ∀ x ∈ f.container.values value, x.isNull = false → ∀ y, encode child x = .ok y →
      y.Distinct ∧ (y.isNull = false → Restores (decode child) (encode child) y)
  listed : ∀ child elementType inner, f.message? = some child →
    unwrapValues? index f child = some (.unwrapValues elementType inner) → planned child = false →
      ∀ x ∈ f.container.values value, x.isNull = false →
        (unwrapValue inner x).isNull = false → ∃ items, unwrapValue inner x = .arr items
  collapsed : ∀ child elementType inner, f.message? = some child →
    unwrapValues? index f child = some (.unwrapValues elementType inner) → planned child = true →
      ∀ x ∈ f.container.values value, x.isNull = false → ∀ z, encode child x = .ok z →
        (unwrapValue inner z).isNull = false → Restores (fun v => decode child (wrapValue inner v))
          (fun v => unwrapValue inner <$> encode child v) (unwrapValue inner z)
  objects : ∀ child elementType inner, f.message? = some child →
    unwrapValues? index f child = some (.unwrapValues elementType inner) → planned child = true →
      ∀ x z, encode child x = .ok z → x.isNull = false → z.isNull = false
  recode : ∀ step ∈ recodeSteps index f, ∀ x ∈ f.container.values value, x.isNull = false →
    ∀ y, step.transform.encodeValue x = .ok y → step.transform.Settles y

section Values

variable {value : Json} (settling : Settling index planned encode decode f value)

include settling

theorem recoded_comesBack {transform : Transform} (recodes : transform.recodes = true)
    (alone : recodeSteps index f = [f.step f.container transform]) {o : Option Json}
    (run : encodeBlock encode plan [f.step f.container transform] (some value) = .ok o) :
    ∃ wire, o = some wire ∧ f.container.Shapes wire ∧ wire.Distinct ∧
      (wire.isNull = false → ComesBack encode decode plan [f.step f.container transform] wire) := by
  obtain ⟨between, first, last⟩ := bind_eq_ok run
  cases Except.ok.inj last
  have recodes : (f.step f.container transform).transform.recodes = true := recodes
  rw [encodeAt_recodes recodes] at first
  obtain ⟨wire, made, rfl⟩ := map_eq_ok first
  obtain ⟨stays, distinct, each⟩ := mapContainer_all (P := Restores transform.decodeValue transform.encodeValue)
    settling.distinct settling.shapes (mapError_eq_ok made) fun x inside present y encoded => by
      obtain ⟨distinct, restores⟩ := (settling.recode _ (by rw [alone]; exact List.mem_singleton_self _) x inside
        present y encoded).restores
      exact ⟨distinct, fun _ => restores⟩
  refine ⟨wire, rfl, stays, distinct, fun present => ?_⟩
  have whole := mapContainer_restores distinct present each
  exact .of_restores (encodeAt_recodes recodes) (decodeAt_recodes recodes) (restores_mapError whole _ _)

theorem nested_comesBack {child : String} (typed : f.message? = some child) (own : planned child = true)
    {o : Option Json} (run : encodeBlock encode plan [f.step f.container (.nested child)] (some value) = .ok o) :
    ∃ wire, o = some wire ∧ f.container.Shapes wire ∧ wire.Distinct ∧
      (wire.isNull = false → ComesBack encode decode plan [f.step f.container (.nested child)] wire) := by
  obtain ⟨between, first, last⟩ := bind_eq_ok run
  cases Except.ok.inj last
  obtain ⟨wire, made, rfl⟩ := map_eq_ok first
  obtain ⟨stays, distinct, each⟩ := mapContainer_all (P := Restores (decode child) (encode child)) settling.distinct
    settling.shapes made (settling.child child typed own)
  refine ⟨wire, rfl, stays, distinct, fun present => ?_⟩
  exact .of_restores rfl rfl (mapContainer_restores distinct present each)

theorem unwrapped_comesBack {child inner : String} {elementType : Option String} (typed : f.message? = some child)
    (unwraps : unwrapValues? index f child = some (.unwrapValues elementType inner)) {o : Option Json}
    (run : encodeBlock encode plan (childSteps index planned f) (some value) = .ok o) :
    ∃ wire, o = some wire ∧ f.container.Shapes wire ∧ wire.Distinct ∧
      (wire.isNull = false → ComesBack encode decode plan (childSteps index planned f) wire) := by
  obtain ⟨_, _, _, _, map, _⟩ := unwrapValues?_eq_some index f unwraps
  have container := container_of_map map
  rw [childSteps_some typed, unwraps] at run ⊢
  -- Values without a plan give their list away as they are; the others are encoded before.
  cases own : planned child with
  | false =>
    simp only [own, Bool.false_eq_true, if_false, Option.toList_some, List.map_cons, List.map_nil,
      List.nil_append] at run ⊢
    obtain ⟨between, first, last⟩ := bind_eq_ok run
    cases Except.ok.inj last
    obtain ⟨wire, made, rfl⟩ := map_eq_ok first
    rw [Field.step, ← container] at made
    obtain ⟨stays, distinct, each⟩ := mapContainer_all (P := Restores (ε := CodecError) (δ := CodecError)
        (fun v => .ok (wrapValue inner v)) (fun v => .ok (unwrapValue inner v))) settling.distinct settling.shapes made
      fun x inside present y unwrapped => by
        cases Except.ok.inj unwrapped
        have distinct := unwrapValue_distinct inner (Container.distinct_of_mem settling.distinct inside)
        refine ⟨distinct, fun there => ?_⟩
        obtain ⟨items, list⟩ := settling.listed child _ _ typed unwraps own x inside present there
        rw [list] at distinct ⊢
        exact wrapValue_restores distinct
    refine ⟨wire, rfl, stays, distinct, fun present => .of_restores rfl rfl ?_⟩
    rw [Field.step, ← container]
    exact mapContainer_restores distinct present each
  | true =>
    simp only [own, if_true, Option.toList_some, List.map_cons, List.map_nil, List.singleton_append] at run ⊢
    obtain ⟨middle, first, later⟩ := bind_eq_ok run
    obtain ⟨last, second, done⟩ := bind_eq_ok later
    cases Except.ok.inj done
    obtain ⟨between, made, rfl⟩ := map_eq_ok first
    obtain ⟨wire, unwrapped, rfl⟩ := map_eq_ok second
    rw [Field.step, ← container] at unwrapped
    obtain ⟨kept, clean, collapsed⟩ := mapContainer_all
      (P := fun z => (unwrapValue inner z).isNull = false → Restores (fun v => decode child (wrapValue inner v))
        (fun v => unwrapValue inner <$> encode child v) (unwrapValue inner z)) settling.distinct settling.shapes made
      fun x inside present z encoded => ⟨(settling.child child typed own x inside present z encoded).1,
        fun _ => settling.collapsed child _ _ typed unwraps own x inside present z encoded⟩
    obtain ⟨stays, distinct, each⟩ := mapContainer_all (P := Restores (fun v => decode child (wrapValue inner v))
        (fun v => unwrapValue inner <$> encode child v)) clean kept unwrapped fun z inside present y taken => by
      cases Except.ok.inj taken
      refine ⟨unwrapValue_distinct inner (Container.distinct_of_mem clean inside), collapsed z ?_⟩
      rw [addressed_eq, List.mem_filter]
      exact ⟨inside, by rw [present]; rfl⟩
    refine ⟨wire, rfl, stays, distinct, fun present => ?_⟩
    rw [container] at stays each
    cases wire with
    | obj wires =>
      exact .of_collapsed rfl rfl container rfl distinct (settling.objects child _ _ typed unwraps own) each
    | _ => exact stays.elim

theorem core_comesBack (checked : f.Checked index m) (own : planned WellKnown.timestamp = false) {o : Option Json}
    (run : encodeBlock encode plan (childSteps index planned f ++ recodeSteps index f) (some value) = .ok o) :
    ∃ wire, o = some wire ∧ f.container.Shapes wire ∧ wire.Distinct ∧ (wire.isNull = false →
      ComesBack encode decode plan (childSteps index planned f ++ recodeSteps index f) wire) := by
  -- A field is recoded or has a child, never both; a child is nested, unwrapped or passed on.
  rcases recodeSteps_alone checked own with plain | ⟨childless, transform, recodes, alone⟩
  · rw [plain, List.append_nil] at run ⊢
    have unchanged (none_left : childSteps index planned f = []) : ∃ wire, o = some wire ∧
        f.container.Shapes wire ∧ wire.Distinct ∧
          (wire.isNull = false → ComesBack encode decode plan (childSteps index planned f) wire) := by
      rw [none_left] at run ⊢
      cases Except.ok.inj run
      exact ⟨value, rfl, settling.shapes, settling.distinct, fun present => .nil present settling.distinct⟩
    cases typed : f.message? with
    | none => exact unchanged (childSteps_nil typed)
    | some child =>
      cases unwraps : unwrapValues? index f child with
      | none =>
        cases listed : planned child with
        | false =>
          refine unchanged ?_
          rw [childSteps_some typed, unwraps, listed]
          rfl
        | true =>
          have single : childSteps index planned f = [f.step f.container (.nested child)] := by
            rw [childSteps_some typed, unwraps, listed]
            rfl
          rw [single] at run ⊢
          exact nested_comesBack settling typed listed run
      | some t =>
        obtain ⟨_, _, _, _, _, _, _, rfl⟩ := unwrapValues?_eq_some index f unwraps
        exact unwrapped_comesBack settling typed unwraps run
  · rw [childless, List.nil_append, alone] at run ⊢
    exact recoded_comesBack settling recodes alone run

end Values

section Edges

theorem present_of_core {value wire : Json} (present : wire.isNull = false)
    (run : encodeBlock encode plan (childSteps index planned f ++ recodeSteps index f) (some value) =
      .ok (some wire)) : value.isNull = false := by
  cases null : value.isNull with
  | false => rfl
  | true =>
    have same : value = .null := by cases value <;> first | rfl | cases null
    subst same
    rw [encodeBlock_passes core_maps (.inr rfl)] at run
    cases Except.ok.inj run
    cases present

theorem encodeBlock_empty_absent : encodeBlock encode plan (emptySteps f) none = .ok none := by
  rw [emptySteps]
  split <;> rfl

theorem encodeBlock_empty_full {value : Json}
    (full : f.isSingular = true → f.annotations.changesEmpty = true → value ≠ .obj []) :
    encodeBlock encode plan (emptySteps f) (some value) = .ok (some value) := by
  rw [emptySteps]
  split
  · rename_i changes
    obtain ⟨singular, changes⟩ := Bool.and_eq_true_iff.mp changes
    have other : isEmptyObject value = false := by
      rw [← Bool.not_eq_true, isEmptyObject_iff]
      exact full singular changes
    rw [encodeBlock, encodeAt]
    simp [Field.step, other, encodeBlock, ok_bind]
  · rfl

theorem full_of_encodeBlock_empty {o : Option Json} {value : Json}
    (run : encodeBlock encode plan (emptySteps f) o = .ok (some value)) (present : value.isNull = false) :
    o = some value ∧ (f.isSingular = true → f.annotations.changesEmpty = true → value ≠ .obj []) := by
  have same : o = some value := by
    rcases empty_of_block run with same | gone | ⟨null, _⟩
    · exact same.symm
    · cases gone
    · cases Option.some.inj null
      cases present
  subst same
  refine ⟨rfl, fun singular changes empty => ?_⟩
  subst empty
  have either : f.annotations.empty = .null ∨ f.annotations.empty = .omit := by
    simpa [Annotations.changesEmpty] using changes
  rw [emptySteps, singular, changes] at run
  rcases either with behavior | behavior
  · rw [behavior] at run
    cases Except.ok.inj run
  · rw [behavior] at run
    cases Except.ok.inj run

theorem decodeBlock_empty (q : Option Json) : decodeBlock decode plan (emptySteps f).reverse q =
    .ok (if f.isSingular && f.annotations.changesEmpty then restoreEmpty f.annotations.empty q else q) := by
  rw [emptySteps]
  split <;> rfl

theorem encodeBlock_null (q : Option Json) : encodeBlock encode plan (nullSteps f) q =
    .ok (if f.annotations.nullable then some (q.getD .null) else q) := by
  rw [nullSteps]
  split <;> rfl

theorem decodeBlock_null (q : Option Json) : decodeBlock decode plan (nullSteps f).reverse q =
    .ok (if f.annotations.nullable then dropNull q else q) := by
  rw [nullSteps]
  split <;> rfl

end Edges

section Whole

variable (unlifted : f.lifted? = none)

include unlifted

theorem encodeBlock_body (o : Option Json) : encodeBlock encode plan (bodySteps index planned f) o = (do
    let o ← encodeBlock encode plan (emptySteps f) o
    let o ← encodeBlock encode plan (childSteps index planned f ++ recodeSteps index f) o
    return if f.annotations.nullable then some (o.getD .null) else o) := by
  rw [bodySteps_of_unlifted unlifted, encodeBlock_append, encodeBlock_append, bind_assoc]
  simp only [encodeBlock_null]
  rfl

theorem decodeBlock_body (p : Option Json) : decodeBlock decode plan (bodySteps index planned f).reverse p = (do
    let q ← decodeBlock decode plan (childSteps index planned f ++ recodeSteps index f).reverse
      (if f.annotations.nullable then dropNull p else p)
    return if f.isSingular && f.annotations.changesEmpty then restoreEmpty f.annotations.empty q else q) := by
  rw [bodySteps_of_unlifted unlifted, List.reverse_append, List.reverse_append, decodeBlock_append,
    decodeBlock_null, ok_bind, decodeBlock_append]
  simp only [decodeBlock_empty]
  rfl

theorem encodeBlock_body_absent : encodeBlock encode plan (bodySteps index planned f) none = .ok (absentWire f) := by
  rw [encodeBlock_body unlifted, encodeBlock_empty_absent, ok_bind, encodeBlock_passes core_maps (.inl rfl), ok_bind]
  rfl

theorem decodeBlock_body_absent : decodeBlock decode plan (bodySteps index planned f).reverse none = .ok none := by
  rw [decodeBlock_body unlifted, dropNull_of_ne (by simp), ite_self,
    decodeBlock_passes (fun step inside => core_maps step (List.mem_reverse.mp inside)) (.inl rfl), ok_bind,
    restoreEmpty_of_ne _ (by simp), ite_self]
  rfl

theorem stableAt_of_absent {p : Option Json} (absent : p = some .null ∨ (p = none ∧ f.annotations.nullable = false)) :
    StableAt encode decode plan (bodySteps index planned f) p := by
  have passes {q : Option Json} (absent : q = none ∨ q = some .null) :
      encodeBlock encode plan (childSteps index planned f ++ recodeSteps index f) q = .ok q ∧
        decodeBlock decode plan (childSteps index planned f ++ recodeSteps index f).reverse q = .ok q :=
    ⟨encodeBlock_passes core_maps absent,
      decodeBlock_passes (fun step inside => core_maps step (List.mem_reverse.mp inside)) absent⟩
  have null : encodeBlock encode plan (emptySteps f) (some .null) = .ok (some .null) :=
    encodeBlock_empty_full fun _ _ same => by cases same
  rcases absent with rfl | ⟨rfl, plain⟩
  · cases nullable : f.annotations.nullable with
    | true =>
      -- Null is read as nothing, which is written as null.
      refine ⟨none, ?_, some .null, ?_, Json.Alike.refl trivial⟩
      · rw [decodeBlock_body unlifted, nullable, if_pos rfl, dropNull, (passes (.inl rfl)).2, ok_bind,
          restoreEmpty_of_ne _ (by simp), ite_self]
        rfl
      · rw [encodeBlock_body_absent unlifted, absentWire, nullable]
        rfl
    | false =>
      by_cases replaced : (f.isSingular && f.annotations.changesEmpty) = true ∧ f.annotations.empty = .null
      · -- Null is read as an empty object, which is written as null.
        have emptied : encodeBlock encode plan (emptySteps f) (some (.obj [])) = .ok (some .null) := by
          rw [emptySteps, if_pos replaced.1, replaced.2]
          rfl
        refine ⟨some (.obj []), ?_, some .null, ?_, Json.Alike.refl trivial⟩
        · rw [decodeBlock_body unlifted, nullable, if_neg Bool.false_ne_true, (passes (.inr rfl)).2, ok_bind,
            if_pos replaced.1, replaced.2]
          rfl
        · rw [encodeBlock_body unlifted, emptied, ok_bind, (passes (.inr rfl)).1, ok_bind, nullable]
          rfl
      · have kept : (if f.isSingular && f.annotations.changesEmpty then
            restoreEmpty f.annotations.empty (some .null) else some .null) = some .null := by
          split
          · rename_i changes
            cases behavior : f.annotations.empty with
            | null => exact absurd ⟨changes, behavior⟩ replaced
            | _ => rfl
          · rfl
        refine ⟨some .null, ?_, some .null, ?_, Json.Alike.refl trivial⟩
        · rw [decodeBlock_body unlifted, nullable, if_neg Bool.false_ne_true, (passes (.inr rfl)).2, ok_bind, kept]
          rfl
        · rw [encodeBlock_body unlifted, null, ok_bind, (passes (.inr rfl)).1, ok_bind, nullable]
          rfl
  · refine ⟨none, decodeBlock_body_absent unlifted, none, ?_, trivial⟩
    rw [encodeBlock_body_absent unlifted, absentWire, plain]
    rfl

theorem stable_of_vanished {o : Option Json} (absent : o = none ∨ o = some .null) :
    StableAt encode decode plan (bodySteps index planned f)
        (if f.annotations.nullable then some (o.getD .null) else o) ∧
      ∀ wire, (if f.annotations.nullable then some (o.getD .null) else o) = some wire →
        wire.isNull = true ∨ (f.container.Shapes wire ∧ wire.Distinct) := by
  refine ⟨stableAt_of_absent unlifted ?_, fun wire there => .inl ?_⟩
  · rcases absent with rfl | rfl <;> cases f.annotations.nullable <;> simp
  · rcases absent with rfl | rfl <;> cases nullable : f.annotations.nullable <;> rw [nullable] at there <;>
      cases there <;> rfl

theorem stable_of_core {wire : Json} (present : wire.isNull = false)
    (comes : ComesBack encode decode plan (childSteps index planned f ++ recodeSteps index f) wire)
    (filled : f.isSingular = true → f.annotations.changesEmpty = true →
      decodeBlock decode plan (childSteps index planned f ++ recodeSteps index f).reverse (some wire) ≠
        .ok (some (.obj []))) :
    StableAt encode decode plan (bodySteps index planned f) (some wire) := by
  have something {value : Json} (present : value.isNull = false) : some value ≠ some .null := fun same => by
    rw [Option.some.inj same] at present
    cases present
  obtain ⟨back, decoded, back_present, again, encoded, alike⟩ := comes
  refine ⟨some back, ?_, some again, ?_, alike⟩
  · rw [decodeBlock_body unlifted, dropNull_of_ne (something present), ite_self, decoded, ok_bind,
      restoreEmpty_of_ne _ (something back_present), ite_self]
    rfl
  · rw [encodeBlock_body unlifted, encodeBlock_empty_full fun singular changes same => ?_, ok_bind, encoded, ok_bind]
    · cases f.annotations.nullable <;> rfl
    · subst same
      exact filled singular changes decoded

theorem stableAt_of_run (checked : f.Checked index m) (own : planned WellKnown.timestamp = false) {o p : Option Json}
    (values : ∀ value, o = some value → value.isNull = true ∨ Settling index planned encode decode f value)
    (filled : f.isSingular = true → f.annotations.changesEmpty = true → ∀ value, o = some value → value ≠ .obj [] →
      ∀ wire, wire.isNull = false →
        encodeBlock encode plan (childSteps index planned f ++ recodeSteps index f) (some value) = .ok (some wire) →
        decodeBlock decode plan (childSteps index planned f ++ recodeSteps index f).reverse (some wire) ≠
          .ok (some (.obj [])))
    (run : encodeBlock encode plan (bodySteps index planned f) o = .ok p) :
    StableAt encode decode plan (bodySteps index planned f) p ∧
      ∀ wire, p = some wire → wire.isNull = true ∨ (f.container.Shapes wire ∧ wire.Distinct) := by
  rw [encodeBlock_body unlifted] at run
  obtain ⟨o₁, empty, run⟩ := bind_eq_ok run
  obtain ⟨o₂, core, run⟩ := bind_eq_ok run
  cases Except.ok.inj run
  cases o₁ with
  | none =>
    rw [encodeBlock_passes core_maps (.inl rfl)] at core
    exact stable_of_vanished unlifted (.inl (Except.ok.inj core).symm)
  | some value =>
    cases null : value.isNull with
    | true =>
      have same : value = .null := by cases value <;> first | rfl | cases null
      subst same
      rw [encodeBlock_passes core_maps (.inr rfl)] at core
      exact stable_of_vanished unlifted (.inr (Except.ok.inj core).symm)
    | false =>
      obtain ⟨rfl, full⟩ := full_of_encodeBlock_empty empty null
      have settling := (values value rfl).resolve_left (by rw [null]; exact Bool.false_ne_true)
      obtain ⟨wire, rfl, stays, distinct, comes⟩ := core_comesBack settling checked own core
      cases gone : wire.isNull with
      | true =>
        have same : wire = .null := by cases wire <;> first | rfl | cases gone
        subst same
        exact stable_of_vanished unlifted (.inr rfl)
      | false =>
        have kept : (if f.annotations.nullable then some ((some wire).getD .null) else some wire) = some wire := by
          cases f.annotations.nullable <;> rfl
        rw [kept]
        refine ⟨stable_of_core unlifted gone (comes gone) fun singular changes => ?_, fun other same => ?_⟩
        · exact filled singular changes value rfl (full singular changes) wire gone core
        · cases same
          exact .inr ⟨stays, distinct⟩

end Whole

end Fields

end Wireform.Codec
