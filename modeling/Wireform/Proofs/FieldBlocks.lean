import Wireform.Proofs.PlannedSteps
import Wireform.Proofs.UndoneSteps

set_option autoImplicit false

namespace Wireform

def Transform.maps : Transform → Bool
  | .nested _ | .unwrapValues _ _ => true
  | transform => transform.recodes

theorem Transform.isLocal_of_maps {transform : Transform} (maps : transform.maps = true) :
    transform.isLocal = true := by
  cases transform <;> first | rfl | cases maps

namespace Codec

open Json (Alike AlikeAt)
open Index

variable {encode decode : String → Json → Result Json} {plan : Plan}

section Mapping

variable {step : Step} (maps : step.transform.maps = true)

include maps

theorem encodeAt_maps : ∃ f : Json → Result Json,
    encodeAt encode plan step = whenPresent f ∧ f .null = .ok .null := by
  rw [encodeAt]
  cases transform : step.transform <;> rw [transform] at maps <;>
    first | exact ⟨_, rfl, rfl⟩ | cases maps

theorem decodeAt_maps : ∃ f : Json → Result Json,
    decodeAt decode plan step = whenPresent f ∧ f .null = .ok .null := by
  rw [decodeAt]
  cases transform : step.transform <;> rw [transform] at maps <;>
    first | exact ⟨_, rfl, rfl⟩ | cases maps

end Mapping

section Passing

variable {steps : List Step} (maps : ∀ step ∈ steps, step.transform.maps = true) {o : Option Json}
  (passes : o = none ∨ o = some .null)

include maps passes

theorem encodeBlock_passes : encodeBlock encode plan steps o = .ok o := by
  induction steps with
  | nil => rfl
  | cons step rest ih =>
    obtain ⟨f, applied, null⟩ := encodeAt_maps (maps step (by simp))
    have here : encodeAt encode plan step o = .ok o := by
      rw [applied]
      rcases passes with rfl | rfl
      · rfl
      · rw [whenPresent, null]
        rfl
    rw [encodeBlock, here, ok_bind]
    exact ih fun other inside => maps other (by simp [inside])

theorem decodeBlock_passes : decodeBlock decode plan steps o = .ok o := by
  induction steps with
  | nil => rfl
  | cons step rest ih =>
    obtain ⟨f, applied, null⟩ := decodeAt_maps (maps step (by simp))
    have here : decodeAt decode plan step o = .ok o := by
      rw [applied]
      rcases passes with rfl | rfl
      · rfl
      · rw [whenPresent, null]
        rfl
    rw [decodeBlock, here, ok_bind]
    exact ih fun other inside => maps other (by simp [inside])

theorem UndoneAt.of_passing : UndoneAt encode decode plan steps o o := by
  have distinct : ∀ v ∈ o, v.Distinct := by
    intro v inside
    rcases passes with rfl | rfl
    · cases inside
    · cases inside
      trivial
  exact ⟨encodeBlock_passes maps passes, distinct, o,
    decodeBlock_passes (fun step inside => maps step (List.mem_reverse.mp inside)) passes,
    Json.alikeAt_refl distinct⟩

end Passing

theorem UndoneAt.of_restores {step : Step} {f g : Json → Result Json}
    (encodes : encodeAt encode plan step = whenPresent f)
    (decodes : decodeAt decode plan step = whenPresent g) {v : Json} (restores : Restores f g v) :
    ∃ w, f v = .ok w ∧ w.isNull = false ∧ UndoneAt encode decode plan [step] (some v) (some w) := by
  obtain ⟨w, encoded, present, distinct, back, decoded, alike⟩ := restores
  refine ⟨w, encoded, present, ?_, ?_, some back, ?_, alike⟩
  · rw [encodeBlock, encodes, whenPresent, encoded]
    rfl
  · intro other inside
    cases inside
    exact distinct
  · rw [List.reverse_singleton, decodeBlock, decodes, whenPresent, decoded]
    rfl

theorem restores_mapError {ε δ ε' δ' : Type} {f : Json → Except ε Json} {g : Json → Except δ Json} {v : Json}
    (restores : Restores f g v) (h : ε → ε') (k : δ → δ') :
    Restores (fun v => (f v).mapError h) (fun v => (g v).mapError k) v := by
  obtain ⟨w, encoded, present, distinct, back, decoded, alike⟩ := restores
  exact ⟨w, congrArg (Except.mapError h) encoded, present, distinct, back,
    congrArg (Except.mapError k) decoded, alike⟩

theorem nested_undone (step : Step) {child : String} (transform : step.transform = .nested child) {v : Json}
    (distinct : v.Distinct) (present : v.isNull = false)
    (restores : RestoresWithin (encode child) (decode child) step.container v) :
    ∃ w, mapContainer step.container (encode child) v = .ok w ∧ w.isNull = false ∧
      UndoneAt encode decode plan [step] (some v) (some w) :=
  UndoneAt.of_restores (by rw [encodeAt, transform]) (by rw [decodeAt, transform])
    (mapContainer_restores distinct present restores)

section Recoding

variable {step : Step} (recodes : step.transform.recodes = true)

include recodes

theorem encodeAt_recodes : encodeAt encode plan step = whenPresent fun value =>
    (mapContainer step.container step.transform.encodeValue value).mapError (.invalidValue plan.message step) := by
  rw [encodeAt]
  cases transform : step.transform <;> rw [transform] at recodes <;> first | rfl | cases recodes

theorem decodeAt_recodes : decodeAt decode plan step = whenPresent fun value =>
    (mapContainer step.container step.transform.decodeValue value).mapError (.invalidValue plan.message step) := by
  rw [decodeAt]
  cases transform : step.transform <;> rw [transform] at recodes <;> first | rfl | cases recodes

variable (single : step.container = .single) {value wire : Json}

include single

theorem encodeValue_of_block (present : value.isNull = false)
    (run : encodeBlock encode plan [step] (some value) = .ok (some wire)) :
    step.transform.encodeValue value = .ok wire := by
  obtain ⟨between, first, last⟩ := bind_eq_ok run
  cases Except.ok.inj last
  rw [encodeAt_recodes recodes] at first
  obtain ⟨_, made, same⟩ := map_eq_ok first
  cases same
  have encoded := mapError_eq_ok made
  rw [single, mapContainer_single _ present] at encoded
  exact encoded

theorem decodeValue_of_block (present : wire.isNull = false)
    (run : decodeBlock decode plan [step] (some wire) = .ok (some value)) :
    step.transform.decodeValue wire = .ok value := by
  obtain ⟨between, first, last⟩ := bind_eq_ok run
  cases Except.ok.inj last
  rw [decodeAt_recodes recodes] at first
  obtain ⟨_, made, same⟩ := map_eq_ok first
  cases same
  have decoded := mapError_eq_ok made
  rw [single, mapContainer_single _ present] at decoded
  exact decoded

end Recoding

theorem recode_undone {step : Step} (recodes : step.transform.recodes = true) {v : Json}
    (distinct : v.Distinct) (present : v.isNull = false)
    (restores : RestoresWithin step.transform.encodeValue step.transform.decodeValue step.container v) :
    ∃ w, mapContainer step.container step.transform.encodeValue v = .ok w ∧ w.isNull = false ∧
      UndoneAt encode decode plan [step] (some v) (some w) := by
  have whole := mapContainer_restores distinct present restores
  obtain ⟨w, encoded, there, undone⟩ := UndoneAt.of_restores (encodeAt_recodes recodes)
    (decodeAt_recodes recodes) (restores_mapError whole _ _)
  exact ⟨w, mapError_eq_ok encoded, there, undone⟩

def Collapsed (inner : String) (value : Json) : Prop :=
  value = .obj [] ∨ ∃ item rest, value = .obj [(inner, .arr (item :: rest))]

theorem wrapValue_unwrapValue {inner : String} {value : Json} (collapsed : Collapsed inner value) :
    wrapValue inner (unwrapValue inner value) = value := by
  rcases collapsed with rfl | ⟨item, rest, rfl⟩
  · rfl
  · simp [unwrapValue, Json.get?, Entries.get?, wrapValue]

theorem isNull_wrapValue (inner : String) (value : Json) : (wrapValue inner value).isNull = false := by
  unfold wrapValue
  split <;> rfl

theorem unwrapValue_restores {ε δ : Type} {inner : String} {value : Json} (collapsed : Collapsed inner value)
    (distinct : value.Distinct) :
    Restores (ε := ε) (δ := δ) (fun v => .ok (unwrapValue inner v)) (fun v => .ok (wrapValue inner v)) value := by
  refine ⟨_, rfl, ?_, ?_, _, rfl, ?_⟩
  · rcases collapsed with rfl | ⟨item, rest, rfl⟩ <;> simp [unwrapValue, Json.get?, Entries.get?, Json.isNull]
  · rcases collapsed with rfl | ⟨item, rest, rfl⟩
    · trivial
    · obtain ⟨_, values⟩ := Json.distinct_obj.mp distinct
      have list := values inner (.arr (item :: rest)) (by simp [Entries.get?])
      simpa [unwrapValue, Json.get?, Entries.get?] using list
  · rw [wrapValue_unwrapValue collapsed]
    exact Alike.refl distinct

theorem unwrap_undone (step : Step) {elementType : Option String} {inner : String}
    (transform : step.transform = .unwrapValues elementType inner) (container : step.container = .mapValues)
    {members : Entries Json} (distinct : (Json.obj members).Distinct)
    (collapsed : ∀ value ∈ addressed .mapValues (.obj members), Collapsed inner value) :
    ∃ w, w.isNull = false ∧ UndoneAt encode decode plan [step] (some (.obj members)) (some w) := by
  obtain ⟨_, values⟩ := Json.distinct_obj.mp distinct
  have within : RestoresWithin (ε := CodecError) (δ := CodecError) (fun v => .ok (unwrapValue inner v))
      (fun v => .ok (wrapValue inner v)) .mapValues (.obj members) := by
    intro value inside
    obtain ⟨⟨key, _⟩, there, rfl⟩ := List.mem_map.mp (List.mem_filter.mp inside).1
    have keys := (Json.distinct_obj.mp distinct).1
    exact unwrapValue_restores (collapsed _ inside) (values key _ (Entries.get?_of_mem keys there))
  have encodes : encodeAt encode plan step = whenPresent (mapContainer step.container
      fun v => .ok (unwrapValue inner v)) := by
    rw [encodeAt, transform]
  have decodes : decodeAt decode plan step = whenPresent (mapContainer step.container
      fun v => .ok (wrapValue inner v)) := by
    rw [decodeAt, transform]
  obtain ⟨w, _, present, undone⟩ :=
    UndoneAt.of_restores encodes decodes (container ▸ mapContainer_restores distinct rfl within)
  exact ⟨w, present, undone⟩

structure CollapseRestores (encode decode : Json → Result Json) (inner : String) (value : Json) : Prop where
  present : ∀ wire, encode value = .ok wire → wire.isNull = false
  restores : Restores (fun v => unwrapValue inner <$> encode v) (fun v => decode (wrapValue inner v)) value

section Members

variable {step : Step} (container : step.container = .mapValues) {members results : Entries Json}

include container

theorem encodeAt_members {child : String} (nested : step.transform = .nested child)
    (run : mapMembers (encode child) members = .ok results) :
    encodeAt encode plan step (some (.obj members)) = .ok (some (.obj results)) := by
  rw [encodeAt, nested]
  simp only [whenPresent, container, mapContainer_mapValues, run]
  rfl

theorem decodeAt_members {child : String} (nested : step.transform = .nested child)
    (run : mapMembers (decode child) members = .ok results) :
    decodeAt decode plan step (some (.obj members)) = .ok (some (.obj results)) := by
  rw [decodeAt, nested]
  simp only [whenPresent, container, mapContainer_mapValues, run]
  rfl

theorem encodeAt_unwraps {elementType : Option String} {inner : String}
    (unwraps : step.transform = .unwrapValues elementType inner) : encodeAt encode plan step (some (.obj members)) =
      .ok (some (.obj (passed (unwrapValue inner) members))) := by
  rw [encodeAt, unwraps]
  simp only [whenPresent, container, mapContainer_mapValues, mapMembers_pure]
  rfl

theorem decodeAt_wraps {elementType : Option String} {inner : String}
    (unwraps : step.transform = .unwrapValues elementType inner) : decodeAt decode plan step (some (.obj members)) =
      .ok (some (.obj (passed (wrapValue inner) members))) := by
  rw [decodeAt, unwraps]
  simp only [whenPresent, container, mapContainer_mapValues, mapMembers_pure]
  rfl

end Members

theorem nested_unwrap_undone (first second : Step) {child inner : String} {elementType : Option String}
    (nested : first.transform = .nested child) (unwraps : second.transform = .unwrapValues elementType inner)
    (first_container : first.container = .mapValues) (second_container : second.container = .mapValues)
    {members : Entries Json} (distinct : (Json.obj members).Distinct)
    (each : ∀ value ∈ addressed .mapValues (.obj members),
      CollapseRestores (encode child) (decode child) inner value) :
    ∃ w, w.isNull = false ∧ UndoneAt encode decode plan [first, second] (some (.obj members)) (some w) := by
  have inside {member : String × Json} (there : member ∈ members) (present : member.2.isNull = false) :
      member.2 ∈ addressed .mapValues (.obj members) := by
    simp only [addressed, List.mem_filter, List.mem_map, present, Bool.not_false, and_true]
    exact ⟨member, there, rfl⟩
  obtain ⟨wires, encoded, wires_distinct, backs, decoded, alike⟩ :=
    mapMembers_restores distinct fun member there present => (each _ (inside there present)).restores
  rw [← mapMembers_then_pure _ fun member there present result made =>
    (each _ (inside there present)).present result made] at encoded
  obtain ⟨between, applied, rfl⟩ := map_eq_ok encoded
  rw [← mapMembers_passed _ fun value _ => isNull_wrapValue inner value] at decoded
  refine ⟨.obj (passed (unwrapValue inner) between), rfl, ?_, ?_, some (.obj backs), ?_, alike⟩
  · rw [encodeBlock, encodeAt_members first_container nested applied, ok_bind, encodeBlock,
      encodeAt_unwraps second_container unwraps, ok_bind, encodeBlock]
  · intro other there
    cases there
    exact wires_distinct
  · rw [List.reverse_cons, List.reverse_singleton, List.singleton_append, decodeBlock,
      decodeAt_wraps second_container unwraps, ok_bind, decodeBlock, decodeAt_members first_container nested decoded,
      ok_bind, decodeBlock]

end Codec

end Wireform
