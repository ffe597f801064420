import Wireform.Proofs.UndoneSteps

set_option autoImplicit false

namespace Wireform.Codec

open Json (Alike AlikeAt)

theorem gather_distinct (place : String → String) (keys : List String) {doc child : Doc}
    (distinct : doc.Distinct) (child_distinct : child.Distinct) :
    (gather place keys doc child).1.Distinct ∧ (gather place keys doc child).2.Distinct := by
  induction keys generalizing doc child with
  | nil => exact ⟨distinct, child_distinct⟩
  | cons key rest ih =>
    simp only [gather]
    split
    · exact ih distinct child_distinct
    · exact ih (Entries.distinct_erase distinct _) (Entries.distinct_insert child_distinct _ _)

theorem get?_gather_doc (place : String → String) (keys : List String) {doc : Doc} (child : Doc)
    (distinct : doc.Distinct) (k : String) :
    (gather place keys doc child).1.get? k = if k ∈ keys.map place then none else doc.get? k := by
  induction keys generalizing doc child with
  | nil => simp [gather]
  | cons key rest ih =>
    simp only [gather]
    cases found : doc.get? (place key) with
    | none =>
      rw [ih child distinct]
      by_cases same : k = place key
      · subst same
        simp [found]
      · simp [same]
    | some value =>
      rw [ih _ (Entries.distinct_erase distinct _), Entries.get?_erase distinct]
      by_cases same : k = place key
      · simp [same]
      · simp [same, Ne.symm same]

theorem get?_gather_child {place : String → String} (injective : ∀ a b, place a = place b → a = b)
    (keys : List String) {doc : Doc} (child : Doc) (distinct : doc.Distinct) (k : String) :
    (gather place keys doc child).2.get? k =
      if k ∈ keys then (doc.get? (place k)).or (child.get? k) else child.get? k := by
  induction keys generalizing doc child with
  | nil => simp [gather]
  | cons key rest ih =>
    simp only [gather]
    cases found : doc.get? (place key) with
    | none =>
      rw [ih child distinct]
      by_cases same : k = key
      · subst same
        simp [found]
      · simp [same]
    | some value =>
      rw [ih _ (Entries.distinct_erase distinct _), Entries.get?_erase distinct, Entries.get?_insert]
      by_cases same : k = key
      · subst same
        simp [found]
      · have apart : place key ≠ place k := fun h => same (injective _ _ h).symm
        simp [same, Ne.symm same, apart]

def lifted (place : String → String) (key : String) (child doc : Doc) : Doc :=
  (doc.erase key).extend (child.map fun (k, v) => (place k, v))

section Lifted

variable {place : String → String} {key : String} {keys : List String} {child doc : Doc}

theorem distinct_placed (injective : ∀ a b, place a = place b → a = b) (distinct : child.Distinct) :
    Entries.Distinct (child.map fun (k, v) => (place k, v)) := by
  have placed : Entries.keys (child.map fun (k, v) => (place k, v)) = child.keys.map place := by
    simp [Entries.keys, Function.comp_def]
  rw [Entries.Distinct, placed]
  exact List.Nodup.map injective distinct

theorem get?_placed (injective : ∀ a b, place a = place b → a = b) (k : String) :
    Entries.get? (child.map fun (k, v) => (place k, v)) (place k) = child.get? k := by
  induction child with
  | nil => rfl
  | cons entry rest ih =>
    obtain ⟨l, v⟩ := entry
    by_cases same : l = k
    · simp [Entries.get?, same]
    · have apart : place l ≠ place k := fun h => same (injective _ _ h)
      simpa [Entries.get?, same, apart] using ih

theorem get?_placed_of_not_mem {k : String} (apart : k ∉ child.keys.map place) :
    Entries.get? (child.map fun (k, v) => (place k, v)) k = none := by
  rw [Entries.get?_eq_none]
  simpa [Entries.keys, Function.comp_def] using apart

theorem lifted_distinct (distinct : doc.Distinct) : (lifted place key child doc).Distinct :=
  Entries.distinct_extend (Entries.distinct_erase distinct key) _

theorem get?_lifted_place (injective : ∀ a b, place a = place b → a = b) (distinct : doc.Distinct)
    (child_distinct : child.Distinct) (k : String) :
    (lifted place key child doc).get? (place k) =
      (child.get? k).or (if key = place k then none else doc.get? (place k)) := by
  rw [lifted, Entries.get?_extend _ (distinct_placed injective child_distinct), get?_placed injective,
    Entries.get?_erase distinct]

theorem get?_lifted_other (injective : ∀ a b, place a = place b → a = b) (distinct : doc.Distinct)
    (child_distinct : child.Distinct) {k : String} (apart : k ∉ child.keys.map place) :
    (lifted place key child doc).get? k = if key = k then none else doc.get? k := by
  rw [lifted, Entries.get?_extend _ (distinct_placed injective child_distinct),
    get?_placed_of_not_mem apart, Entries.get?_erase distinct, Option.none_or]

theorem get?_lifted_beside (injective : ∀ a b, place a = place b → a = b) (distinct : (Json.obj doc).Distinct)
    (found : doc.get? key = some (.obj child)) (known : ∀ k ∈ child.keys, k ∈ keys) {k : String}
    (apart : k ∉ keys.map place) : (lifted place key child doc).get? k = if key = k then none else doc.get? k := by
  obtain ⟨doc_keys, values⟩ := Json.distinct_obj.mp distinct
  have child_keys := (Json.distinct_obj.mp (values key _ found)).1
  refine get?_lifted_other injective doc_keys child_keys fun there => ?_
  obtain ⟨l, inside, rfl⟩ := List.mem_map.mp there
  exact apart (List.mem_map_of_mem (known l inside))

def Free (place : String → String) (keys : List String) (key : String) (doc : Doc) : Prop :=
  ∀ k ∈ keys, place k ≠ key → doc.get? (place k) = none

theorem Free.of_changed {o : Option Json} {between : Doc} (free : Free place keys key doc)
    (changed : Changed doc key o between) : Free place keys key between := by
  intro k inside apart
  rw [changed.2, if_neg (Ne.symm apart)]
  exact free k inside apart

theorem gather_lifted (injective : ∀ a b, place a = place b → a = b)
    (distinct : (Json.obj doc).Distinct) (found : doc.get? key = some (.obj child))
    (known : ∀ k ∈ child.keys, k ∈ keys) (free : Free place keys key doc) :
    let gathered := gather place keys (lifted place key child doc) []
    Alike (.obj gathered.2) (.obj child) ∧
      Alike (.obj (gathered.1.insert key (.obj gathered.2))) (.obj doc) := by
  obtain ⟨doc_keys, values⟩ := Json.distinct_obj.mp distinct
  have child_distinct := values key _ found
  obtain ⟨child_keys, child_values⟩ := Json.distinct_obj.mp child_distinct
  have wire_keys : (lifted place key child doc).Distinct := lifted_distinct doc_keys
  obtain ⟨rest_keys, gathered_keys⟩ := gather_distinct place keys wire_keys Entries.distinct_nil
  -- Under a lifted key stands the value of the child, for the room there was free.
  have gathered : ∀ k, (gather place keys (lifted place key child doc) []).2.get? k = child.get? k := by
    intro k
    rw [get?_gather_child injective keys [] wire_keys]
    by_cases inside : k ∈ keys
    · rw [if_pos inside, get?_lifted_place injective doc_keys child_keys]
      by_cases same : key = place k
      · simp [same, Entries.get?]
      · simp [same, Entries.get?, free k inside (Ne.symm same)]
    · have absent : child.get? k = none := Entries.get?_eq_none.mpr fun there => inside (known k there)
      simp [inside, absent, Entries.get?]
  have same_child : Alike (.obj (gather place keys (lifted place key child doc) []).2) (.obj child) := by
    refine Json.alike_obj.mpr ⟨gathered_keys, child_keys, fun k => ?_⟩
    rw [gathered]
    exact Json.alikeAt_refl fun v there => child_values k v there
  refine ⟨same_child, Json.alike_obj.mpr ⟨Entries.distinct_insert rest_keys _ _, doc_keys, fun k => ?_⟩⟩
  rw [Entries.get?_insert, get?_gather_doc place keys [] wire_keys]
  by_cases same : key = k
  · rw [if_pos same, ← same, found]
    exact same_child
  · rw [if_neg same]
    by_cases inside : k ∈ keys.map place
    · obtain ⟨k, member, rfl⟩ := List.mem_map.mp inside
      rw [if_pos inside, free k member (Ne.symm same)]
      trivial
    · rw [if_neg inside, get?_lifted_beside injective distinct found known inside, if_neg same]
      exact Json.alikeAt_refl fun v there => values k v there

theorem gather_nothing (absent : ∀ k ∈ keys, doc.get? (place k) = none) :
    gather place keys doc [] = (doc, []) := by
  induction keys with
  | nil => rfl
  | cons k rest ih =>
    rw [gather, absent k (by simp)]
    exact ih fun other inside => absent other (by simp [inside])

end Lifted

theorem prefix_injective (pre : String) : ∀ a b : String, pre ++ a = pre ++ b → a = b :=
  fun _ _ same => (String.append_right_inj pre).mp same

variable {encode decode : String → Json → Result Json} {plan : Plan} {doc : Doc}

theorem lifted_obj_distinct {place : String → String} (injective : ∀ a b, place a = place b → a = b)
    (distinct : (Json.obj doc).Distinct) {key : String} {child : Doc}
    (found : doc.get? key = some (.obj child)) : (Json.obj (lifted place key child doc)).Distinct := by
  obtain ⟨doc_keys, values⟩ := Json.distinct_obj.mp distinct
  obtain ⟨child_keys, child_values⟩ := Json.distinct_obj.mp (values key _ found)
  refine Json.distinct_obj.mpr ⟨lifted_distinct doc_keys, fun k v there => ?_⟩
  rw [lifted, Entries.get?_extend _ (distinct_placed injective child_keys),
    Option.or_eq_some_iff] at there
  rcases there with there | ⟨_, there⟩
  · obtain ⟨⟨l, w⟩, member, same⟩ := List.mem_map.mp (Entries.mem_of_get? there)
    obtain ⟨rfl, rfl⟩ := Prod.mk.inj same
    exact child_values l w (Entries.get?_of_mem child_keys member)
  · rw [Entries.get?_erase doc_keys] at there
    split at there
    · cases there
    · exact values k v there

theorem flatten_undone (step : Step) {messageType pre : String} {childKeys : List String}
    (transform : step.transform = .flatten messageType pre childKeys)
    (distinct : (Json.obj doc).Distinct) {child : Doc}
    (found : doc.get? step.jsonName = some (.obj child)) (present : child.isEmpty = false)
    (known : ∀ k ∈ child.keys, k ∈ childKeys)
    (free : Free (pre ++ ·) childKeys step.jsonName doc) :
    Undone encode decode plan [step] doc (lifted (pre ++ ·) step.jsonName child doc) := by
  have injective := prefix_injective pre
  obtain ⟨children, docs⟩ := gather_lifted injective distinct found known free
  refine ⟨?_, lifted_obj_distinct injective distinct found, _, ?_, docs⟩
  · rw [encodeAll, encodeStep]
    simp only [transform, found]
    rfl
  · have filled := alike_isEmpty children
    rw [present] at filled
    rw [List.reverse_singleton, decodeSteps, decodeStep]
    simp only [transform, filled, Bool.false_eq_true, if_false]
    rfl

theorem flatten_absent_undone (step : Step) {messageType pre : String} {childKeys : List String}
    (transform : step.transform = .flatten messageType pre childKeys)
    (distinct : (Json.obj doc).Distinct) (absent : doc.get? step.jsonName = none)
    (free : Free (pre ++ ·) childKeys step.jsonName doc) :
    Undone encode decode plan [step] doc doc := by
  have nothing : gather (pre ++ ·) childKeys doc [] = (doc, []) := by
    refine gather_nothing fun k inside => ?_
    by_cases same : pre ++ k = step.jsonName
    · rw [same, absent]
    · exact free k inside same
  refine ⟨?_, distinct, doc, ?_, Alike.refl distinct⟩
  · rw [encodeAll, encodeStep]
    simp only [transform, absent]
    rfl
  · rw [List.reverse_singleton, decodeSteps, decodeStep]
    simp only [transform, nothing]
    rfl

theorem setVariant?_spec {variants : List Variant} {variant : Variant} {value : Json}
    (set : setVariant? variants doc = some (variant, value)) :
    variant ∈ variants ∧ doc.get? variant.jsonName = some value ∧ value.isNull = false := by
  obtain ⟨v, inside, found⟩ := List.exists_of_findSome?_eq_some set
  split at found
  · rename_i there
    split at found
    · cases found
    · rename_i present
      obtain ⟨rfl, rfl⟩ := Prod.mk.inj (Option.some.inj found)
      exact ⟨inside, there, Bool.not_eq_true _ ▸ present⟩
  · cases found

section Oneofs

variable {step : Step} {flatten : Bool} {variants : List Variant}

theorem oneof_absent_undone
    (transform : step.transform = .oneofDiscriminator step.jsonName flatten variants)
    (distinct : (Json.obj doc).Distinct) (unset : setVariant? variants doc = none)
    (free : doc.get? step.jsonName = none) : Undone encode decode plan [step] doc doc := by
  refine ⟨?_, distinct, doc, ?_, Alike.refl distinct⟩
  · rw [encodeAll, encodeStep]
    simp only [transform, encodeOneof, unset]
    rfl
  · rw [List.reverse_singleton, decodeSteps, decodeStep]
    simp only [transform, decodeOneof, free, Entries.erase_of_not_mem free]
    rfl

theorem insert_obj_distinct (distinct : (Json.obj doc).Distinct) (key : String) {value : Json}
    (value_distinct : value.Distinct) : (Json.obj (doc.insert key value)).Distinct := by
  have alike := alike_insert (Alike.refl distinct) key (Alike.refl value_distinct)
  exact alike.1

theorem erase_insert_alike (distinct : (Json.obj doc).Distinct) {key : String}
    (free : doc.get? key = none) (value : Json) :
    Alike (.obj (Entries.erase (doc.insert key value) key)) (.obj doc) := by
  obtain ⟨keys, values⟩ := Json.distinct_obj.mp distinct
  have wire_keys := Entries.distinct_insert keys key value
  refine Json.alike_obj.mpr ⟨Entries.distinct_erase wire_keys key, keys, fun k => ?_⟩
  rw [Entries.get?_erase wire_keys, Entries.get?_insert]
  split
  · rename_i same
    rw [← same, free]
    trivial
  · exact Json.alikeAt_refl fun v there => values k v there

theorem oneof_tagged_undone
    (transform : step.transform = .oneofDiscriminator step.jsonName false variants)
    (distinct : (Json.obj doc).Distinct) {variant : Variant} {value : Json}
    (set : setVariant? variants doc = some (variant, value)) (free : doc.get? step.jsonName = none) :
    Undone encode decode plan [step] doc (doc.insert step.jsonName (.str variant.value)) := by
  obtain ⟨inside, _, _⟩ := setVariant?_spec set
  refine ⟨?_, insert_obj_distinct distinct _ trivial, _, ?_,
    erase_insert_alike distinct free (.str variant.value)⟩
  · rw [encodeAll, encodeStep]
    simp only [transform, encodeOneof, set]
    rfl
  · have known : (variants.find? (·.value == variant.value)).isSome = true := by
      rw [List.find?_isSome]
      exact ⟨variant, inside, by simp⟩
    obtain ⟨named, found⟩ := Option.isSome_iff_exists.mp known
    rw [List.reverse_singleton, decodeSteps, decodeStep]
    simp only [transform, decodeOneof, Entries.get?_insert, if_true, found, Bool.false_eq_true, if_false]
    rfl

theorem oneof_lifted_undone
    (transform : step.transform = .oneofDiscriminator step.jsonName true variants)
    (distinct : (Json.obj doc).Distinct) {variant : Variant} {child : Doc}
    (set : setVariant? variants doc = some (variant, .obj child))
    (named : variants.find? (·.value == variant.value) = some variant)
    (known : ∀ k ∈ child.keys, k ∈ variant.childKeys)
    (free : Free id variant.childKeys variant.jsonName doc)
    (unlaid : step.jsonName ∉ child.keys)
    (untaken : step.jsonName ≠ variant.jsonName → doc.get? step.jsonName = none) :
    Undone encode decode plan [step] doc
      ((lifted id variant.jsonName child doc).insert step.jsonName (.str variant.value)) := by
  obtain ⟨_, found, _⟩ := setVariant?_spec set
  have injective : ∀ a b : String, id a = id b → a = b := fun _ _ same => same
  have lifted_distinct := lifted_obj_distinct injective distinct found
  -- The tag is a fresh key of the spread document, so erasing it again changes nothing else.
  have absent : (lifted id variant.jsonName child doc).get? step.jsonName = none := by
    rw [get?_lifted_beside injective distinct found (fun _ inside => inside) (by simpa using unlaid)]
    split
    · rfl
    · rename_i apart
      exact untaken (Ne.symm apart)
  obtain ⟨children, docs⟩ := gather_lifted injective distinct found known free
  have bare := erase_insert_alike lifted_distinct absent (.str variant.value)
  obtain ⟨bare_docs, bare_children⟩ :=
    gather_alike id variant.childKeys bare (Alike.refl Json.distinct_empty)
  refine ⟨?_, insert_obj_distinct lifted_distinct _ trivial, _, ?_,
    (alike_insert bare_docs variant.jsonName bare_children).trans docs⟩
  · have same : child.map (fun (k, v) => (id k, v)) = child := List.map_id' child
    rw [encodeAll, encodeStep]
    simp only [transform, encodeOneof, set, if_true, lifted, same]
    rfl
  · rw [List.reverse_singleton, decodeSteps, decodeStep]
    simp only [transform, decodeOneof, Entries.get?_insert, if_true, named]
    rfl

end Oneofs

end Wireform.Codec
