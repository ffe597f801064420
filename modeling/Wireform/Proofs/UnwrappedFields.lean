import Wireform.Proofs.KeptValues
import Wireform.Proofs.SettledMessages

set_option autoImplicit false

namespace Wireform

def Transform.reshapes : Transform → Bool
  | .nested _ | .unwrapValues _ _ | .unwrapRoot _ _ => true
  | _ => false

def Transform.unwrapsValues : Transform → Bool
  | .unwrapValues _ _ => true
  | _ => false

theorem Transform.recodes_of_reshapes {transform : Transform} (reshapes : transform.reshapes = true) :
    transform.recodes = false := by
  cases transform <;> first | rfl | cases reshapes

namespace Codec

open Index

section Keys

variable {encode decode : String → Json → Result Json} {plan : Plan}

theorem keys_set {f : Json → Result Json} {key : String} {doc result : Doc}
    (run : (whenPresent f (doc.get? key)).map (doc.set key) = .ok result) : result.keys = doc.keys := by
  cases given : doc.get? key with
  | none =>
    rw [given] at run
    cases Except.ok.inj run
    rw [Entries.set, Entries.erase_of_not_mem given]
  | some value =>
    rw [given] at run
    obtain ⟨o, made, rfl⟩ := map_eq_ok run
    obtain ⟨other, _, rfl⟩ := map_eq_ok made
    exact Entries.keys_insert_of_mem (Entries.mem_keys_iff.mpr ⟨value, given⟩) other

theorem keys_foldlM {act : Step → Doc → Result Doc} {steps : List Step}
    (keeps : ∀ step ∈ steps, ∀ doc result, act step doc = .ok result → result.keys = doc.keys) {doc result : Doc}
    (run : steps.foldlM (fun doc step => act step doc) doc = .ok result) : result.keys = doc.keys := by
  induction steps generalizing doc with
  | nil => rw [Except.ok.inj run]
  | cons step rest ih =>
    rw [List.foldlM_cons] at run
    obtain ⟨between, first, later⟩ := bind_eq_ok run
    rw [ih (fun other inside => keeps other (List.mem_cons_of_mem step inside)) later,
      keeps step List.mem_cons_self doc between first]

theorem keys_encodeAll {steps : List Step} (maps : ∀ step ∈ steps, step.transform.maps = true) {doc wire : Doc}
    (run : encodeAll encode plan steps doc = .ok wire) : wire.keys = doc.keys := by
  rw [encodeAll_eq] at run
  refine keys_foldlM (fun step inside doc result encoded => ?_) run
  obtain ⟨f, applied, _⟩ : ∃ f : Json → Result Json, encodeAt encode plan step = whenPresent f ∧ f .null = .ok .null :=
    encodeAt_maps (maps step inside)
  rw [encodeStep_eq_set encode plan (Transform.isLocal_of_maps (maps step inside)), applied] at encoded
  exact keys_set encoded

theorem keys_decodeSteps {steps : List Step} (maps : ∀ step ∈ steps, step.transform.maps = true) {wire doc : Doc}
    (run : decodeSteps decode plan steps wire = .ok doc) : doc.keys = wire.keys := by
  rw [decodeSteps_eq] at run
  refine keys_foldlM (fun step inside doc result decoded => ?_) run
  obtain ⟨f, applied, _⟩ : ∃ f : Json → Result Json, decodeAt decode plan step = whenPresent f ∧ f .null = .ok .null :=
    decodeAt_maps (maps step inside)
  rw [decodeStep_eq_set decode plan (Transform.isLocal_of_maps (maps step inside)), applied] at decoded
  exact keys_set decoded

end Keys

def ReturnsAt (decode encode : String → Json → Result Json) (plan : Plan) (steps : List Step) (o q : Option Json) :
    Prop :=
  ∃ r, encodeBlock encode plan steps q = .ok r ∧ Option.Rel Json.Kept o r ∧
    decodeBlock decode plan steps.reverse r = .ok q

section Steps

variable {decode encode : String → Json → Result Json} {plan : Plan}

theorem ReturnsAt.of_returns {step : Step} {f g : Json → Result Json}
    (decodes : decodeAt decode plan step = whenPresent f) (encodes : encodeAt encode plan step = whenPresent g)
    {w b : Json} (returns : Returns f g w b) : ReturnsAt decode encode plan [step] (some w) (some b) := by
  obtain ⟨_, v, encoded, kept, decoded⟩ := returns
  refine ⟨some v, ?_, .some kept, ?_⟩
  · rw [encodeBlock, encodes, whenPresent, encoded]
    rfl
  · rw [List.reverse_singleton, decodeBlock, decodes, whenPresent, decoded]
    rfl

theorem ReturnsAt.of_passing {steps : List Step} (maps : ∀ step ∈ steps, step.transform.maps = true) {o : Option Json}
    (passes : o = none ∨ o = some .null) : ReturnsAt decode encode plan steps o o := by
  refine ⟨o, encodeBlock_passes maps passes, ?_,
    decodeBlock_passes (fun step inside => maps step (List.mem_reverse.mp inside)) passes⟩
  rcases passes with rfl | rfl
  · exact .none
  · exact .some (.same .null)

theorem ReturnsAt.of_present {steps : List Step} (maps : ∀ step ∈ steps, step.transform.maps = true)
    {o q : Option Json} (run : decodeBlock decode plan steps.reverse o = .ok q)
    (present : ∀ w, o = some w → w.isNull = false → ReturnsAt decode encode plan steps o q) :
    ReturnsAt decode encode plan steps o q := by
  have passing (passes : o = none ∨ o = some .null) : ReturnsAt decode encode plan steps o q := by
    rw [decodeBlock_passes (fun step inside => maps step (List.mem_reverse.mp inside)) passes] at run
    rw [← Except.ok.inj run]
    exact .of_passing maps passes
  cases o with
  | none => exact passing (.inl rfl)
  | some w =>
    cases null : w.isNull with
    | true =>
      cases w <;> first | exact passing (.inr rfl) | cases null
    | false => exact present w rfl null

theorem ReturnsAt.of_mapped {step : Step} {container : Container} {g h : Json → Result Json}
    (decodes : decodeAt decode plan step = whenPresent (mapContainer container g))
    (encodes : encodeAt encode plan step = whenPresent (mapContainer container h)) {w : Json} {q : Option Json}
    (run : decodeBlock decode plan [step].reverse (some w) = .ok q)
    (returns : ∀ x ∈ addressed container w, ∀ y, g x = .ok y → Returns g h x y) :
    ReturnsAt decode encode plan [step] (some w) q := by
  rw [List.reverse_singleton, decodeBlock, decodes] at run
  obtain ⟨_, made, same⟩ := bind_eq_ok run
  cases Except.ok.inj same
  obtain ⟨b, mapped, rfl⟩ := map_eq_ok made
  exact .of_returns decodes encodes (mapContainer_returns mapped returns)

section Both

variable {first second : Step} {child inner : String} {elementType : Option String}
  (nested : first.transform = .nested child) (unwraps : second.transform = .unwrapValues elementType inner)
  (first_container : first.container = .mapValues) (second_container : second.container = .mapValues)

include nested unwraps first_container second_container

theorem decodeBlock_nested_wrap (w : Json) : decodeBlock decode plan [first, second].reverse (some w) =
    some <$> mapContainer .mapValues (fun v => decode child (wrapValue inner v)) w := by
  rw [List.reverse_cons, List.reverse_singleton, List.singleton_append]
  by_cases object : ∃ members, w = .obj members
  · obtain ⟨members, rfl⟩ := object
    -- Wrapped values are never null, so that the plan is applied to the same members.
    rw [decodeBlock, decodeAt_wraps second_container unwraps, ok_bind, decodeBlock, decodeAt, nested,
      mapContainer_mapValues, ← mapMembers_passed _ fun value _ => isNull_wrapValue inner value]
    simp only [whenPresent, first_container, mapContainer_mapValues]
    cases mapMembers (decode child) (passed (wrapValue inner) members) <;> rfl
  · have other (members : Entries Json) : w ≠ .obj members := fun same => object ⟨members, same⟩
    -- Neither step reaches into what is no object.
    rw [decodeBlock, decodeAt, unwraps]
    simp only [whenPresent, second_container, mapContainer_of_ne_obj other]
    show decodeBlock decode plan [first] (some w) = _
    rw [decodeBlock, decodeAt, nested]
    simp only [whenPresent, first_container, mapContainer_of_ne_obj other]
    rfl

theorem encodeBlock_nested_unwrap (present : ∀ x v, encode child x = .ok v → v.isNull = false) (b : Json) :
    encodeBlock encode plan [first, second] (some b) =
      some <$> mapContainer .mapValues (fun v => unwrapValue inner <$> encode child v) b := by
  by_cases object : ∃ members, b = .obj members
  · obtain ⟨members, rfl⟩ := object
    rw [encodeBlock, encodeAt, nested, mapContainer_mapValues,
      ← mapMembers_then_pure _ fun member _ _ result => present member.2 result]
    simp only [whenPresent, first_container, mapContainer_mapValues]
    cases mapMembers (encode child) members with
    | error fault => rfl
    | ok results =>
      show encodeBlock encode plan [second] (some (.obj results)) = _
      rw [encodeBlock, encodeAt_unwraps second_container unwraps]
      rfl
  · have other (members : Entries Json) : b ≠ .obj members := fun same => object ⟨members, same⟩
    rw [encodeBlock, encodeAt, nested]
    simp only [whenPresent, first_container, mapContainer_of_ne_obj other]
    show encodeBlock encode plan [second] (some b) = _
    rw [encodeBlock, encodeAt, unwraps]
    simp only [whenPresent, second_container, mapContainer_of_ne_obj other]
    rfl

theorem ReturnsAt.of_both (object : ∀ y v, encode child y = .ok v → ∃ members, v = .obj members) {w : Json}
    (listed : ∀ x ∈ addressed .mapValues w, x.isListOrEmpty = true)
    (returns : ∀ x ∈ addressed .mapValues w, ∀ y, decode child (wrapValue inner x) = .ok y →
      Returns (decode child) (encode child) (wrapValue inner x) y) {q : Option Json}
    (run : decodeBlock decode plan [first, second].reverse (some w) = .ok q) :
    ReturnsAt decode encode plan [first, second] (some w) q := by
  -- Between the two steps all values are objects, so none is passed over as null by one step only.
  have decodes : ∀ w, decodeBlock decode plan [first, second].reverse (some w) = _ :=
    decodeBlock_nested_wrap nested unwraps first_container second_container
  have encodes : ∀ b, encodeBlock encode plan [first, second] (some b) = _ :=
    encodeBlock_nested_unwrap nested unwraps first_container second_container fun x v encoded => by
      obtain ⟨members, rfl⟩ := object x v encoded
      rfl
  obtain ⟨b, mapped, rfl⟩ := map_eq_ok ((decodes w).symm.trans run)
  obtain ⟨_, v, encoded, kept, decoded⟩ := mapContainer_returns mapped fun x there y decoded =>
    nested_wrap_returns (listed x there) (returns x there y decoded) (object y)
  refine ⟨some v, (encodes b).trans ?_, .some kept, (decodes v).trans ?_⟩
  · rw [encoded]
    rfl
  · rw [decoded]
    rfl

end Both

end Steps

structure Returning (index : Index) (planned : String → Bool) (decode encode : String → Json → Result Json)
    (f : Field) (w : Json) : Prop where
  child : ∀ child, f.message? = some child → planned child = true → unwrapValues? index f child = none →
    ∀ x ∈ addressed f.container w, ∀ y, decode child x = .ok y → Returns (decode child) (encode child) x y
  listed : ∀ child elementType inner, f.message? = some child →
    unwrapValues? index f child = some (.unwrapValues elementType inner) →
      ∀ x ∈ addressed .mapValues w, x.isListOrEmpty = true
  wrapped : ∀ child elementType inner, f.message? = some child →
    unwrapValues? index f child = some (.unwrapValues elementType inner) → planned child = true →
      (∀ x ∈ addressed .mapValues w, ∀ y, decode child (wrapValue inner x) = .ok y →
        Returns (decode child) (encode child) (wrapValue inner x) y) ∧
      ∀ y v, encode child y = .ok v → ∃ members, v = .obj members

section Fields

variable {index : Index} {planned : String → Bool} {decode encode : String → Json → Result Json} {plan : Plan}

theorem child_returns {f : Field} {w : Json} {q : Option Json}
    (returning : Returning index planned decode encode f w)
    (run : decodeBlock decode plan (childSteps index planned f).reverse (some w) = .ok q) :
    ReturnsAt decode encode plan (childSteps index planned f) (some w) q := by
  -- Unless the child is nested or unwrapped, nothing runs.
  have unchanged (run : decodeBlock decode plan [] (some w) = .ok q) : ReturnsAt decode encode plan [] (some w) q := by
    cases Except.ok.inj run
    exact ⟨some w, rfl, .some (.same w), rfl⟩
  cases typed : f.message? with
  | none =>
    rw [childSteps_nil typed] at run ⊢
    exact unchanged run
  | some child =>
    rw [childSteps_some typed] at run ⊢
    cases unwraps : unwrapValues? index f child with
    | none =>
      rw [unwraps] at run
      cases own : planned child with
      | false =>
        rw [own] at run
        exact unchanged run
      | true =>
        rw [own] at run
        exact .of_mapped rfl rfl run (returning.child child typed own unwraps)
    | some t =>
      obtain ⟨_, inner, _, _, map, _, _, rfl⟩ := unwrapValues?_eq_some index f unwraps
      have listed := returning.listed child _ _ typed unwraps
      rw [unwraps] at run
      cases own : planned child with
      | false =>
        rw [own] at run
        refine .of_mapped rfl rfl run fun x there y wrapped => ?_
        cases Except.ok.inj wrapped
        exact wrap_returns (listed x there)
      | true =>
        rw [own] at run
        obtain ⟨returns, object⟩ := returning.wrapped child _ _ typed unwraps own
        exact .of_both rfl rfl (container_of_map map) rfl object listed returns run

end Fields

section Documents

variable {index : Index} {planned : String → Bool} {decode encode : String → Json → Result Json} {plan : Plan}

section Run

variable {fields : List Field} (names : fields.Pairwise fun f g => f.jsonName ≠ g.jsonName)
  (flat : ∀ f ∈ fields, f.lifted? = none)

include names flat

theorem decodeBlocks_of_run {wire doc : Doc} (distinct : wire.Distinct)
    (run : decodeSteps decode plan (fields.flatMap (bodySteps index planned)).reverse wire = .ok doc) :
    doc.Distinct ∧ (∀ f ∈ fields, decodeBlock decode plan (bodySteps index planned f).reverse (wire.get? f.jsonName) =
      .ok (doc.get? f.jsonName)) ∧ ∀ k, (∀ f ∈ fields, f.jsonName ≠ k) → doc.get? k = wire.get? k := by
  suffices ∀ f ∈ fields, ∃ q, decodeBlock decode plan (bodySteps index planned f).reverse (wire.get? f.jsonName) =
      .ok q by
    obtain ⟨other, done, spec⟩ := decodeSteps_fields names flat distinct this
    cases Except.ok.inj (run.symm.trans done)
    exact spec
  induction fields generalizing doc with
  | nil => exact fun f inside => by cases inside
  | cons f rest ih =>
    rw [List.pairwise_cons] at names
    have flat_rest (g : Field) (inside : g ∈ rest) := flat g (List.mem_cons_of_mem f inside)
    rw [List.flatMap_cons, List.reverse_append, decodeSteps_append] at run
    obtain ⟨between, later, first⟩ := bind_eq_ok run
    have blocks := ih names.2 flat_rest later
    obtain ⟨other, done, between_distinct, _, others⟩ := decodeSteps_fields names.2 flat_rest distinct blocks
    cases Except.ok.inj (later.symm.trans done)
    have stays : StaysAt f.jsonName (bodySteps index planned f).reverse := fun step inside =>
      staysAt_of_unlifted index planned (flat f List.mem_cons_self) step (List.mem_reverse.mp inside)
    obtain ⟨q, block, _⟩ := decodeBlock_of_run stays between_distinct first
    rw [others _ fun g inside => Ne.symm (names.1 g inside)] at block
    intro g inside
    rcases List.mem_cons.mp inside with rfl | there
    · exact ⟨q, block⟩
    · exact blocks g there

theorem fields_return (maps : ∀ f ∈ fields, ∀ step ∈ bodySteps index planned f, step.transform.maps = true)
    {wire doc : Doc} (distinct : wire.Distinct)
    (run : decodeSteps decode plan (fields.flatMap (bodySteps index planned)).reverse wire = .ok doc)
    (returns : ∀ f ∈ fields, ∀ w q, wire.get? f.jsonName = some w → w.isNull = false →
      decodeBlock decode plan (bodySteps index planned f).reverse (some w) = .ok q →
        ReturnsAt decode encode plan (bodySteps index planned f) (some w) q) :
    ∃ again : Doc, encodeAll encode plan (fields.flatMap (bodySteps index planned)) doc = .ok again ∧
      again.keys = wire.keys ∧ (∀ k, Option.Rel Json.Kept (wire.get? k) (again.get? k)) ∧
      decodeSteps decode plan (fields.flatMap (bodySteps index planned)).reverse again = .ok doc := by
  have all_map : ∀ step ∈ fields.flatMap (bodySteps index planned), step.transform.maps = true := by
    intro step inside
    obtain ⟨f, there, own⟩ := List.mem_flatMap.mp inside
    exact maps f there step own
  have undone_map : ∀ step ∈ (fields.flatMap (bodySteps index planned)).reverse, step.transform.maps = true :=
    fun step inside => all_map step (List.mem_reverse.mp inside)
  obtain ⟨doc_distinct, blocks, outside⟩ := decodeBlocks_of_run names flat distinct run
  have each (f : Field) (inside : f ∈ fields) :
      ReturnsAt decode encode plan (bodySteps index planned f) (wire.get? f.jsonName) (doc.get? f.jsonName) := by
    refine .of_present (maps f inside) (blocks f inside) fun w given present => ?_
    have block := blocks f inside
    rw [given] at block ⊢
    exact returns f inside w _ given present block
  obtain ⟨again, encoded, again_distinct, own, others⟩ := encodeAll_fields names flat doc_distinct fun f inside => by
    obtain ⟨r, encoded, _⟩ := each f inside
    exact ⟨r, encoded⟩
  have under (f : Field) (inside : f ∈ fields) : Option.Rel Json.Kept (wire.get? f.jsonName) (again.get? f.jsonName) ∧
      decodeBlock decode plan (bodySteps index planned f).reverse (again.get? f.jsonName) =
        .ok (doc.get? f.jsonName) := by
    obtain ⟨r, encoded, kept, decoded⟩ := each f inside
    cases Except.ok.inj (encoded.symm.trans (own f inside))
    exact ⟨kept, decoded⟩
  have keys : again.keys = wire.keys := (keys_encodeAll all_map encoded).trans (keys_decodeSteps undone_map run)
  refine ⟨again, encoded, keys, fun k => ?_, ?_⟩
  · by_cases field : ∃ f ∈ fields, f.jsonName = k
    · obtain ⟨f, inside, rfl⟩ := field
      exact (under f inside).1
    · -- What is under the key of no field is never touched.
      have free : ∀ f ∈ fields, f.jsonName ≠ k := fun f inside same => field ⟨f, inside, same⟩
      rw [others k free, outside k free]
      cases wire.get? k with
      | none => exact .none
      | some w => exact .some (.same w)
  · -- What is decoded anew has the same keys in the same order and the same values.
    obtain ⟨back, decoded, back_distinct, read, beside⟩ := decodeSteps_fields names flat again_distinct
      fun f inside => ⟨_, (under f inside).2⟩
    rw [decoded]
    congr 1
    refine Entries.ext_get? back_distinct ?_ fun k => ?_
    · rw [keys_decodeSteps undone_map decoded, keys, keys_decodeSteps undone_map run]
    · by_cases field : ∃ f ∈ fields, f.jsonName = k
      · obtain ⟨f, inside, rfl⟩ := field
        exact Except.ok.inj ((read f inside).symm.trans (under f inside).2)
      · have free : ∀ f ∈ fields, f.jsonName ≠ k := fun f inside same => field ⟨f, inside, same⟩
        rw [beside k free, others k free]

end Run

end Documents

end Codec

end Wireform
