import Wireform.Proofs.Evaluation
import Wireform.Proofs.RoundTrip
import Wireform.Proofs.WrittenMessages

set_option autoImplicit false

namespace Wireform

namespace Index

/-- A value of a type. What counts as a value of a type other than a message of the schema is given, and so is
what documents are to satisfy beside. -/
inductive Typed (index : Index) (leaf : ValueType → Json → Prop) (rule : Message → Codec.Doc → Prop) :
    ValueType → Json → Prop
  | leaf {type : ValueType} {value : Json}
      (foreign : ∀ name m, type = .message name → index.message? name = some m → m.wellKnown = true)
      (fits : leaf type value) : Typed index leaf rule type value
  | message {name : String} {m : Message} {doc : Codec.Doc} (found : index.message? name = some m)
      (own : m.wellKnown = false) (known : ∀ k, doc.get? k ≠ none → ∃ f ∈ m.fields, f.jsonName = k)
      (shapes : ∀ f ∈ m.fields, ∀ value, doc.get? f.jsonName = some value → f.container.Shapes value)
      (values : ∀ f ∈ m.fields, ∀ value, doc.get? f.jsonName = some value →
        ∀ x ∈ f.container.values value, Typed index leaf rule f.type x)
      (allowed : rule m doc) : Typed index leaf rule (.message name) (.obj doc)

section Values

variable {index : Index} {leaf : ValueType → Json → Prop} {rule : Message → Codec.Doc → Prop}

theorem doc_of_typed {name : String} {m : Message} (found : index.message? name = some m) (own : m.wellKnown = false)
    {value : Json} (typed : Typed index leaf rule (.message name) value) : ∃ doc : Codec.Doc, value = .obj doc ∧
      (∀ k, doc.get? k ≠ none → ∃ f ∈ m.fields, f.jsonName = k) ∧
      (∀ f ∈ m.fields, ∀ value, doc.get? f.jsonName = some value → f.container.Shapes value) ∧
      (∀ f ∈ m.fields, ∀ value, doc.get? f.jsonName = some value →
        ∀ x ∈ f.container.values value, Typed index leaf rule f.type x) ∧ rule m doc := by
  cases typed with
  | leaf foreign =>
    rw [foreign name m rfl found] at own
    cases own
  | message found' _ known shapes values allowed =>
    cases found.symm.trans found'
    exact ⟨_, rfl, known, shapes, values, allowed⟩

theorem Typed.mono {other : Message → Codec.Doc → Prop} {root : String}
    (weaken : ∀ name m doc, index.Reaches root name → index.message? name = some m → m.wellKnown = false →
      rule m doc → other m doc)
    {type : ValueType} {value : Json} (typed : Typed index leaf rule type value)
    (reached : ∀ name, type = .message name → index.Reaches root name) : Typed index leaf other type value := by
  induction typed with
  | leaf foreign fits => exact .leaf foreign fits
  | message found own known shapes values allowed ih =>
    have so_far := reached _ rfl
    refine .message found own known shapes (fun f inside value given x there => ?_)
      (weaken _ _ _ so_far found own allowed)
    exact ih f inside value given x there fun child typed =>
      .field so_far found inside (by rw [Field.message?, typed]; rfl)

theorem typed_of_shape (sound : index.Sound)
    (singular : ∀ m ∈ index.messages.values, ∀ f ∈ m.fields, f.isSingular = true) {name : String}
    (own : WellKnown.isMessage (bareName name) = false) {listed : List (String × ValueType)}
    (shape : index.shape? name = some listed) {doc : Codec.Doc} (known : ∀ k ∈ doc.keys, k ∈ listed.map (·.1))
    (values : ∀ entry ∈ listed, ∀ value, doc.get? entry.1 = some value → Typed index leaf rule entry.2 value)
    (allowed : ∀ m, index.message? name = some m → rule m doc) : Typed index leaf rule (.message name) (.obj doc) := by
  obtain ⟨m, found, same⟩ := Option.map_eq_some_iff.mp shape
  have container {f : Field} (inside : f ∈ m.fields) : f.container = .single :=
    container_of_singular (singular m (KeyMap.mem_values.mpr ⟨_, found⟩) f inside)
  refine .message found (by rw [sound.wellKnown _ m found, own]) (fun k present => ?_) (fun f inside value _ => ?_)
    (fun f inside value given x there => ?_) (allowed m found)
  · have key := known k (Entries.mem_keys_iff.mpr (Option.ne_none_iff_exists'.mp present))
    rw [← same, List.map_map] at key
    exact List.mem_map.mp key
  · rw [container inside]
    trivial
  · rw [container inside, Container.values_singular, List.mem_singleton] at there
    have entry : (f.jsonName, f.type) ∈ m.fields.map fun f => (f.jsonName, f.type) := List.mem_map.mpr ⟨f, inside, rfl⟩
    rw [there]
    exact values _ (same ▸ entry) value given

end Values

end Index

namespace Codec

open Index

section Runs

variable {index : Index}

variable {name : String} {m : Message} (found : index.message? name = some m) (own : m.wellKnown = false)

include found own

theorem innerSteps_of_unplanned (unplanned : m.fullName ∉ index.planned) :
    innerSteps index m index.planned.contains = [] := by
  have alone : m.discriminated = [] := by
    by_contra grouped
    exact unplanned (planned_of_direct (mem_ownMessages found own) (hasDirectTransform_iff.mpr (.inl grouped)))
  have nothing : m.fields.flatMap (bodySteps index index.planned.contains) = [] :=
    List.flatMap_eq_nil_iff.mpr fun f inside => by
      rw [← filter_fieldSteps index m, fieldSteps_of_unplanned found own unplanned inside]
      rfl
  rw [innerSteps, nothing, alone]
  rfl

variable (sound : index.Sound)

include sound

theorem run_of_encodeWithin (plain : m.isRootUnwrap = false) {levels : Nat} {doc : Doc} {w : Json}
    (encoded : encodeWithin index.codec levels name (.obj doc) = .ok w) : ∃ lower wire, w = .obj wire ∧
      encodeAll (encodeWithin index.codec lower) (planOf index index.planned m)
        (innerSteps index m index.planned.contains) doc = .ok wire := by
  cases levels with
  | zero => exact absurd encoded (encodeWithin_zero _ _ _ _)
  | succ levels =>
    by_cases planned : m.fullName ∈ index.planned
    · rw [encodeWithin_plain sound found planned plain] at encoded
      obtain ⟨wire, run, rfl⟩ := map_eq_ok encoded
      exact ⟨levels, wire, rfl, run⟩
    · rw [encodeWithin_unplanned (plan?_codec_none sound.toKeyed found planned levels)] at encoded
      cases Except.ok.inj encoded
      rw [innerSteps_of_unplanned found own planned]
      exact ⟨levels, doc, rfl, rfl⟩

theorem run_of_root (named : index.Named) {f : Field} (alone : m.fields = [f]) (unwrap : f.annotations.unwrap = true)
    {levels : Nat} {doc : Doc} (distinct : doc.Distinct) {w : Json}
    (encoded : encodeWithin index.codec levels name (.obj doc) = .ok w) : ∃ lower o,
      encodeBlock (encodeWithin index.codec lower) (planOf index index.planned m)
        (bodySteps index index.planned.contains f) (doc.get? f.jsonName) = .ok o ∧
      w = o.getD (emptyContainer f.isMap) := by
  have inside : f ∈ m.fields := by rw [alone]; exact List.mem_singleton_self f
  have members := named.members m (KeyMap.mem_values.mpr ⟨_, found⟩)
  have plural := ((checked_of_sound sound found f inside).unwrap unwrap).1
  have unlifted : f.lifted? = none := by
    rw [Option.eq_none_iff_forall_ne_some]
    rintro ⟨type, pre⟩ lifted
    rw [(lifted?_eq_some lifted).2.2] at plural
    cases plural
  have planned : m.fullName ∈ index.planned :=
    planned_of_direct (mem_ownMessages found own) (hasDirectTransform_iff.mpr (.inr ⟨f, inside, _, _,
      .root unwrap (Message.isRootUnwrap_iff.mpr ⟨f, alone, unwrap⟩)⟩))
  cases levels with
  | zero => exact absurd encoded (encodeWithin_zero _ _ _ _)
  | succ levels =>
    rw [encodeWithin_root sound found planned alone unwrap
      (discriminated_of_root sound found members alone unwrap)] at encoded
    obtain ⟨wire, body, rfl⟩ := map_eq_ok encoded
    rw [innerSteps_of_root index alone (discriminated_of_root sound found members alone unwrap)] at body
    obtain ⟨o, block, changed⟩ := encodeBlock_of_run (staysAt_of_unlifted index _ unlifted) distinct body
    exact ⟨levels, o, block, by rw [changed.2, if_pos rfl]⟩

omit own in
theorem encoded_of_childWire (bare : bareName name = name) {lower : Nat} {value w : Json}
    (below : ChildWire index.planned.contains (encodeWithin index.codec lower) name value w) :
    ∃ levels, encodeWithin index.codec levels name value = .ok w := by
  rw [ChildWire] at below
  split at below
  · exact ⟨lower, below⟩
  · rename_i foreign
    have unplanned : m.fullName ∉ index.planned := fun inside =>
      foreign (by simpa [← fullName_eq sound bare found] using inside)
    subst below
    exact ⟨1, encodeWithin_unplanned (plan?_codec_none sound.toKeyed found unplanned 0) _⟩

end Runs

end Codec

end Wireform
