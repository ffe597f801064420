import Wireform.Proofs.StepPhases

set_option autoImplicit false

namespace Wireform.Codec

open Index

variable {index : Index} {m : Message} {planned : String → Bool} {encode : String → Json → Result Json}
  {plan : Plan} {doc wire : Doc}

def WritesObject (index : Index) (planned : String → Bool) (encode : String → Json → Result Json) (type : String)
    (value : Json) : Prop :=
  value.isNull = false ∧ ∀ w, ChildWire planned encode type value w →
    ∃ child : Doc, w = .obj child ∧ child.Distinct ∧ ∀ k ∈ child.keys, k ∈ index.laidKeys type

inductive Lifts (planned : String → Bool) (encode : String → Json → Result Json) (f : Field) (doc : Doc) :
    String → Json → Prop
  | intro {type pre key : String} {value v : Json} {child : Doc} (lifted : f.lifted? = some (type, pre))
      (given : doc.get? f.jsonName = some value) (below : ChildWire planned encode type value (.obj child))
      (inside : child.get? key = some v) : Lifts planned encode f doc (pre ++ key) v

theorem ChildWire.unique {type : String} {value v w : Json} (first : ChildWire planned encode type value v)
    (second : ChildWire planned encode type value w) : v = w := by
  rw [ChildWire] at first second
  split at first
  · rename_i own
    rw [if_pos own, first] at second
    exact Except.ok.inj second
  · rename_i foreign
    rw [if_neg foreign] at second
    rw [first, second]

theorem Lifts.of_same {f : Field} {other : Doc} (same : other.get? f.jsonName = doc.get? f.jsonName)
    {k : String} {v : Json} (lifts : Lifts planned encode f doc k v) : Lifts planned encode f other k v := by
  obtain ⟨lifted, given, below, inside⟩ := lifts
  exact ⟨lifted, same.trans given, below, inside⟩

theorem Lifts.mem_ownKeys {f : Field} (object : ∀ type pre, f.lifted? = some (type, pre) → ∀ value,
      doc.get? f.jsonName = some value → WritesObject index planned encode type value) {k : String} {v : Json}
    (lifts : Lifts planned encode f doc k v) : k ∈ index.ownKeys f := by
  obtain ⟨lifted, given, below, inside⟩ := lifts
  obtain ⟨_, same, _, known⟩ := (object _ _ lifted _ given).2 _ below
  cases same
  rw [ownKeys, lifted]
  exact List.mem_map.mpr ⟨_, known _ (Entries.mem_keys_iff.mpr ⟨v, inside⟩), rfl⟩

theorem Lifts.isSome {f : Field} {k : String} {v : Json} (lifts : Lifts planned encode f doc k v) :
    f.lifted?.isSome = true := by
  obtain ⟨lifted, _⟩ := lifts
  rw [lifted]
  rfl

structure FieldsWritten (index : Index) (planned : String → Bool) (encode : String → Json → Result Json)
    (plan : Plan) (fields : List Field) (doc wire : Doc) : Prop where
  distinct : wire.Distinct
  others : ∀ k, (∀ f ∈ fields, k ∉ index.ownKeys f ∧ k ≠ f.jsonName) → wire.get? k = doc.get? k
  own : ∀ f ∈ fields, f.lifted? = none →
    encodeBlock encode plan (bodySteps index planned f) (doc.get? f.jsonName) = .ok (wire.get? f.jsonName)
  children : ∀ f ∈ fields, ∀ type pre, f.lifted? = some (type, pre) → ∀ value,
    doc.get? f.jsonName = some value → ∃ child : Doc, ChildWire planned encode type value (.obj child)
  lifted : ∀ f ∈ fields, ∀ k v, Lifts planned encode f doc k v → wire.get? k = some v
  origin : ∀ k v, wire.get? k = some v → (∃ f ∈ fields, f.lifted? = none ∧ f.jsonName = k) ∨
    (∃ f ∈ fields, Lifts planned encode f doc k v) ∨ (doc.get? k = some v ∧ ∀ f ∈ fields, f.jsonName ≠ k)

section Single

variable {f : Field}

theorem FieldsWritten.single (distinct : wire.Distinct)
    (others : ∀ k, k ∉ index.ownKeys f → k ≠ f.jsonName → wire.get? k = doc.get? k)
    (own : f.lifted? = none →
      encodeBlock encode plan (bodySteps index planned f) (doc.get? f.jsonName) = .ok (wire.get? f.jsonName))
    (children : ∀ type pre, f.lifted? = some (type, pre) → ∀ value, doc.get? f.jsonName = some value →
      ∃ child : Doc, ChildWire planned encode type value (.obj child))
    (lifted : ∀ k v, Lifts planned encode f doc k v → wire.get? k = some v)
    (origin : ∀ k v, wire.get? k = some v → (f.lifted? = none ∧ f.jsonName = k) ∨ Lifts planned encode f doc k v ∨
      (doc.get? k = some v ∧ f.jsonName ≠ k)) : FieldsWritten index planned encode plan [f] doc wire := by
  have itself : f ∈ [f] := List.mem_singleton_self f
  refine
    { distinct
      others := fun k outside => others k (outside f itself).1 (outside f itself).2
      own := fun g inside => List.mem_singleton.mp inside ▸ own
      children := fun g inside => List.mem_singleton.mp inside ▸ children
      lifted := fun g inside => List.mem_singleton.mp inside ▸ lifted
      origin := fun k v there => ?_ }
  rcases origin k v there with ⟨unlifted, same⟩ | lifts | ⟨given, apart⟩
  · exact .inl ⟨f, itself, unlifted, same⟩
  · exact .inr (.inl ⟨f, itself, lifts⟩)
  · exact .inr (.inr ⟨given, fun g inside => List.mem_singleton.mp inside ▸ apart⟩)

theorem child_of_block {type : String} (typed : f.message? = some type) (singular : f.isSingular = true)
    {value : Json} (present : value.isNull = false) {o : Option Json}
    (run : encodeBlock encode plan (childSteps index planned f) (some value) = .ok o) :
    ∃ w, o = some w ∧ ChildWire planned encode type value w := by
  rw [childSteps_some typed, unwrapValues?_none (not_map_of_singular singular)] at run
  cases own : planned type with
  | false =>
    simp only [own] at run
    cases Except.ok.inj run
    exact ⟨value, rfl, by simp [ChildWire, own]⟩
  | true =>
    simp only [own, if_true, Option.toList_none, List.map_nil, List.append_nil] at run
    obtain ⟨between, first, later⟩ := bind_eq_ok run
    cases Except.ok.inj later
    obtain ⟨w, made, rfl⟩ := map_eq_ok first
    rw [Field.step, container_of_singular singular, mapContainer_single _ present] at made
    exact ⟨w, rfl, by rw [ChildWire, if_pos own]; exact made⟩

theorem read_of_block {decode : String → Json → Result Json} {type : String} (typed : f.message? = some type)
    (singular : f.isSingular = true) {w : Json} (present : w.isNull = false) {o : Option Json}
    (run : decodeBlock decode plan (childSteps index planned f).reverse (some w) = .ok o) :
    ∃ value, o = some value ∧ ChildWire planned decode type w value := by
  rw [childSteps_some typed, unwrapValues?_none (not_map_of_singular singular)] at run
  cases own : planned type with
  | false =>
    simp only [own] at run
    cases Except.ok.inj run
    exact ⟨w, rfl, by simp [ChildWire, own]⟩
  | true =>
    simp only [own, if_true, Option.toList_none, List.map_nil, List.append_nil, List.reverse_singleton] at run
    obtain ⟨between, first, later⟩ := bind_eq_ok run
    cases Except.ok.inj later
    obtain ⟨value, made, rfl⟩ := map_eq_ok first
    rw [Field.step, container_of_singular singular, mapContainer_single _ present] at made
    exact ⟨value, rfl, by rw [ChildWire, if_pos own]; exact made⟩

theorem unlifted_written (unlifted : f.lifted? = none) (distinct : doc.Distinct)
    (run : encodeAll encode plan (bodySteps index planned f) doc = .ok wire) :
    FieldsWritten index planned encode plan [f] doc wire := by
  obtain ⟨o, block, changed⟩ := encodeBlock_of_run (staysAt_of_unlifted index planned unlifted) distinct run
  refine .single changed.1 (fun k _ apart => ?_) (fun _ => ?_) (fun type pre lifted => ?_) (fun k v lifts => ?_)
    fun k v there => ?_
  · rw [changed.2, if_neg (Ne.symm apart)]
  · rw [changed.2, if_pos rfl, block]
  · rw [unlifted] at lifted
    cases lifted
  · have lifted := lifts.isSome
    rw [unlifted] at lifted
    cases lifted
  · by_cases same : f.jsonName = k
    · exact .inl ⟨unlifted, same⟩
    · rw [changed.2, if_neg same] at there
      exact .inr (.inr ⟨there, same⟩)

section Lifted

variable {type pre : String} (lifted : f.lifted? = some (type, pre)) {between : Doc}

include lifted

theorem nothing_written (absent : doc.get? f.jsonName = none) (changed : Changed doc f.jsonName none wire) :
    FieldsWritten index planned encode plan [f] doc wire := by
  have unchanged (k : String) : wire.get? k = doc.get? k := by
    rw [changed.2]
    split
    · rename_i same
      rw [← same, absent]
    · rfl
  refine .single changed.1 (fun k _ _ => unchanged k) (fun unlifted => ?_) (fun _ _ _ value given => ?_)
    (fun k v lifts => ?_) fun k v there => ?_
  · rw [lifted] at unlifted
    cases unlifted
  · rw [absent] at given
    cases given
  · obtain ⟨_, given, _⟩ := lifts
    rw [absent] at given
    cases given
  · rw [unchanged] at there
    refine .inr (.inr ⟨there, ?_⟩)
    rintro rfl
    rw [absent] at there
    cases there

theorem spread_written {value : Json} (given : doc.get? f.jsonName = some value) {child : Doc}
    (below : ChildWire planned encode type value (.obj child)) (distinct : child.Distinct)
    (known : ∀ k ∈ child.keys, k ∈ index.laidKeys type)
    (changed : Changed doc f.jsonName (some (.obj child)) between) :
    FieldsWritten index planned encode plan [f] doc (Codec.lifted (pre ++ ·) f.jsonName child between) := by
  -- A key of the result is one of the child's, under the prefix, or one of the document beside it.
  have placed (l : String) : (Codec.lifted (pre ++ ·) f.jsonName child between).get? (pre ++ l) =
      (child.get? l).or (if f.jsonName = pre ++ l then none else between.get? (pre ++ l)) :=
    get?_lifted_place (prefix_injective pre) changed.1 distinct l
  have beside {k : String} (apart : k ∉ child.keys.map (pre ++ ·)) :
      (Codec.lifted (pre ++ ·) f.jsonName child between).get? k =
        if f.jsonName = k then none else doc.get? k := by
    rw [get?_lifted_other (prefix_injective pre) changed.1 distinct apart, changed.2]
    split <;> rfl
  refine .single (lifted_distinct changed.1) (fun k unlaid apart => ?_) (fun unlifted => ?_)
    (fun type' pre' lifted' value' there => ?_) (fun k v lifts => ?_) fun k v there => ?_
  · rw [beside, if_neg (Ne.symm apart)]
    intro inside
    obtain ⟨l, there, rfl⟩ := List.mem_map.mp inside
    rw [ownKeys, lifted] at unlaid
    exact unlaid (List.mem_map.mpr ⟨l, known l there, rfl⟩)
  · rw [lifted] at unlifted
    cases unlifted
  · cases lifted.symm.trans lifted'
    cases given.symm.trans there
    exact ⟨child, below⟩
  · obtain ⟨lifted', there, below', found⟩ := lifts
    cases lifted.symm.trans lifted'
    cases given.symm.trans there
    cases below.unique below'
    rw [placed, found, Option.some_or]
  · by_cases inside : k ∈ child.keys.map (pre ++ ·)
    · obtain ⟨l, listed, rfl⟩ := List.mem_map.mp inside
      obtain ⟨v', found⟩ := Entries.mem_keys_iff.mp listed
      rw [placed, found, Option.some_or] at there
      cases there
      exact .inr (.inl ⟨lifted, given, below, found⟩)
    · rw [beside inside] at there
      obtain ⟨apart, before⟩ := Option.ite_none_left_eq_some.mp there
      exact .inr (.inr ⟨before, apart⟩)

theorem lifted_written (checked : f.Checked index m) (other : type ≠ WellKnown.timestamp) (distinct : doc.Distinct)
    (object : ∀ value, doc.get? f.jsonName = some value → WritesObject index planned encode type value)
    (run : encodeAll encode plan (bodySteps index planned f) doc = .ok wire) :
    FieldsWritten index planned encode plan [f] doc wire := by
  obtain ⟨_, typed, singular⟩ := lifted?_eq_some lifted
  rw [bodySteps_of_lifted checked lifted other, encodeAll_append] at run
  obtain ⟨between, first, later⟩ := bind_eq_ok run
  obtain ⟨moved, step, last⟩ := bind_eq_ok later
  cases Except.ok.inj last
  obtain ⟨o, block, changed⟩ := encodeBlock_of_run staysAt_childSteps distinct first
  have at_key : between.get? f.jsonName = o := by rw [changed.2, if_pos rfl]
  simp only [encodeStep, Field.step, at_key] at step
  cases given : doc.get? f.jsonName with
  | none =>
    rw [given, encodeBlock_passes child_maps (.inl rfl)] at block
    cases Except.ok.inj block
    cases Except.ok.inj step
    exact nothing_written lifted given changed
  | some value =>
    obtain ⟨present, keys⟩ := object value given
    rw [given] at block
    obtain ⟨w, rfl, below⟩ := child_of_block typed singular present block
    obtain ⟨child, rfl, child_distinct, known⟩ := keys w below
    cases Except.ok.inj step
    exact spread_written lifted given below child_distinct known changed

end Lifted

end Single

theorem FieldsWritten.cons {f : Field} {rest : List Field} {between : Doc}
    (names : ∀ g ∈ rest, f.jsonName ≠ g.jsonName)
    (apart : ∀ g ∈ rest, g.jsonName ∉ index.ownKeys f ∧ List.Disjoint (index.ownKeys f) (index.ownKeys g))
    (object : ∀ type pre, f.lifted? = some (type, pre) → ∀ value, doc.get? f.jsonName = some value →
      WritesObject index planned encode type value)
    (first : FieldsWritten index planned encode plan [f] doc between)
    (later : FieldsWritten index planned encode plan rest between wire) :
    FieldsWritten index planned encode plan (f :: rest) doc wire := by
  have untouched (g : Field) (inside : g ∈ rest) : between.get? g.jsonName = doc.get? g.jsonName := by
    refine first.others _ fun h there => ?_
    cases List.mem_singleton.mp there
    exact ⟨(apart g inside).1, Ne.symm (names g inside)⟩
  -- No later field writes where the first has written.
  have kept {k : String} (own : k ∈ index.ownKeys f) (other : ∀ g ∈ rest, k ≠ g.jsonName) :
      wire.get? k = between.get? k :=
    later.others k fun g inside => ⟨fun taken => (apart g inside).2 own taken, other g inside⟩
  refine ⟨later.distinct, fun k outside => ?_, fun g inside unlifted => ?_, fun g inside type pre lifted value => ?_,
    fun g inside k v lifts => ?_, fun k v there => ?_⟩
  · rw [later.others k fun g inside => outside g (List.mem_cons_of_mem f inside)]
    exact first.others k fun g inside => outside g (List.mem_cons.mpr (.inl (List.mem_singleton.mp inside)))
  · rcases List.mem_cons.mp inside with rfl | there
    · have own : g.jsonName ∈ index.ownKeys g := by
        rw [ownKeys_of_unlifted unlifted]
        exact List.mem_singleton_self _
      rw [kept own names]
      exact first.own g (List.mem_singleton_self g) unlifted
    · rw [← untouched g there]
      exact later.own g there unlifted
  · rcases List.mem_cons.mp inside with rfl | there
    · exact first.children g (List.mem_singleton_self g) type pre lifted value
    · rw [← untouched g there]
      exact later.children g there type pre lifted value
  · rcases List.mem_cons.mp inside with rfl | there
    · have own : k ∈ index.ownKeys g := lifts.mem_ownKeys object
      rw [kept own fun h inside same => (apart h inside).1 (same ▸ own)]
      exact first.lifted g (List.mem_singleton_self g) k v lifts
    · exact later.lifted g there k v (lifts.of_same (untouched g there))
  · rcases later.origin k v there with ⟨g, inside, unlifted, same⟩ | ⟨g, inside, lifts⟩ | ⟨before, apart⟩
    · exact .inl ⟨g, List.mem_cons_of_mem f inside, unlifted, same⟩
    · exact .inr (.inl ⟨g, List.mem_cons_of_mem f inside, lifts.of_same (untouched g inside).symm⟩)
    · rcases first.origin k v before with ⟨g, inside, from_g⟩ | ⟨g, inside, from_g⟩ | ⟨given, differ⟩
      · exact .inl ⟨g, List.mem_cons.mpr (.inl (List.mem_singleton.mp inside)), from_g⟩
      · exact .inr (.inl ⟨g, List.mem_cons.mpr (.inl (List.mem_singleton.mp inside)), from_g⟩)
      · refine .inr (.inr ⟨given, fun g inside => ?_⟩)
        rcases List.mem_cons.mp inside with rfl | there
        · exact differ g (List.mem_singleton_self g)
        · exact apart g there

theorem fieldsWritten_of_run {fields : List Field} (checked : ∀ f ∈ fields, f.Checked index m)
    (target : ∀ f ∈ fields, ∀ type pre, f.lifted? = some (type, pre) → type ≠ WellKnown.timestamp)
    (names : fields.Pairwise fun f g => f.jsonName ≠ g.jsonName)
    (apart : fields.Pairwise fun f g =>
      g.jsonName ∉ index.ownKeys f ∧ List.Disjoint (index.ownKeys f) (index.ownKeys g))
    (distinct : doc.Distinct)
    (object : ∀ f ∈ fields, ∀ type pre, f.lifted? = some (type, pre) → ∀ value,
      doc.get? f.jsonName = some value → WritesObject index planned encode type value)
    (run : encodeAll encode plan (fields.flatMap (bodySteps index planned)) doc = .ok wire) :
    FieldsWritten index planned encode plan fields doc wire := by
  -- By induction on the fields: what the first writes is out of the way of the others.
  induction fields generalizing doc with
  | nil =>
    cases Except.ok.inj run
    exact ⟨distinct, fun _ _ => rfl, by simp, by simp, by simp, fun k v there => .inr (.inr ⟨there, by simp⟩)⟩
  | cons f rest ih =>
    rw [List.pairwise_cons] at names apart
    rw [List.flatMap_cons, encodeAll_append] at run
    obtain ⟨between, here, later⟩ := bind_eq_ok run
    have first : FieldsWritten index planned encode plan [f] doc between := by
      cases lifted : f.lifted? with
      | none => exact unlifted_written lifted distinct here
      | some group =>
        exact lifted_written lifted (checked f List.mem_cons_self) (target f List.mem_cons_self _ _ lifted) distinct
          (object f List.mem_cons_self _ _ lifted) here
    refine .cons names.1 apart.1 (object f List.mem_cons_self) first
      (ih (fun g inside => checked g (List.mem_cons_of_mem f inside))
        (fun g inside => target g (List.mem_cons_of_mem f inside)) names.2 apart.2 first.distinct
        (fun g inside type pre lifted value given => ?_) later)
    refine object g (List.mem_cons_of_mem f inside) type pre lifted value ?_
    rw [← given]
    refine (first.others _ fun h there => ?_).symm
    cases List.mem_singleton.mp there
    exact ⟨(apart.1 g inside).1, Ne.symm (names.1 g inside)⟩

end Wireform.Codec
