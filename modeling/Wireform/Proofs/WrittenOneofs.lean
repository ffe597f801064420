import Wireform.Proofs.StepPhases

set_option autoImplicit false

namespace Wireform.Codec

open Index

variable {index : Index} {m : Message} {encode : String → Json → Result Json} {plan : Plan} {doc wire : Doc}

/-- One member at most of a oneof that lifts its members is set, to an object with known keys. -/
structure LiftsOne (index : Index) (m : Message) (group : Oneof × OneofConfig) (doc : Doc) : Prop where
  single : group.2.flatten = true → ∀ f ∈ m.oneofMembers group.1, ∀ g ∈ m.oneofMembers group.1,
    doc.get? f.jsonName ≠ none → doc.get? g.jsonName ≠ none → f.jsonName = g.jsonName
  object : group.2.flatten = true → ∀ f ∈ m.oneofMembers group.1, ∀ value, doc.get? f.jsonName = some value →
    ∃ child : Doc, value = .obj child ∧ child.Distinct ∧ ∀ k ∈ child.keys, k ∈ (index.variantOf group.2 f).childKeys

structure OneofsWritten (index : Index) (m : Message) (groups : List (Oneof × OneofConfig)) (doc wire : Doc) :
    Prop where
  distinct : wire.Distinct
  others : ∀ k, (∀ group ∈ groups, k ∉ index.oneofKeys m group.1 group.2) →
    (∀ f, LiftedBy m groups f → k ≠ f.jsonName) → wire.get? k = doc.get? k
  lifted : ∀ f, LiftedBy m groups f → ∀ child : Doc, doc.get? f.jsonName = some (.obj child) →
    ∀ k v, child.get? k = some v → wire.get? k = some v
  origin : ∀ k v, wire.get? k = some v →
    (∃ group ∈ groups, ∃ f ∈ m.oneofMembers group.1, k = group.2.discriminator ∧ v = .str f.variantValue) ∨
    (∃ group ∈ groups, group.2.flatten = true ∧ ∃ f ∈ m.oneofMembers group.1, ∃ child : Doc,
      doc.get? f.jsonName = some (.obj child) ∧ child.get? k = some v) ∨
    (doc.get? k = some v ∧ ∀ f, LiftedBy m groups f → k ≠ f.jsonName)

theorem liftedBy_singleton {group : Oneof × OneofConfig} {f : Field} :
    LiftedBy m [group] f ↔ group.2.flatten = true ∧ f ∈ m.oneofMembers group.1 := by
  constructor
  · rintro ⟨other, inside, lifts⟩
    cases List.mem_singleton.mp inside
    exact lifts
  · exact fun lifts => ⟨group, List.mem_singleton_self group, lifts⟩

theorem liftedBy_cons {group : Oneof × OneofConfig} {rest : List (Oneof × OneofConfig)} {f : Field} :
    LiftedBy m (group :: rest) f ↔ LiftedBy m [group] f ∨ LiftedBy m rest f := by
  constructor
  · rintro ⟨other, inside, lifts⟩
    rcases List.mem_cons.mp inside with rfl | there
    · exact .inl ⟨other, List.mem_singleton_self other, lifts⟩
    · exact .inr ⟨other, there, lifts⟩
  · rintro (⟨other, inside, lifts⟩ | ⟨other, inside, lifts⟩)
    · exact ⟨other, List.mem_cons.mpr (.inl (List.mem_singleton.mp inside)), lifts⟩
    · exact ⟨other, List.mem_cons_of_mem group inside, lifts⟩

section Single

variable {oneof : Oneof} {config : OneofConfig}

theorem unset_written (distinct : doc.Distinct) (lifts : LiftsOne index m (oneof, config) doc)
    (unset : setVariant? ((m.oneofMembers oneof).map (index.variantOf config)) doc = none) :
    OneofsWritten index m [(oneof, config)] doc doc := by
  have absent (f : Field) (lifted : LiftedBy m [(oneof, config)] f) : doc.get? f.jsonName = none := by
    obtain ⟨flatten, member⟩ := liftedBy_singleton.mp lifted
    rw [Option.eq_none_iff_forall_ne_some]
    intro value given
    obtain ⟨child, rfl, _⟩ := lifts.object flatten f member value given
    cases setVariant?_none unset _ (List.mem_map.mpr ⟨f, member, rfl⟩) _ given
  refine ⟨distinct, fun _ _ _ => rfl, fun f lifted child given => ?_, fun k v there => .inr (.inr ⟨there, ?_⟩)⟩
  · rw [absent f lifted] at given
    cases given
  · rintro f lifted rfl
    rw [absent f lifted] at there
    cases there

theorem tagged_written (distinct : doc.Distinct) (beside : config.flatten = false) {f : Field}
    (member : f ∈ m.oneofMembers oneof) : OneofsWritten index m [(oneof, config)] doc
      (Entries.insert doc config.discriminator (.str f.variantValue)) := by
  have never {g : Field} {p : Prop} (lifted : LiftedBy m [(oneof, config)] g) : p := by
    have flatten := (liftedBy_singleton.mp lifted).1
    rw [beside] at flatten
    cases flatten
  refine ⟨Entries.distinct_insert distinct _ _, fun k outside _ => ?_, fun _ lifted => never lifted,
    fun k v there => ?_⟩
  · rw [Entries.get?_insert, if_neg]
    rintro rfl
    exact outside _ (List.mem_singleton_self _) discriminator_mem
  · rw [Entries.get?_insert] at there
    split at there
    · rename_i same
      cases Option.some.inj there
      exact .inl ⟨_, List.mem_singleton_self _, f, member, same.symm, rfl⟩
    · exact .inr (.inr ⟨there, fun _ lifted => never lifted⟩)

theorem variant_written (tag : ∀ f ∈ m.oneofMembers oneof, config.discriminator ∉ (index.variantOf config f).childKeys)
    (distinct : doc.Distinct) (lifts : LiftsOne index m (oneof, config) doc) (flatten : config.flatten = true)
    {f : Field} (member : f ∈ m.oneofMembers oneof) {child : Doc} (given : doc.get? f.jsonName = some (.obj child)) :
    OneofsWritten index m [(oneof, config)] doc
      (Entries.insert (Codec.lifted id f.jsonName child doc) config.discriminator (.str f.variantValue)) := by
  obtain ⟨child', same, child_distinct, known⟩ := lifts.object flatten f member _ given
  cases same
  have untagged {k : String} (inside : k ∈ child.keys) : config.discriminator ≠ k := by
    rintro rfl
    exact tag f member (known _ inside)
  -- No other member is set, so that nothing else is lifted.
  have only (g : Field) (lifted : LiftedBy m [(oneof, config)] g) (set : doc.get? g.jsonName ≠ none) :
      g.jsonName = f.jsonName :=
    lifts.single flatten g (liftedBy_singleton.mp lifted).2 f member set (by rw [given]; simp)
  have lifted_at {k : String} {v : Json} (found : child.get? k = some v) :
      (Codec.lifted id f.jsonName child doc).get? k = some v := by
    have placed : (Codec.lifted id f.jsonName child doc).get? (id k) = _ :=
      get?_lifted_place (fun _ _ same => same) distinct child_distinct k
    rw [found, Option.some_or] at placed
    exact placed
  have beside {k : String} (apart : k ∉ child.keys) : (Codec.lifted id f.jsonName child doc).get? k =
      if f.jsonName = k then none else doc.get? k :=
    get?_lifted_other (fun _ _ same => same) distinct child_distinct (by rwa [List.map_id'])
  refine ⟨Entries.distinct_insert (lifted_distinct distinct) _ _, fun k outside free => ?_,
    fun g lifted other there k v found => ?_, fun k v there => ?_⟩
  · have unwritten := outside _ (List.mem_singleton_self _)
    have differs : config.discriminator ≠ k := fun same => unwritten (same ▸ discriminator_mem)
    have apart : k ∉ child.keys := fun inside => unwritten (childKeys_mem member (known k inside))
    rw [Entries.get?_insert, if_neg differs, beside apart,
      if_neg (Ne.symm (free f (liftedBy_singleton.mpr ⟨flatten, member⟩)))]
  · rw [only g lifted (by rw [there]; simp), given] at there
    cases there
    rw [Entries.get?_insert, if_neg (untagged (Entries.mem_keys_iff.mpr ⟨v, found⟩))]
    exact lifted_at found
  · rw [Entries.get?_insert] at there
    split at there
    · rename_i same
      cases Option.some.inj there
      exact .inl ⟨_, List.mem_singleton_self _, f, member, same.symm, rfl⟩
    · by_cases inside : k ∈ child.keys
      · obtain ⟨v', found⟩ := Entries.mem_keys_iff.mp inside
        rw [lifted_at found] at there
        cases there
        exact .inr (.inl ⟨_, List.mem_singleton_self _, flatten, f, member, child, given, found⟩)
      · rw [beside inside] at there
        split at there
        · cases there
        · rename_i apart
          refine .inr (.inr ⟨there, ?_⟩)
          rintro g lifted rfl
          exact apart (only g lifted (by rw [there]; simp)).symm

theorem oneof_written (tag : ∀ f ∈ m.oneofMembers oneof, config.discriminator ∉ (index.variantOf config f).childKeys)
    (distinct : doc.Distinct) (lifts : LiftsOne index m (oneof, config) doc)
    (run : encodeStep encode plan (oneofStep index m oneof config) doc = .ok wire) :
    OneofsWritten index m [(oneof, config)] doc wire := by
  simp only [oneofStep_eq, encodeStep, encodeOneof] at run
  cases set : setVariant? ((m.oneofMembers oneof).map (index.variantOf config)) doc with
  | none =>
    rw [set] at run
    cases Except.ok.inj run
    exact unset_written distinct lifts set
  | some found =>
    obtain ⟨variant, value⟩ := found
    obtain ⟨inside, there, _⟩ := setVariant?_spec set
    obtain ⟨f, member, rfl⟩ := List.mem_map.mp inside
    rw [set] at run
    cases flatten : config.flatten with
    | false =>
      simp only [flatten, Bool.false_eq_true, if_false, pure_bind] at run
      cases Except.ok.inj run
      exact tagged_written distinct flatten member
    | true =>
      obtain ⟨child, rfl, _⟩ := lifts.object flatten f member value there
      simp only [flatten, if_true, pure_bind] at run
      cases Except.ok.inj run
      have written := variant_written tag distinct lifts flatten member there
      simpa [Codec.lifted, Index.variantOf] using written

end Single

theorem OneofsWritten.cons {group : Oneof × OneofConfig} {rest : List (Oneof × OneofConfig)} {between : Doc}
    (apart : ∀ other ∈ rest, List.Disjoint (index.oneofKeys m group.1 group.2) (index.oneofKeys m other.1 other.2) ∧
      ∀ f ∈ m.oneofMembers other.1, f.jsonName ∉ index.oneofKeys m group.1 group.2)
    (members : ∀ other ∈ rest, ∀ f ∈ m.oneofMembers group.1, ∀ g ∈ m.oneofMembers other.1, f.jsonName ≠ g.jsonName)
    (object : ∀ f, LiftedBy m [group] f → ∀ child : Doc, doc.get? f.jsonName = some (.obj child) →
      ∀ k ∈ child.keys, k ∈ index.oneofKeys m group.1 group.2)
    (first : OneofsWritten index m [group] doc between) (later : OneofsWritten index m rest between wire) :
    OneofsWritten index m (group :: rest) doc wire := by
  -- The first group writes no key that a later one reads, so their children are those of the first document.
  have untouched (f : Field) (lifted : LiftedBy m rest f) : between.get? f.jsonName = doc.get? f.jsonName := by
    obtain ⟨other, inside, _, member⟩ := lifted
    refine first.others _ (fun g there => ?_) fun g there => ?_
    · cases List.mem_singleton.mp there
      exact (apart other inside).2 f member
    · exact Ne.symm (members other inside g (liftedBy_singleton.mp there).2 f member)
  refine ⟨later.distinct, fun k outside free => ?_, fun f lifted child given k v found => ?_, fun k v there => ?_⟩
  · rw [later.others k (fun other inside => outside other (List.mem_cons_of_mem group inside))
      fun f lifted => free f (liftedBy_cons.mpr (.inr lifted))]
    refine first.others k (fun other inside => ?_) fun f lifted => free f (liftedBy_cons.mpr (.inl lifted))
    exact outside other (List.mem_cons.mpr (.inl (List.mem_singleton.mp inside)))
  · rcases liftedBy_cons.mp lifted with here | there
    · have own := object f here child given k (Entries.mem_keys_iff.mpr ⟨v, found⟩)
      rw [later.others k (fun other inside taken => (apart other inside).1 own taken)]
      · exact first.lifted f here child given k v found
      · rintro g ⟨other, inside, _, member⟩ rfl
        exact (apart other inside).2 g member own
    · rw [← untouched f there] at given
      exact later.lifted f there child given k v found
  · rcases later.origin k v there with ⟨other, inside, from_other⟩ |
      ⟨other, inside, flatten, f, member, child, given, found⟩ | ⟨before, free⟩
    · exact .inl ⟨other, List.mem_cons_of_mem group inside, from_other⟩
    · rw [untouched f ⟨other, inside, flatten, member⟩] at given
      exact .inr (.inl ⟨other, List.mem_cons_of_mem group inside, flatten, f, member, child, given, found⟩)
    · rcases first.origin k v before with ⟨other, inside, from_other⟩ | ⟨other, inside, from_other⟩ | ⟨given, untaken⟩
      · exact .inl ⟨other, List.mem_cons.mpr (.inl (List.mem_singleton.mp inside)), from_other⟩
      · exact .inr (.inl ⟨other, List.mem_cons.mpr (.inl (List.mem_singleton.mp inside)), from_other⟩)
      · exact .inr (.inr ⟨given, fun f lifted => (liftedBy_cons.mp lifted).elim (untaken f) (free f)⟩)

theorem oneofsWritten_of_run {groups : List (Oneof × OneofConfig)}
    (tag : ∀ group ∈ groups, ∀ f ∈ m.oneofMembers group.1,
      group.2.discriminator ∉ (index.variantOf group.2 f).childKeys)
    (apart : groups.Pairwise fun a b =>
      List.Disjoint (index.oneofKeys m a.1 a.2) (index.oneofKeys m b.1 b.2) ∧
        ∀ f ∈ m.oneofMembers b.1, f.jsonName ∉ index.oneofKeys m a.1 a.2)
    (members : groups.Pairwise fun a b =>
      ∀ f ∈ m.oneofMembers a.1, ∀ g ∈ m.oneofMembers b.1, f.jsonName ≠ g.jsonName)
    (distinct : doc.Distinct) (lifts : ∀ group ∈ groups, LiftsOne index m group doc)
    (run : encodeAll encode plan (groups.map fun (oneof, config) => oneofStep index m oneof config) doc = .ok wire) :
    OneofsWritten index m groups doc wire := by
  -- By induction on the oneofs: the first leaves the members of the others as they are.
  induction groups generalizing doc with
  | nil =>
    cases Except.ok.inj run
    have never {f : Field} {p : Prop} (lifted : LiftedBy m [] f) : p := by
      obtain ⟨_, inside, _⟩ := lifted
      cases inside
    exact ⟨distinct, fun _ _ _ => rfl, fun _ lifted => never lifted,
      fun k v there => .inr (.inr ⟨there, fun _ lifted => never lifted⟩)⟩
  | cons group rest ih =>
    obtain ⟨oneof, config⟩ := group
    rw [List.pairwise_cons] at apart members
    obtain ⟨between, here, later⟩ := bind_eq_ok run
    have ready := lifts _ List.mem_cons_self
    have first : OneofsWritten index m [(oneof, config)] doc between :=
      oneof_written (tag _ List.mem_cons_self) distinct ready here
    refine .cons apart.1 members.1 (fun f lifted child given k inside => ?_) first
      (ih (fun other inside => tag other (List.mem_cons_of_mem _ inside)) apart.2 members.2 first.distinct
        (fun other inside => ?_) later)
    · obtain ⟨flatten, member⟩ := liftedBy_singleton.mp lifted
      obtain ⟨child', same, _, known⟩ := ready.object flatten f member _ given
      cases same
      exact childKeys_mem member (known k inside)
    · have untouched (f : Field) (member : f ∈ m.oneofMembers other.1) :
          between.get? f.jsonName = doc.get? f.jsonName := by
        refine first.others _ (fun g there => ?_) fun g there => ?_
        · cases List.mem_singleton.mp there
          exact (apart.1 other inside).2 f member
        · exact Ne.symm (members.1 other inside g (liftedBy_singleton.mp there).2 f member)
      have before := lifts other (List.mem_cons_of_mem _ inside)
      refine ⟨fun flatten f first g second => ?_, fun flatten f member => ?_⟩
      · rw [untouched f first, untouched g second]
        exact before.single flatten f first g second
      · rw [untouched f member]
        exact before.object flatten f member

end Wireform.Codec
