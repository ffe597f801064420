import Wireform.Proofs.SettledFields
import Wireform.Proofs.TypedDocuments
import Wireform.Proofs.WrittenOneofs

set_option autoImplicit false

namespace Wireform.Codec

open Index

theorem setVariant?_congr {variants : List Variant} {doc other : Doc}
    (same : ∀ v ∈ variants, (doc.get? v.jsonName).map Json.isNull = (other.get? v.jsonName).map Json.isNull) :
    (setVariant? variants doc).map Prod.fst = (setVariant? variants other).map Prod.fst := by
  induction variants with
  | nil => rfl
  | cons v rest ih =>
    have here := same v List.mem_cons_self
    have later := ih fun w inside => same w (List.mem_cons_of_mem v inside)
    rw [setVariant?, setVariant?] at later ⊢
    rw [List.findSome?_cons, List.findSome?_cons]
    -- A variant that is absent or null in one document is passed over in both.
    cases given : doc.get? v.jsonName with
    | none =>
      rw [given] at here
      have gone : other.get? v.jsonName = none := by simpa using here.symm
      rw [gone]
      exact later
    | some value =>
      rw [given] at here
      obtain ⟨value', given', null⟩ := Option.map_eq_some_iff.mp here.symm
      rw [given']
      cases gone : value.isNull with
      | true => simpa [null, gone] using later
      | false => simp [null, gone]

def tagOf? (index : Index) (m : Message) (group : Oneof × OneofConfig) (doc : Doc) : Option Json :=
  ((setVariant? ((m.oneofMembers group.1).map (index.variantOf group.2)) doc).map Prod.fst).map fun v => .str v.value

variable {index : Index} {m : Message} {encode decode : String → Json → Result Json} {plan : Plan}

theorem tagOf?_congr {group : Oneof × OneofConfig} {doc other : Doc}
    (same : ∀ f ∈ m.oneofMembers group.1,
      (doc.get? f.jsonName).map Json.isNull = (other.get? f.jsonName).map Json.isNull) :
    tagOf? index m group doc = tagOf? index m group other := by
  refine congrArg (Option.map _) (setVariant?_congr fun v inside => ?_)
  obtain ⟨f, member, rfl⟩ := List.mem_map.mp inside
  exact same f member

theorem member_of_tagOf? {group : Oneof × OneofConfig} {doc : Doc} {tag : Json}
    (tagged : tagOf? index m group doc = some tag) : ∃ f ∈ m.oneofMembers group.1, tag = .str f.variantValue := by
  obtain ⟨v, first, rfl⟩ := Option.map_eq_some_iff.mp tagged
  obtain ⟨⟨w, value⟩, set, same⟩ := Option.map_eq_some_iff.mp first
  obtain ⟨inside, _, _⟩ := setVariant?_spec set
  cases same
  obtain ⟨f, member, same⟩ := List.mem_map.mp inside
  exact ⟨f, member, by rw [← same]; rfl⟩

section Steps

variable {group : Oneof × OneofConfig} (plain : group.2.flatten = false)

include plain

theorem encodeStep_tag {doc : Doc} (distinct : doc.Distinct) : ∃ wire : Doc,
    encodeStep encode plan (oneofStep index m group.1 group.2) doc = .ok wire ∧ wire.Distinct ∧
      ∀ k, wire.get? k = if group.2.discriminator = k then (tagOf? index m group doc).or (doc.get? k)
        else doc.get? k := by
  rw [oneofStep_eq, encodeStep]
  simp only [encodeOneof, plain, Bool.false_eq_true, if_false]
  cases set : setVariant? ((m.oneofMembers group.1).map (index.variantOf group.2)) doc with
  | none =>
    refine ⟨doc, rfl, distinct, fun k => ?_⟩
    rw [tagOf?, set]
    simp
  | some found =>
    refine ⟨_, rfl, Entries.distinct_insert distinct _ _, fun k => ?_⟩
    rw [Entries.get?_insert, tagOf?, set]
    rfl

theorem decodeStep_tag {wire : Doc} (known : wire.get? group.2.discriminator = none ∨
    ∃ f ∈ m.oneofMembers group.1, wire.get? group.2.discriminator = some (.str f.variantValue)) :
    decodeStep decode plan (oneofStep index m group.1 group.2) wire =
      .ok (wire.erase group.2.discriminator) := by
  rw [oneofStep_eq, decodeStep]
  simp only [decodeOneof, plain]
  rcases known with absent | ⟨f, member, tagged⟩
  · rw [absent]
  · have named : (((m.oneofMembers group.1).map (index.variantOf group.2)).find?
        (·.value == f.variantValue)).isSome = true := by
      rw [List.find?_isSome]
      exact ⟨_, List.mem_map.mpr ⟨f, member, rfl⟩, by simp [variantOf]⟩
    obtain ⟨v, found⟩ := Option.isSome_iff_exists.mp named
    rw [tagged]
    simp only [found]
    rfl

end Steps

section Groups

variable {groups : List (Oneof × OneofConfig)} (plain : ∀ g ∈ groups, g.2.flatten = false)
  (apart : groups.Pairwise fun a b => a.2.discriminator ≠ b.2.discriminator)

include plain apart

theorem encodeAll_tags (aside : ∀ g ∈ groups, ∀ h ∈ groups, ∀ f ∈ m.oneofMembers h.1, g.2.discriminator ≠ f.jsonName)
    {doc : Doc} (distinct : doc.Distinct) : ∃ wire : Doc,
      encodeAll encode plan (groups.map fun group => oneofStep index m group.1 group.2) doc = .ok wire ∧
      wire.Distinct ∧ (∀ k, (∀ g ∈ groups, g.2.discriminator ≠ k) → wire.get? k = doc.get? k) ∧
      ∀ g ∈ groups, wire.get? g.2.discriminator = (tagOf? index m g doc).or (doc.get? g.2.discriminator) := by
  induction groups generalizing doc with
  | nil => exact ⟨doc, rfl, distinct, fun _ _ => rfl, fun g inside => by cases inside⟩
  | cons group rest ih =>
    rw [List.pairwise_cons] at apart
    obtain ⟨between, first, between_distinct, here⟩ :=
      @encodeStep_tag index m encode plan group (plain group List.mem_cons_self) doc distinct
    obtain ⟨wire, later, wire_distinct, others, tags⟩ := ih
      (fun g inside => plain g (List.mem_cons_of_mem _ inside)) apart.2
      (fun g inside h there => aside g (List.mem_cons_of_mem _ inside) h (List.mem_cons_of_mem _ there))
      between_distinct
    refine ⟨wire, ?_, wire_distinct, fun k free => ?_, fun g inside => ?_⟩
    · rw [List.map_cons, encodeAll, first, ok_bind]
      exact later
    · rw [others k fun g inside => free g (List.mem_cons_of_mem _ inside), here,
        if_neg (free group List.mem_cons_self)]
    · rcases List.mem_cons.mp inside with rfl | there
      · rw [others _ fun h inside => Ne.symm (apart.1 h inside), here, if_pos rfl]
      · have same : tagOf? index m g between = tagOf? index m g doc := tagOf?_congr fun f member => by
          rw [here, if_neg (aside group List.mem_cons_self g inside f member)]
        rw [tags g there, same, here, if_neg (apart.1 g there)]

theorem decodeSteps_tags {wire : Doc} (distinct : wire.Distinct)
    (known : ∀ g ∈ groups, wire.get? g.2.discriminator = none ∨
      ∃ f ∈ m.oneofMembers g.1, wire.get? g.2.discriminator = some (.str f.variantValue)) : ∃ back : Doc,
      decodeSteps decode plan (groups.map fun group => oneofStep index m group.1 group.2).reverse wire = .ok back ∧
      back.Distinct ∧ (∀ k, (∀ g ∈ groups, g.2.discriminator ≠ k) → back.get? k = wire.get? k) ∧
      ∀ g ∈ groups, back.get? g.2.discriminator = none := by
  induction groups generalizing wire with
  | nil => exact ⟨wire, rfl, distinct, fun _ _ => rfl, fun g inside => by cases inside⟩
  | cons group rest ih =>
    rw [List.pairwise_cons] at apart
    obtain ⟨between, later, between_distinct, others, gone⟩ := ih
      (fun g inside => plain g (List.mem_cons_of_mem _ inside)) apart.2 distinct
      (fun g inside => known g (List.mem_cons_of_mem _ inside))
    have untouched : between.get? group.2.discriminator = wire.get? group.2.discriminator :=
      others _ fun g inside => Ne.symm (apart.1 g inside)
    have step : decodeStep decode plan (oneofStep index m group.1 group.2) between =
        .ok (between.erase group.2.discriminator) := by
      refine decodeStep_tag (plain group List.mem_cons_self) ?_
      rw [untouched]
      exact known group List.mem_cons_self
    refine ⟨between.erase group.2.discriminator, ?_, Entries.distinct_erase between_distinct _, fun k free => ?_,
      fun g inside => ?_⟩
    · rw [List.map_cons, List.reverse_cons, decodeSteps_append, later, ok_bind, decodeSteps, step, ok_bind]
      rfl
    · rw [Entries.get?_erase between_distinct, if_neg (free group List.mem_cons_self),
        others k fun g inside => free g (List.mem_cons_of_mem _ inside)]
    · rw [Entries.get?_erase between_distinct]
      rcases List.mem_cons.mp inside with rfl | there
      · rw [if_pos rfl]
      · rw [if_neg (apart.1 g there), gone g there]

end Groups

end Wireform.Codec

namespace Wireform.Codec

open Json (AlikeAt)
open Index

variable {index : Index} {m : Message} {planned : String → Bool} {encode decode : String → Json → Result Json}
  {plan : Plan}

section Fields

variable {fields : List Field} (names : fields.Pairwise fun f g => f.jsonName ≠ g.jsonName)
  (flat : ∀ f ∈ fields, f.lifted? = none)

include names flat

theorem encodeAll_fields {doc : Doc} (distinct : doc.Distinct)
    (each : ∀ f ∈ fields, ∃ r, encodeBlock encode plan (bodySteps index planned f) (doc.get? f.jsonName) = .ok r) :
    ∃ wire : Doc, encodeAll encode plan (fields.flatMap (bodySteps index planned)) doc = .ok wire ∧ wire.Distinct ∧
      (∀ f ∈ fields, encodeBlock encode plan (bodySteps index planned f) (doc.get? f.jsonName) =
        .ok (wire.get? f.jsonName)) ∧
      ∀ k, (∀ f ∈ fields, f.jsonName ≠ k) → wire.get? k = doc.get? k := by
  induction fields generalizing doc with
  | nil => exact ⟨doc, rfl, distinct, fun f inside => (by cases inside), fun _ _ => rfl⟩
  | cons f rest ih =>
    rw [List.pairwise_cons] at names
    obtain ⟨r, block⟩ := each f List.mem_cons_self
    obtain ⟨between, first, between_distinct, changed⟩ :=
      encodeAll_block (staysAt_of_unlifted index planned (flat f List.mem_cons_self)) distinct block
    have untouched (g : Field) (inside : g ∈ rest) : between.get? g.jsonName = doc.get? g.jsonName := by
      rw [changed, if_neg (names.1 g inside)]
    obtain ⟨wire, later, wire_distinct, own, others⟩ := ih names.2
      (fun g inside => flat g (List.mem_cons_of_mem f inside)) between_distinct fun g inside => by
        rw [untouched g inside]
        exact each g (List.mem_cons_of_mem f inside)
    refine ⟨wire, ?_, wire_distinct, fun g inside => ?_, fun k free => ?_⟩
    · rw [List.flatMap_cons, encodeAll_append, first, ok_bind, later]
    · rcases List.mem_cons.mp inside with rfl | there
      · rw [others _ fun h inside => Ne.symm (names.1 h inside), changed, if_pos rfl, block]
      · rw [← untouched g there]
        exact own g there
    · rw [others k fun g inside => free g (List.mem_cons_of_mem f inside), changed,
        if_neg (free f List.mem_cons_self)]

theorem decodeSteps_fields {wire : Doc} (distinct : wire.Distinct)
    (each : ∀ f ∈ fields, ∃ q, decodeBlock decode plan (bodySteps index planned f).reverse
      (wire.get? f.jsonName) = .ok q) :
    ∃ back : Doc, decodeSteps decode plan (fields.flatMap (bodySteps index planned)).reverse wire = .ok back ∧
      back.Distinct ∧ (∀ f ∈ fields, decodeBlock decode plan (bodySteps index planned f).reverse
        (wire.get? f.jsonName) = .ok (back.get? f.jsonName)) ∧
      ∀ k, (∀ f ∈ fields, f.jsonName ≠ k) → back.get? k = wire.get? k := by
  induction fields generalizing wire with
  | nil => exact ⟨wire, rfl, distinct, fun f inside => (by cases inside), fun _ _ => rfl⟩
  | cons f rest ih =>
    rw [List.pairwise_cons] at names
    obtain ⟨between, later, between_distinct, own, others⟩ := ih names.2
      (fun g inside => flat g (List.mem_cons_of_mem f inside)) distinct
      fun g inside => each g (List.mem_cons_of_mem f inside)
    have untouched : between.get? f.jsonName = wire.get? f.jsonName :=
      others _ fun g inside => Ne.symm (names.1 g inside)
    obtain ⟨q, block⟩ := each f List.mem_cons_self
    have stays : StaysAt f.jsonName (bodySteps index planned f).reverse := fun step inside =>
      staysAt_of_unlifted index planned (flat f List.mem_cons_self) step (List.mem_reverse.mp inside)
    obtain ⟨back, first, back_distinct, changed⟩ :=
      decodeSteps_block stays between_distinct (by rw [untouched]; exact block)
    refine ⟨back, ?_, back_distinct, fun g inside => ?_, fun k free => ?_⟩
    · rw [List.flatMap_cons, List.reverse_append, decodeSteps_append, later, ok_bind, first]
    · rcases List.mem_cons.mp inside with rfl | there
      · rw [changed, if_pos rfl, block]
      · rw [changed, if_neg (names.1 g there)]
        exact own g there
    · rw [changed, if_neg (free f List.mem_cons_self),
        others k fun g inside => free g (List.mem_cons_of_mem f inside)]

end Fields

section Message

structure PlainlyWritten (index : Index) (planned : String → Bool) (encode : String → Json → Result Json)
    (plan : Plan) (m : Message) (doc wire : Doc) : Prop where
  distinct : wire.Distinct
  own : ∀ f ∈ m.fields, encodeBlock encode plan (bodySteps index planned f) (doc.get? f.jsonName) =
    .ok (wire.get? f.jsonName)
  tags : ∀ g ∈ m.discriminated, wire.get? g.2.discriminator = tagOf? index m g wire
  others : ∀ k, (∀ f ∈ m.fields, f.jsonName ≠ k) → (∀ g ∈ m.discriminated, g.2.discriminator ≠ k) →
    wire.get? k = none

variable (orderly : index.Orderly m) (flat : ∀ f ∈ m.fields, f.lifted? = none)
  (plain : ∀ g ∈ m.discriminated, g.2.flatten = false)

include orderly flat plain

theorem tags_aside : ∀ g ∈ m.discriminated, ∀ f ∈ m.fields, g.2.discriminator ≠ f.jsonName := by
  intro g grouped f inside same
  have kept : ¬ m.LiftedMember f := by
    rintro ⟨oneof, config, listed, flatten, _⟩
    rw [plain _ listed] at flatten
    cases flatten
  have own : f.jsonName ∈ index.ownKeys f := by
    rw [ownKeys_of_unlifted (flat f inside)]
    exact List.mem_singleton_self _
  exact orderly.beside g.1 g.2 grouped f inside kept own (same ▸ discriminator_mem)

omit flat plain in
theorem tags_apart : m.discriminated.Pairwise fun a b => a.2.discriminator ≠ b.2.discriminator :=
  orderly.oneofs.imp fun {a b} apart (same : a.2.discriminator = b.2.discriminator) =>
    apart.1 discriminator_mem (same ▸ discriminator_mem)

omit flat plain in
theorem field_of_member {g : Oneof × OneofConfig} (grouped : g ∈ m.discriminated) {f : Field}
    (member : f ∈ m.oneofMembers g.1) : f ∈ m.fields :=
  ((orderly.members g.1 g.2 grouped f).mp member).1

theorem exists_plainlyWritten {doc : Doc} (distinct : doc.Distinct)
    (known : ∀ k, doc.get? k ≠ none → ∃ f ∈ m.fields, f.jsonName = k)
    (each : ∀ f ∈ m.fields, ∃ r, encodeBlock encode plan (bodySteps index planned f) (doc.get? f.jsonName) = .ok r) :
    ∃ wire, encodeAll encode plan (innerSteps index m planned) doc = .ok wire ∧
      PlainlyWritten index planned encode plan m doc wire := by
  have aside := tags_aside orderly flat plain
  obtain ⟨between, first, between_distinct, own, others⟩ :=
    encodeAll_fields (List.pairwise_map.mp orderly.names) flat distinct each
  obtain ⟨wire, second, wire_distinct, rest, tags⟩ := @encodeAll_tags index m encode plan m.discriminated plain
    (tags_apart orderly) (fun g grouped h there f member => aside g grouped f (field_of_member orderly there member))
    between between_distinct
  have kept (f : Field) (inside : f ∈ m.fields) : wire.get? f.jsonName = between.get? f.jsonName :=
    rest _ fun g grouped => aside g grouped f inside
  -- Only fields are in the document, so that nothing is in the place of a tag.
  have absent (k : String) (free : ∀ f ∈ m.fields, f.jsonName ≠ k) : between.get? k = none := by
    rw [others k free]
    by_contra present
    obtain ⟨f, inside, same⟩ := known k present
    exact free f inside same
  refine ⟨wire, ?_, wire_distinct, fun f inside => ?_, fun g grouped => ?_, fun k free untagged => ?_⟩
  · rw [innerSteps, encodeAll_append, first, ok_bind]
    exact second
  · rw [kept f inside]
    exact own f inside
  · rw [tags g grouped, absent _ fun f inside => Ne.symm (aside g grouped f inside), Option.or_none]
    refine tagOf?_congr fun f member => ?_
    rw [kept f (field_of_member orderly grouped member)]
  · rw [rest k untagged, absent k free]

theorem plainlyWritten_of_run (checked : ∀ f ∈ m.fields, f.Checked index m) {doc wire : Doc} (distinct : doc.Distinct)
    (known : ∀ k, doc.get? k ≠ none → ∃ f ∈ m.fields, f.jsonName = k)
    (run : encodeAll encode plan (innerSteps index m planned) doc = .ok wire) :
    PlainlyWritten index planned encode plan m doc wire := by
  have never {p : Prop} (f : Field) (inside : f ∈ m.fields) (type pre : String) (lifted : f.lifted? = some (type, pre)) :
      p := by
    rw [flat f inside] at lifted
    cases lifted
  have split := run
  rw [innerSteps, encodeAll_append] at split
  obtain ⟨between, first, _⟩ := bind_eq_ok split
  have fields : FieldsWritten index planned encode plan m.fields doc between :=
    fieldsWritten_of_run checked (fun f inside type pre => never f inside type pre)
      (List.pairwise_map.mp orderly.names) orderly.fields distinct (fun f inside type pre => never f inside type pre) first
  obtain ⟨other, again, written⟩ := exists_plainlyWritten orderly flat plain distinct known
    fun f inside => ⟨_, fields.own f inside (flat f inside)⟩
  cases Except.ok.inj (run.symm.trans again)
  exact written

theorem exists_read {wire : Doc} (distinct : wire.Distinct)
    (known : ∀ g ∈ m.discriminated, wire.get? g.2.discriminator = none ∨
      ∃ f ∈ m.oneofMembers g.1, wire.get? g.2.discriminator = some (.str f.variantValue))
    (others : ∀ k, (∀ f ∈ m.fields, f.jsonName ≠ k) → (∀ g ∈ m.discriminated, g.2.discriminator ≠ k) →
      wire.get? k = none)
    (each : ∀ f ∈ m.fields, ∃ q, decodeBlock decode plan (bodySteps index planned f).reverse
      (wire.get? f.jsonName) = .ok q) :
    ∃ back : Doc, decodeSteps decode plan (innerSteps index m planned).reverse wire = .ok back ∧ back.Distinct ∧
      (∀ f ∈ m.fields, decodeBlock decode plan (bodySteps index planned f).reverse (wire.get? f.jsonName) =
        .ok (back.get? f.jsonName)) ∧
      ∀ k, back.get? k ≠ none → ∃ f ∈ m.fields, f.jsonName = k := by
  -- Backwards, the steps drop the tags of the oneofs first and then run each field's own block.
  have aside := tags_aside orderly flat plain
  obtain ⟨between, first, between_distinct, rest, untagged⟩ := @decodeSteps_tags index m decode plan m.discriminated
    plain (tags_apart orderly) wire distinct known
  have kept (f : Field) (inside : f ∈ m.fields) : between.get? f.jsonName = wire.get? f.jsonName :=
    rest _ fun g grouped => aside g grouped f inside
  obtain ⟨back, second, back_distinct, own, beside⟩ := decodeSteps_fields (List.pairwise_map.mp orderly.names) flat
    between_distinct fun f inside => by
      rw [kept f inside]
      exact each f inside
  refine ⟨back, ?_, back_distinct, fun f inside => ?_, fun k present => ?_⟩
  · rw [innerSteps, List.reverse_append, decodeSteps_append]
    refine (congrArg (· >>= _) first).trans ?_
    rw [ok_bind, second]
  · rw [← kept f inside]
    exact own f inside
  · by_contra outside
    have free : ∀ f ∈ m.fields, f.jsonName ≠ k := fun f inside same => outside ⟨f, inside, same⟩
    refine present ?_
    rw [beside k free]
    by_cases tag : ∃ g ∈ m.discriminated, g.2.discriminator = k
    · obtain ⟨g, grouped, rfl⟩ := tag
      exact untagged g grouped
    · have unnamed : ∀ g ∈ m.discriminated, g.2.discriminator ≠ k := fun g grouped same => tag ⟨g, grouped, same⟩
      rw [rest k unnamed, others k free unnamed]

theorem PlainlyWritten.comesBack {doc wire : Doc} (written : PlainlyWritten index planned encode plan m doc wire)
    (stable : ∀ f ∈ m.fields, StableAt encode decode plan (bodySteps index planned f) (wire.get? f.jsonName)) :
    ∃ back : Doc, decodeSteps decode plan (innerSteps index m planned).reverse wire = .ok back ∧
      ∃ again, encodeAll encode plan (innerSteps index m planned) back = .ok again ∧
        Json.Alike (.obj again) (.obj wire) := by
  obtain ⟨back, decoded, back_distinct, read, known⟩ := exists_read orderly flat plain written.distinct
    (fun g grouped => by
      rw [written.tags g grouped]
      cases tagged : tagOf? index m g wire with
      | none => exact .inl rfl
      | some tag =>
        obtain ⟨f, member, rfl⟩ := member_of_tagOf? tagged
        exact .inr ⟨f, member, rfl⟩) written.others fun f inside => by
      obtain ⟨q, decoded, _⟩ := stable f inside
      exact ⟨q, decoded⟩
  have turned (f : Field) (inside : f ∈ m.fields) : ∃ r,
      encodeBlock encode plan (bodySteps index planned f) (back.get? f.jsonName) = .ok r ∧
        AlikeAt r (wire.get? f.jsonName) := by
    obtain ⟨q, decoded, r, encoded, alike⟩ := stable f inside
    cases Except.ok.inj (decoded.symm.trans (read f inside))
    exact ⟨r, encoded, alike⟩
  obtain ⟨again, encoded, rewritten⟩ := exists_plainlyWritten orderly flat plain back_distinct known fun f inside => by
    obtain ⟨r, encoded, _⟩ := turned f inside
    exact ⟨r, encoded⟩
  have alike (f : Field) (inside : f ∈ m.fields) : AlikeAt (again.get? f.jsonName) (wire.get? f.jsonName) := by
    obtain ⟨r, encoded, alike⟩ := turned f inside
    cases Except.ok.inj (encoded.symm.trans (rewritten.own f inside))
    exact alike
  refine ⟨back, decoded, again, encoded, Json.alike_obj.mpr ⟨rewritten.distinct, written.distinct, fun k => ?_⟩⟩
  by_cases field : ∃ f ∈ m.fields, f.jsonName = k
  · obtain ⟨f, inside, rfl⟩ := field
    exact alike f inside
  · have free : ∀ f ∈ m.fields, f.jsonName ≠ k := fun f inside same => field ⟨f, inside, same⟩
    by_cases tag : ∃ g ∈ m.discriminated, g.2.discriminator = k
    · -- Members that are alike are set alike, and so the tag is the same.
      obtain ⟨g, grouped, rfl⟩ := tag
      have same : tagOf? index m g again = tagOf? index m g wire := tagOf?_congr fun f member =>
        Json.isNull_of_alikeAt (alike f (field_of_member orderly grouped member))
      rw [rewritten.tags g grouped, written.tags g grouped, same]
      cases tagged : tagOf? index m g wire with
      | none => trivial
      | some tag =>
        obtain ⟨f, _, rfl⟩ := member_of_tagOf? tagged
        exact Json.Alike.refl trivial
    · have unnamed : ∀ g ∈ m.discriminated, g.2.discriminator ≠ k := fun g grouped same => tag ⟨g, grouped, same⟩
      rw [rewritten.others k free unnamed, written.others k free unnamed]
      trivial

theorem lone_comesBack {f : Field} (inside : f ∈ m.fields) {o : Option Json}
    (stable : StableAt encode decode plan (bodySteps index planned f) o) {bare : Doc} (lone : Lone f.jsonName o bare) :
    ∃ back : Doc, decodeSteps decode plan (innerSteps index m planned).reverse bare = .ok back ∧
      ∃ again, encodeAll encode plan (innerSteps index m planned) back = .ok again ∧
        AlikeAt (again.get? f.jsonName) o := by
  obtain ⟨q, decoded, r, encoded, alike⟩ := stable
  have given : bare.get? f.jsonName = o := by rw [lone.2, if_pos rfl]
  have absent {k : String} (differ : f.jsonName ≠ k) : bare.get? k = none := by rw [lone.2, if_neg differ]
  have other {g : Field} (there : g ∈ m.fields) (differ : g ≠ f) : bare.get? g.jsonName = none :=
    absent fun same => differ (eq_of_nodup orderly.names there inside same.symm)
  obtain ⟨back, undone, back_distinct, read, known⟩ := exists_read orderly flat plain lone.1
    (fun g grouped => .inl (absent (Ne.symm (tags_aside orderly flat plain g grouped f inside))))
    (fun k free _ => absent (free f inside)) fun g there => by
      by_cases same : g = f
      · subst same
        exact ⟨q, by rw [given]; exact decoded⟩
      · exact ⟨none, by rw [other there same]; exact decodeBlock_body_absent (flat g there)⟩
  have at_key : back.get? f.jsonName = q := by
    have here := read f inside
    rw [given, decoded] at here
    exact (Except.ok.inj here).symm
  obtain ⟨again, rewritten, written⟩ := exists_plainlyWritten orderly flat plain back_distinct known fun g there => by
    by_cases same : g = f
    · subst same
      exact ⟨r, by rw [at_key]; exact encoded⟩
    · have gone := read g there
      rw [other there same, decodeBlock_body_absent (flat g there)] at gone
      exact ⟨_, by rw [← Except.ok.inj gone]; exact encodeBlock_body_absent (flat g there)⟩
  have own := written.own f inside
  rw [at_key, encoded] at own
  exact ⟨back, undone, again, rewritten, by rwa [← Except.ok.inj own]⟩

end Message

section Plural

variable {f : Field} (checked : f.Checked index m) (plural : f.isSingular = false)

include plural

theorem filled_or_empty {value : Json} (shapes : f.container.Shapes value) :
    value = emptyContainer f.isMap ∨ Filled f.container value := by
  cases cardinality : f.cardinality with
  | repeated =>
    have isList : f.isList = true := by rw [Field.isList, cardinality]; rfl
    rw [container_of_list isList] at shapes ⊢
    rw [not_map_of_list isList]
    cases value with
    | arr items => cases items <;> first | exact .inl rfl | exact .inr trivial
    | _ => exact shapes.elim
  | map key =>
    have map : f.isMap = true := by rw [Field.isMap, cardinality]; rfl
    rw [container_of_map map] at shapes ⊢
    rw [map]
    cases value with
    | obj members => cases members <;> first | exact .inl rfl | exact .inr trivial
    | _ => exact shapes.elim
  | _ =>
    rw [Field.isSingular, cardinality] at plural
    cases plural

include checked

theorem exists_bare {o : Option Json} (stable : StableAt encode decode plan (bodySteps index planned f) o)
    (shapes : ∀ wire, o = some wire → wire.isNull = true ∨ (f.container.Shapes wire ∧ wire.Distinct))
    (present : (o.getD (emptyContainer f.isMap)).isNull = false) : ∃ p bare,
      StableAt encode decode plan (bodySteps index planned f) p ∧ Lone f.jsonName p bare ∧
      p.getD (emptyContainer f.isMap) = o.getD (emptyContainer f.isMap) ∧
      wrapRoot plan (rootStep f) (o.getD (emptyContainer f.isMap)) = .ok bare := by
  have nothing : StableAt encode decode plan (bodySteps index planned f) none := by
    have absent : UndoneAt encode decode plan (bodySteps index planned f) none none := absent_plural checked plural
    obtain ⟨q, decoded, alike⟩ := absent.decoded
    cases Json.alikeAt_none alike
    exact ⟨none, decoded, none, absent.encoded, trivial⟩
  cases o with
  | none => exact ⟨none, [], nothing, lone_nil _, rfl, wrapRoot_empty _⟩
  | some wire =>
    have shape := ((shapes wire rfl).resolve_left (by rw [show wire.isNull = false from present]; simp)).1
    rcases filled_or_empty plural shape with rfl | filled
    · exact ⟨none, [], nothing, lone_nil _, rfl, wrapRoot_empty _⟩
    · exact ⟨some wire, _, stable, lone_wrap _ wire, rfl, wrapRoot_filled filled⟩

theorem left_comesBack (orderly : index.Orderly m) (flat : ∀ f ∈ m.fields, f.lifted? = none)
    (plain : ∀ g ∈ m.discriminated, g.2.flatten = false) (inside : f ∈ m.fields) {o : Option Json}
    (stable : StableAt encode decode plan (bodySteps index planned f) o)
    (shapes : ∀ wire, o = some wire → wire.isNull = true ∨ (f.container.Shapes wire ∧ wire.Distinct))
    (present : (o.getD (emptyContainer f.isMap)).isNull = false) : ∃ bare back again,
      wrapRoot plan (rootStep f) (o.getD (emptyContainer f.isMap)) = .ok bare ∧
      decodeSteps decode plan (innerSteps index m planned).reverse bare = .ok back ∧
      encodeAll encode plan (innerSteps index m planned) back = .ok again ∧
      Json.Alike ((again.get? f.jsonName).getD (emptyContainer f.isMap)) (o.getD (emptyContainer f.isMap)) := by
  obtain ⟨p, bare, stable, lone, same, wraps⟩ := exists_bare checked plural stable shapes present
  obtain ⟨back, decoded, again, encoded, alike⟩ := lone_comesBack orderly flat plain inside stable lone
  refine ⟨bare, back, again, wraps, decoded, encoded, ?_⟩
  rw [← same]
  exact Json.alike_getD alike (emptyContainer_distinct f.isMap)

end Plural

section List

variable {f : Field}

theorem arr_of_left (isList : f.isList = true) {o : Option Json}
    (shapes : ∀ wire, o = some wire → wire.isNull = true ∨ (f.container.Shapes wire ∧ wire.Distinct))
    (present : (o.getD (emptyContainer f.isMap)).isNull = false) :
    ∃ items, o.getD (emptyContainer f.isMap) = .arr items := by
  cases o with
  | none =>
    rw [not_map_of_list isList]
    exact ⟨[], rfl⟩
  | some wire =>
    have shape := ((shapes wire rfl).resolve_left (by rw [show wire.isNull = false from present]; simp)).1
    rw [container_of_list isList] at shape
    cases wire with
    | arr items => exact ⟨items, rfl⟩
    | _ => exact shape.elim

theorem wrapValue_of_wrapRoot {items : List Json} {bare : Doc}
    (wraps : wrapRoot plan (rootStep f) (.arr items) = .ok bare) :
    wrapValue f.jsonName (.arr items) = .obj bare := by
  cases items <;> cases Except.ok.inj wraps <;> rfl

end List

end Wireform.Codec
