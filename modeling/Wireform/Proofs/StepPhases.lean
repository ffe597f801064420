import Wireform.Proofs.LiftedKeys
import Wireform.Proofs.RestoredFields

/-!
The steps of the fields of a message one after the other, and those of its discriminated oneofs after them. A lifted
field gives its keys to the document, so the fields after it must find theirs untouched.
-/

set_option autoImplicit false

namespace Wireform

namespace Index

variable {index : Index} {m : Message} {f : Field} {type pre : String}

theorem lifted?_eq_some (lifted : f.lifted? = some (type, pre)) :
    f.annotations.flatten = true ∧ f.message? = some type ∧ f.isSingular = true := by
  rw [Field.lifted?] at lifted
  split at lifted
  · rename_i other flatten typed single
    cases Option.some.inj lifted
    exact ⟨flatten, typed, single⟩
  · cases lifted

theorem bodySteps_of_lifted {planned : String → Bool} (checked : f.Checked index m)
    (lifted : f.lifted? = some (type, pre)) (other : type ≠ WellKnown.timestamp) :
    bodySteps index planned f = childSteps index planned f
      ++ [f.step .single (.flatten type pre (index.laidKeys type))] := by
  obtain ⟨flatten, typed, _⟩ := lifted?_eq_some lifted
  obtain ⟨_, _, _, _, _, _, _, _, nullable, empty⟩ := checked.flatten flatten
  have no_empty : emptySteps f = [] := by rw [emptySteps, empty, Bool.and_false]; rfl
  have no_null : nullSteps f = [] := by rw [nullSteps, nullable]; rfl
  have lift : liftSteps index f = [f.step .single (.flatten type pre (index.laidKeys type))] := by
    rw [liftSteps, lifted]
  rw [bodySteps, no_empty, no_null, lift, recodeSteps_nil checked typed other]
  simp

end Index

namespace Codec

open Json (Alike AlikeAt)
open Index

variable {index : Index} {m : Message} {planned : String → Bool}
  {encode decode : String → Json → Result Json} {plan : Plan}

def LiftFits (index : Index) (planned : String → Bool) (encode : String → Json → Result Json) (f : Field)
    (value : Json) : Prop :=
  ∀ type pre, f.lifted? = some (type, pre) → ∀ w, ChildWire planned encode type value w →
    ∃ child : Doc, w = .obj child ∧ child.isEmpty = false ∧ ∀ k ∈ child.keys, k ∈ index.laidKeys type

def ValueOutcome (index : Index) (planned : String → Bool) (encode : String → Json → Result Json) (f : Field)
    (o p : Option Json) : Prop :=
  (o = none → p = absentWire f) ∧ ∀ value, o = some value →
    (f.annotations.changesEmpty = true ∧ p = some .null) ∨
      ∃ w, p = some w ∧ w.isNull = false ∧ (recodeSteps index f = [] → ∀ child,
        f.message? = some child → f.isSingular = true → ChildWire planned encode child value w)

structure FieldDone (index : Index) (planned : String → Bool) (encode : String → Json → Result Json)
    (plan : Plan) (f : Field) (doc wire : Doc) : Prop where
  others : ∀ k, k ∉ index.ownKeys f → k ≠ f.jsonName → wire.get? k = doc.get? k
  emptied : f.lifted?.isSome = true → f.jsonName ∉ index.ownKeys f → wire.get? f.jsonName = none
  run : f.lifted? = none →
    encodeBlock encode plan (bodySteps index planned f) (doc.get? f.jsonName) = .ok (wire.get? f.jsonName)

variable (keeps : ∀ name, KeepsAlike (decode name)) (own : planned WellKnown.timestamp = false)

include keeps

theorem value_undone (own : planned WellKnown.timestamp = false) {f : Field} (checked : f.Checked index m)
    (unlifted : f.lifted? = none) {o : Option Json}
    (values : ∀ value, o = some value → Restorable index planned encode decode f value) :
    ∃ p, UndoneAt encode decode plan (bodySteps index planned f) o p ∧ ValueOutcome index planned encode f o p := by
  cases o with
  | none => exact ⟨absentWire f, absent_undone keeps unlifted, fun _ => rfl, by simp⟩
  | some value =>
    obtain ⟨p, undone, outcome⟩ := present_undone keeps unlifted checked own (values value rfl)
    refine ⟨p, undone, by simp, fun other same => ?_⟩
    cases Option.some.inj same
    exact outcome

theorem outcome_of_run (own : planned WellKnown.timestamp = false) {f : Field} (checked : f.Checked index m)
    (unlifted : f.lifted? = none) {o p : Option Json}
    (values : ∀ value, o = some value → Restorable index planned encode decode f value)
    (run : encodeBlock encode plan (bodySteps index planned f) o = .ok p) :
    ValueOutcome index planned encode f o p := by
  obtain ⟨q, undone, outcome⟩ := value_undone keeps own checked unlifted values
  cases Except.ok.inj (run.symm.trans undone.encoded)
  exact outcome

theorem unlifted_undone (own : planned WellKnown.timestamp = false) {f : Field}
    (checked : f.Checked index m) (unlifted : f.lifted? = none) {doc : Doc}
    (distinct : (Json.obj doc).Distinct) (values : ∀ value, doc.get? f.jsonName = some value →
      Restorable index planned encode decode f value) :
    ∃ wire, Undone encode decode plan (bodySteps index planned f) doc wire ∧
      FieldDone index planned encode plan f doc wire := by
  obtain ⟨p, undone, _⟩ := value_undone keeps own checked unlifted values
  obtain ⟨wire, done, _, changed⟩ := Undone.of_block (staysAt_of_unlifted _ _ unlifted) distinct undone
  refine ⟨wire, done, fun k _ other => ?_, fun lifted => ?_, fun _ => ?_⟩
  · rw [changed, if_neg (Ne.symm other)]
  · rw [unlifted] at lifted
    cases lifted
  · rw [changed, if_pos rfl]
    exact undone.encoded

theorem lifted_undone {f : Field} (checked : f.Checked index m) {type pre : String}
    (lifted : f.lifted? = some (type, pre)) (other : type ≠ WellKnown.timestamp) {doc : Doc}
    (distinct : (Json.obj doc).Distinct) (values : ∀ value, doc.get? f.jsonName = some value →
      Restorable index planned encode decode f value ∧ LiftFits index planned encode f value)
    (free : Free (pre ++ ·) (index.laidKeys type) f.jsonName doc) :
    ∃ wire, Undone encode decode plan (bodySteps index planned f) doc wire ∧
      FieldDone index planned encode plan f doc wire := by
  obtain ⟨_, typed, singular⟩ := lifted?_eq_some lifted
  have never {p : Prop} (unlifted : f.lifted? = none) : p := by
    rw [lifted] at unlifted
    cases unlifted
  rw [bodySteps_of_lifted checked lifted other]
  -- The plan of the message applies under the name of the field first; what it leaves is lifted from there.
  cases found : doc.get? f.jsonName with
  | none =>
    have passes : UndoneAt encode decode plan (childSteps index planned f) (doc.get? f.jsonName) none := by
      rw [found]
      exact UndoneAt.of_passing child_maps (.inl rfl)
    obtain ⟨wire, first, changed⟩ := Undone.of_block staysAt_childSteps distinct passes
    have at_key : wire.get? f.jsonName = none := by rw [changed.2, if_pos rfl]
    have lift : Undone encode decode plan [f.step .single (.flatten type pre (index.laidKeys type))] wire wire :=
      flatten_absent_undone _ rfl first.distinct at_key (free.of_changed changed)
    refine ⟨wire, first.append keeps lift, fun k _ apart => ?_, fun _ _ => at_key, never⟩
    rw [changed.2, if_neg (Ne.symm apart)]
  | some value =>
    obtain ⟨restorable, fits⟩ := values value found
    obtain ⟨w, _, undone, encoded⟩ := child_undone plan restorable
    obtain ⟨child, rfl, filled, known⟩ := fits type pre lifted w (encoded type typed singular)
    obtain ⟨between, first, changed⟩ := Undone.of_block staysAt_childSteps distinct (by rw [found]; exact undone)
    have at_key : between.get? f.jsonName = some (.obj child) := by rw [changed.2, if_pos rfl]
    have lift : Undone encode decode plan [f.step .single (.flatten type pre (index.laidKeys type))] between
        (Codec.lifted (pre ++ ·) f.jsonName child between) :=
      flatten_undone _ rfl first.distinct at_key filled known (free.of_changed changed)
    have beside (k : String) (outside : k ∉ index.ownKeys f) :
        (Codec.lifted (pre ++ ·) f.jsonName child between).get? k =
          if f.jsonName = k then none else between.get? k :=
      get?_lifted_beside (prefix_injective pre) first.distinct at_key known (by rwa [ownKeys, lifted] at outside)
    refine ⟨_, first.append keeps lift, fun k outside apart => ?_, fun _ outside => ?_, never⟩
    · rw [beside k outside, if_neg (Ne.symm apart), changed.2, if_neg (Ne.symm apart)]
    · rw [beside _ outside, if_pos rfl]

structure FieldReady (index : Index) (planned : String → Bool) (encode decode : String → Json → Result Json)
    (pending : List Field) (f : Field) (doc : Doc) : Prop where
  values : ∀ value, doc.get? f.jsonName = some value →
    Restorable index planned encode decode f value ∧ LiftFits index planned encode f value
  room : f.lifted?.isSome = true → ∀ k ∈ index.ownKeys f, (∀ g ∈ pending, k ≠ g.jsonName) → doc.get? k = none

omit keeps in
theorem FieldReady.after {f g : Field} {rest : List Field} {doc between : Doc}
    (done : FieldDone index planned encode plan f doc between)
    (apart : g.jsonName ∉ index.ownKeys f ∧ List.Disjoint (index.ownKeys f) (index.ownKeys g))
    (differ : f.jsonName ≠ g.jsonName) (before : FieldReady index planned encode decode (f :: rest) g doc) :
    FieldReady index planned encode decode rest g between := by
  refine ⟨?_, fun lifted k written free => ?_⟩
  · rw [done.others _ apart.1 (Ne.symm differ)]
    exact before.values
  · have outside : k ∉ index.ownKeys f := fun taken => apart.2 taken written
    by_cases same : k = f.jsonName
    · cases unlifted : f.lifted? with
      | none => exact absurd (by simp [ownKeys_of_unlifted unlifted, same]) outside
      | some group => exact same ▸ done.emptied (by rw [unlifted]; rfl) (same ▸ outside)
    · rw [done.others k outside same]
      refine before.room lifted k written fun h pending => ?_
      rcases List.mem_cons.mp pending with rfl | later
      · exact same
      · exact free h later

variable (plan) in
theorem field_undone (own : planned WellKnown.timestamp = false) {f : Field} {rest : List Field}
    (checked : f.Checked index m)
    (target : ∀ type pre, f.lifted? = some (type, pre) → type ≠ WellKnown.timestamp)
    (apart : ∀ g ∈ rest, g.jsonName ∉ index.ownKeys f) {doc : Doc} (distinct : (Json.obj doc).Distinct)
    (ready : FieldReady index planned encode decode (f :: rest) f doc) :
    ∃ wire, Undone encode decode plan (bodySteps index planned f) doc wire ∧
      FieldDone index planned encode plan f doc wire := by
  cases lifted : f.lifted? with
  | none => exact unlifted_undone keeps own checked lifted distinct fun value found => (ready.values value found).1
  | some group =>
    obtain ⟨type, pre⟩ := group
    refine lifted_undone keeps checked lifted (target type pre lifted) distinct ready.values ?_
    intro k inside other
    have written : pre ++ k ∈ index.ownKeys f := by
      rw [ownKeys, lifted]
      exact List.mem_map.mpr ⟨k, inside, rfl⟩
    refine ready.room (by rw [lifted]; rfl) _ written fun g pending same => ?_
    rcases List.mem_cons.mp pending with rfl | later
    · exact other same
    · exact apart g later (same ▸ written)

structure FieldsDone (index : Index) (planned : String → Bool) (encode : String → Json → Result Json)
    (plan : Plan) (fields : List Field) (doc wire : Doc) : Prop where
  others : ∀ k, (∀ f ∈ fields, k ∉ index.ownKeys f ∧ k ≠ f.jsonName) → wire.get? k = doc.get? k
  emptied : ∀ f ∈ fields, f.lifted?.isSome = true → (∀ g ∈ fields, f.jsonName ∉ index.ownKeys g) →
    wire.get? f.jsonName = none
  run : ∀ f ∈ fields, f.lifted? = none →
    encodeBlock encode plan (bodySteps index planned f) (doc.get? f.jsonName) = .ok (wire.get? f.jsonName)

theorem fields_undone (own : planned WellKnown.timestamp = false) {fields : List Field}
    (checked : ∀ f ∈ fields, f.Checked index m)
    (target : ∀ f ∈ fields, ∀ type pre, f.lifted? = some (type, pre) → type ≠ WellKnown.timestamp)
    (names : fields.Pairwise fun f g => f.jsonName ≠ g.jsonName)
    (apart : fields.Pairwise fun f g =>
      g.jsonName ∉ index.ownKeys f ∧ List.Disjoint (index.ownKeys f) (index.ownKeys g))
    {doc : Doc} (distinct : (Json.obj doc).Distinct)
    (ready : ∀ f ∈ fields, FieldReady index planned encode decode fields f doc) :
    ∃ wire, Undone encode decode plan (fields.flatMap (bodySteps index planned)) doc wire ∧
      FieldsDone index planned encode plan fields doc wire := by
  induction fields generalizing doc with
  | nil => exact ⟨doc, Undone.nil distinct, fun _ _ => rfl, by simp, by simp⟩
  | cons f rest ih =>
    rw [List.pairwise_cons] at names apart
    obtain ⟨between, first, done⟩ := field_undone plan keeps own (checked f (by simp))
      (target f (by simp)) (fun g inside => (apart.1 g inside).1) distinct (ready f (by simp))
    have untouched (g : Field) (inside : g ∈ rest) : between.get? g.jsonName = doc.get? g.jsonName :=
      done.others _ (apart.1 g inside).1 (Ne.symm (names.1 g inside))
    -- The first field writes no key of the others, so that they find the room that they need.
    have ready_rest : ∀ g ∈ rest, FieldReady index planned encode decode rest g between := fun g inside =>
      .after done (apart.1 g inside) (names.1 g inside) (ready g (by simp [inside]))
    obtain ⟨wire, later, rest_done⟩ := ih (fun g inside => checked g (by simp [inside]))
      (fun g inside => target g (by simp [inside])) names.2 apart.2 first.distinct ready_rest
    refine ⟨wire, first.append keeps later, fun k outside => ?_, fun g inside lifted outside => ?_,
      fun g inside unlifted => ?_⟩
    · have here := outside f (by simp)
      rw [rest_done.others k fun g inside => outside g (by simp [inside]), done.others k here.1 here.2]
    · rcases List.mem_cons.mp inside with rfl | there
      · rw [rest_done.others _ fun h there => ⟨outside h (by simp [there]), names.1 h there⟩]
        exact done.emptied lifted (outside g (by simp))
      · exact rest_done.emptied g there lifted fun h inside => outside h (by simp [inside])
    · rcases List.mem_cons.mp inside with rfl | there
      · have own_key : g.jsonName ∈ index.ownKeys g := by simp [ownKeys_of_unlifted unlifted]
        rw [rest_done.others _ fun h there => ⟨fun taken => (apart.1 h there).2 own_key taken, names.1 h there⟩]
        exact done.run unlifted
      · rw [← untouched g there]
        exact rest_done.run g there unlifted

end Codec

end Wireform

namespace Wireform.Codec

open Json (Alike AlikeAt)
open Index

variable {index : Index} {m : Message} {encode decode : String → Json → Result Json} {plan : Plan}

def LiftedBy (m : Message) (groups : List (Oneof × OneofConfig)) (f : Field) : Prop :=
  ∃ group ∈ groups, group.2.flatten = true ∧ f ∈ m.oneofMembers group.1

structure OneofReady (index : Index) (m : Message) (pending : List (Oneof × OneofConfig))
    (group : Oneof × OneofConfig) (doc : Doc) : Prop where
  single : ∀ f ∈ m.oneofMembers group.1, ∀ g ∈ m.oneofMembers group.1, doc.get? f.jsonName ≠ none →
    doc.get? g.jsonName ≠ none → f.jsonName = g.jsonName
  present : ∀ f ∈ m.oneofMembers group.1, ∀ value, doc.get? f.jsonName = some value → value.isNull = false
  lifts : group.2.flatten = true → ∀ f ∈ m.oneofMembers group.1, ∀ value, doc.get? f.jsonName = some value →
    ∃ child : Doc, value = .obj child ∧ ∀ k ∈ child.keys, k ∈ (index.variantOf group.2 f).childKeys
  room : ∀ k ∈ index.oneofKeys m group.1 group.2, (∀ f, LiftedBy m pending f → k ≠ f.jsonName) →
    doc.get? k = none

structure OneofDone (index : Index) (m : Message) (group : Oneof × OneofConfig) (doc wire : Doc) : Prop where
  others : ∀ k, k ∉ index.oneofKeys m group.1 group.2 →
    (group.2.flatten = true → ∀ f ∈ m.oneofMembers group.1, k ≠ f.jsonName) → wire.get? k = doc.get? k
  emptied : group.2.flatten = true → ∀ f ∈ m.oneofMembers group.1,
    f.jsonName ∉ index.oneofKeys m group.1 group.2 → wire.get? f.jsonName = none

theorem setVariant?_none {variants : List Variant} {doc : Doc} (unset : setVariant? variants doc = none) :
    ∀ variant ∈ variants, ∀ value, doc.get? variant.jsonName = some value → value.isNull = true := by
  intro variant inside value found
  have here := List.findSome?_eq_none_iff.mp unset variant inside
  rw [found] at here
  by_contra present
  simp [present] at here

theorem discriminator_mem {oneof : Oneof} {config : OneofConfig} :
    config.discriminator ∈ index.oneofKeys m oneof config := List.mem_cons_self

theorem childKeys_mem {oneof : Oneof} {config : OneofConfig} {f : Field} (member : f ∈ m.oneofMembers oneof)
    {k : String} (inside : k ∈ (index.variantOf config f).childKeys) : k ∈ index.oneofKeys m oneof config :=
  List.mem_cons_of_mem _ (List.mem_flatMap.mpr ⟨f, member, inside⟩)

section Single

variable {oneof : Oneof} {config : OneofConfig} {rest : List (Oneof × OneofConfig)} {doc : Doc}
  (tag : ∀ f ∈ m.oneofMembers oneof, config.discriminator ∉ (index.variantOf config f).childKeys)
  (later : ∀ group ∈ rest, ∀ f ∈ m.oneofMembers group.1, f.jsonName ∉ index.oneofKeys m oneof config)
  (distinct : (Json.obj doc).Distinct) (ready : OneofReady index m ((oneof, config) :: rest) (oneof, config) doc)

include later ready in
theorem free_of_ready {k : String} (written : k ∈ index.oneofKeys m oneof config)
    (own : config.flatten = true → ∀ f ∈ m.oneofMembers oneof, k = f.jsonName → doc.get? k = none) :
    doc.get? k = none := by
  by_cases taken : ∃ f, LiftedBy m ((oneof, config) :: rest) f ∧ k = f.jsonName
  · obtain ⟨f, ⟨group, inside, flatten, member⟩, same⟩ := taken
    rcases List.mem_cons.mp inside with rfl | there
    · exact own flatten f member same
    · exact absurd (same ▸ written) (later group there f member)
  · exact ready.room k written fun f lifted same => taken ⟨f, lifted, same⟩

include later distinct ready

theorem unset_undone (unset : setVariant? ((m.oneofMembers oneof).map (index.variantOf config)) doc = none) :
    ∃ wire, Undone encode decode plan [oneofStep index m oneof config] doc wire ∧
      OneofDone index m (oneof, config) doc wire := by
  have absent : ∀ f ∈ m.oneofMembers oneof, doc.get? f.jsonName = none := by
    intro f member
    cases found : doc.get? f.jsonName with
    | none => rfl
    | some value =>
      have null := setVariant?_none unset _ (List.mem_map.mpr ⟨f, member, rfl⟩) value found
      rw [ready.present f member value found] at null
      cases null
  have untagged := free_of_ready later ready discriminator_mem fun _ f member same => same ▸ absent f member
  refine ⟨doc, ?_, fun _ _ _ => rfl, fun _ f member _ => absent f member⟩
  rw [oneofStep_eq]
  exact oneof_absent_undone rfl distinct unset untagged

theorem tagged_undone (beside : config.flatten = false) {variant : Variant} {value : Json}
    (set : setVariant? ((m.oneofMembers oneof).map (index.variantOf config)) doc = some (variant, value)) :
    ∃ wire, Undone encode decode plan [oneofStep index m oneof config] doc wire ∧
      OneofDone index m (oneof, config) doc wire := by
  have never {p : Prop} (flatten : config.flatten = true) : p := by
    rw [beside] at flatten
    cases flatten
  have untagged := free_of_ready later ready discriminator_mem never
  rw [oneofStep_eq, beside]
  refine ⟨_, oneof_tagged_undone rfl distinct set untagged, fun k outside _ => ?_, never⟩
  rw [Entries.get?_insert, if_neg]
  rintro rfl
  exact outside discriminator_mem

include tag

theorem spread_undone (values : ((m.oneofMembers oneof).map Field.variantValue).Nodup)
    (flatten : config.flatten = true) {f : Field} (member : f ∈ m.oneofMembers oneof) {value : Json}
    (set : setVariant? ((m.oneofMembers oneof).map (index.variantOf config)) doc =
      some (index.variantOf config f, value)) :
    ∃ wire, Undone encode decode plan [oneofStep index m oneof config] doc wire ∧
      OneofDone index m (oneof, config) doc wire := by
  have there : doc.get? f.jsonName = some value := (setVariant?_spec set).2.1
  obtain ⟨child, rfl, known⟩ := ready.lifts flatten f member value there
  -- At most one member of the oneof is set, so the spread child meets no key of another member's.
  have only (g : Field) (other : g ∈ m.oneofMembers oneof) (differ : g.jsonName ≠ f.jsonName) :
      doc.get? g.jsonName = none := by
    by_contra present
    exact differ (ready.single g other f member present (by simp [there]))
  have free {k : String} (written : k ∈ index.oneofKeys m oneof config) (differ : k ≠ f.jsonName) :
      doc.get? k = none := by
    refine free_of_ready later ready written fun _ g other same => ?_
    rw [same]
    exact only g other fun equal => differ (same.trans equal)
  have named : ((m.oneofMembers oneof).map (index.variantOf config)).find?
      (·.value == (index.variantOf config f).value) = some (index.variantOf config f) := by
    refine find?_of_nodup ?_ (List.mem_map.mpr ⟨f, member, rfl⟩)
    rw [List.map_map]
    exact values
  have room : Free id (index.variantOf config f).childKeys (index.variantOf config f).jsonName doc :=
    fun k inside differ => free (childKeys_mem member inside) differ
  have unlaid : config.discriminator ∉ child.keys := fun inside => tag f member (known _ inside)
  have beside (k : String) (outside : k ∉ index.oneofKeys m oneof config) :
      Entries.get? (Entries.insert (lifted id f.jsonName child doc) config.discriminator
        (.str (index.variantOf config f).value)) k = if f.jsonName = k then none else doc.get? k := by
    have untagged : config.discriminator ≠ k := fun same => outside (same ▸ discriminator_mem)
    rw [Entries.get?_insert, if_neg untagged]
    refine get?_lifted_beside (fun _ _ same => same) distinct there known fun inside => ?_
    rw [List.map_id'] at inside
    exact outside (childKeys_mem member inside)
  rw [oneofStep_eq, flatten]
  refine ⟨_, oneof_lifted_undone rfl distinct set named known room unlaid (free discriminator_mem),
    fun k outside others => ?_, fun _ g other outside => ?_⟩
  · exact (beside k outside).trans (if_neg fun same => others flatten f member same.symm)
  · refine (beside _ outside).trans ?_
    split
    · rfl
    · rename_i differ
      exact only g other (Ne.symm differ)

theorem oneof_undone (values : ((m.oneofMembers oneof).map Field.variantValue).Nodup) :
    ∃ wire, Undone encode decode plan [oneofStep index m oneof config] doc wire ∧
      OneofDone index m (oneof, config) doc wire := by
  cases set : setVariant? ((m.oneofMembers oneof).map (index.variantOf config)) doc with
  | none => exact unset_undone later distinct ready set
  | some found =>
    obtain ⟨variant, value⟩ := found
    obtain ⟨f, member, rfl⟩ := List.mem_map.mp (setVariant?_spec set).1
    cases flatten : config.flatten with
    | false => exact tagged_undone later distinct ready flatten set
    | true => exact spread_undone tag later distinct ready values flatten member set

end Single

theorem OneofReady.after {group g : Oneof × OneofConfig} {rest : List (Oneof × OneofConfig)} {doc between : Doc}
    (done : OneofDone index m group doc between)
    (apart : List.Disjoint (index.oneofKeys m group.1 group.2) (index.oneofKeys m g.1 g.2))
    (untouched : ∀ f ∈ m.oneofMembers g.1, between.get? f.jsonName = doc.get? f.jsonName)
    (before : OneofReady index m (group :: rest) g doc) : OneofReady index m rest g between := by
  refine ⟨fun e first f second => ?_, fun f member => ?_, fun flatten f member => ?_, fun k written free => ?_⟩
  · rw [untouched e first, untouched f second]
    exact before.single e first f second
  · rw [untouched f member]
    exact before.present f member
  · rw [untouched f member]
    exact before.lifts flatten f member
  · have outside : k ∉ index.oneofKeys m group.1 group.2 := fun taken => apart taken written
    by_cases own : ∃ f ∈ m.oneofMembers group.1, group.2.flatten = true ∧ k = f.jsonName
    · obtain ⟨f, member, flatten, rfl⟩ := own
      exact done.emptied flatten f member outside
    · rw [done.others k outside fun flatten f member same => own ⟨f, member, flatten, same⟩]
      refine before.room k written fun f lifted same => ?_
      obtain ⟨h, pending, flatten, member⟩ := lifted
      rcases List.mem_cons.mp pending with rfl | later
      · exact own ⟨f, member, flatten, same⟩
      · exact free f ⟨h, later, flatten, member⟩ same

structure OneofsDone (index : Index) (m : Message) (groups : List (Oneof × OneofConfig)) (doc wire : Doc) :
    Prop where
  others : ∀ k, (∀ group ∈ groups, k ∉ index.oneofKeys m group.1 group.2) →
    (∀ f, LiftedBy m groups f → k ≠ f.jsonName) → wire.get? k = doc.get? k
  emptied : ∀ f, LiftedBy m groups f → (∀ group ∈ groups, f.jsonName ∉ index.oneofKeys m group.1 group.2) →
    wire.get? f.jsonName = none

theorem oneofs_undone (keeps : ∀ name, KeepsAlike (decode name)) {groups : List (Oneof × OneofConfig)}
    (values : ∀ group ∈ groups, ((m.oneofMembers group.1).map Field.variantValue).Nodup)
    (tag : ∀ group ∈ groups, ∀ f ∈ m.oneofMembers group.1,
      group.2.discriminator ∉ (index.variantOf group.2 f).childKeys)
    (apart : groups.Pairwise fun a b =>
      List.Disjoint (index.oneofKeys m a.1 a.2) (index.oneofKeys m b.1 b.2) ∧
        ∀ f ∈ m.oneofMembers b.1, f.jsonName ∉ index.oneofKeys m a.1 a.2)
    (members : groups.Pairwise fun a b =>
      ∀ f ∈ m.oneofMembers a.1, ∀ g ∈ m.oneofMembers b.1, f.jsonName ≠ g.jsonName)
    {doc : Doc} (distinct : (Json.obj doc).Distinct)
    (ready : ∀ group ∈ groups, OneofReady index m groups group doc) :
    ∃ wire, Undone encode decode plan
        (groups.map fun (oneof, config) => oneofStep index m oneof config) doc wire ∧
      OneofsDone index m groups doc wire := by
  -- By induction on the oneofs: the first leaves to the others their members and the room for their keys.
  induction groups generalizing doc with
  | nil =>
    refine ⟨doc, Undone.nil distinct, fun _ _ _ => rfl, fun f lifted => ?_⟩
    obtain ⟨_, never, _⟩ := lifted
    cases never
  | cons group rest ih =>
    obtain ⟨oneof, config⟩ := group
    rw [List.pairwise_cons] at apart members
    obtain ⟨between, first, done⟩ := oneof_undone (tag _ List.mem_cons_self)
      (fun g inside => (apart.1 g inside).2) distinct (ready _ List.mem_cons_self) (values _ List.mem_cons_self)
    have ready_rest : ∀ g ∈ rest, OneofReady index m rest g between := fun g inside =>
      .after done (apart.1 g inside).1
        (fun f member => done.others _ ((apart.1 g inside).2 f member) fun _ e other =>
          Ne.symm (members.1 g inside e other f member))
        (ready g (List.mem_cons_of_mem _ inside))
    obtain ⟨wire, later, rest_done⟩ := ih (fun g inside => values g (List.mem_cons_of_mem _ inside))
      (fun g inside => tag g (List.mem_cons_of_mem _ inside)) apart.2 members.2 first.distinct ready_rest
    refine ⟨wire, first.append keeps later, fun k outside free => ?_, fun f lifted outside => ?_⟩
    · rw [rest_done.others k fun g inside => outside g (List.mem_cons_of_mem _ inside)]
      · exact done.others k (outside _ List.mem_cons_self) fun flatten f member =>
          free f ⟨_, List.mem_cons_self, flatten, member⟩
      · rintro f ⟨g, inside, there⟩
        exact free f ⟨g, List.mem_cons_of_mem _ inside, there⟩
    · by_cases later : LiftedBy m rest f
      · exact rest_done.emptied f later fun g inside => outside g (List.mem_cons_of_mem _ inside)
      · obtain ⟨h, pending, flatten, member⟩ := lifted
        rcases List.mem_cons.mp pending with rfl | there
        · rw [rest_done.others _ fun g inside => outside g (List.mem_cons_of_mem _ inside)]
          · exact done.emptied flatten f member (outside _ List.mem_cons_self)
          · rintro g ⟨group, inside, _, other⟩
            exact members.1 group inside f member g other
        · exact absurd ⟨h, there, flatten, member⟩ later

end Wireform.Codec
