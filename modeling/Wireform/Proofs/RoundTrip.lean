import Wireform.Proofs.Evaluation
import Wireform.Proofs.RestoredDocuments

set_option autoImplicit false

namespace Wireform.Codec

open Json (Alike AlikeAt)
open Index

section Collapse

theorem arr_of_filled {value : Json} (filled : Filled .list value) :
    ∃ item rest, value = .arr (item :: rest) := by
  cases value with
  | arr items =>
    cases items with
    | nil => exact filled.elim
    | cons item rest => exact ⟨item, rest, rfl⟩
  | _ => exact filled.elim

theorem wrapValue_distinct (key : String) {value : Json} (distinct : value.Distinct) :
    (wrapValue key value).Distinct := by
  unfold wrapValue
  split
  · exact Json.distinct_single key distinct
  · exact Json.distinct_empty

theorem unwrapValue_distinct (key : String) {value : Json} (distinct : value.Distinct) :
    (unwrapValue key value).Distinct := by
  cases value with
  | obj members =>
    rw [unwrapValue, Json.get?]
    cases found : Entries.get? members key with
    | none => trivial
    | some inner => exact (Json.distinct_obj.mp distinct).2 key inner found
  | _ => trivial

variable {index : Index} {m : Message} {planned : String → Bool} {f : Field}
  {encode decode : String → Json → Result Json} {plan : Plan}

theorem collapsed_undone (checked : ∀ f ∈ m.fields, f.Checked index m)
    (target : ∀ f ∈ m.fields, ∀ type pre, f.lifted? = some (type, pre) → type ≠ WellKnown.timestamp)
    (orderly : index.Orderly m) (own : planned WellKnown.timestamp = false) (inside : f ∈ m.fields)
    (isList : f.isList = true) (unlifted : f.lifted? = none) (alone : ¬ m.LiftedMember f) {doc wire : Doc}
    (collapsed : Collapsed f.jsonName (.obj doc))
    (values : ∀ value, doc.get? f.jsonName = some value → Restorable index planned encode decode f value)
    (done : MessageDone index m planned encode plan doc wire) :
    ∃ bare back, wrapValue f.jsonName (unwrapValue f.jsonName (.obj wire)) = .obj bare ∧
      (unwrapValue f.jsonName (.obj wire)).isNull = false ∧
      decodeSteps decode plan (innerSteps index m planned).reverse bare = .ok back ∧
      Alike (.obj back) (.obj doc) := by
  have plural := not_singular_of_list isList
  have container := container_of_list isList
  have run := done.run f inside unlifted alone
  obtain ⟨first, last, around, first_spares, last_spares⟩ :=
    innerSteps_around checked target orderly inside unlifted alone
  have stays := staysAt_of_unlifted index planned unlifted
  -- An empty list leaves nothing and is put back as none; any other is what the field left.
  rcases collapsed with empty | ⟨item, rest, full⟩
  · cases Json.obj.inj empty
    have nothing : UndoneAt encode decode plan (bodySteps index planned f) none none :=
      absent_plural (checked f inside) plural
    have gone : wire.get? f.jsonName = none :=
      (Except.ok.inj (nothing.encoded.symm.trans run)).symm
    obtain ⟨back, q, decoded, alike, lone⟩ :=
      decodeSteps_lone stays first_spares last_spares nothing (lone_nil f.jsonName)
    have left : unwrapValue f.jsonName (.obj wire) = .arr [] := by
      rw [unwrapValue, Json.get?, gone]
      rfl
    rw [left]
    refine ⟨[], back, rfl, rfl, ?_, alike_of_lone lone (lone_nil _) alike⟩
    rw [around]
    exact decoded
  · cases Json.obj.inj full
    have given : Entries.get? [(f.jsonName, Json.arr (item :: rest))] f.jsonName =
        some (.arr (item :: rest)) := by simp [Entries.get?]
    obtain ⟨w, filled, present, undone⟩ := filled_plural plan (checked f inside) own plural
      (values _ given) (by rw [container]; trivial)
    rw [given] at run
    have there : wire.get? f.jsonName = some w :=
      (Except.ok.inj (undone.encoded.symm.trans run)).symm
    have left : unwrapValue f.jsonName (.obj wire) = w := by
      rw [unwrapValue, Json.get?, there]
      rfl
    have wraps : wrapValue f.jsonName w = .obj [(f.jsonName, w)] := by
      obtain ⟨_, _, rfl⟩ := arr_of_filled (container ▸ filled)
      rfl
    obtain ⟨back, q, decoded, alike, lone⟩ :=
      decodeSteps_lone stays first_spares last_spares undone (lone_wrap f.jsonName w)
    rw [left]
    refine ⟨_, back, wraps, present, ?_, alike_of_lone lone (lone_wrap _ _) alike⟩
    rw [around]
    exact decoded

end Collapse

section Root

variable {index : Index} {name : String} {m : Message} {f : Field}

def rootStep (f : Field) : Step := f.step .single (.unwrapRoot f.message? f.isMap)

variable (index) in
theorem steps_of_root (fields : m.fields = [f]) (unwrap : f.annotations.unwrap = true)
    (alone : m.discriminated = []) (names : List String) :
    (planOf index names m).steps = bodySteps index names.contains f ++ [rootStep f] := by
  have root := Message.isRootUnwrap_iff.mpr ⟨f, fields, unwrap⟩
  rw [planOf_steps, fields, alone]
  simp [rootSteps, unwrap, root, rootStep]

variable (index) in
theorem rootUnwrap?_of_root (fields : m.fields = [f]) (unwrap : f.annotations.unwrap = true)
    (alone : m.discriminated = []) (names : List String) :
    (planOf index names m).rootUnwrap? = some (rootStep f) := by
  rw [Plan.rootUnwrap?, steps_of_root index fields unwrap alone, List.find?_append, List.find?_eq_none.mpr]
  · rfl
  · intro step inside
    rw [body_not_root index names.contains f step inside]
    simp

theorem wrapRoot_filled {plan : Plan} {container : Container} {wire : Json} (filled : Filled container wire) :
    wrapRoot plan (rootStep f) wire = .ok [(f.jsonName, wire)] := by
  unfold Filled at filled
  split at filled
  · rfl
  · rfl
  · exact filled.elim

theorem wrapRoot_empty {plan : Plan} (isMap : Bool) :
    wrapRoot plan (rootStep f) (emptyContainer isMap) = .ok [] := by
  cases isMap <;> rfl

theorem wrapRoot_eq_ok {plan : Plan} {root : Step} {w : Json} {doc : Doc} (run : wrapRoot plan root w = .ok doc) :
    (doc = [] ∧ (w = .null ∨ w = .arr [] ∨ w = .obj [])) ∨
      doc = [(root.jsonName, w)] ∧ ∃ container, Filled container w := by
  unfold wrapRoot at run
  split at run
  · exact .inl ⟨(Except.ok.inj run).symm, .inl rfl⟩
  · exact .inl ⟨(Except.ok.inj run).symm, .inr (.inl rfl)⟩
  · exact .inl ⟨(Except.ok.inj run).symm, .inr (.inr rfl)⟩
  · rename_i items full
    refine .inr ⟨(Except.ok.inj run).symm, .list, ?_⟩
    cases items with
    | nil => exact absurd rfl full
    | cons => trivial
  · rename_i members full
    refine .inr ⟨(Except.ok.inj run).symm, .mapValues, ?_⟩
    cases members with
    | nil => exact absurd rfl full
    | cons => trivial
  · cases run

theorem emptyContainer_distinct (isMap : Bool) : (emptyContainer isMap).Distinct := by
  cases isMap
  · exact Json.distinct_arr.mpr (by simp)
  · exact Json.distinct_empty

theorem lone_of_known {doc : Doc} (distinct : (Json.obj doc).Distinct) (fields : m.fields = [f])
    (known : ∀ k, doc.get? k ≠ none → ∃ g ∈ m.fields, g.jsonName = k) :
    Lone f.jsonName (doc.get? f.jsonName) doc := by
  refine ⟨(Json.distinct_obj.mp distinct).1, fun k => ?_⟩
  split
  · rename_i same
    rw [same]
  · rename_i differ
    by_contra present
    obtain ⟨g, inside, same⟩ := known k present
    rw [fields, List.mem_singleton] at inside
    exact differ (inside ▸ same)

variable (index) in
theorem innerSteps_of_root (fields : m.fields = [f]) (alone : m.discriminated = []) (planned : String → Bool) :
    innerSteps index m planned = bodySteps index planned f := by
  simp [innerSteps, fields, alone]

variable {levels : Nat} (sound : index.Sound) (found : index.message? name = some m)
  (planned : m.fullName ∈ index.planned) (fields : m.fields = [f]) (unwrap : f.annotations.unwrap = true)
  (alone : m.discriminated = [])

include sound found planned fields unwrap alone

theorem encodeWithin_root (doc : Doc) : encodeWithin index.codec (levels + 1) name (.obj doc) =
    (fun wire : Doc => (wire.get? f.jsonName).getD (emptyContainer f.isMap)) <$>
      encodeAll (encodeWithin index.codec levels) (planOf index index.planned m)
        (innerSteps index m index.planned.contains) doc := by
  rw [encodeWithin_planned (plan?_codec sound.toKeyed found planned levels), steps_of_root index fields unwrap alone,
    encodeSteps_append _ _ (body_not_root index _ f), innerSteps_of_root index fields alone]
  cases encodeAll _ _ (bodySteps index index.planned.contains f) doc <;> rfl

theorem decodeWithin_root (value : Json) : decodeWithin index.codec (levels + 1) name value =
    wrapRoot (planOf index index.planned m) (rootStep f) value >>= fun bare =>
      Json.obj <$> decodeSteps (decodeWithin index.codec levels) (planOf index index.planned m)
        (innerSteps index m index.planned.contains).reverse bare := by
  rw [decodeWithin_planned (plan?_codec sound.toKeyed found planned levels), openWire,
    rootUnwrap?_of_root index fields unwrap alone, steps_of_root index fields unwrap alone,
    innerSteps_of_root index fields alone, List.reverse_append]
  rfl

variable {doc : Doc} (distinct : (Json.obj doc).Distinct)
  (known : ∀ k, doc.get? k ≠ none → ∃ g ∈ m.fields, g.jsonName = k)

include distinct known

theorem root_undone {p : Option Json}
    (undone : UndoneAt (encodeWithin index.codec levels) (decodeWithin index.codec levels)
      (planOf index index.planned m) (bodySteps index index.planned.contains f) (doc.get? f.jsonName) p)
    {bare : Doc} (lone : Lone f.jsonName p bare)
    (wraps : wrapRoot (planOf index index.planned m) (rootStep f) (p.getD (emptyContainer f.isMap)) = .ok bare)
    (present : (p.getD (emptyContainer f.isMap)).isNull = false)
    (clean : (p.getD (emptyContainer f.isMap)).Distinct) :
    Restores (encodeWithin index.codec (levels + 1) name) (decodeWithin index.codec (levels + 1) name)
      (.obj doc) := by
  have plural : f.isSingular = false :=
    ((checked_of_sound sound found f (by simp [fields])).unwrap unwrap).1
  have unlifted : f.lifted? = none := by
    cases lifted : f.lifted? with
    | none => rfl
    | some target =>
      obtain ⟨_, _, singular⟩ := lifted?_eq_some lifted
      rw [plural] at singular
      cases singular
  have stays := staysAt_of_unlifted index index.planned.contains unlifted
  have inner := innerSteps_of_root index fields alone index.planned.contains
  obtain ⟨wire, whole, _, changed⟩ := Undone.of_block stays distinct undone
  obtain ⟨back, q, decoded, alike, lone_back⟩ := decodeSteps_lone stays (List.forall_mem_nil _)
    (List.forall_mem_nil _) undone lone
  rw [List.nil_append, List.append_nil] at decoded
  refine ⟨_, ?_, present, clean, .obj back, ?_,
    alike_of_lone lone_back (lone_of_known distinct fields known) alike⟩
  · rw [encodeWithin_root sound found planned fields unwrap alone, inner, whole.encoded]
    exact congrArg (fun o : Option Json => Except.ok (o.getD (emptyContainer f.isMap))) ((changed _).trans (if_pos rfl))
  · rw [decodeWithin_root sound found planned fields unwrap alone, wraps, ok_bind, inner, decoded]
    rfl

end Root

section Levels

variable {index : Index} {rule : Rule} {root : String} (sound : index.Sound) (regular : index.Regular)
  (restoring : Restoring index rule root)

theorem kept_field (sound : index.Sound) (regular : index.Regular) {name : String} {m : Message}
    (found : index.message? name = some m) (orderly : index.Orderly m) {f : Field} (first : m.unwrapField? = some f) :
    f ∈ m.fields ∧ f.lifted? = none ∧ ¬ m.LiftedMember f := by
  have inside := List.mem_of_find?_eq_some first
  have unwrap : f.annotations.unwrap = true := by simpa using List.find?_some first
  have checked := checked_of_sound sound found f inside
  refine ⟨inside, ?_, ?_⟩
  · rw [Field.lifted?, checked.single unwrap]
  · rintro ⟨oneof, config, group, _, listed⟩
    have owner := ((orderly.members oneof config group f).mp listed).2
    have singular := regular.members m (KeyMap.mem_values.mpr ⟨_, found⟩) f inside (by simp [owner])
    rw [(checked.unwrap unwrap).1] at singular
    cases singular

include sound regular restoring

theorem restoredBy_plain {levels : Nat} {name : String} {m : Message} {doc : Doc}
    (reached : index.Reaches root name) (found : index.message? name = some m)
    (planned : m.fullName ∈ index.planned) (plain : m.isRootUnwrap = false) (distinct : (Json.obj doc).Distinct)
    (ready : MessageReady index m index.planned.contains (encodeWithin index.codec levels)
      (decodeWithin index.codec levels) doc) : RestoredBy index (levels + 1) name m (.obj doc) := by
  have orderly := restoring.orderly name m reached found
  have own := timestamp_unplanned sound.toKeyed
  have keeps := decodeWithin_keepsAlike index.codec levels
  have singular := regular.members m (KeyMap.mem_values.mpr ⟨_, found⟩)
  obtain ⟨wire, undone, done⟩ := message_undone keeps sound found orderly
    singular own distinct ready
  have encoded : encodeWithin index.codec (levels + 1) name (.obj doc) = .ok (.obj wire) := by
    rw [encodeWithin_plain sound found planned plain, undone.encoded]
    rfl
  refine ⟨plain_restores sound found planned plain undone, fun _ other run => ?_,
    fun _ f first isList collapsed => ?_⟩
  · cases Except.ok.inj (encoded.symm.trans run)
    exact ⟨wire, rfl, done.laid⟩
  · obtain ⟨inside, unlifted, alone⟩ := kept_field sound regular found orderly first
    obtain ⟨bare, back, wraps, present, decoded, alike⟩ := collapsed_undone (checked_of_sound sound found)
      (lifted_not_timestamp sound found) orderly own inside isList unlifted alone collapsed
      (fun value given => (ready.values f inside value given).1) done
    refine ⟨fun other run => ?_, _, ?_, present, unwrapValue_distinct _ undone.distinct, .obj back, ?_, alike⟩
    · cases Except.ok.inj (encoded.symm.trans run)
      rfl
    · exact congrArg (Functor.map (unwrapValue f.jsonName)) encoded
    · dsimp only
      rw [wraps, decodeWithin_plain sound found planned plain, decoded]
      rfl

theorem restoredBy_root {levels : Nat} {name : String} {m : Message} {doc : Doc}
    (reached : index.Reaches root name) (found : index.message? name = some m)
    (planned : m.fullName ∈ index.planned) {f : Field} (fields : m.fields = [f])
    (unwrap : f.annotations.unwrap = true) (distinct : (Json.obj doc).Distinct)
    (rules : ∀ value, doc.get? f.jsonName = some value → rule.value m f value)
    (ready : MessageReady index m index.planned.contains (encodeWithin index.codec levels)
      (decodeWithin index.codec levels) doc) : RestoredBy index (levels + 1) name m (.obj doc) := by
  have inside : f ∈ m.fields := by simp [fields]
  have checked := checked_of_sound sound found f inside
  have plural := (checked.unwrap unwrap).1
  have alone := discriminated_of_root sound found (regular.members m (KeyMap.mem_values.mpr ⟨_, found⟩)) fields unwrap
  have own := timestamp_unplanned sound.toKeyed
  have isRoot := Message.isRootUnwrap_iff.mpr ⟨f, fields, unwrap⟩
  refine ⟨?_, fun plain => ?_, fun plain => ?_⟩
  · cases given : doc.get? f.jsonName with
    | none =>
      refine root_undone (p := none) sound found planned fields unwrap alone distinct ready.known
        ?_ (lone_nil _) (wrapRoot_empty _) ?_ (emptyContainer_distinct f.isMap)
      · rw [given]
        exact absent_plural checked plural
      · cases f.isMap <;> rfl
    | some value =>
      have filled := (restoring.lossless name m reached found f inside value (rules value given)).filled plural
      obtain ⟨wire, still, present, undone⟩ := filled_plural (planOf index index.planned m) checked own
        plural (ready.values f inside value given).1 filled
      refine root_undone (p := some wire) sound found planned fields unwrap alone distinct ready.known
        ?_ (lone_wrap _ wire) (wrapRoot_filled still) present (undone.distinct wire rfl)
      rw [given]
      exact undone
  · rw [isRoot] at plain
    cases plain
  · rw [isRoot] at plain
    cases plain

theorem restoredBy_of_fits (levels : Nat) : ∀ name m value, index.Reaches root name →
    index.message? name = some m → m.fullName ∈ index.planned → Fits index rule (.message name) value →
      value.Distinct → NestsWithin index.codec levels name value → RestoredBy index levels name m value := by
  induction levels with
  | zero => exact fun _ _ _ _ _ _ _ _ nests => nests.elim
  | succ levels ih =>
    intro name m value reached found planned fits distinct nests
    obtain ⟨doc, rfl, known, shapes, values, document⟩ :=
      obj_of_fits sound.toKeyed found (wellKnown_of_planned sound.toKeyed found planned) fits
    have nested := nested_of_fits sound found planned distinct shapes values nests
    have ready := messageReady_of_nested sound regular restoring ih reached found known document nested
    cases isRoot : m.isRootUnwrap with
    | false => exact restoredBy_plain sound regular restoring reached found planned isRoot distinct ready
    | true =>
      obtain ⟨f, fields, unwrap⟩ := Message.isRootUnwrap_iff.mp isRoot
      exact restoredBy_root sound regular restoring reached found planned fields unwrap distinct
        (fun value given => (nested f (by simp [fields]) value given).1) ready

/-- What encoding a fitting document gives is decoded to the document. -/
theorem round_trip {m : Message} (found : index.message? root = some m) {d : Json} (distinct : d.Distinct)
    (fits : Fits index rule (.message root) d) (nests : NestsWithin index.codec (maxNesting + 1) root d) :
    ∃ w, encode index.codec root d = .ok w ∧ ∃ back, decode index.codec root w = .ok back ∧ Alike back d := by
  by_cases planned : m.fullName ∈ index.planned
  · obtain ⟨w, encoded, _, _, back, decoded, alike⟩ := (restoredBy_of_fits sound regular restoring
      (maxNesting + 1) root m d .here found planned fits distinct nests).restores
    exact ⟨w, encoded, back, decoded, alike⟩
  · have unplanned := plan?_codec_none sound.toKeyed found planned maxNesting
    exact ⟨d, encodeWithin_unplanned unplanned d, d, decodeWithin_unplanned unplanned d, Alike.refl distinct⟩

end Levels

end Wireform.Codec

namespace Wireform

namespace Index

def Message.Flat (m : Message) : Prop :=
  (∀ f ∈ m.fields, f.annotations.flatten = false) ∧ ∀ group ∈ m.discriminated, group.2.flatten = false

instance (m : Message) : Decidable m.Flat := inferInstanceAs (Decidable (_ ∧ _))

theorem lifted?_of_flat {m : Message} (flat : m.Flat) : ∀ f ∈ m.fields, f.lifted? = none := by
  intro f inside
  rw [Field.lifted?, flat.1 f inside]

theorem orderly_of_found {index : Index} (sound : index.Sound) (regular : index.Regular)
    (oneofs : ∀ m ∈ index.messages.values, (m.oneofs.map (·.name)).Nodup) {name : String} {m : Message}
    (found : index.message? name = some m) (flat : m.Flat) : index.Orderly m := by
  have listed : m ∈ index.messages.values := KeyMap.mem_values.mpr ⟨_, found⟩
  have again : index.message? (bareName name) = some m := by
    rw [message?, bareName_idempotent]
    exact found
  exact orderly_of_flat sound (bareName_idempotent name) again (regular.jsonNames m listed) (oneofs m listed)
    (lifted?_of_flat flat) flat.2

end Index

namespace Codec

open Json (Alike)
open Index

/-- Where no message lifts keys, and each tells its oneofs apart, documents come back from the wire. -/
theorem decode_encode_of_flat {set : Schema.FileSet} {files : List String} {settings : Settings}
    {compiled : Run.Compiled} (run : Run.compile set files settings = .ok compiled)
    (regular : compiled.index.Regular)
    (oneofs : ∀ m ∈ compiled.index.messages.values, (m.oneofs.map (·.name)).Nodup) {name : String} {m : Message}
    (found : compiled.index.message? name = some m)
    (flat : ∀ other c, compiled.index.Reaches name other → compiled.index.message? other = some c → c.Flat)
    {d : Json} (distinct : d.Distinct)
    (fits : Fits compiled.index compiled.index.lossless (.message name) d)
    (nests : NestsWithin ⟨compiled.index, compiled.plans⟩ (maxNesting + 1) name d) :
    ∃ w, encode ⟨compiled.index, compiled.plans⟩ name d = .ok w ∧
      ∃ back, decode ⟨compiled.index, compiled.plans⟩ name w = .ok back ∧ Alike back d := by
  have sound := Run.sound_of_compile run
  obtain ⟨_, _, plans⟩ := Run.compile_spec run
  rw [plans] at nests ⊢
  refine round_trip sound regular ⟨fun other c reached there => ?_, fun _ _ _ _ _ rules => rules,
    fun _ _ _ _ _ _ _ rules => rules, fun other c reached there f inside _ _ type pre lifted => ?_⟩ found distinct
    fits nests
  · exact orderly_of_found sound regular oneofs there (flat other c reached there)
  · rw [lifted?_of_flat (flat other c reached there) f inside] at lifted
    cases lifted

def tallies : Schema.FileSet := .ofMessages [.ofFields "Tally"
  [.ofKind "count" .int64 [("int64_encoding", .str "NUMBER")],
    .ofKind "key" .bytes [("bytes_encoding", .str "HEX")]] []]

def tally : Doc := [("count", .str "5"), ("key", .str "AQI=")]

set_option maxRecDepth 10000 in
theorem decode_encode_tally : ∃ compiled, Run.compile tallies [] .default = .ok compiled ∧
    compiled.index.Regular ∧ Fits compiled.index compiled.index.lossless (.message "t.Tally") (.obj tally) ∧
    ∃ w, encode ⟨compiled.index, compiled.plans⟩ "t.Tally" (.obj tally) = .ok w ∧
      ∃ back, decode ⟨compiled.index, compiled.plans⟩ "t.Tally" w = .ok back ∧ Alike back (.obj tally) := by
  obtain ⟨compiled, run, singular, oneofs, flat, single, shape⟩ := Run.exists_compiled
    (fun compiled => compiled.Singular ∧ (∀ m ∈ compiled.index.messages.values, (m.oneofs.map (·.name)).Nodup) ∧
      (∀ m ∈ compiled.index.messages.values, m.Flat) ∧
      (∀ m ∈ compiled.index.messages.values, m.OneMember tally) ∧
      compiled.index.shape? "t.Tally" = some [("count", .scalar .int64), ("key", .scalar .bytes)])
    (show (Run.compile tallies [] .default).toOption.any _ = true by decide +kernel)
  obtain ⟨m, found, _⟩ := Option.map_eq_some_iff.mp shape
  have fits : Fits compiled.index compiled.index.lossless (.message "t.Tally") (.obj tally) := by
    refine singular.fits (Run.sound_of_compile run) (by decide +kernel) shape (by decide)
      (fun entry inside value given => ?_) fun m found =>
        ⟨single m (KeyMap.mem_values.mpr ⟨_, found⟩), fun f there value _ =>
          singular.lossless (KeyMap.mem_values.mpr ⟨_, found⟩) there value⟩
    simp only [List.mem_cons, List.not_mem_nil, or_false] at inside
    rcases inside with rfl | rfl <;> cases given
    · exact ⟨rfl, .scalar ⟨5, rfl, rfl⟩⟩
    · exact ⟨rfl, .scalar ⟨[1, 2], by decide +kernel⟩⟩
  exact ⟨compiled, run, singular.regular, fits, decode_encode_of_flat run singular.regular oneofs found
    (fun other c _ there => flat c (KeyMap.mem_values.mpr ⟨_, there⟩)) ⟨by decide, trivial, trivial, trivial⟩ fits
    (singular.nests _ _ _)⟩

def namesakes : Schema.FileSet := .ofMessages [.ofFields "M"
  [.ofMember "a" .string 0, .ofMember "b" .string 1, .ofKind "z" .string []]
  [.ofDiscriminator "o" "t", .ofDiscriminator "o" "z"]]

def namesake : Doc := [("b", .str "1"), ("z", .str "x")]

set_option maxRecDepth 10000 in
/-- If two oneofs of a message share their name, the keys of the second are not checked, and what it writes
takes the place of a field. -/
theorem namesake_overwrites : ∃ compiled, Run.compile namesakes [] .default = .ok compiled ∧
    compiled.index.Regular ∧ (∀ m ∈ compiled.index.messages.values, m.Flat) ∧ (Json.obj namesake).Distinct ∧
    Fits compiled.index compiled.index.lossless (.message "t.M") (.obj namesake) ∧
    NestsWithin ⟨compiled.index, compiled.plans⟩ (maxNesting + 1) "t.M" (.obj namesake) ∧
    ∃ w back, encode ⟨compiled.index, compiled.plans⟩ "t.M" (.obj namesake) = .ok w ∧
      decode ⟨compiled.index, compiled.plans⟩ "t.M" w = .ok back ∧ ¬ Alike back (.obj namesake) := by
  obtain ⟨compiled, run, singular, flat, single, shape, encoded, decoded⟩ := Run.exists_compiled
    (fun compiled => compiled.Singular ∧ (∀ m ∈ compiled.index.messages.values, m.Flat) ∧
      (∀ m ∈ compiled.index.messages.values, m.OneMember namesake) ∧
      compiled.index.shape? "t.M" =
        some [("a", .scalar .string), ("b", .scalar .string), ("z", .scalar .string)] ∧
      (encode ⟨compiled.index, compiled.plans⟩ "t.M" (.obj namesake)).toOption =
        some (.obj [("b", .str "1"), ("z", .str "b")]) ∧
      (decode ⟨compiled.index, compiled.plans⟩ "t.M" (.obj [("b", .str "1"), ("z", .str "b")])).toOption =
        some (.obj [("b", .str "1")]))
    (show (Run.compile namesakes [] .default).toOption.any _ = true by decide +kernel)
  have fits : Fits compiled.index compiled.index.lossless (.message "t.M") (.obj namesake) := by
    refine singular.fits (Run.sound_of_compile run) (by decide +kernel) shape (by decide)
      (fun entry inside value given => ?_) fun m found =>
        ⟨single m (KeyMap.mem_values.mpr ⟨_, found⟩), fun f there value _ =>
          singular.lossless (KeyMap.mem_values.mpr ⟨_, found⟩) there value⟩
    simp only [List.mem_cons, List.not_mem_nil, or_false] at inside
    rcases inside with rfl | rfl | rfl <;> cases given
    · exact ⟨rfl, .scalar ⟨"1", rfl⟩⟩
    · exact ⟨rfl, .scalar ⟨"x", rfl⟩⟩
  refine ⟨compiled, run, singular.regular, flat, ⟨by decide, trivial, trivial, trivial⟩, fits,
    singular.nests _ _ _, _, _, ok_of_toOption encoded, ok_of_toOption decoded, fun alike => ?_⟩
  exact (Json.alike_obj.mp alike).2.2 "z"

end Codec

end Wireform
