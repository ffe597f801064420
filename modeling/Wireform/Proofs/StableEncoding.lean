import Wireform.Proofs.RoundTrip
import Wireform.Proofs.SettledMessages
import Wireform.Proofs.WrittenFields

set_option autoImplicit false

namespace Wireform

open Codec

namespace Index

def Message.StaysFilled (index : Index) (m : Message) (doc : Doc) : Prop :=
  ∀ f ∈ m.fields, f.annotations.changesEmpty = true → ∀ child, f.message? = some child →
    ∀ value, doc.get? f.jsonName = some value → value ≠ .obj [] →
      ∀ wire, encode index.codec child value = .ok wire → wire.isNull = false →
        decode index.codec child wire ≠ .ok (.obj [])

variable {index : Index} {rule : Message → Doc → Prop} {name : String} {m : Message} {value : Json}
  (found : index.message? name = some m)

include found

theorem obj_of_usual (keyed : index.Keyed) (own : m.wellKnown = false)
    (usual : Usual index rule (.message name) value) (present : value.isNull = false) :
    ∃ doc : Doc, value = .obj doc ∧ (∀ k, doc.get? k ≠ none → ∃ f ∈ m.fields, f.jsonName = k) ∧
      (∀ f ∈ m.fields, ∀ value, doc.get? f.jsonName = some value →
        value.isNull = true ∨ f.container.Shapes value) ∧
      (∀ f ∈ m.fields, ∀ value, doc.get? f.jsonName = some value →
        ∀ x ∈ f.container.values value, Usual index rule f.type x) ∧ rule m doc := by
  cases usual with
  | null => cases present
  | timestamp => exact absurd rfl (ne_timestamp_of_own keyed found own)
  | foreign _ foreign =>
    rw [foreign m found] at own
    cases own
  | message found' _ known shapes values allowed =>
    cases found.symm.trans found'
    exact ⟨_, rfl, known, shapes, values, allowed⟩

theorem arr_of_usual {f : Field} (first : m.unwrapField? = some f) (isList : f.isList = true)
    (usual : Usual index rule (.message name) value) (present : (unwrapValue f.jsonName value).isNull = false) :
    ∃ items, unwrapValue f.jsonName value = .arr items := by
  have listed : ∀ inner, value.get? f.jsonName = some inner → inner.isNull = true ∨ Container.list.Shapes inner := by
    intro inner given
    cases usual with
    | null => cases given
    | timestamp => cases given
    | foreign _ _ lists => exact lists m f found first isList inner given
    | message found' _ _ shapes =>
      cases found.symm.trans found'
      exact container_of_list isList ▸ shapes f (List.mem_of_find?_eq_some first) inner given
  rw [unwrapValue] at present ⊢
  cases given : value.get? f.jsonName with
  | none => exact ⟨[], rfl⟩
  | some inner =>
    rw [given] at present
    rcases listed inner given with null | shape
    · rw [show inner.isNull = false from present] at null
      cases null
    · cases inner with
      | arr items => exact ⟨items, rfl⟩
      | _ => exact shape.elim

end Index

namespace Codec

open Json (AlikeAt)
open Index

structure SettledBy (index : Index) (levels : Nat) (name : String) (m : Message) (w : Json) : Prop where
  distinct : w.Distinct
  restores : w.isNull = false →
    Restores (decodeWithin index.codec levels name) (encodeWithin index.codec levels name) w
  collapse : m.isRootUnwrap = false → ∀ inner, m.unwrapField? = some inner → inner.isList = true →
    (unwrapValue inner.jsonName w).isNull = false →
      Restores (fun v => decodeWithin index.codec levels name (wrapValue inner.jsonName v))
        (fun v => unwrapValue inner.jsonName <$> encodeWithin index.codec levels name v)
        (unwrapValue inner.jsonName w)

def Settled (index : Index) (root : String) (levels : Nat) : Prop :=
  ∀ name m value w, index.Reaches root name → index.message? name = some m → m.fullName ∈ index.planned →
    Usual index (Message.StaysFilled index) (.message name) value → value.Distinct → value.isNull = false →
      encodeWithin index.codec levels name value = .ok w → SettledBy index levels name m w

section Fields

variable {index : Index} {root : String} {levels : Nat} (sound : index.Sound) {name : String} {m : Message}
  (found : index.message? name = some m) {f : Field} (inside : f ∈ m.fields) {value : Json}

include sound found inside

theorem settling_of_usual (regular : index.Regular) (below : Settled index root levels)
    (reached : index.Reaches root name) (distinct : value.Distinct) (shapes : f.container.Shapes value)
    (values : ∀ x ∈ f.container.values value, Usual index (Message.StaysFilled index) f.type x) :
    Settling index index.planned.contains (encodeWithin index.codec levels) (decodeWithin index.codec levels) f
      value := by
  -- The messages of the field are one step further from the root, where all that is usual is settled.
  have settled {child : String} (typed : f.message? = some child) (planned : index.planned.contains child = true)
      {x : Json} (there : x ∈ f.container.values value) (present : x.isNull = false) {y : Json}
      (encoded : encodeWithin index.codec levels child x = .ok y) :
      ∃ c, index.message? child = some c ∧ SettledBy index levels child c y := by
    obtain ⟨c, known, _, _, listed⟩ := child_of_planned sound.toKeyed found inside typed planned
    refine ⟨c, known, below child c x y (.field reached found inside typed) known listed ?_
      (Container.distinct_of_mem distinct there) present encoded⟩
    rw [← type_of_message? typed]
    exact values x there
  refine
    { shapes, distinct
      child := fun child typed planned x there present y encoded => ?_
      listed := fun child elementType inner typed unwraps _ x there _ left => ?_
      collapsed := fun child elementType inner typed unwraps planned x there present z encoded left => ?_
      objects := fun child elementType inner typed unwraps planned x z encoded _ => ?_
      recode := fun step recodes x there present y encoded => ?_ }
  · obtain ⟨_, _, settled⟩ := settled typed planned there present encoded
    exact ⟨settled.distinct, settled.restores⟩
  · obtain ⟨c, list, known, first, _, _, isList, same⟩ := unwrapValues?_eq_some index f unwraps
    cases same
    have usual := values x there
    rw [type_of_message? typed] at usual
    exact arr_of_usual known first isList usual left
  · obtain ⟨c, list, known, first, _, plain, isList, same⟩ := unwrapValues?_eq_some index f unwraps
    cases same
    obtain ⟨c', known', settled⟩ := settled typed planned there present encoded
    cases known.symm.trans known'
    exact settled.collapse plain list first isList left
  · obtain ⟨c, list, known, first, _, plain, isList, same⟩ := unwrapValues?_eq_some index f unwraps
    obtain ⟨c', known', _, _, listed⟩ := child_of_planned sound.toKeyed found inside typed planned
    cases known.symm.trans known'
    cases levels with
    | zero => exact absurd encoded (encodeWithin_zero _ _ _ _)
    | succ levels =>
      obtain ⟨doc, rfl, _⟩ := obj_of_encodeWithin (plan?_codec sound.toKeyed known listed levels) encoded
      rw [encodeWithin_plain sound known listed plain] at encoded
      obtain ⟨wire, _, rfl⟩ := map_eq_ok encoded
      rfl
  · obtain ⟨transform, rfl, recoding⟩ := recoding_of_mem (checked_of_sound sound found f inside) recodes
    exact recoding_settles sound regular recoding (values x there) present encoded

theorem filled_of_staysFilled {plan : Plan} (fewer : levels ≤ maxNesting + 1)
    (changes : f.annotations.changesEmpty = true)
    (settling : Settling index index.planned.contains (encodeWithin index.codec levels)
      (decodeWithin index.codec levels) f value)
    (given : value.isNull = false) (full : value ≠ .obj [])
    (stays : ∀ child, f.message? = some child → ∀ wire, encode index.codec child value = .ok wire →
      wire.isNull = false → decode index.codec child wire ≠ .ok (.obj []))
    {wire : Json} (present : wire.isNull = false)
    (run : encodeBlock (encodeWithin index.codec levels) plan
      (childSteps index index.planned.contains f ++ recodeSteps index f) (some value) = .ok (some wire)) :
    decodeBlock (decodeWithin index.codec levels) plan
      (childSteps index index.planned.contains f ++ recodeSteps index f).reverse (some wire) ≠
        .ok (some (.obj [])) := by
  intro emptied
  have checked := checked_of_sound sound found f inside
  obtain ⟨singular, isMessage⟩ := checked.empty_type changes
  obtain ⟨child, typed⟩ := Option.isSome_iff_exists.mp isMessage
  -- A field has either the plan of its message or one transform that recodes, never both.
  rcases recodeSteps_alone checked (timestamp_unplanned sound.toKeyed) with
    plain | ⟨childless, transform, recodes, single⟩
  · rw [plain, List.append_nil] at run emptied
    obtain ⟨_, same, written⟩ := child_of_block typed singular given run
    cases same
    obtain ⟨_, same, read⟩ := read_of_block typed singular present emptied
    cases same
    rw [ChildWire] at written read
    by_cases planned : index.planned.contains child = true
    · rw [if_pos planned] at written read
      exact stays child typed wire (encodeWithin_mono fewer written) present (decodeWithin_mono fewer read)
    · rw [if_neg planned] at written read
      exact full (written.symm.trans read.symm)
  · rw [childless, List.nil_append, single] at run emptied
    have listed : f.step f.container transform ∈ recodeSteps index f := by
      rw [single]
      exact List.mem_singleton_self _
    have alone : value ∈ f.container.values value := by
      rw [container_of_singular singular]
      exact List.mem_singleton_self value
    have container : (f.step f.container transform).container = .single := container_of_singular singular
    have encoded := encodeValue_of_block recodes container given run
    have decoded := decodeValue_of_block recodes container present emptied
    obtain ⟨leaf, isLeaf, read⟩ := (settling.recode _ listed value alone given wire encoded).exists_leaf
    cases Except.ok.inj (read.symm.trans decoded)
    -- A recoded value is read back as a leaf.
    exact isLeaf

end Fields

section Levels

variable {index : Index} {root : String} {levels : Nat} (sound : index.Sound) (regular : index.Regular)
  (below : Settled index root levels) (fewer : levels ≤ maxNesting + 1) {name : String} {m : Message}
  (reached : index.Reaches root name) (found : index.message? name = some m) (orderly : index.Orderly m)
  (flat : m.Flat) (planned : m.fullName ∈ index.planned) {doc : Doc} (distinct : (Json.obj doc).Distinct)
  (known : ∀ k, doc.get? k ≠ none → ∃ f ∈ m.fields, f.jsonName = k)
  (shapes : ∀ f ∈ m.fields, ∀ value, doc.get? f.jsonName = some value →
    value.isNull = true ∨ f.container.Shapes value)
  (values : ∀ f ∈ m.fields, ∀ value, doc.get? f.jsonName = some value →
    ∀ x ∈ f.container.values value, Usual index (Message.StaysFilled index) f.type x)
  (stays : m.StaysFilled index doc)

include sound regular below fewer reached found orderly flat distinct known shapes values stays

theorem stable_of_usual {plan : Plan} {wire : Doc} (run : encodeAll (encodeWithin index.codec levels) plan
      (innerSteps index m index.planned.contains) doc = .ok wire) :
    PlainlyWritten index index.planned.contains (encodeWithin index.codec levels) plan m doc wire ∧
      ∀ f ∈ m.fields, StableAt (encodeWithin index.codec levels) (decodeWithin index.codec levels) plan
        (bodySteps index index.planned.contains f) (wire.get? f.jsonName) ∧
        ∀ w, wire.get? f.jsonName = some w → w.isNull = true ∨ (f.container.Shapes w ∧ w.Distinct) := by
  have checked := checked_of_sound sound found
  have written := plainlyWritten_of_run orderly (lifted?_of_flat flat) flat.2 checked
    (Json.distinct_obj.mp distinct).1 known run
  have settling {f : Index.Field} (inside : f ∈ m.fields) {value : Json} (given : doc.get? f.jsonName = some value)
      (present : value.isNull = false) : Settling index index.planned.contains (encodeWithin index.codec levels)
        (decodeWithin index.codec levels) f value := by
    refine settling_of_usual sound found inside regular below reached
      ((Json.distinct_obj.mp distinct).2 _ _ given) ?_ (values f inside value given)
    exact (shapes f inside value given).resolve_left (by rw [present]; exact Bool.false_ne_true)
  refine ⟨written, fun f inside => ?_⟩
  refine stableAt_of_run (lifted?_of_flat flat f inside) (checked f inside) (timestamp_unplanned sound.toKeyed)
    (fun value given => ?_) (fun _ changes value given full w present core => ?_) (written.own f inside)
  · cases null : value.isNull with
    | true => exact .inl rfl
    | false => exact .inr (settling inside given null)
  · have there := present_of_core present core
    exact filled_of_staysFilled sound found inside fewer changes (settling inside given there) there full
      (fun child typed => stays f inside changes child typed value given full) present core

include planned

theorem settledBy_plain (plain : m.isRootUnwrap = false) {w : Json}
    (encoded : encodeWithin index.codec (levels + 1) name (.obj doc) = .ok w) :
    SettledBy index (levels + 1) name m w := by
  have keeps := decodeWithin_keepsAlike index.codec (levels + 1) name
  rw [encodeWithin_plain sound found planned plain] at encoded
  obtain ⟨wire, run, rfl⟩ := map_eq_ok encoded
  obtain ⟨written, stable⟩ := stable_of_usual sound regular below fewer reached found orderly flat distinct known
    shapes values stays run
  obtain ⟨back, decoded, again, rewritten, alike⟩ := written.comesBack orderly (lifted?_of_flat flat) flat.2
    fun f inside => (stable f inside).1
  have whole : (Json.obj wire).Distinct := alike.2.1
  refine ⟨whole, fun _ => ?_, fun _ inner first isList left => ?_⟩
  · have undone : decodeWithin index.codec (levels + 1) name (.obj wire) = .ok (.obj back) := by
      rw [decodeWithin_plain sound found planned plain, decoded]
      rfl
    obtain ⟨_, _, same⟩ := keeps _ _ _ (Json.Alike.refl whole) undone
    refine ⟨.obj back, undone, rfl, same.1, .obj again, ?_, alike⟩
    rw [encodeWithin_plain sound found planned plain, rewritten]
    rfl
  · -- Of the values of a map only the list is left.
    have inside := List.mem_of_find?_eq_some first
    have checked := checked_of_sound sound found inner inside
    have taken (doc : Doc) : unwrapValue inner.jsonName (.obj doc) =
        (doc.get? inner.jsonName).getD (emptyContainer inner.isMap) := by
      rw [not_map_of_list isList]
      rfl
    have clean := unwrapValue_distinct inner.jsonName whole
    rw [taken wire] at left clean ⊢
    obtain ⟨bare, back, again, wraps, undone, rewritten, alike⟩ := left_comesBack checked
      (not_singular_of_list isList) orderly (lifted?_of_flat flat) flat.2 inside (stable inner inside).1
      (stable inner inside).2 left
    obtain ⟨items, same⟩ := arr_of_left isList (stable inner inside).2 left
    rw [same] at wraps alike clean ⊢
    have wrapped := wrapValue_of_wrapRoot wraps
    have done : decodeWithin index.codec (levels + 1) name (wrapValue inner.jsonName (.arr items)) =
        .ok (.obj back) := by
      rw [wrapped, decodeWithin_plain sound found planned plain, undone]
      rfl
    obtain ⟨_, _, around⟩ := wrapValue_keepsAlike inner.jsonName _ _ _ (Json.Alike.refl clean) rfl
    obtain ⟨_, _, read⟩ := keeps _ _ _ (Json.Alike.refl around.1) done
    refine ⟨.obj back, done, rfl, read.1, unwrapValue inner.jsonName (.obj again), ?_, ?_⟩
    · show unwrapValue inner.jsonName <$> encodeWithin index.codec (levels + 1) name (.obj back) = _
      rw [encodeWithin_plain sound found planned plain, rewritten]
      rfl
    · rw [taken]
      exact alike

theorem settledBy_root (isRoot : m.isRootUnwrap = true) {w : Json}
    (encoded : encodeWithin index.codec (levels + 1) name (.obj doc) = .ok w) :
    SettledBy index (levels + 1) name m w := by
  obtain ⟨f, fields, unwrap⟩ := Message.isRootUnwrap_iff.mp isRoot
  have inside : f ∈ m.fields := by rw [fields]; exact List.mem_singleton_self f
  have checked := checked_of_sound sound found f inside
  have alone := discriminated_of_root sound found (regular.members m (KeyMap.mem_values.mpr ⟨_, found⟩)) fields unwrap
  rw [encodeWithin_root sound found planned fields unwrap alone] at encoded
  obtain ⟨wire, run, rfl⟩ := map_eq_ok encoded
  obtain ⟨_, stable⟩ := stable_of_usual sound regular below fewer reached found orderly flat distinct known
    shapes values stays run
  have clean : ((wire.get? f.jsonName).getD (emptyContainer f.isMap)).Distinct := by
    cases given : wire.get? f.jsonName with
    | none => exact emptyContainer_distinct f.isMap
    | some left =>
      rcases (stable f inside).2 left given with null | ⟨_, clean⟩
      · cases left <;> first | exact trivial | cases null
      · exact clean
  refine ⟨clean, fun present => ?_, fun plain => ?_⟩
  · obtain ⟨bare, back, again, wraps, undone, rewritten, alike⟩ := left_comesBack checked (checked.unwrap unwrap).1
      orderly (lifted?_of_flat flat) flat.2 inside (stable f inside).1 (stable f inside).2 present
    have done : decodeWithin index.codec (levels + 1) name
        ((wire.get? f.jsonName).getD (emptyContainer f.isMap)) = .ok (.obj back) := by
      rw [decodeWithin_root sound found planned fields unwrap alone, wraps, ok_bind, undone]
      rfl
    obtain ⟨_, _, read⟩ := decodeWithin_keepsAlike index.codec (levels + 1) name _ _ _ (Json.Alike.refl clean) done
    refine ⟨.obj back, done, rfl, read.1, _, ?_, alike⟩
    rw [encodeWithin_root sound found planned fields unwrap alone, rewritten]
    rfl
  · rw [isRoot] at plain
    cases plain

end Levels

section Runs

theorem settled_of_levels {index : Index} (sound : index.Sound) (regular : index.Regular) {root : String}
    (plain : ∀ name m, index.Reaches root name → index.message? name = some m → index.Orderly m ∧ m.Flat)
    {levels : Nat} (fewer : levels ≤ maxNesting + 1) : Settled index root levels := by
  -- By induction on the levels: what a level makes of the documents within is settled by the levels below.
  induction levels with
  | zero => exact fun name m value w _ _ _ _ _ _ encoded => absurd encoded (encodeWithin_zero _ _ _ _)
  | succ levels ih =>
    intro name m value w reached found planned usual distinct present encoded
    have below := ih (Nat.le_of_succ_le fewer)
    obtain ⟨orderly, flat⟩ := plain name m reached found
    obtain ⟨doc, rfl, known, shapes, values, stays⟩ :=
      obj_of_usual found sound.toKeyed (wellKnown_of_planned sound.toKeyed found planned) usual present
    cases isRoot : m.isRootUnwrap with
    | false =>
      exact settledBy_plain sound regular below (Nat.le_of_succ_le fewer) reached found orderly flat planned distinct
        known shapes values stays isRoot encoded
    | true =>
      exact settledBy_root sound regular below (Nat.le_of_succ_le fewer) reached found orderly flat planned distinct
        known shapes values stays isRoot encoded

/-- Where nothing is lifted, what encoding makes of a document is decoded, and encoding gives it again. -/
theorem encode_decode_encode {set : Schema.FileSet} {files : List String} {settings : Settings}
    {compiled : Run.Compiled} (run : Run.compile set files settings = .ok compiled)
    (regular : compiled.index.Regular)
    (oneofs : ∀ m ∈ compiled.index.messages.values, (m.oneofs.map (·.name)).Nodup) {name : String} {m : Message}
    (found : compiled.index.message? name = some m)
    (flat : ∀ other c, compiled.index.Reaches name other → compiled.index.message? other = some c → c.Flat)
    {d w : Json} (distinct : d.Distinct)
    (usual : Usual compiled.index (Message.StaysFilled compiled.index) (.message name) d)
    (encoded : encode ⟨compiled.index, compiled.plans⟩ name d = .ok w) (present : w.isNull = false) :
    ∃ back, decode ⟨compiled.index, compiled.plans⟩ name w = .ok back ∧
      ∃ again, encode ⟨compiled.index, compiled.plans⟩ name back = .ok again ∧ Json.Alike again w := by
  have sound := Run.sound_of_compile run
  obtain ⟨_, _, plans⟩ := Run.compile_spec run
  rw [plans] at encoded ⊢
  by_cases planned : m.fullName ∈ compiled.index.planned
  · have plain (other : String) (c : Message) (reached : compiled.index.Reaches name other)
        (there : compiled.index.message? other = some c) : compiled.index.Orderly c ∧ c.Flat := by
      have flat := flat other c reached there
      exact ⟨orderly_of_found sound regular oneofs there flat, flat⟩
    obtain ⟨doc, rfl, _⟩ := obj_of_encodeWithin (plan?_codec sound.toKeyed found planned maxNesting) encoded
    obtain ⟨back, decoded, _, _, again, rewritten, alike⟩ := (settled_of_levels sound regular plain (Nat.le_refl _) name m
      _ w .here found planned usual distinct rfl encoded).restores present
    exact ⟨back, decoded, again, rewritten, alike⟩
  · -- A message without a plan stays as it is.
    have unplanned := plan?_codec_none sound.toKeyed found planned maxNesting
    cases Except.ok.inj ((encodeWithin_unplanned unplanned d).symm.trans encoded)
    exact ⟨d, decodeWithin_unplanned unplanned d, d, encodeWithin_unplanned unplanned d, Json.Alike.refl distinct⟩

end Runs

def slots? (index : Index) (name : String) : Option (List (String × Container × ValueType)) :=
  (index.message? name).map fun m => m.fields.map fun f => (f.jsonName, f.container, f.type)

theorem usual_of_slots {index : Index} (sound : index.Sound) {rule : Message → Doc → Prop} {name : String}
    (own : WellKnown.isMessage (bareName name) = false) {listed : List (String × Container × ValueType)}
    (slots : slots? index name = some listed) {doc : Doc} (known : ∀ k ∈ doc.keys, k ∈ listed.map (·.1))
    (values : ∀ slot ∈ listed, ∀ value, doc.get? slot.1 = some value →
      (value.isNull = true ∨ slot.2.1.Shapes value) ∧ ∀ x ∈ slot.2.1.values value, Usual index rule slot.2.2 x)
    (allowed : ∀ m, index.message? name = some m → rule m doc) : Usual index rule (.message name) (.obj doc) := by
  obtain ⟨m, found, rfl⟩ := Option.map_eq_some_iff.mp slots
  have slot {f : Index.Field} (inside : f ∈ m.fields) :
      (f.jsonName, f.container, f.type) ∈ m.fields.map fun f => (f.jsonName, f.container, f.type) :=
    List.mem_map.mpr ⟨f, inside, rfl⟩
  refine .message found (by rw [sound.wellKnown _ m found, own]) (fun k present => ?_)
    (fun f inside value given => (values _ (slot inside) value given).1)
    (fun f inside value given => (values _ (slot inside) value given).2) (allowed m found)
  have key := known k (Entries.mem_keys_iff.mpr (Option.ne_none_iff_exists'.mp present))
  rw [List.map_map] at key
  exact List.mem_map.mp key

def logs : Schema.FileSet := .ofMessages
  [.ofFields "Log" [.ofMessage "at" "google.protobuf.Timestamp" [("timestamp_format", .str "UNIX_SECONDS")],
      .ofMessage "note" "t.Note" [("empty_behavior", .str "OMIT")]] [],
    .ofFields "Note" [.ofKind "text" .string []] []]

def log : Doc := [("at", .str (Time.Instant.mk 1714979289 123000000 (by decide)).text), ("note", .obj [])]

set_option maxRecDepth 10000 in
theorem encode_decode_encode_log : ∃ compiled, Run.compile logs [] .default = .ok compiled ∧
    compiled.index.Regular ∧ Usual compiled.index (Message.StaysFilled compiled.index) (.message "t.Log") (.obj log) ∧
    encode ⟨compiled.index, compiled.plans⟩ "t.Log" (.obj log) = .ok (.obj [("at", .int 1714979289)]) ∧
    ∃ back, decode ⟨compiled.index, compiled.plans⟩ "t.Log" (.obj [("at", .int 1714979289)]) = .ok back ∧
      ∃ again, encode ⟨compiled.index, compiled.plans⟩ "t.Log" back = .ok again ∧
        Json.Alike again (.obj [("at", .int 1714979289)]) := by
  obtain ⟨compiled, run, regular, oneofs, flat, slots, note, empties, encoded⟩ := Run.exists_compiled
    (fun compiled => compiled.index.Regular ∧
      (∀ m ∈ compiled.index.messages.values, (m.oneofs.map (·.name)).Nodup) ∧
      (∀ m ∈ compiled.index.messages.values, m.Flat) ∧
      slots? compiled.index "t.Log" =
        some [("at", .single, .message WellKnown.timestamp), ("note", .single, .message "t.Note")] ∧
      slots? compiled.index "t.Note" = some [("text", .single, .scalar .string)] ∧
      (∀ m ∈ compiled.index.messages.values, ∀ f ∈ m.fields, f.annotations.changesEmpty = true →
        f.jsonName = "note") ∧
      (encode ⟨compiled.index, compiled.plans⟩ "t.Log" (.obj log)).toOption =
        some (.obj [("at", .int 1714979289)]))
    (show (Run.compile logs [] .default).toOption.any _ = true by decide +kernel)
  have sound := Run.sound_of_compile run
  obtain ⟨m, found, _⟩ := Option.map_eq_some_iff.mp slots
  have stays (doc : Doc) (empty : ∀ value, doc.get? "note" = some value → value = .obj []) {name : String}
      {m : Message} (found : compiled.index.message? name = some m) : m.StaysFilled compiled.index doc := by
    intro f inside changes child _ value given full
    rw [empties m (KeyMap.mem_values.mpr ⟨_, found⟩) f inside changes] at given
    exact absurd (empty value given) full
  have usual : Usual compiled.index (Message.StaysFilled compiled.index) (.message "t.Log") (.obj log) := by
    refine usual_of_slots sound (by decide +kernel) slots (by decide) (fun slot inside value given => ?_)
      fun m found => stays log (fun value given => by cases given; rfl) found
    simp only [List.mem_cons, List.not_mem_nil, or_false] at inside
    rcases inside with rfl | rfl <;> cases given
    · refine ⟨.inr trivial, fun x there => ?_⟩
      cases List.mem_singleton.mp there
      exact .timestamp (by decide +kernel) (by decide)
    · refine ⟨.inr trivial, fun x there => ?_⟩
      cases List.mem_singleton.mp there
      refine usual_of_slots sound (by decide +kernel) note (by decide) (fun slot inside value given => ?_)
        fun m found => stays [] (fun value given => by cases given) found
      cases given
  have distinct : (Json.obj log).Distinct := ⟨by decide, trivial, Json.distinct_empty, trivial⟩
  exact ⟨compiled, run, regular, usual, ok_of_toOption encoded, encode_decode_encode run regular oneofs found
    (fun other c _ there => flat c (KeyMap.mem_values.mpr ⟨_, there⟩)) distinct usual (ok_of_toOption encoded) rfl⟩

/-- A usual document of a schema that lifts nothing, of which the wire form is not decoded, or decoded to what
has another wire form. -/
def Wavers (set : Schema.FileSet) (name : String) (d : Json) : Prop :=
  ∃ compiled w, Run.compile set [] .default = .ok compiled ∧
    (∀ m ∈ compiled.index.messages.values, (m.fields.map (·.jsonName)).Nodup ∧
      (∀ f ∈ m.fields, f.oneof ≠ none → f.isSingular = true) ∧ m.Flat) ∧
    d.Distinct ∧ Usual compiled.index (fun _ _ => True) (.message name) d ∧
    encode ⟨compiled.index, compiled.plans⟩ name d = .ok w ∧
    ∀ back again, decode ⟨compiled.index, compiled.plans⟩ name w = .ok back →
      encode ⟨compiled.index, compiled.plans⟩ name back = .ok again → ¬ Json.Alike again w

theorem wavers_of_run {set : Schema.FileSet} {name : String} {d : Json} (w : Json) (P : Run.Compiled → Prop)
    [DecidablePred P] (distinct : d.Distinct)
    (usual : ∀ compiled : Run.Compiled, compiled.index.Sound → P compiled →
      Usual compiled.index (fun _ _ => True) (.message name) d)
    (check : (Run.compile set [] .default).toOption.any (fun compiled => decide (
      (∀ m ∈ compiled.index.messages.values, (m.fields.map (·.jsonName)).Nodup ∧
        (∀ f ∈ m.fields, f.oneof ≠ none → f.isSingular = true) ∧ m.Flat) ∧ P compiled ∧
      (encode ⟨compiled.index, compiled.plans⟩ name d).toOption = some w ∧
      (((decode ⟨compiled.index, compiled.plans⟩ name w).toOption.bind fun back =>
        (encode ⟨compiled.index, compiled.plans⟩ name back).toOption).all fun again =>
          decide (again.sorted ≠ w.sorted)) = true)) = true) : Wavers set name d := by
  obtain ⟨compiled, run, shape, given, encoded, differ⟩ := Run.exists_compiled _ check
  refine ⟨compiled, w, run, shape, distinct, usual compiled (Run.sound_of_compile run) given, ok_of_toOption encoded,
    fun back again decoded rewritten alike => ?_⟩
  rw [decoded] at differ
  simp only [Except.toOption, Option.bind_some, rewritten, Option.all_some, decide_eq_true_eq] at differ
  exact differ alike.2.2

def parcels : Schema.FileSet := .ofMessages
  [.ofFields "Parcel" [.ofMessage "wrap" "t.Wrap" [("empty_behavior", .str "OMIT")]] [],
    .ofFields "Wrap" [.ofMessage "seal" "t.Seal" [("empty_behavior", .str "OMIT")]] [], .ofFields "Seal" [] []]

def parcel : Doc := [("wrap", .obj [("seal", .obj [])])]

set_option maxRecDepth 10000 in
/-- What is around an empty message is empty only once that is left out. -/
theorem parcel_wavers : Wavers parcels "t.Parcel" (.obj parcel) := by
  refine wavers_of_run (.obj [("wrap", .obj [])]) (fun compiled =>
    slots? compiled.index "t.Parcel" = some [("wrap", .single, .message "t.Wrap")] ∧
    slots? compiled.index "t.Wrap" = some [("seal", .single, .message "t.Seal")] ∧
    slots? compiled.index "t.Seal" = some [])
    ⟨by decide, ⟨by decide, Json.distinct_empty, trivial⟩, trivial⟩ (fun compiled sound given => ?_)
    (show (Run.compile parcels [] .default).toOption.any _ = true by decide +kernel)
  obtain ⟨parcel_slots, wrap_slots, seal_slots⟩ := given
  have inner : Usual compiled.index (fun _ _ => True) (.message "t.Seal") (.obj []) :=
    usual_of_slots sound (by decide +kernel) seal_slots (by decide) (by simp) fun _ _ => trivial
  have outer : Usual compiled.index (fun _ _ => True) (.message "t.Wrap") (.obj [("seal", .obj [])]) := by
    refine usual_of_slots sound (by decide +kernel) wrap_slots (by decide) (fun slot inside value given => ?_)
      fun _ _ => trivial
    cases List.mem_singleton.mp inside
    cases given
    exact ⟨.inr trivial, fun x there => List.mem_singleton.mp there ▸ inner⟩
  refine usual_of_slots sound (by decide +kernel) parcel_slots (by decide) (fun slot inside value given => ?_)
    fun _ _ => trivial
  cases List.mem_singleton.mp inside
  cases given
  exact ⟨.inr trivial, fun x there => List.mem_singleton.mp there ▸ outer⟩

def sheets : Schema.FileSet := .ofMessages
  [.ofFields "Sheet" [(Schema.Field.ofMessage "rows" "t.Row" [("unwrap", .bool true)]).repeating] [],
    .ofFields "Row" [.ofKind "text" .string []] []]

set_option maxRecDepth 10000 in
/-- A list that is null is read as none, and none is written as an empty one. -/
theorem sheet_wavers : Wavers sheets "t.Sheet" (.obj [("rows", .null)]) := by
  refine wavers_of_run .null (fun compiled =>
    slots? compiled.index "t.Sheet" = some [("rows", .list, .message "t.Row")])
    ⟨by decide, trivial, trivial⟩ (fun compiled sound slots => ?_)
    (show (Run.compile sheets [] .default).toOption.any _ = true by decide +kernel)
  refine usual_of_slots sound (by decide +kernel) slots (by decide) (fun slot inside value given => ?_)
    fun _ _ => trivial
  cases List.mem_singleton.mp inside
  cases given
  exact ⟨.inl rfl, fun x there => by cases there⟩

set_option maxRecDepth 10000 in
/-- Of two oneofs of one name the second may name its member under the key of a field. -/
theorem namesake_wavers : Wavers namesakes "t.M" (.obj [("z", .str "x")]) := by
  refine wavers_of_run (.obj [("z", .str "x")]) (fun compiled =>
    slots? compiled.index "t.M" =
      some [("a", .single, .scalar .string), ("b", .single, .scalar .string), ("z", .single, .scalar .string)])
    ⟨by decide, trivial, trivial⟩ (fun compiled sound slots => ?_)
    (show (Run.compile namesakes [] .default).toOption.any _ = true by decide +kernel)
  refine usual_of_slots sound (by decide +kernel) slots (by decide) (fun slot inside value given => ?_)
    fun _ _ => trivial
  simp only [List.mem_cons, List.not_mem_nil, or_false] at inside
  rcases inside with rfl | rfl | rfl <;> cases given
  exact ⟨.inr trivial, fun x there => List.mem_singleton.mp there ▸ .scalar ⟨"x", rfl⟩⟩

def swatches : Schema.FileSet := .ofTypes
  [.ofFields "Swatch" [.ofEnum "color" "t.Color" [("enum_encoding", .str "NUMBER")]] []]
  [⟨"Color", [⟨"RED", 1, none⟩, ⟨"RED", 2, none⟩, ⟨"ROSE", 2, none⟩], none⟩]

set_option maxRecDepth 10000 in
/-- A number is read as the first name that it has, and a name is written as the first number that it has. -/
theorem swatch_wavers : Wavers swatches "t.Swatch" (.obj [("color", .str "ROSE")]) := by
  refine wavers_of_run (.obj [("color", .int 2)]) (fun compiled =>
    slots? compiled.index "t.Swatch" = some [("color", .single, .enum "t.Color")] ∧
    (compiled.index.enum? "t.Color").map (fun e => e.values.map (·.name)) = some ["RED", "RED", "ROSE"])
    ⟨by decide, trivial, trivial⟩ (fun compiled sound given => ?_)
    (show (Run.compile swatches [] .default).toOption.any _ = true by decide +kernel)
  obtain ⟨slots, names⟩ := given
  refine usual_of_slots sound (by decide +kernel) slots (by decide) (fun slot inside value given => ?_)
    fun _ _ => trivial
  cases List.mem_singleton.mp inside
  cases given
  refine ⟨.inr trivial, fun x there => List.mem_singleton.mp there ▸ .enum (.inr ⟨"ROSE", rfl, fun e found => ?_⟩)⟩
  rw [found] at names
  have same : e.values.map (·.name) = ["RED", "RED", "ROSE"] := Option.some.inj names
  have listed : "ROSE" ∈ e.values.map (·.name) := by
    rw [same]
    decide
  exact List.mem_map.mp listed

theorem wavering : Wavers parcels "t.Parcel" (.obj parcel) ∧ Wavers sheets "t.Sheet" (.obj [("rows", .null)]) ∧
    Wavers namesakes "t.M" (.obj [("z", .str "x")]) ∧ Wavers swatches "t.Swatch" (.obj [("color", .str "ROSE")]) :=
  ⟨parcel_wavers, sheet_wavers, namesake_wavers, swatch_wavers⟩

end Codec

end Wireform
