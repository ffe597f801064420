import Wireform.Proofs.AcceptedValues
import Wireform.Proofs.MatchedTexts
import Wireform.Proofs.NullProperties
import Wireform.Proofs.WrittenElements

set_option autoImplicit false

namespace Wireform

def Scalar.Admits (scalar : Scalar) (value : Json) : Prop :=
  match scalar with
  | .bytes => ∃ text, value = .str text
  | .double | .float => ∃ number, value = .num number
  | other => other.Fits value

def WellKnown.Admits (name : String) (value : Json) : Prop :=
  match name with
  | "google.protobuf.Timestamp" => ∃ text, value = .str text
  | "google.protobuf.BytesValue" => Scalar.Admits .bytes value
  | "google.protobuf.DoubleValue" => Scalar.Admits .double value
  | "google.protobuf.FloatValue" => Scalar.Admits .float value
  | other => Fits other value

/-- A value of a type other than a message of the schema. Of enums, the names are known. -/
inductive Index.Admits (index : Index) : ValueType → Json → Prop
  | scalar {scalar : Scalar} {value : Json} (fits : scalar.Admits value) : Admits index (.scalar scalar) value
  | null : Admits index (.enum WellKnown.nullValue) .null
  | enum {name text : String} (other : name ≠ WellKnown.nullValue)
      (known : ∀ e, index.enum? name = some e → ∃ v ∈ e.values, v.name = text) : Admits index (.enum name) (.str text)
  | builtIn {name : String} {value : Json} (builtIn : WellKnown.isMessage name = true)
      (fits : WellKnown.Admits name value) : Admits index (.message name) value

namespace OpenApi

open JsonSchema

variable {components : Entries JsonSchema} {least : Nat} {value : Json}

theorem accepts_text64 {unsigned : Bool} {n : Int} (bounds : Integer.inRange unsigned n = true) :
    Accepts components least (integer64Schema unsigned false) (.str (toString n)) := by
  cases unsigned with
  | false => exact accepts_patterned (Pattern.signed_matches n) _
  | true =>
    simp only [Integer.inRange, if_true, Bool.and_eq_true, decide_eq_true_eq] at bounds
    obtain ⟨k, rfl⟩ := Int.eq_ofNat_of_zero_le bounds.1
    exact accepts_patterned (Pattern.unsigned_matches k) _

theorem accepts_number64 (unsigned : Bool) (n : Int) :
    Accepts components least (integer64Schema unsigned true) (.int n) := accepts_ofFormat rfl _

theorem accepts_bytes (encoding : BytesEncoding) (bytes : List UInt8) :
    Accepts components least (bytesSchema encoding) (.str (encoding.encode bytes)) := by
  cases encoding with
  | hex => exact accepts_patterned (Pattern.hex_matches bytes) _
  | base64Raw => exact accepts_patterned (Pattern.base64Raw_matches bytes) _
  | base64Url => exact accepts_patterned (Pattern.base64Url_matches bytes) _
  | base64UrlRaw => exact accepts_patterned (Pattern.base64UrlRaw_matches bytes) _
  | base64 | unspecified => exact accepts_ofFormat rfl _

theorem accepts_scalar {scalar : Scalar} (admits : scalar.Admits value) :
    Accepts components least (scalarSchema false .base64 scalar) value := by
  cases scalar with
  | bool | string =>
    obtain ⟨_, rfl⟩ := admits
    exact accepts_ofKind rfl
  | bytes | double | float =>
    obtain ⟨_, rfl⟩ := admits
    exact accepts_ofFormat rfl _
  | int64 | uint64 | sint64 | fixed64 | sfixed64 =>
    obtain ⟨n, bounds, rfl⟩ := admits
    exact accepts_text64 bounds
  | int32 | uint32 | sint32 | fixed32 | sfixed32 =>
    obtain ⟨n, _, _, rfl⟩ := admits
    exact accepts_ofFormat rfl _

theorem accepts_timestamp (format : TimestampFormat) (t : Time.Instant) :
    Accepts components least (timestampSchema format) (format.write t) := by
  cases format <;> exact accepts_ofFormat rfl _

theorem accepts_wellKnown {name : String} {schema : JsonSchema} (builtIn : wellKnownSchema? name = some schema)
    (admits : WellKnown.Admits name value) : Accepts components least schema value := by
  unfold wellKnownSchema? at builtIn
  split at builtIn
  case h_1 =>
    obtain ⟨text, rfl, duration⟩ := admits
    cases builtIn
    rw [Accepts.all_iff]
    intro keyword inside
    simp only [List.mem_cons, List.not_mem_nil, or_false] at inside
    rcases inside with rfl | rfl
    · exact .type rfl
    · exact .pattern (Pattern.duration_matches duration)
  case h_2 | h_12 | h_13 | h_14 | h_15 =>
    obtain ⟨_, rfl⟩ := admits
    cases builtIn
    exact accepts_ofKind rfl
  case h_16 =>
    cases builtIn
    exact Accepts.all_iff.mpr fun _ never => (List.not_mem_nil never).elim
  case h_17 => cases builtIn
  all_goals
    cases builtIn
    exact accepts_scalar admits

section Enums

variable {e : Index.Enum} {v : Index.EnumValue}

theorem accepts_enumName (listed : v ∈ e.values) :
    Accepts components least (enumSchema e) (.str v.wireName) :=
  accepts_ofTexts (List.mem_eraseDups.mpr (List.mem_map.mpr ⟨v, listed, rfl⟩))

theorem accepts_enumNumber {table : List EnumName} {entry : EnumName} (listed : entry ∈ table) :
    Accepts components least
      (.all [.type [.integer], .enum ((table.map (·.number)).eraseDups.map Json.int)]) (.int entry.number) := by
  rw [Accepts.all_iff]
  intro keyword inside
  simp only [List.mem_cons, List.not_mem_nil, or_false] at inside
  rcases inside with rfl | rfl
  · exact .type rfl
  · refine .enum (List.any_eq_true.mpr ⟨.int entry.number, List.mem_map.mpr ⟨entry.number, ?_, rfl⟩, ?_⟩)
    · exact List.mem_eraseDups.mpr (List.mem_map.mpr ⟨entry, listed, rfl⟩)
    · simp [Json.equal, Json.int, Number.equal]

end Enums

theorem exists_wellKnownSchema {name : String} (builtIn : WellKnown.isMessage name = true)
    (other : name ≠ WellKnown.timestamp) : ∃ schema, wellKnownSchema? name = some schema := by
  have each : WellKnown.messages.all (fun entry =>
      entry.1 == WellKnown.timestamp || (wellKnownSchema? entry.1).isSome) = true := by decide +kernel
  obtain ⟨entry, listed, same⟩ := List.any_eq_true.mp builtIn
  have known := List.all_eq_true.mp each entry listed
  rw [beq_iff_eq.mp same, Bool.or_eq_true, beq_iff_eq] at known
  exact Option.isSome_iff_exists.mp (known.resolve_left other)

end OpenApi

namespace Codec

variable {encode : String → Json → Result Json}

theorem turned_nil {x y : Json} (turned : Turned encode [] x y) : y = x := by
  cases turned
  rfl

theorem turned_recoded {step : Step} (recodes : step.transform.recodes = true) {x y : Json}
    (present : x.isNull = false) (turned : Turned encode [step] x y) : step.transform.encodeValue x = .ok y := by
  cases turned with
  | cons first later =>
    cases later
    generalize step.transform = transform at first recodes
    cases first with
    | nested | unwrapped => cases recodes
    | recoded _ made => rwa [unlessNull, present] at made

theorem turns_null {transform : Transform} {y : Json} (turns : Turns encode transform .null y) : y = .null := by
  cases turns with
  | nested made | unwrapped made | recoded _ made => exact (Except.ok.inj made).symm

theorem turned_null {steps : List Step} {x y : Json} (turned : Turned encode steps x y) (null : x = .null) :
    y = .null := by
  induction turned with
  | nil => exact null
  | cons first _ ih => exact ih (turns_null (null ▸ first))

end Codec

namespace Index

open Codec JsonSchema OpenApi

variable {index : Index} (sound : index.Sound) (named : index.Named) {m : Message} (declares : index.Declares m)
  {f : Field} (inside : f ∈ m.fields) {package : String} {components : Entries JsonSchema}
  {encode : String → Json → Result Json} {x y : Json}

section Leaves

include sound declares inside

theorem childSteps_of_builtIn {name : String} (typed : f.message? = some name)
    (builtIn : WellKnown.isMessage name = true)
    (kept : ∀ c, index.message? name = some c → c.unwrapField? = none) :
    childSteps index index.planned.contains f = [] := by
  have unplanned : index.planned.contains name = false := by
    rw [← Bool.not_eq_true]
    intro planned
    obtain ⟨c, known, _, own, _⟩ := child_of_planned sound.toKeyed declares.1 inside typed planned
    rw [sound.wellKnown _ c known, (sound.wellFormed _ m declares.1).typeName f inside name typed, builtIn] at own
    cases own
  have whole : unwrapValues? index f name = none := by
    rw [Option.eq_none_iff_forall_ne_some]
    intro t given
    obtain ⟨c, _, known, first, _⟩ := unwrapValues?_eq_some index f given
    rw [kept c known] at first
    cases first
  rw [childSteps_some typed, unplanned, whole]
  rfl

include named

theorem accepts_scalarField {scalar : Scalar} (typed : f.type = .scalar scalar) (admits : scalar.Admits x)
    (turned : Turned encode (recodeSteps index f) x y) {least : Nat} :
    Accepts components least ((index.context package).elementSchema (Interface.memberOf index.plans m f)) y := by
  have checked := checked_of_sound sound declares.1 f inside
  have names := named.names m (mem_values_of_declares declares)
  rw [Context.elementSchema, field_memberOf, typed]
  simp only [bytesEncoding?_memberOf sound.toKeyed declares.1 declares.2 names inside]
  rw [recodeSteps_scalar checked typed] at turned
  -- Only wide integers are written as numbers, and only bytes are recoded otherwise.
  by_cases number : f.annotations.int64 = .number
  · obtain ⟨_, s, typed', wide⟩ := checked.int64_type number
    cases typed.symm.trans typed'
    have plain : f.annotations.changesBytes = false :=
      bytes_unchanged checked (by rw [typed]; intro same; cases same; cases wide)
    have asNumber := (has_integerAsNumber sound.toKeyed declares.1 declares.2 names inside).mpr ⟨number, _, typed⟩
    rw [if_pos number, plain] at turned
    have fits : scalar.Fits x := by cases scalar <;> first | exact admits | cases wide
    obtain ⟨n, _, rfl⟩ := Scalar.fits_wide wide fits
    have made := turned_recoded rfl rfl turned
    simp only [Field.step, Transform.encodeValue] at made
    rw [asNumber]
    split at made
    · cases Except.ok.inj made
      cases scalar <;> first | exact accepts_number64 _ _ | cases wide
    · cases made
  · have asText : (Interface.memberOf index.plans m f).has .integerAsNumber = false := by
      rw [← Bool.not_eq_true, has_integerAsNumber sound.toKeyed declares.1 declares.2 names inside]
      exact fun given => number given.1
    rw [if_neg number, List.nil_append] at turned
    rw [asText]
    cases changes : f.annotations.changesBytes with
    | false =>
      rw [changes] at turned
      cases turned_nil turned
      exact accepts_scalar admits
    | true =>
      cases typed.symm.trans (checked.bytes_type changes).2
      rw [changes] at turned
      obtain ⟨text, rfl⟩ := admits
      have made := turned_recoded rfl rfl turned
      simp only [Field.step, Transform.encodeValue] at made
      split at made
      · cases Except.ok.inj made
        exact accepts_bytes _ _
      · cases made

theorem accepts_enumField {name text : String} (typed : f.type = .enum name) (other : name ≠ WellKnown.nullValue)
    {e : Enum} (found : index.enum? name = some e) {v : EnumValue} (listed : v ∈ e.values) (called : v.name = text)
    (turned : Turned encode (recodeSteps index f) (.str text) y)
    (component : Context.elementReference? (Interface.memberOf index.plans m f) = some name →
      components.get? ((index.context package).componentName name) = some (enumSchema e)) :
    Accepts components 1 ((index.context package).elementSchema (Interface.memberOf index.plans m f)) y := by
  have checked := checked_of_sound sound declares.1 f inside
  have names := named.names m (mem_values_of_declares declares)
  have held : f.enum? = some name := by rw [Field.enum?, typed]; rfl
  have numbered := numberedValues?_memberOf sound.toKeyed declares.1 declares.2 names inside
  have entry (wire : EnumValue → String) : ∃ entry ∈ e.table wire, EnumName.named? (e.table wire) text = some entry := by
    have there : (EnumName.named? (e.table wire) text).isSome = true := by
      rw [EnumName.named?, List.find?_isSome]
      exact ⟨_, List.mem_map.mpr ⟨v, listed, rfl⟩, by simpa using called⟩
    obtain ⟨entry, given⟩ := Option.isSome_iff_exists.mp there
    exact ⟨entry, (EnumName.mem_of_named? given).1, given⟩
  rw [Context.elementSchema, field_memberOf, typed]
  rw [Context.elementReference?, field_memberOf, typed] at component
  dsimp only at component ⊢
  rw [recodeSteps_enum checked typed found] at turned
  -- A number is declared where it stands, a name by the component of its enum.
  by_cases number : f.annotations.enumeration = .number
  · rw [if_pos number] at turned
    rw [(numbered _).mpr ⟨number, name, e, held, found, rfl⟩]
    have made := turned_recoded rfl rfl turned
    obtain ⟨entry, among, given⟩ := entry fun v => toString v.number
    simp only [Field.step, Transform.encodeValue, EnumName.find?, given] at made
    cases Except.ok.inj made
    exact accepts_enumNumber among
  · have unnumbered : (Interface.memberOf index.plans m f).numberedValues? = none := by
      rw [Option.eq_none_iff_forall_ne_some]
      exact fun table given => number ((numbered table).mp given).1
    rw [unnumbered] at component ⊢
    dsimp only
    rw [if_neg other, Context.referenceTo, Accepts.all_iff]
    intro keyword only
    cases List.mem_singleton.mp only
    refine .reference (component (by simp [other])) ?_
    rw [if_neg number] at turned
    cases custom : e.hasCustomNames with
    | true =>
      rw [custom] at turned
      have made := turned_recoded rfl rfl turned
      obtain ⟨entry, among, given⟩ := entry EnumValue.wireName
      simp only [Field.step, Transform.encodeValue, EnumName.find?, given] at made
      cases Except.ok.inj made
      obtain ⟨w, listed, rfl⟩ := List.mem_map.mp among
      exact accepts_enumName listed
    | false =>
      rw [custom] at turned
      cases turned_nil turned
      have uncustomed : v.customName = none := by
        simpa using List.any_eq_false.mp custom v listed
      have wire : v.wireName = text := by rw [EnumValue.wireName, uncustomed, ← called]; rfl
      exact wire ▸ accepts_enumName listed

theorem accepts_builtInField {name : String} (typed : f.type = .message name)
    (builtIn : WellKnown.isMessage name = true) (admits : WellKnown.Admits name x)
    (turned : Turned encode (recodeSteps index f) x y) {least : Nat} :
    Accepts components least ((index.context package).elementSchema (Interface.memberOf index.plans m f)) y := by
  have checked := checked_of_sound sound declares.1 f inside
  have names := named.names m (mem_values_of_declares declares)
  have held : f.message? = some name := by rw [Field.message?, typed]; rfl
  rw [Context.elementSchema, field_memberOf, typed]
  dsimp only
  -- Of the built-in types only a timestamp is recoded; the others are written as they stand.
  by_cases time : name = WellKnown.timestamp
  · subst time
    obtain ⟨text, rfl⟩ := admits
    rw [if_pos rfl, timestampFormat?_memberOf sound.toKeyed declares.1 declares.2 names inside]
    rw [recodeSteps_message checked typed] at turned
    cases changes : f.annotations.changesTimestamp with
    | false =>
      rw [changes] at turned
      cases turned_nil turned
      exact accepts_ofFormat rfl _
    | true =>
      rw [changes] at turned
      have made := turned_recoded rfl rfl turned
      simp only [Field.step, Transform.encodeValue] at made
      split at made
      · cases Except.ok.inj made
        exact accepts_timestamp _ _
      · cases made
  · obtain ⟨schema, given⟩ := exists_wellKnownSchema builtIn time
    rw [recodeSteps_nil checked held time] at turned
    cases turned_nil turned
    rw [if_neg time, given]
    exact accepts_wellKnown given admits

end Leaves

end Index

end Wireform
