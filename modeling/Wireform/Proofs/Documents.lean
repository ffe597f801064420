import Wireform.Codec.Decode
import Wireform.Codec.Encode
import Wireform.Proofs.LiftedKeys
import Wireform.Proofs.RestoredFields

set_option autoImplicit false

namespace Wireform.Codec

open Json (Alike AlikeAt)
open Index

variable {encode decode : String → Json → Result Json} {plan : Plan}

def Lone (key : String) (o : Option Json) (doc : Doc) : Prop :=
  doc.Distinct ∧ ∀ k, doc.get? k = if key = k then o else none

theorem lone_wrap (key : String) (value : Json) : Lone key (some value) [(key, value)] :=
  ⟨Entries.distinct_single key value, fun _ => rfl⟩

theorem lone_nil (key : String) : Lone key none [] :=
  ⟨Entries.distinct_nil, fun k => by simp [Entries.get?]⟩

def Spares (key : String) (step : Step) : Prop :=
  (step.transform.isLocal = true ∧ step.jsonName ≠ key) ∨
    (∃ type pre childKeys, step.transform = .flatten type pre childKeys ∧ ∀ k ∈ childKeys, pre ++ k ≠ key) ∨
    (∃ discriminator flatten variants, step.transform = .oneofDiscriminator discriminator flatten variants ∧
      step.jsonName ≠ key)

theorem decodeAt_absent {step : Step} (isLocal : step.transform.isLocal = true) :
    decodeAt decode plan step none = .ok none := by
  rw [decodeAt]
  cases transform : step.transform <;> rw [transform] at isLocal <;> first | rfl | skip
  case emptyValueAs behavior => cases behavior <;> rfl

theorem decodeStep_spares {key : String} {o : Option Json} {doc : Doc} (lone : Lone key o doc) {step : Step}
    (spares : Spares key step) : decodeStep decode plan step doc = .ok doc := by
  rcases spares with ⟨isLocal, other⟩ | ⟨type, pre, childKeys, transform, apart⟩ | ⟨_, flatten, variants, transform, other⟩
  · have absent : doc.get? step.jsonName = none := by rw [lone.2, if_neg (Ne.symm other)]
    rw [decodeStep_eq_set decode plan isLocal, absent, decodeAt_absent isLocal, Except.map, Entries.set,
      Entries.erase_of_not_mem absent]
  · have nothing : gather (pre ++ ·) childKeys doc [] = (doc, []) :=
      gather_nothing fun k inside => by rw [lone.2, if_neg (Ne.symm (apart k inside))]
    rw [decodeStep, transform]
    simp only [nothing]
    rfl
  · have absent : doc.get? step.jsonName = none := by rw [lone.2, if_neg (Ne.symm other)]
    rw [decodeStep, transform]
    simp only [decodeOneof, absent, Entries.erase_of_not_mem absent]

theorem decodeSteps_spares {key : String} {o : Option Json} {doc : Doc} (lone : Lone key o doc)
    {steps : List Step} (spares : ∀ step ∈ steps, Spares key step) :
    decodeSteps decode plan steps doc = .ok doc := by
  induction steps with
  | nil => rfl
  | cons step rest ih =>
    rw [decodeSteps, decodeStep_spares lone (spares step (by simp)), ok_bind]
    exact ih fun other inside => spares other (by simp [inside])

theorem decodeSteps_lone {key : String} {first block last : List Step} (stays : StaysAt key block)
    (first_spares : ∀ step ∈ first, Spares key step) (last_spares : ∀ step ∈ last, Spares key step)
    {o p : Option Json} (undone : UndoneAt encode decode plan block o p) {doc : Doc} (lone : Lone key p doc) :
    ∃ back q, decodeSteps decode plan (first ++ block ++ last).reverse doc = .ok back ∧
      AlikeAt q o ∧ Lone key q back := by
  obtain ⟨q, decoded, alike⟩ := undone.decoded
  have at_key : doc.get? key = p := by rw [lone.2, if_pos rfl]
  rw [← at_key] at decoded
  obtain ⟨back, run, distinct, changed⟩ := decodeSteps_block
    (fun step inside => stays step (List.mem_reverse.mp inside)) lone.1 decoded
  have lone_back : Lone key q back := by
    refine ⟨distinct, fun k => ?_⟩
    rw [changed]
    split
    · rfl
    · rename_i other
      rw [lone.2, if_neg other]
  refine ⟨back, q, ?_, alike, lone_back⟩
  rw [List.reverse_append, List.reverse_append, decodeSteps_append,
    decodeSteps_spares lone fun step inside => last_spares step (List.mem_reverse.mp inside), ok_bind,
    decodeSteps_append, run, ok_bind,
    decodeSteps_spares lone_back fun step inside => first_spares step (List.mem_reverse.mp inside)]

theorem alike_of_lone {key : String} {o p : Option Json} {doc other : Doc} (first : Lone key o doc)
    (second : Lone key p other) (alike : AlikeAt o p) : Alike (.obj doc) (.obj other) := by
  refine Json.alike_obj.mpr ⟨first.1, second.1, fun k => ?_⟩
  rw [first.2, second.2]
  split
  · exact alike
  · trivial

def Filled (container : Container) (value : Json) : Prop :=
  match container, value with
  | .list, .arr (_ :: _) => True
  | .mapValues, .obj (_ :: _) => True
  | _, _ => False

theorem mapContainer_filled {ε : Type} {container : Container} {f : Json → Except ε Json} {value wire : Json}
    (filled : Filled container value) (run : mapContainer container f value = .ok wire) :
    Filled container wire := by
  unfold Filled at filled
  split at filled
  · rename_i item rest
    rw [mapContainer_list] at run
    obtain ⟨items, mapped, rfl⟩ := map_eq_ok run
    cases mapItems_ok mapped
    trivial
  · rename_i member rest
    rw [mapContainer_mapValues] at run
    obtain ⟨members, mapped, rfl⟩ := map_eq_ok run
    have keys := keys_mapMembers mapped
    cases members with
    | nil => cases keys
    | cons => trivial
  · exact filled.elim

theorem encodeBlock_filled {container : Container} {steps : List Step}
    (maps : ∀ step ∈ steps, step.transform.maps = true ∧ step.container = container) {value : Json}
    (filled : Filled container value) {o : Option Json}
    (run : encodeBlock encode plan steps (some value) = .ok o) : ∃ wire, o = some wire ∧ Filled container wire := by
  induction steps generalizing value with
  | nil => exact ⟨value, (Except.ok.inj run).symm, filled⟩
  | cons step rest ih =>
    obtain ⟨between, here, later⟩ := bind_eq_ok run
    obtain ⟨step_maps, same⟩ := maps step (by simp)
    have mapped : ∃ wire, between = some wire ∧ Filled container wire := by
      subst same
      rw [encodeAt] at here
      cases transform : step.transform <;> rw [transform] at step_maps here <;>
        first
          | cases step_maps; done
          | (obtain ⟨wire, made, rfl⟩ := map_eq_ok here
             exact ⟨wire, rfl, mapContainer_filled filled (by first | exact made | exact mapError_eq_ok made)⟩)
    obtain ⟨wire, rfl, still⟩ := mapped
    exact ih (fun other inside => maps other (by simp [inside])) still later

end Wireform.Codec

namespace Wireform

def Scalar.Fits (scalar : Scalar) (value : Json) : Prop :=
  match scalar with
  | .bool => ∃ b, value = .bool b
  | .string => ∃ text, value = .str text
  | .bytes => ∃ bytes, value = .str (BytesEncoding.base64.encode bytes)
  | .double | .float => (∃ number, value = .num number) ∨ value = .str "NaN" ∨ value = .str "Infinity" ∨
      value = .str "-Infinity"
  | .int64 | .sint64 | .sfixed64 => ∃ n, Integer.inRange false n = true ∧ value = .str (toString n)
  | .uint64 | .fixed64 => ∃ n, Integer.inRange true n = true ∧ value = .str (toString n)
  | .int32 | .sint32 | .sfixed32 => ∃ n : Int, -0x80000000 ≤ n ∧ n < 0x80000000 ∧ value = .int n
  | .uint32 | .fixed32 => ∃ n : Int, 0 ≤ n ∧ n < 0x100000000 ∧ value = .int n

namespace WellKnown

def DurationText (text : String) : Prop :=
  ∃ sign whole fraction : List Char, (sign = [] ∨ sign = ['-']) ∧ whole ≠ [] ∧ whole.all Char.isDigit = true ∧
    (fraction = [] ∨ ∃ digits, fraction = '.' :: digits ∧ digits ≠ [] ∧ digits.all Char.isDigit = true) ∧
    text = String.ofList (sign ++ whole ++ fraction ++ ['s'])

def Fits (name : String) (value : Json) : Prop :=
  match name with
  | "google.protobuf.Timestamp" => ∃ t : Time.Instant, t.date.HasCommonYear ∧ value = .str t.text
  | "google.protobuf.Duration" => ∃ text, value = .str text ∧ DurationText text
  | "google.protobuf.FieldMask" => ∃ text, value = .str text
  | "google.protobuf.StringValue" => Scalar.Fits .string value
  | "google.protobuf.BytesValue" => Scalar.Fits .bytes value
  | "google.protobuf.Int64Value" => Scalar.Fits .int64 value
  | "google.protobuf.UInt64Value" => Scalar.Fits .uint64 value
  | "google.protobuf.Int32Value" => Scalar.Fits .int32 value
  | "google.protobuf.UInt32Value" => Scalar.Fits .uint32 value
  | "google.protobuf.DoubleValue" => Scalar.Fits .double value
  | "google.protobuf.FloatValue" => Scalar.Fits .float value
  | "google.protobuf.BoolValue" => Scalar.Fits .bool value
  | "google.protobuf.Empty" | "google.protobuf.Struct" | "google.protobuf.Any" => ∃ doc, value = .obj doc
  | "google.protobuf.ListValue" => ∃ items, value = .arr items
  | _ => True

end WellKnown

def Container.values : Container → Json → List Json
  | .single, value => [value]
  | .list, .arr items => items
  | .mapValues, .obj members => members.map (·.2)
  | _, _ => []

def Container.Shapes (container : Container) (value : Json) : Prop :=
  match container, value with
  | .single, _ => True
  | .list, .arr _ => True
  | .mapValues, .obj _ => True
  | _, _ => False

theorem Codec.addressed_eq (container : Container) (value : Json) :
    Codec.addressed container value = (container.values value).filter (!·.isNull) := by
  cases container <;> cases value <;> rfl

theorem Codec.mem_addressed {container : Container} {value x : Json}
    (inside : x ∈ Codec.addressed container value) : x ∈ container.values value ∧ x.isNull = false := by
  rw [addressed_eq, List.mem_filter] at inside
  exact ⟨inside.1, by simpa using inside.2⟩

namespace Index

def EnumFits (index : Index) (name : String) (value : Json) : Prop :=
  (name = WellKnown.nullValue ∧ value = .null) ∨ ∃ text, value = .str text ∧ ∀ e, index.enum? name = some e →
    ∃ v, e.values.find? (·.number == v.number) = some v ∧ v.name = text

structure Rule where
  document : Message → Codec.Doc → Prop
  value : Message → Field → Json → Prop

/-- A value in the usual form of its type. The types that are not in the index have any. -/
inductive Fits (index : Index) (rule : Rule) : ValueType → Json → Prop
  | scalar {scalar : Scalar} {value : Json} (fits : scalar.Fits value) : Fits index rule (.scalar scalar) value
  | enum {name : String} {value : Json} (fits : index.EnumFits name value) : Fits index rule (.enum name) value
  | builtIn {name : String} {value : Json} (builtIn : WellKnown.isMessage (bareName name) = true)
      (fits : WellKnown.Fits (bareName name) value) : Fits index rule (.message name) value
  | foreign {name : String} {value : Json} (own : WellKnown.isMessage (bareName name) = false)
      (unknown : index.message? name = none) : Fits index rule (.message name) value
  | message {name : String} {m : Message} {doc : Codec.Doc} (found : index.message? name = some m)
      (own : m.wellKnown = false) (known : ∀ k, doc.get? k ≠ none → ∃ f ∈ m.fields, f.jsonName = k)
      (shapes : ∀ f ∈ m.fields, ∀ value, doc.get? f.jsonName = some value →
        value.isNull = false ∧ f.container.Shapes value ∧ rule.value m f value)
      (values : ∀ f ∈ m.fields, ∀ value, doc.get? f.jsonName = some value →
        ∀ x ∈ f.container.values value, Fits index rule f.type x)
      (document : rule.document m doc) : Fits index rule (.message name) (.obj doc)

structure Regular (index : Index) : Prop where
  jsonNames : ∀ m ∈ index.messages.values, (m.fields.map (·.jsonName)).Nodup
  members : ∀ m ∈ index.messages.values, ∀ f ∈ m.fields, f.oneof ≠ none → f.isSingular = true
  valueNames : ∀ e ∈ index.enums.values, (e.values.map (·.name)).Nodup
  numbers : ∀ e ∈ index.enums.values, ∀ v ∈ e.values, -0x80000000 ≤ v.number ∧ v.number < 0x80000000

inductive Reaches (index : Index) (root : String) : String → Prop
  | here : Reaches index root root
  | field {name child : String} {m : Message} {f : Field} (reached : Reaches index root name)
      (found : index.message? name = some m) (inside : f ∈ m.fields) (typed : f.message? = some child) :
      Reaches index root child

def Message.OneMember (m : Message) (doc : Codec.Doc) : Prop :=
  ∀ f ∈ m.fields, ∀ g ∈ m.fields, f.oneof ≠ none → f.oneof = g.oneof → doc.get? f.jsonName ≠ none →
    doc.get? g.jsonName ≠ none → f.jsonName = g.jsonName

/-- No transform of the field loses anything of the value. -/
structure Lossless (index : Index) (f : Field) (value : Json) : Prop where
  filled : f.isSingular = false → Codec.Filled f.container value
  kept : f.annotations.empty = .omit → value ≠ .obj []
  timestamps : f.annotations.changesTimestamp = true → ∀ x ∈ f.container.values value,
    ∃ t : Time.Instant, t.date.HasCommonYear ∧ f.annotations.timestamp.Carries t ∧ x = .str t.text
  collapsed : ∀ child elementType inner, f.message? = some child →
    unwrapValues? index f child = some (.unwrapValues elementType inner) →
      ∀ x ∈ f.container.values value, Codec.Collapsed inner x

def lossless (index : Index) : Rule := ⟨Message.OneMember, fun _ => index.Lossless⟩

def codec (index : Index) : Codec := ⟨index, index.plans⟩

end Index

namespace Codec

/-- The plans that a document calls for are nested within so many levels. -/
def NestsWithin (codec : Codec) : Nat → String → Json → Prop
  | 0, _, _ => False
  | levels + 1, name, value => ∀ plan, codec.plans.plan? name = some plan → ∀ step ∈ plan.steps,
      ∀ child, step.transform = .nested child → ∀ inner, value.get? step.jsonName = some inner →
        ∀ x ∈ addressed step.container inner, NestsWithin codec levels child x

end Codec

theorem Scalar.fits_wide {scalar : Scalar} (wide : scalar.is64Bit = true) {value : Json}
    (fits : scalar.Fits value) :
    ∃ n, Integer.inRange scalar.isUnsigned n = true ∧ value = .str (toString n) := by
  cases scalar <;> first | exact fits | cases wide

namespace Index

section Steps

variable {index : Index} {m : Message} {f : Field}

inductive Recoding (index : Index) (f : Field) : Transform → Prop
  | integer {scalar : Scalar} (typed : f.type = .scalar scalar) (wide : scalar.is64Bit = true) :
      Recoding index f (.integerAsNumber scalar.isUnsigned)
  | enumNumber {name : String} {e : Enum} (typed : f.type = .enum name) (found : index.enum? name = some e)
      (number : f.annotations.enumeration = .number) :
      Recoding index f (.enumAsNumber name (e.table fun v => toString v.number))
  | enumNames {name : String} {e : Enum} (typed : f.type = .enum name) (found : index.enum? name = some e)
      (names : f.annotations.enumeration ≠ .number) (custom : e.hasCustomNames = true) :
      Recoding index f (.enumCustomNames name (e.table EnumValue.wireName))
  | timestamp (typed : f.type = .message WellKnown.timestamp) (changes : f.annotations.changesTimestamp = true) :
      Recoding index f (.timestampAs f.annotations.timestamp)
  | bytes (typed : f.type = .scalar .bytes) (changes : f.annotations.changesBytes = true) :
      Recoding index f (.bytesAs f.annotations.bytes)

theorem type_of_enum? {name : String} (typed : f.enum? = some name) : f.type = .enum name := by
  rw [Field.enum?] at typed
  cases type : f.type with
  | enum other =>
    rw [type] at typed
    rw [Option.some.inj typed]
  | _ =>
    rw [type] at typed
    cases typed

theorem unsigned_of_wide {scalar : Scalar} (wide : scalar.is64Bit = true) :
    (scalar == .uint64 || scalar == .fixed64) = scalar.isUnsigned := by
  cases scalar <;> first | rfl | cases wide

theorem recoding_of_integerSteps (checked : f.Checked index m) {container : Container} {transform : Transform}
    (inside : (container, transform) ∈ integerSteps f) : container = f.container ∧ Recoding index f transform := by
  rw [integerSteps] at inside
  split at inside
  · rename_i scalar number typed
    obtain ⟨_, other, same, wide⟩ := checked.int64_type number
    cases typed.symm.trans same
    obtain ⟨rfl, rfl⟩ := Prod.mk.inj (List.mem_singleton.mp inside)
    rw [unsigned_of_wide wide]
    exact ⟨rfl, .integer typed wide⟩
  · cases inside

theorem recoding_of_enumSteps {container : Container} {transform : Transform}
    (inside : (container, transform) ∈ enumSteps index f) :
    container = f.container ∧ Recoding index f transform := by
  rw [enumSteps] at inside
  split at inside
  · cases inside
  · rename_i name typed
    split at inside
    · cases inside
    · rename_i e found
      split at inside
      · rename_i number
        obtain ⟨rfl, rfl⟩ := Prod.mk.inj (List.mem_singleton.mp inside)
        exact ⟨rfl, .enumNumber (type_of_enum? typed) found number⟩
      · rename_i names
        split at inside
        · rename_i custom
          obtain ⟨rfl, rfl⟩ := Prod.mk.inj (List.mem_singleton.mp inside)
          exact ⟨rfl, .enumNames (type_of_enum? typed) found names custom⟩
        · cases inside

theorem recoding_of_mem (checked : f.Checked index m) {step : Step} (inside : step ∈ recodeSteps index f) :
    ∃ transform, step = f.step f.container transform ∧ Recoding index f transform := by
  simp only [recodeSteps, List.mem_append] at inside
  rcases inside with ((integer | enum) | timestamp) | bytes
  · obtain ⟨⟨container, transform⟩, given, rfl⟩ := List.mem_map.mp integer
    obtain ⟨rfl, recoding⟩ := recoding_of_integerSteps checked given
    exact ⟨transform, rfl, recoding⟩
  · obtain ⟨⟨container, transform⟩, given, rfl⟩ := List.mem_map.mp enum
    obtain ⟨rfl, recoding⟩ := recoding_of_enumSteps given
    exact ⟨transform, rfl, recoding⟩
  · split at timestamp
    · rename_i changes
      exact ⟨_, List.mem_singleton.mp timestamp,
        .timestamp (type_of_message? (checked.timestamp_type changes).2) changes⟩
    · cases timestamp
  · split at bytes
    · rename_i changes
      exact ⟨_, List.mem_singleton.mp bytes, .bytes (checked.bytes_type changes).2 changes⟩
    · cases bytes

end Steps

section Tables

variable {e : Enum} {v : EnumValue} (wire : EnumValue → String)

theorem named?_table (names : (e.values.map (·.name)).Nodup) (inside : v ∈ e.values) :
    EnumName.named? (e.table wire) v.name = some ⟨v.name, v.number, wire v⟩ := by
  have found := find?_of_nodup names inside
  rw [EnumName.named?, Enum.table, List.find?_map]
  exact congrArg (Option.map _) found

theorem numbered_table (first : e.values.find? (·.number == v.number) = some v) :
    (e.table wire).find? (·.number == v.number) = some ⟨v.name, v.number, wire v⟩ := by
  rw [Enum.table, List.find?_map]
  exact congrArg (Option.map _) first

theorem wires_table (e : Enum) (wire : EnumValue → String) :
    (e.table wire).map EnumName.wire = e.values.map wire := by
  rw [Enum.table, List.map_map]
  rfl

end Tables

variable {index : Index} {m : Message} {f : Field} {rule : Rule}

theorem mem_enums_of_enum? {name : String} {e : Enum} (found : index.enum? name = some e) :
    e ∈ index.enums.values := KeyMap.mem_values.mpr ⟨_, found⟩

theorem first_of_fits {name : String} {e : Enum} (found : index.enum? name = some e) {value : Json}
    (fits : Fits index rule (.enum name) value) (present : value.isNull = false) :
    ∃ v, e.values.find? (·.number == v.number) = some v ∧ value = .str v.name := by
  cases fits with
  | enum fits =>
    rcases fits with ⟨_, rfl⟩ | ⟨text, rfl, first⟩
    · cases present
    · obtain ⟨v, here, rfl⟩ := first e found
      exact ⟨v, here, rfl⟩

theorem recoding_restores (sound : index.Sound) (regular : index.Regular) {transform : Transform}
    (recoding : Recoding index f transform) {value x : Json} (lossless : index.Lossless f value)
    (inside : x ∈ f.container.values value) (fits : Fits index rule f.type x) (present : x.isNull = false) :
    Restores transform.encodeValue transform.decodeValue x := by
  -- Each recoding bounds its field's type, and `fits` then bounds the values it can meet.
  cases recoding with
  | integer typed wide =>
    rw [typed] at fits
    cases fits with
    | scalar fits =>
      obtain ⟨n, bounds, rfl⟩ := Scalar.fits_wide wide fits
      exact Transform.integerAsNumber_restores bounds
  | enumNumber typed found number =>
    rename_i name e
    rw [typed] at fits
    obtain ⟨v, first, rfl⟩ := first_of_fits found fits present
    have listed := List.mem_of_find?_eq_some first
    have small : v.number < 0x8000000000000000 :=
      Int.lt_trans (regular.numbers e (mem_enums_of_enum? found) v listed).2 (by decide)
    have named := named?_table (fun v => toString v.number)
      (regular.valueNames e (mem_enums_of_enum? found)) listed
    exact Transform.enumAsNumber_restores ⟨v.name, v.number, toString v.number⟩ small named
      (numbered_table _ first)
  | enumNames typed found names custom =>
    rename_i name e
    rw [typed] at fits
    obtain ⟨v, first, rfl⟩ := first_of_fits found fits present
    have named := named?_table EnumValue.wireName
      (regular.valueNames e (mem_enums_of_enum? found)) (List.mem_of_find?_eq_some first)
    refine Transform.enumCustomNames_restores ?_ named
    rw [wires_table]
    exact Enum.wireNames_nodup (sound.enumErrors name e found) custom
  | timestamp typed changes =>
    obtain ⟨t, common, carried, rfl⟩ := lossless.timestamps changes x inside
    exact Transform.timestampAs_restores common carried
  | bytes typed changes =>
    rw [typed] at fits
    cases fits with
    | scalar fits =>
      obtain ⟨bytes, rfl⟩ := fits
      exact Transform.bytesAs_restores bytes

end Index

end Wireform
