import Wireform.Proofs.Documents
import Wireform.Proofs.ReadInstants
import Wireform.Proofs.WrittenElements

set_option autoImplicit false

namespace Wireform

def Transform.Settles (transform : Transform) (wire : Json) : Prop :=
  ∃ value : Json, value.IsLeaf ∧ value.isNull = false ∧ transform.encodeValue value = .ok wire ∧
    Restores transform.encodeValue transform.decodeValue value

theorem Transform.Settles.exists_leaf {transform : Transform} {wire : Json} (settles : transform.Settles wire) :
    ∃ value : Json, value.IsLeaf ∧ transform.decodeValue wire = .ok value := by
  obtain ⟨value, leaf, _, encoded, other, made, _, _, back, decoded, alike⟩ := settles
  cases Except.ok.inj (made.symm.trans encoded)
  cases leaf.eq_of_alike alike
  exact ⟨value, leaf, decoded⟩

theorem Transform.Settles.restores {transform : Transform} {wire : Json} (settles : transform.Settles wire) :
    wire.Distinct ∧ Restores transform.decodeValue transform.encodeValue wire := by
  obtain ⟨value, leaf, present, encoded, other, made, _, distinct, back, decoded, alike⟩ := settles
  cases Except.ok.inj (made.symm.trans encoded)
  cases leaf.eq_of_alike alike
  exact ⟨distinct, value, decoded, present, leaf.distinct, _, encoded, Json.Alike.refl distinct⟩

namespace Index

def EnumTyped (index : Index) (name : String) (value : Json) : Prop :=
  (∃ number, value = .num number) ∨
    ∃ text, value = .str text ∧ ∀ e, index.enum? name = some e → ∃ v ∈ e.values, v.name = text

/-- A usual document of a type, of which the wire form may lose something: any value may be null, an enum value
may be a number, and a timestamp may have any fraction. Of the types that are no messages of the schema it is only
known that a list is where a map would look for one. What holds of the document of each message is given. -/
inductive Usual (index : Index) (rule : Message → Codec.Doc → Prop) : ValueType → Json → Prop
  | null {type : ValueType} : Usual index rule type .null
  | scalar {scalar : Scalar} {value : Json} (fits : scalar.Fits value) : Usual index rule (.scalar scalar) value
  | enum {name : String} {value : Json} (typed : index.EnumTyped name value) : Usual index rule (.enum name) value
  | timestamp {t : Time.Instant} (common : t.date.HasCommonYear) (short : t.nanos < Time.nanosPerSecond) :
      Usual index rule (.message WellKnown.timestamp) (.str t.text)
  | foreign {name : String} {value : Json} (other : name ≠ WellKnown.timestamp)
      (foreign : ∀ m, index.message? name = some m → m.wellKnown = true)
      (lists : ∀ m f, index.message? name = some m → m.unwrapField? = some f → f.isList = true →
        ∀ inner, value.get? f.jsonName = some inner → inner.isNull = true ∨ Container.list.Shapes inner) :
      Usual index rule (.message name) value
  | message {name : String} {m : Message} {doc : Codec.Doc} (found : index.message? name = some m)
      (own : m.wellKnown = false) (known : ∀ k, doc.get? k ≠ none → ∃ f ∈ m.fields, f.jsonName = k)
      (shapes : ∀ f ∈ m.fields, ∀ value, doc.get? f.jsonName = some value →
        value.isNull = true ∨ f.container.Shapes value)
      (values : ∀ f ∈ m.fields, ∀ value, doc.get? f.jsonName = some value →
        ∀ x ∈ f.container.values value, Usual index rule f.type x)
      (allowed : rule m doc) : Usual index rule (.message name) (.obj doc)

section Tables

variable {e : Enum} {wire : EnumValue → String}

theorem first_of_numbered? {number : Number} {entry : EnumName}
    (found : EnumName.numbered? (e.table wire) number = some entry) :
    ∃ v, e.values.find? (·.number == v.number) = some v ∧ entry = ⟨v.name, v.number, wire v⟩ := by
  obtain ⟨n, _, first⟩ := Option.bind_eq_some_iff.mp found
  rw [Enum.table, List.find?_map] at first
  obtain ⟨v, here, rfl⟩ := Option.map_eq_some_iff.mp first
  have same : v.number = n := by simpa using List.find?_some here
  refine ⟨v, ?_, rfl⟩
  rw [same]
  exact here

theorem exists_first {v : EnumValue} (inside : v ∈ e.values) :
    ∃ first, e.values.find? (·.number == first.number) = some first ∧ first.number = v.number := by
  cases found : e.values.find? (·.number == v.number) with
  | none =>
    have never := List.find?_eq_none.mp found v inside
    simp at never
  | some first =>
    have same : first.number = v.number := by simpa using List.find?_some found
    exact ⟨first, by rw [same]; exact found, same⟩

end Tables

section Recoded

variable {index : Index} {rule : Message → Codec.Doc → Prop} {x y : Json} {e : Enum} {type : String}

theorem settled_of_stray {transform : Transform} {number : Number}
    (encodes : transform.encodeValue (.num number) = .ok (.num number))
    (decodes : transform.decodeValue (.num number) = .ok (.num number)) : transform.Settles (.num number) :=
  ⟨.num number, trivial, rfl, encodes, Restores.of_leaf encodes rfl trivial decodes trivial⟩

theorem enumAsNumber_settles (names : (e.values.map (·.name)).Nodup)
    (small : ∀ v ∈ e.values, v.number < 0x8000000000000000)
    (typed : (∃ number, x = .num number) ∨ ∃ v ∈ e.values, x = .str v.name)
    (encoded : Transform.encodeValue (.enumAsNumber type (e.table fun v => toString v.number)) x = .ok y) :
    (Transform.enumAsNumber type (e.table fun v => toString v.number)).Settles y := by
  -- The first value of a number comes back, and all others have the same number on the wire.
  have settled {v : EnumValue} (first : e.values.find? (·.number == v.number) = some v) (same : y = .int v.number) :
      (Transform.enumAsNumber type (e.table fun v => toString v.number)).Settles y := by
    have inside := List.mem_of_find?_eq_some first
    have named := named?_table (fun v => toString v.number) names inside
    refine ⟨.str v.name, trivial, rfl, ?_, ?_⟩
    · simp only [Transform.encodeValue, EnumName.find?, named, same]
    · exact Transform.enumAsNumber_restores ⟨v.name, v.number, toString v.number⟩ (small v inside) named
        (numbered_table _ first)
  rcases typed with ⟨number, rfl⟩ | ⟨v, inside, rfl⟩
  · cases found : EnumName.numbered? (e.table fun v => toString v.number) number with
    | some entry =>
      obtain ⟨v, first, rfl⟩ := first_of_numbered? found
      simp only [Transform.encodeValue, EnumName.find?, found] at encoded
      exact settled first (Except.ok.inj encoded).symm
    | none =>
      simp only [Transform.encodeValue, EnumName.find?, found] at encoded
      cases Except.ok.inj encoded
      apply settled_of_stray
      · simp only [Transform.encodeValue, EnumName.find?, found]
      · simp only [Transform.decodeValue, EnumName.decode, EnumName.findWire?, found]
  · obtain ⟨u, first, same⟩ := exists_first inside
    have named := named?_table (fun v => toString v.number) names inside
    simp only [Transform.encodeValue, EnumName.find?, named] at encoded
    exact settled first (same ▸ (Except.ok.inj encoded).symm)

theorem enumCustomNames_settles (names : (e.values.map (·.name)).Nodup)
    (wires : (e.values.map EnumValue.wireName).Nodup)
    (typed : (∃ number, x = .num number) ∨ ∃ v ∈ e.values, x = .str v.name)
    (encoded : Transform.encodeValue (.enumCustomNames type (e.table EnumValue.wireName)) x = .ok y) :
    (Transform.enumCustomNames type (e.table EnumValue.wireName)).Settles y := by
  have settled {v : EnumValue} (inside : v ∈ e.values) (same : y = .str v.wireName) :
      (Transform.enumCustomNames type (e.table EnumValue.wireName)).Settles y := by
    have named := named?_table EnumValue.wireName names inside
    refine ⟨.str v.name, trivial, rfl, ?_, ?_⟩
    · simp only [Transform.encodeValue, EnumName.find?, named, same]
    · exact Transform.enumCustomNames_restores (by rw [wires_table]; exact wires) named
  rcases typed with ⟨number, rfl⟩ | ⟨v, inside, rfl⟩
  · cases found : EnumName.numbered? (e.table EnumValue.wireName) number with
    | some entry =>
      obtain ⟨v, first, rfl⟩ := first_of_numbered? found
      simp only [Transform.encodeValue, EnumName.find?, found] at encoded
      exact settled (List.mem_of_find?_eq_some first) (Except.ok.inj encoded).symm
    | none =>
      simp only [Transform.encodeValue, EnumName.find?, found] at encoded
      cases Except.ok.inj encoded
      apply settled_of_stray
      · simp only [Transform.encodeValue, EnumName.find?, found]
      · simp only [Transform.decodeValue, EnumName.decode, EnumName.findWire?, found]
  · have named := named?_table EnumValue.wireName names inside
    simp only [Transform.encodeValue, EnumName.find?, named] at encoded
    exact settled inside (Except.ok.inj encoded).symm

theorem timestampAs_settles {format : TimestampFormat} {t : Time.Instant} (common : t.date.HasCommonYear)
    (short : t.nanos < Time.nanosPerSecond)
    (encoded : Transform.encodeValue (.timestampAs format) (.str t.text) = .ok y) :
    (Transform.timestampAs format).Settles y := by
  obtain ⟨u, carried, date, same⟩ := format.exists_carried short
  have common' : u.date.HasCommonYear := date ▸ common
  refine ⟨.str u.text, trivial, rfl, ?_, Transform.timestampAs_restores common' carried⟩
  simp only [Transform.encodeValue, TimestampFormat.readText_text common] at encoded
  simp only [Transform.encodeValue, TimestampFormat.readText_text common', same]
  exact encoded

variable {m : Message} {f : Field}

theorem recoding_settles (sound : index.Sound) (regular : index.Regular) {transform : Transform}
    (recoding : Recoding index f transform) (typed : Usual index rule f.type x) (present : x.isNull = false)
    (encoded : transform.encodeValue x = .ok y) : transform.Settles y := by
  -- What stands for an enum value is a number, or the name of one of the values.
  have named {name : String} {e : Enum} (found : index.enum? name = some e) (typed : Usual index rule (.enum name) x) :
      (∃ number, x = .num number) ∨ ∃ v ∈ e.values, x = .str v.name := by
    cases typed with
    | null => cases present
    | enum typed =>
      rcases typed with number | ⟨text, rfl, listed⟩
      · exact .inl number
      · obtain ⟨v, inside, rfl⟩ := listed e found
        exact .inr ⟨v, inside, rfl⟩
  cases recoding with
  | integer scalar wide =>
    rw [scalar] at typed
    cases typed with
    | null => cases present
    | scalar fits =>
      obtain ⟨n, bounds, rfl⟩ := Scalar.fits_wide wide fits
      exact ⟨.str (toString n), trivial, rfl, encoded, Transform.integerAsNumber_restores bounds⟩
  | @enumNumber name e held found number =>
    have listed := mem_enums_of_enum? found
    rw [held] at typed
    refine enumAsNumber_settles (regular.valueNames e listed) (fun v inside => ?_) (named found typed) encoded
    exact Int.lt_trans (regular.numbers e listed v inside).2 (by decide)
  | @enumNames name e held found names custom =>
    rw [held] at typed
    exact enumCustomNames_settles (regular.valueNames e (mem_enums_of_enum? found))
      (Enum.wireNames_nodup (sound.enumErrors name e found) custom) (named found typed) encoded
  | timestamp held changes =>
    rw [held] at typed
    cases typed with
    | null => cases present
    | timestamp common short => exact timestampAs_settles common short encoded
    | foreign other => exact absurd rfl other
    | message found own =>
      exact absurd rfl (ne_timestamp_of_own sound.toKeyed found own)
  | bytes held changes =>
    rw [held] at typed
    cases typed with
    | null => cases present
    | scalar fits =>
      obtain ⟨bytes, rfl⟩ := fits
      exact ⟨.str _, trivial, rfl, encoded, Transform.bytesAs_restores bytes⟩

end Recoded

end Index

end Wireform
