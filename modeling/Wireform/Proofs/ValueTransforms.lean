import Wireform.Codec.Scalar
import Wireform.Proofs.Alike
import Wireform.Proofs.ByteTexts
import Wireform.Proofs.InstantTexts
import Wireform.Proofs.Basic

set_option autoImplicit false

namespace Wireform

def Restores {ε δ : Type} (encode : Json → Except ε Json) (decode : Json → Except δ Json)
    (value : Json) : Prop :=
  ∃ wire, encode value = .ok wire ∧ wire.isNull = false ∧ wire.Distinct ∧
    ∃ back, decode wire = .ok back ∧ Json.Alike back value

def Json.IsLeaf : Json → Prop
  | .arr _ | .obj _ => False
  | _ => True

theorem Json.IsLeaf.distinct {value : Json} (leaf : value.IsLeaf) : value.Distinct := by
  cases value with
  | arr items => exact leaf.elim
  | obj members => exact leaf.elim
  | _ => trivial

theorem Json.IsLeaf.eq_of_alike {value other : Json} (leaf : value.IsLeaf) (alike : Alike other value) : other = value := by
  cases value with
  | arr items => exact leaf.elim
  | obj members => exact leaf.elim
  | _ => exact alike_leaf alike (fun _ same => by cases same) (fun _ same => by cases same)

theorem Json.alike_cases {value other : Json} (alike : Alike value other) :
    (value.IsLeaf ∧ other = value) ∨
      (∃ items others, value = .arr items ∧ other = .arr others ∧ List.Forall₂ Alike items others) ∨
      ∃ members others, value = .obj members ∧ other = .obj others := by
  cases value with
  | arr items =>
    obtain ⟨others, rfl, each⟩ := alike_of_arr alike.symm
    exact .inr (.inl ⟨items, others, rfl, rfl, alike_arr.mp alike⟩)
  | obj members =>
    obtain ⟨others, rfl, _⟩ := alike_of_obj alike.symm
    exact .inr (.inr ⟨members, others, rfl, rfl⟩)
  | _ => exact .inl ⟨trivial, IsLeaf.eq_of_alike trivial alike.symm⟩

theorem Json.not_isLeaf_of_alike {value other : Json} (alike : Alike value other) (container : ¬ value.IsLeaf) :
    ¬ other.IsLeaf := fun leaf => container (leaf.eq_of_alike alike ▸ leaf)

theorem Restores.of_leaf {ε δ : Type} {encode : Json → Except ε Json} {decode : Json → Except δ Json}
    {value wire : Json} (encoded : encode value = .ok wire) (present : wire.isNull = false)
    (wire_leaf : wire.IsLeaf) (decoded : decode wire = .ok value) (leaf : value.IsLeaf) :
    Restores encode decode value :=
  ⟨wire, encoded, present, wire_leaf.distinct, value, decoded, Json.Alike.refl leaf.distinct⟩

namespace EnumName

variable {table : List EnumName} {entry : EnumName} {name : String}

theorem mem_of_named? (found : named? table name = some entry) : entry ∈ table ∧ entry.name = name :=
  ⟨List.mem_of_find?_eq_some found, by simpa using List.find?_some found⟩

theorem decode_wire (wires : (table.map EnumName.wire).Nodup) (inside : entry ∈ table) :
    decode table (.str entry.wire) = .ok (.str entry.name) := by
  simp [decode, findWire?, find?_of_nodup wires inside]

theorem decode_number {n : Int} (small : n < 0x8000000000000000)
    (found : table.find? (·.number == n) = some entry) :
    decode table (.int n) = .ok (.str entry.name) := by
  have first : numbered? table (.int n) = some entry := by
    rw [numbered?, TimestampFormat.toSigned?_int small]
    exact found
  simp only [decode, Json.int, findWire?, first]

end EnumName

namespace Transform

theorem integerAsNumber_restores {unsigned : Bool} {n : Int}
    (inside : Integer.inRange unsigned n = true) :
    Restores (encodeValue (.integerAsNumber unsigned)) (decodeValue (.integerAsNumber unsigned))
      (.str (toString n)) := by
  have encoded : encodeValue (.integerAsNumber unsigned) (.str (toString n)) = .ok (.int n) := by
    simp only [encodeValue, Integer.parse_toString inside]
  exact Restores.of_leaf encoded rfl trivial rfl trivial

theorem enumCustomNames_restores {type : String} {table : List EnumName} {entry : EnumName}
    {name : String} (wires : (table.map EnumName.wire).Nodup)
    (found : EnumName.named? table name = some entry) :
    Restores (encodeValue (.enumCustomNames type table)) (decodeValue (.enumCustomNames type table))
      (.str name) := by
  obtain ⟨inside, rfl⟩ := EnumName.mem_of_named? found
  have encoded : encodeValue (.enumCustomNames type table) (.str entry.name) =
      .ok (.str entry.wire) := by
    simp only [encodeValue, EnumName.find?, found]
  exact Restores.of_leaf encoded rfl trivial (EnumName.decode_wire wires inside) trivial

theorem enumAsNumber_restores {type : String} {table : List EnumName} (entry : EnumName)
    (small : entry.number < 0x8000000000000000)
    (named : EnumName.named? table entry.name = some entry)
    (first : table.find? (·.number == entry.number) = some entry) :
    Restores (encodeValue (.enumAsNumber type table)) (decodeValue (.enumAsNumber type table))
      (.str entry.name) := by
  have encoded : encodeValue (.enumAsNumber type table) (.str entry.name) =
      .ok (.int entry.number) := by
    simp only [encodeValue, EnumName.find?, named]
  exact Restores.of_leaf encoded rfl trivial (EnumName.decode_number small first) trivial

theorem timestampAs_restores {format : TimestampFormat} {t : Time.Instant}
    (common : t.date.HasCommonYear) (carried : format.Carries t) :
    Restores (encodeValue (.timestampAs format)) (decodeValue (.timestampAs format)) (.str t.text) := by
  have encoded : encodeValue (.timestampAs format) (.str t.text) = .ok (format.write t) := by
    simp only [encodeValue, TimestampFormat.readText_text common]
  have decoded : decodeValue (.timestampAs format) (format.write t) = .ok (.str t.text) := by
    simp only [decodeValue, TimestampFormat.read_write carried]
    cases format <;> rfl
  refine Restores.of_leaf encoded ?_ ?_ decoded trivial
  · cases format <;> rfl
  · cases format <;> trivial

theorem bytesAs_restores {encoding : BytesEncoding} (bytes : List UInt8) :
    Restores (encodeValue (.bytesAs encoding)) (decodeValue (.bytesAs encoding))
      (.str (BytesEncoding.base64.encode bytes)) := by
  have encoded : encodeValue (.bytesAs encoding) (.str (BytesEncoding.base64.encode bytes)) =
      .ok (.str (encoding.encode bytes)) := by
    simp only [encodeValue, BytesEncoding.decode_encode]
  have decoded : decodeValue (.bytesAs encoding) (.str (encoding.encode bytes)) =
      .ok (.str (BytesEncoding.base64.encode bytes)) := by
    simp only [decodeValue, BytesEncoding.decode_encode]
  exact Restores.of_leaf encoded rfl trivial decoded trivial

theorem decodeValue_spec {transform : Transform} {value decoded : Json}
    (run : transform.decodeValue value = .ok decoded) : decoded = value ∨ decoded.IsLeaf := by
  simp only [decodeValue] at run
  split at run
  · split at run
    · exact .inr (Except.ok.inj run ▸ trivial)
    · cases run
  · exact enum_spec run
  · exact enum_spec run
  · split at run
    · exact .inr (Except.ok.inj run ▸ trivial)
    · exact .inl (Except.ok.inj run).symm
    · cases run
  · split at run
    · exact .inr (Except.ok.inj run ▸ trivial)
    · cases run
  · exact .inl (Except.ok.inj run).symm
where
  enum_spec {table : List EnumName} {value decoded : Json}
      (run : EnumName.decode table value = .ok decoded) : decoded = value ∨ decoded.IsLeaf := by
    simp only [EnumName.decode] at run
    split at run
    · exact .inr (Except.ok.inj run ▸ trivial)
    · exact .inl (Except.ok.inj run).symm
    · cases run

theorem decodeValue_container {transform : Transform} {value other decoded : Json}
    (container : ¬ value.IsLeaf) (other_container : ¬ other.IsLeaf)
    (run : transform.decodeValue value = .ok decoded) :
    decoded = value ∧ transform.decodeValue other = .ok other := by
  cases transform with
  | enumCustomNames type table =>
    cases value <;> first | exact absurd trivial container | cases run
  | enumAsNumber type table =>
    cases value <;> first | exact absurd trivial container | cases run
  | timestampAs format =>
    cases value <;> first | exact absurd trivial container | (cases format <;> cases run)
  | _ =>
    cases value <;> first | exact absurd trivial container |
      (cases other <;> first | exact absurd trivial other_container |
        exact ⟨(Except.ok.inj run).symm, rfl⟩)

theorem encodeValue_spec {transform : Transform} {value encoded : Json}
    (run : transform.encodeValue value = .ok encoded) : encoded = value ∨ encoded.IsLeaf := by
  simp only [encodeValue] at run
  split at run
  · split at run
    · exact .inr (Except.ok.inj run ▸ trivial)
    · cases run
  · split at run
    · exact .inr (Except.ok.inj run ▸ trivial)
    · exact .inl (Except.ok.inj run).symm
  · split at run
    · exact .inr (Except.ok.inj run ▸ trivial)
    · exact .inl (Except.ok.inj run).symm
  · rename_i format text
    split at run
    · cases format <;> exact .inr (Except.ok.inj run ▸ trivial)
    · cases run
  · split at run
    · exact .inr (Except.ok.inj run ▸ trivial)
    · cases run
  · exact .inl (Except.ok.inj run).symm

theorem encodeValue_container {transform : Transform} {value : Json} (container : ¬ value.IsLeaf) :
    transform.encodeValue value = .ok value := by
  cases transform <;> cases value <;> first | exact absurd trivial container | rfl

theorem decodeValue_alike {transform : Transform} {value other decoded : Json}
    (alike : Json.Alike value other) (run : transform.decodeValue value = .ok decoded) :
    ∃ back, transform.decodeValue other = .ok back ∧ Json.Alike decoded back := by
  by_cases leaf : value.IsLeaf
  · cases leaf.eq_of_alike alike.symm
    rcases decodeValue_spec run with rfl | decoded_leaf
    · exact ⟨_, run, alike⟩
    · exact ⟨_, run, Json.Alike.refl decoded_leaf.distinct⟩
  · obtain ⟨rfl, passed⟩ := decodeValue_container leaf (Json.not_isLeaf_of_alike alike leaf) run
    exact ⟨other, passed, alike⟩

theorem encodeValue_alike {transform : Transform} {value other encoded : Json}
    (alike : Json.Alike value other) (run : transform.encodeValue value = .ok encoded) :
    ∃ back, transform.encodeValue other = .ok back ∧ Json.Alike encoded back := by
  by_cases leaf : value.IsLeaf
  · cases leaf.eq_of_alike alike.symm
    rcases encodeValue_spec run with rfl | encoded_leaf
    · exact ⟨_, run, alike⟩
    · exact ⟨_, run, Json.Alike.refl encoded_leaf.distinct⟩
  · rw [encodeValue_container leaf] at run
    cases Except.ok.inj run
    exact ⟨other, encodeValue_container (Json.not_isLeaf_of_alike alike leaf), alike⟩

end Transform

end Wireform
