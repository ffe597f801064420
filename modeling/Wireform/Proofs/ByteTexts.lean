import Wireform.Bytes

set_option autoImplicit false

namespace Wireform

def asciiByte (c : Char) : UInt8 := UInt8.ofNat c.toNat

theorem utf8_ascii {cs : List Char} (ascii : ∀ c ∈ cs, c.toNat < 128) :
    cs.flatMap String.utf8EncodeChar = cs.map asciiByte := by
  induction cs with
  | nil => rfl
  | cons c cs ih =>
    have first : String.utf8EncodeChar c = [asciiByte c] := by
      have small : c.toNat ≤ 127 := Nat.le_of_lt_succ (ascii c (by simp))
      simp [String.utf8EncodeChar, small, asciiByte]
    rw [List.flatMap_cons, first, ih fun d inside => ascii d (by simp [inside])]
    rfl

theorem ofNat_eq_byte {n : Nat} (byte : UInt8) (same : n = byte.toNat) : UInt8.ofNat n = byte := by
  rw [same, UInt8.ofNat_toNat]

namespace Hex

theorem value?_digit : ∀ v < 16, value? (asciiByte (digit v)) = some v ∧ (digit v).toNat < 128 := by
  decide

theorem readPairs_encode (offset : Nat) (bytes : List UInt8) :
    readPairs offset ((encode bytes).map asciiByte) = .ok bytes := by
  induction bytes generalizing offset with
  | nil => rfl
  | cons byte rest ih =>
    have small := byte.toNat_lt
    have high := (value?_digit (byte.toNat / 16) (by omega)).1
    have low := (value?_digit (byte.toNat % 16) (by omega)).1
    have value : byte.toNat / 16 * 16 + byte.toNat % 16 = byte.toNat := by omega
    have later := ih (offset + 2)
    simp only [encode] at later
    simp [encode, readPairs, high, low, later, value, Except.map]

theorem ascii_encode (bytes : List UInt8) : ∀ c ∈ encode bytes, c.toNat < 128 := by
  intro c inside
  obtain ⟨byte, _, member⟩ := List.mem_flatMap.mp inside
  have small := byte.toNat_lt
  simp only [List.mem_cons, List.not_mem_nil, or_false] at member
  rcases member with rfl | rfl
  · exact (value?_digit _ (by omega)).2
  · exact (value?_digit _ (by omega)).2

theorem length_encode (bytes : List UInt8) : (encode bytes).length = 2 * bytes.length := by
  induction bytes with
  | nil => rfl
  | cons byte rest ih =>
    simp only [encode] at ih
    simp [encode, ih]
    omega

theorem decode_encode (bytes : List UInt8) : decode (String.ofList (encode bytes)) = .ok bytes := by
  have text := utf8_ascii (ascii_encode bytes)
  simp [decode, text, length_encode, readPairs_encode]

end Hex

namespace Base64

namespace Scheme

variable {scheme : Scheme}

def IsSound (scheme : Scheme) : Prop :=
  ∀ v < 64, scheme.value? (asciiByte (scheme.symbol v)) = some v ∧ (scheme.symbol v).toNat < 128 ∧
    asciiByte (scheme.symbol v) ≠ pad

instance (scheme : Scheme) : Decidable scheme.IsSound := by
  unfold IsSound
  infer_instance

def inked (scheme : Scheme) (values : List Nat) : List UInt8 :=
  (scheme.symbols values).map asciiByte

theorem inked_cons (v : Nat) (values : List Nat) :
    scheme.inked (v :: values) = asciiByte (scheme.symbol v) :: scheme.inked values := rfl

theorem length_inked (values : List Nat) : (scheme.inked values).length = values.length := by
  simp [inked, symbols]

theorem readBody_inked (sound : scheme.IsSound) (offset : Nat) {values : List Nat}
    (small : ∀ v ∈ values, v < 64) : scheme.readBody offset (scheme.inked values) = .ok values := by
  induction values generalizing offset with
  | nil => rfl
  | cons v values ih =>
    have first := (sound v (small v (by simp))).1
    have later := ih (offset + 1) fun w inside => small w (by simp [inside])
    simp only [inked_cons, readBody, first, later, Except.map]

theorem readSuffix_pads (start : Nat) (firstPad : Option Nat) {index : Nat} (late : 2 ≤ index)
    (count : Nat) :
    scheme.readSuffix start firstPad index (List.replicate count pad) = .ok ([], count) := by
  induction count generalizing index firstPad with
  | zero => rfl
  | succ count ih =>
    have notEarly : ¬ index < 2 := by omega
    simp only [List.replicate_succ, readSuffix, if_true, notEarly, if_false,
      ih (some (firstPad.getD index)) (by omega : 2 ≤ index + 1), Except.map]

theorem readSuffix_inked (sound : scheme.IsSound) (start index : Nat) {values : List Nat}
    (small : ∀ v ∈ values, v < 64) (count : Nat) (room : count = 0 ∨ 2 ≤ index + values.length) :
    scheme.readSuffix start none index (scheme.inked values ++ List.replicate count pad) =
      .ok (values.map fun v => (v, asciiByte (scheme.symbol v)), count) := by
  induction values generalizing index with
  | nil =>
    rcases room with rfl | late
    · rfl
    · exact readSuffix_pads start none late count
  | cons v values ih =>
    obtain ⟨first, _, notPad⟩ := sound v (small v (by simp))
    have later := ih (index + 1) (fun w inside => small w (by simp [inside]))
      (room.imp_right fun late => by simp only [List.length_cons] at late; omega)
    simp only [inked_cons, List.cons_append, readSuffix, notPad, if_false, first, later, Except.map,
      List.map_cons]

def sextets : List UInt8 → List Nat
  | a :: b :: c :: rest =>
    a.toNat / 4 :: (a.toNat % 4 * 16 + b.toNat / 16) :: (b.toNat % 16 * 4 + c.toNat / 64) ::
      c.toNat % 64 :: sextets rest
  | [a, b] => [a.toNat / 4, a.toNat % 4 * 16 + b.toNat / 16, b.toNat % 16 * 4]
  | [a] => [a.toNat / 4, a.toNat % 4 * 16]
  | [] => []

def lacking (bytes : List UInt8) : Nat := (3 - bytes.length % 3) % 3

theorem encode_eq (scheme : Scheme) (bytes : List UInt8) :
    scheme.encode bytes = scheme.symbols (sextets bytes) ++ scheme.padding (lacking bytes) := by
  fun_induction sextets bytes with
  | case1 a b c rest ih =>
    have same : lacking (a :: b :: c :: rest) = lacking rest := by
      simp only [lacking, List.length_cons]
      omega
    rw [same]
    simp only [encode, ih, symbols, List.map_cons, List.cons_append, List.map_nil, List.nil_append]
  | case2 a b => simp [encode, lacking]
  | case3 a => simp [encode, lacking]
  | case4 => simp [encode, lacking, symbols, padding]

theorem sextets_lt (bytes : List UInt8) : ∀ v ∈ sextets bytes, v < 64 := by
  fun_induction sextets bytes with
  | case1 a b c rest ih =>
    have first := a.toNat_lt
    have second := b.toNat_lt
    have third := c.toNat_lt
    intro v inside
    simp only [List.mem_cons] at inside
    rcases inside with rfl | rfl | rfl | rfl | inside
    · omega
    · omega
    · omega
    · omega
    · exact ih v inside
  | case2 a b =>
    have first := a.toNat_lt
    have second := b.toNat_lt
    intro v inside
    simp only [List.mem_cons, List.not_mem_nil, or_false] at inside
    omega
  | case3 a =>
    have first := a.toNat_lt
    intro v inside
    simp only [List.mem_cons, List.not_mem_nil, or_false] at inside
    omega
  | case4 => simp

theorem join_sextets (bytes : List UInt8) : join (sextets bytes) = bytes := by
  fun_induction sextets bytes with
  | case1 a b c rest ih =>
    have first := a.toNat_lt
    have second := b.toNat_lt
    have third := c.toNat_lt
    rw [join, ih, ofNat_eq_byte a (by omega), ofNat_eq_byte b (by omega),
      ofNat_eq_byte c (by omega)]
  | case2 a b =>
    have first := a.toNat_lt
    have second := b.toNat_lt
    rw [join, ofNat_eq_byte a (by omega), ofNat_eq_byte b (by omega)]
  | case3 a =>
    have first := a.toNat_lt
    rw [join, ofNat_eq_byte a (by omega)]
  | case4 => rfl

def ahead (symbols : Nat) : Nat := (symbols - 1) / 4 * 4

/-- How many symbols and paddings make up a text: whole quads and a part of at least two symbols, which
padding completes in the schemes that have it. -/
def Shaped (scheme : Scheme) (count pads : Nat) : Prop :=
  count % 4 ≠ 1 ∧ pads = if scheme.padded then (4 - count % 4) % 4 else 0

theorem shaped_sextets (scheme : Scheme) (bytes : List UInt8) :
    scheme.Shaped (sextets bytes).length (scheme.padding (lacking bytes)).length := by
  have count : ∀ bytes : List UInt8, (sextets bytes).length % 4 = (4 - lacking bytes) % 4 ∧
      lacking bytes < 3 := by
    intro bytes
    fun_induction sextets bytes with
    | case1 a b c rest ih =>
      have same : lacking (a :: b :: c :: rest) = lacking rest := by
        simp only [lacking, List.length_cons]
        omega
      simp only [same, List.length_cons]
      omega
    | case2 a b => simp [lacking]
    | case3 a => simp [lacking]
    | case4 => simp [lacking]
  obtain ⟨symbols, few⟩ := count bytes
  constructor
  · omega
  · cases padded : scheme.padded <;> simp [padding, padded]
    omega

theorem ahead_le (count : Nat) : ahead count ≤ count := by
  simp only [ahead]
  omega

theorem lastQuad_add_four (count : Nat) :
    count + 1 + 4 - ahead (count + 1 + 4) = count + 1 - ahead (count + 1) := by
  simp only [ahead]
  omega

theorem strayBits_sextets {bytes : List UInt8} {v : Nat} (last : v ∈ (sextets bytes).getLast?) :
    strayBits ((sextets bytes).length - ahead (sextets bytes).length) v = 0 := by
  fun_induction sextets bytes with
  | case1 a b c rest ih =>
    cases values : sextets rest with
    | nil => simp [ahead, strayBits]
    | cons w more =>
      rw [values] at ih last
      have same := ih (by simpa [List.getLast?_cons_cons] using last)
      rw [List.length_cons, ← lastQuad_add_four] at same
      exact same
  | case2 a b =>
    have value : v = b.toNat % 16 * 4 := by simpa using last.symm
    simp [ahead, strayBits, value]
  | case3 a =>
    have value : v = a.toNat % 4 * 16 := by simpa using last.symm
    simp [ahead, strayBits, value]
  | case4 => simp at last

section Shaped

variable {count pads : Nat} (shaped : scheme.Shaped count pads)

include shaped

theorem Shaped.start : (if count + pads = 0 then 0 else (count + pads - 1) / 4 * 4) = ahead count := by
  -- The last quad begins where the symbols alone say, since padding only completes it.
  obtain ⟨cut, padding⟩ := shaped
  simp only [ahead]
  split at padding <;> split <;> omega

theorem Shaped.not_lone : (count + pads) % 4 ≠ 1 := by
  obtain ⟨cut, padding⟩ := shaped
  split at padding <;> omega

theorem Shaped.late : pads = 0 ∨ 2 ≤ count - ahead count := by
  obtain ⟨cut, padding⟩ := shaped
  simp only [ahead]
  split at padding <;> omega

theorem Shaped.enough : ¬ (count + pads ≠ 0 ∧ count - ahead count < 2) := by
  obtain ⟨cut, padding⟩ := shaped
  simp only [ahead]
  split at padding <;> omega

theorem Shaped.completes (padded : scheme.padded = true) : (count - ahead count + pads) % 4 = 0 := by
  obtain ⟨cut, padding⟩ := shaped
  rw [if_pos padded] at padding
  simp only [ahead]
  omega

theorem Shaped.bare (padded : scheme.padded = false) : pads = 0 := by
  simpa [padded] using shaped.2

end Shaped

section Parts

variable {values : List Nat} {n : Nat} (short : n ≤ values.length) (rest : List UInt8)

include short

theorem take_inked : (scheme.inked values ++ rest).take n = scheme.inked (values.take n) := by
  rw [List.take_append_of_le_length (by rw [length_inked]; exact short)]
  simp [inked, symbols, List.map_take]

theorem drop_inked : (scheme.inked values ++ rest).drop n = scheme.inked (values.drop n) ++ rest := by
  rw [List.drop_append_of_le_length (by rw [length_inked]; exact short)]
  simp [inked, symbols, List.map_drop]

end Parts

theorem decode_inked (sound : scheme.IsSound) {values : List Nat} (small : ∀ v ∈ values, v < 64)
    {pads : Nat} (shaped : scheme.Shaped values.length pads)
    (exact : ∀ v ∈ values.getLast?, strayBits (values.length - ahead values.length) v = 0)
    {text : String} (written : bytesOf text = scheme.inked values ++ List.replicate pads pad) :
    scheme.decode text = .ok (join values) := by
  have few := ahead_le values.length
  have size : (bytesOf text).length = values.length + pads := by
    simp [written, length_inked]
  have body : (bytesOf text).take (ahead values.length) =
      scheme.inked (values.take (ahead values.length)) := by
    rw [written, take_inked few]
  have suffix : (bytesOf text).drop (ahead values.length) =
      scheme.inked (values.drop (ahead values.length)) ++ List.replicate pads pad := by
    rw [written, drop_inked few]
  have count : (values.drop (ahead values.length)).length = values.length - ahead values.length :=
    List.length_drop
  have readBody := readBody_inked sound 0 fun v inside =>
    small v (List.mem_of_mem_take (i := ahead values.length) inside)
  have readSuffix := readSuffix_inked sound (ahead values.length) 0
    (fun v inside => small v (List.mem_of_mem_drop (i := ahead values.length) inside)) pads
    (by rw [count, Nat.zero_add]; exact shaped.late)
  have whole : (values.take (ahead values.length) ++
      ((values.drop (ahead values.length)).map fun v => (v, asciiByte (scheme.symbol v))).map (·.1)) =
        values := by
    simp [Function.comp_def]
  have last : ∀ entry,
      ((values.drop (ahead values.length)).map fun v => (v, asciiByte (scheme.symbol v))).getLast? =
        some entry → strayBits (values.length - ahead values.length) entry.1 = 0 := by
    intro entry found
    apply exact
    rw [List.getLast?_map, List.getLast?_drop] at found
    split at found
    · simp at found
    · obtain ⟨v, present, rfl⟩ := Option.map_eq_some_iff.mp found
      exact present
  simp only [decode, size, shaped.start, body, suffix, readBody, readSuffix, shaped.not_lone, false_and, if_false,
    bind, Except.bind, List.length_map, count, shaped.enough, whole]
  generalize (bytesOf text).getLast? = symbol
  generalize (List.map (fun v => (v, asciiByte (scheme.symbol v)))
    (values.drop (ahead values.length))).getLast? = found at last
  -- What is left depends on whether there are a last byte and a last quad.
  cases padded : scheme.padded with
  | true =>
    have complete := shaped.completes padded
    cases symbol <;> cases found <;> simp [complete, last, pure, Except.pure]
  | false =>
    have none := shaped.bare padded
    cases symbol <;> cases found <;> simp [none, last, pure, Except.pure]

theorem decode_encode (sound : scheme.IsSound) (bytes : List UInt8) :
    scheme.decode (String.ofList (scheme.encode bytes)) = .ok bytes := by
  have ascii : ∀ c ∈ scheme.encode bytes, c.toNat < 128 := by
    intro c inside
    rw [encode_eq, List.mem_append] at inside
    rcases inside with symbol | padding
    · obtain ⟨v, member, rfl⟩ := List.mem_map.mp symbol
      exact (sound v (sextets_lt bytes v member)).2.1
    · simp only [Scheme.padding] at padding
      split at padding
      · rw [(List.mem_replicate.mp padding).2]
        decide
      · simp at padding
  have pads : (scheme.padding (lacking bytes)).map asciiByte =
      List.replicate (scheme.padding (lacking bytes)).length pad := by
    simp only [Scheme.padding]
    split <;> simp
    exact .inr rfl
  have written : bytesOf (String.ofList (scheme.encode bytes)) = scheme.inked (sextets bytes) ++
      List.replicate (scheme.padding (lacking bytes)).length pad := by
    rw [bytesOf, String.toList_ofList, utf8_ascii ascii, encode_eq, List.map_append, pads]
    rfl
  have read := decode_inked sound (sextets_lt bytes) (shaped_sextets scheme bytes)
    (fun _ last => strayBits_sextets last) written
  rwa [join_sextets] at read

end Scheme

end Base64

namespace BytesEncoding

theorem isSound_scheme {encoding : BytesEncoding} {scheme : Base64.Scheme}
    (found : encoding.scheme? = some scheme) : scheme.IsSound := by
  cases encoding with
  | unspecified => cases found; decide
  | base64 => cases found; decide
  | base64Raw => cases found; decide
  | base64Url => cases found; decide
  | base64UrlRaw => cases found; decide
  | hex => cases found

theorem decode_encode (encoding : BytesEncoding) (bytes : List UInt8) :
    encoding.decode (encoding.encode bytes) = .ok bytes := by
  cases found : encoding.scheme? with
  | some scheme =>
    simp only [decode, encode, found, Base64.Scheme.decode_encode (isSound_scheme found)]
    rfl
  | none =>
    simp only [decode, encode, found, Hex.decode_encode]
    rfl

end BytesEncoding

end Wireform
