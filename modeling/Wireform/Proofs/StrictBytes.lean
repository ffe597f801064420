import Wireform.Codec.Scalar
import Wireform.Proofs.ByteTexts
import Wireform.Proofs.Basic

set_option autoImplicit false

namespace Wireform

def asciiChar (byte : UInt8) : Char := Char.ofNat byte.toNat

theorem asciiChar_asciiByte {c : Char} (ascii : c.toNat < 128) : asciiChar (asciiByte c) = c := by
  have same : c.toNat % 2 ^ 8 = c.toNat := Nat.mod_eq_of_lt (by omega)
  rw [asciiChar, asciiByte, UInt8.toNat_ofNat', same, Char.ofNat_toNat]

theorem ascii_of_bytes {c : Char} (bytes : ∀ b ∈ String.utf8EncodeChar c, b.toNat < 128) : c.toNat < 128 := by
  -- A character that is not ASCII ends in a byte from 128 on, however many bytes it has.
  refine Nat.lt_of_not_le fun big => ?_
  have long : ¬ c.val.toNat ≤ 127 := Nat.not_le_of_lt big
  have last : UInt8.ofNat (c.val.toNat % 64 + 128) ∈ String.utf8EncodeChar c := by
    simp only [String.utf8EncodeChar, long, if_false]
    split
    · simp
    · split <;> simp
  have high := bytes _ last
  rw [UInt8.toNat_ofNat'] at high
  omega

theorem eq_of_utf8 {cs : List Char} {bytes : List UInt8} (text : cs.flatMap String.utf8EncodeChar = bytes)
    (ascii : ∀ b ∈ bytes, b.toNat < 128) : cs = bytes.map asciiChar := by
  have small : ∀ c ∈ cs, c.toNat < 128 := by
    intro c inside
    refine ascii_of_bytes fun b member => ascii b ?_
    rw [← text]
    exact List.mem_flatMap.mpr ⟨c, inside, member⟩
  rw [← text, utf8_ascii small, List.map_map]
  have same : cs.map (asciiChar ∘ asciiByte) = cs.map id :=
    List.map_congr_left fun c inside => asciiChar_asciiByte (small c inside)
  rw [same, List.map_id]

namespace Base64.Scheme

variable {scheme : Scheme}

def IsExact (scheme : Scheme) : Prop :=
  ∀ n < 256, ∀ v ∈ scheme.value? (UInt8.ofNat n), v < 64 ∧ asciiByte (scheme.symbol v) = UInt8.ofNat n

instance (scheme : Scheme) : Decidable scheme.IsExact := by
  unfold IsExact
  infer_instance

theorem IsExact.symbol (exact : scheme.IsExact) {byte : UInt8} {v : Nat} (read : scheme.value? byte = some v) :
    v < 64 ∧ asciiByte (scheme.symbol v) = byte := by
  have all := exact byte.toNat byte.toNat_lt v
  rw [UInt8.ofNat_toNat] at all
  exact all read

theorem inked_of_readBody (exact : scheme.IsExact) {offset : Nat} {bytes : List UInt8} {values : List Nat}
    (run : scheme.readBody offset bytes = .ok values) :
    bytes = scheme.inked values ∧ ∀ v ∈ values, v < 64 := by
  induction bytes generalizing offset values with
  | nil =>
    cases Except.ok.inj run
    exact ⟨rfl, by simp⟩
  | cons byte rest ih =>
    rw [readBody] at run
    split at run
    · cases run
    · rename_i v read
      obtain ⟨more, later, rfl⟩ := map_eq_ok run
      obtain ⟨small, same⟩ := exact.symbol read
      obtain ⟨inked, others⟩ := ih later
      rw [inked_cons, same, ← inked]
      exact ⟨rfl, List.forall_mem_cons.mpr ⟨small, others⟩⟩

theorem pads_of_readSuffix {start first index : Nat} {bytes : List UInt8} {entries : List (Nat × UInt8)}
    {pads : Nat} (run : scheme.readSuffix start (some first) index bytes = .ok (entries, pads)) :
    entries = [] ∧ bytes = List.replicate pads pad := by
  induction bytes generalizing first index entries pads with
  | nil =>
    cases Except.ok.inj run
    exact ⟨rfl, rfl⟩
  | cons byte rest ih =>
    rw [readSuffix] at run
    split at run
    · rename_i padding
      split at run
      · cases run
      · obtain ⟨⟨more, count⟩, later, same⟩ := map_eq_ok run
        cases same
        obtain ⟨none, replicated⟩ := ih later
        exact ⟨none, by rw [List.replicate_succ, padding, replicated]⟩
    · cases run

theorem inked_of_readSuffix (exact : scheme.IsExact) {start index : Nat} {bytes : List UInt8}
    {entries : List (Nat × UInt8)} {pads : Nat}
    (run : scheme.readSuffix start none index bytes = .ok (entries, pads)) :
    bytes = scheme.inked (entries.map (·.1)) ++ List.replicate pads pad ∧ ∀ v ∈ entries.map (·.1), v < 64 := by
  induction bytes generalizing index entries pads with
  | nil =>
    cases Except.ok.inj run
    exact ⟨rfl, by simp⟩
  | cons byte rest ih =>
    rw [readSuffix] at run
    split at run
    · rename_i padding
      split at run
      · cases run
      · obtain ⟨⟨more, count⟩, later, same⟩ := map_eq_ok run
        cases same
        obtain ⟨rfl, replicated⟩ := pads_of_readSuffix later
        exact ⟨by rw [List.replicate_succ, padding, replicated]; rfl, by simp⟩
    · split at run
      · cases run
      · rename_i v read
        obtain ⟨⟨more, count⟩, later, same⟩ := map_eq_ok run
        cases same
        obtain ⟨small, symbol⟩ := exact.symbol read
        obtain ⟨inked, others⟩ := ih later
        rw [List.map_cons, inked_cons, symbol, List.cons_append, ← inked]
        exact ⟨rfl, List.forall_mem_cons.mpr ⟨small, others⟩⟩

theorem sextets_join {values : List Nat} (small : ∀ v ∈ values, v < 64) (cut : values.length % 4 ≠ 1)
    (exact : ∀ v ∈ values.getLast?, strayBits (values.length - ahead values.length) v = 0) :
    sextets (join values) = values := by
  -- Bits that fill no byte are none, so that joining loses nothing.
  fun_induction join values with
  | case1 a b c d rest ih =>
    -- The stray bits are those of the last symbol: before it, four symbols hold three bytes.
    have later := ih (fun v inside => small v (by simp [inside])) (by simp only [List.length_cons] at cut; omega) ?_
    · simp only [List.mem_cons, forall_eq_or_imp] at small
      simp only [sextets, later, UInt8.toNat_ofNat']
      congr 1
      · omega
      congr 1
      · omega
      congr 1
      · omega
      congr 1
      omega
    · cases rest with
      | nil => simp
      | cons e more =>
        simp only [List.getLast?_cons_cons] at exact
        rw [List.length_cons, ← lastQuad_add_four]
        exact exact
  | case2 a b c =>
    simp only [List.mem_cons, forall_eq_or_imp] at small
    have stray : c % 4 = 0 := by simpa [strayBits, ahead] using exact
    simp only [sextets, UInt8.toNat_ofNat']
    congr 1
    · omega
    congr 1
    · omega
    congr 1
    omega
  | case3 a b =>
    simp only [List.mem_cons, forall_eq_or_imp] at small
    have stray : b % 16 = 0 := by simpa [strayBits, ahead] using exact
    simp only [sextets, UInt8.toNat_ofNat']
    congr 1
    · omega
    congr 1
    omega
  | case4 values whole three two =>
    -- What is left is the empty list: one symbol alone makes no byte.
    rcases values with _ | ⟨a, _ | ⟨b, _ | ⟨c, _ | ⟨d, rest⟩⟩⟩⟩
    · rfl
    · exact absurd rfl cut
    · exact absurd rfl (two a b)
    · exact absurd rfl (three a b c)
    · exact absurd rfl (whole a b c d rest)

theorem decode_passed {text : String} {bytes : List UInt8} (present : bytesOf text ≠ [])
    (run : scheme.decode text = .ok bytes) :
    ∃ body suffix pads, scheme.readBody 0 ((bytesOf text).take (ahead (bytesOf text).length)) = .ok body ∧
      scheme.readSuffix (ahead (bytesOf text).length) none 0 ((bytesOf text).drop (ahead (bytesOf text).length)) =
        .ok (suffix, pads) ∧
      2 ≤ suffix.length ∧ (if scheme.padded = true then (suffix.length + pads) % 4 = 0 else pads = 0) ∧
      ∃ entry ∈ suffix.getLast?, strayBits suffix.length entry.1 = 0 ∧ bytes = join (body ++ suffix.map (·.1)) := by
  have size : (bytesOf text).length ≠ 0 := mt List.length_eq_zero_iff.mp present
  obtain ⟨last, final⟩ : ∃ last, (bytesOf text).getLast? = some last := ⟨_, List.getLast?_eq_some_getLast present⟩
  simp only [decode, throw_bind, final, size, if_false] at run
  obtain ⟨_, run⟩ := ok_of_unless run
  obtain ⟨body, readBody, run⟩ := bind_eq_ok run
  obtain ⟨⟨suffix, pads⟩, readSuffix, run⟩ := bind_eq_ok run
  obtain ⟨enough, run⟩ := ok_of_unless run
  obtain ⟨padding, run⟩ := ok_of_either run
  dsimp only at enough padding run
  have few : 2 ≤ suffix.length := by omega
  obtain ⟨entry, found⟩ : ∃ entry, suffix.getLast? = some entry :=
    ⟨_, List.getLast?_eq_some_getLast (List.ne_nil_of_length_pos (by omega))⟩
  rw [found] at run
  obtain ⟨stray, run⟩ := ok_of_unless run
  exact ⟨body, suffix, pads, readBody, readSuffix, few, by simpa using padding, entry, found, by simpa using stray,
    (Except.ok.inj run).symm⟩

theorem inked_of_decode (exact : scheme.IsExact) {text : String} {bytes : List UInt8}
    (run : scheme.decode text = .ok bytes) :
    ∃ (values : List Nat) (pads : Nat), bytesOf text = scheme.inked values ++ List.replicate pads pad ∧
      (∀ v ∈ values, v < 64) ∧ scheme.Shaped values.length pads ∧
      (∀ v ∈ values.getLast?, strayBits (values.length - ahead values.length) v = 0) ∧ bytes = join values := by
  by_cases empty : bytesOf text = []
  · have nothing : scheme.decode text = .ok [] := by
      simp [decode, empty, readBody, readSuffix, bind, Except.bind, pure, Except.pure, join]
    cases Except.ok.inj (nothing.symm.trans run)
    exact ⟨[], 0, empty, by simp, ⟨by simp, by simp⟩, by simp, rfl⟩
  obtain ⟨body, suffix, pads, readBody, readSuffix, few, padding, entry, found, stray, joined⟩ := decode_passed empty run
  obtain ⟨bodyBytes, bodySmall⟩ := inked_of_readBody exact readBody
  obtain ⟨suffixBytes, suffixSmall⟩ := inked_of_readSuffix exact readSuffix
  have size : (bytesOf text).length ≠ 0 := mt List.length_eq_zero_iff.mp empty
  have whole := List.take_append_drop (ahead (bytesOf text).length) (bytesOf text)
  have bodyLength := congrArg List.length bodyBytes
  have suffixLength := congrArg List.length suffixBytes
  simp only [List.length_take, List.length_drop, List.length_append, List.length_map, List.length_replicate,
    length_inked, ahead] at bodyLength suffixLength
  -- The last quad begins at a whole number of quads and is no longer than one.
  have quad : body.length % 4 = 0 ∧ suffix.length + pads ≤ 4 := by omega
  refine ⟨body ++ suffix.map (·.1), pads, ?_, ?_, ⟨?_, ?_⟩, ?_, joined⟩
  · rw [← whole, bodyBytes, suffixBytes, ← List.append_assoc]
    simp [inked, symbols]
  · intro w inside
    exact (List.mem_append.mp inside).elim (bodySmall w) (suffixSmall w)
  · rw [List.length_append, List.length_map]
    omega
  · rw [List.length_append, List.length_map]
    by_cases padded : scheme.padded = true
    · simp only [padded, if_true] at padding ⊢
      omega
    · rw [if_neg padded] at padding ⊢
      exact padding
  · intro v inside
    rw [List.getLast?_append, List.getLast?_map, found] at inside
    cases inside
    have count : (body ++ suffix.map (·.1)).length - ahead (body ++ suffix.map (·.1)).length = suffix.length := by
      rw [List.length_append, List.length_map, ahead]
      omega
    rw [count]
    exact stray

theorem padding_eq (scheme : Scheme) (count : Nat) :
    scheme.padding count = List.replicate (scheme.padding count).length '=' := by
  simp only [padding]
  split <;> simp

theorem map_asciiChar_inked (sound : scheme.IsSound) {values : List Nat} (small : ∀ v ∈ values, v < 64) :
    (scheme.inked values).map asciiChar = scheme.symbols values := by
  rw [inked, List.map_map]
  refine (List.map_congr_left fun c inside => ?_).trans (List.map_id _)
  obtain ⟨v, member, rfl⟩ := List.mem_map.mp inside
  exact asciiChar_asciiByte (sound v (small v member)).2.1

theorem encode_of_decode (sound : scheme.IsSound) (exact : scheme.IsExact) {text : String} {bytes : List UInt8}
    (run : scheme.decode text = .ok bytes) : scheme.encode bytes = text.toList := by
  obtain ⟨values, pads, written, small, shaped, stray, rfl⟩ := inked_of_decode exact run
  have same := sextets_join small shaped.1 stray
  have padding := (shaped_sextets scheme (join values)).2
  rw [same, ← shaped.2] at padding
  have ascii : ∀ b ∈ scheme.inked values ++ List.replicate pads pad, b.toNat < 128 := by
    intro b inside
    rcases List.mem_append.mp inside with symbol | padded
    · obtain ⟨c, member, rfl⟩ := List.mem_map.mp symbol
      obtain ⟨v, value, rfl⟩ := List.mem_map.mp member
      have range := (sound v (small v value)).2.1
      rw [asciiByte, UInt8.toNat_ofNat']
      omega
    · rw [List.eq_of_mem_replicate padded]
      decide
  -- All symbols are ASCII, so the bytes determine the text.
  rw [eq_of_utf8 written ascii, encode_eq, same, padding_eq, padding, List.map_append,
    map_asciiChar_inked sound small, List.map_replicate]
  rfl

end Base64.Scheme

namespace Hex

-- Capitals are read as well, so it is the lower case of the byte that is the digit.
theorem digit_of_value? : ∀ n < 256, ∀ v ∈ value? (UInt8.ofNat n),
    v < 16 ∧ n < 128 ∧ (Char.ofNat n).toLower = digit v := by
  decide +kernel

theorem value?_of_toLower : ∀ n < 128, ∀ v < 16, (Char.ofNat n).toLower = digit v →
    value? (UInt8.ofNat n) = some v := by
  decide +kernel

theorem ascii_of_toLower {c : Char} (small : c.toLower.toNat < 128) : c.toNat < 128 := by
  by_cases capital : c.val ≥ 'A'.val ∧ c.val ≤ 'Z'.val
  · exact Nat.lt_of_le_of_lt (UInt32.le_iff_toNat_le.mp capital.2) (by decide)
  · have same : c.toLower = c := dif_neg capital
    rwa [same] at small

theorem digit_of_read {byte : UInt8} {v : Nat} (read : value? byte = some v) :
    v < 16 ∧ byte.toNat < 128 ∧ (asciiChar byte).toLower = digit v := by
  have all := digit_of_value? byte.toNat byte.toNat_lt v
  rw [UInt8.ofNat_toNat] at all
  exact all read

theorem read_of_digit {c : Char} {v : Nat} (small : v < 16) (lower : c.toLower = digit v) :
    c.toNat < 128 ∧ value? (asciiByte c) = some v := by
  have ascii : c.toNat < 128 := ascii_of_toLower (lower ▸ (value?_digit v small).2)
  refine ⟨ascii, value?_of_toLower c.toNat ascii v small ?_⟩
  rw [Char.ofNat_toNat, lower]

theorem encode_cons (byte : UInt8) (bytes : List UInt8) :
    encode (byte :: bytes) = digit (byte.toNat / 16) :: digit (byte.toNat % 16) :: encode bytes := rfl

theorem encode_of_readPairs {offset : Nat} {digits bytes : List UInt8} (run : readPairs offset digits = .ok bytes)
    (even : digits.length % 2 = 0) :
    (∀ b ∈ digits, b.toNat < 128) ∧ digits.map (fun b => (asciiChar b).toLower) = encode bytes := by
  fun_induction readPairs offset digits generalizing bytes with
  | case1 => cases run
  | case2 => cases run
  | case3 offset high low rest h l readLow readHigh ih =>
    obtain ⟨more, later, rfl⟩ := map_eq_ok run
    obtain ⟨highSmall, highAscii, first⟩ := digit_of_read readHigh
    obtain ⟨lowSmall, lowAscii, second⟩ := digit_of_read readLow
    obtain ⟨ascii, lower⟩ := ih later (by simp only [List.length_cons] at even; omega)
    constructor
    · simpa using ⟨highAscii, lowAscii, ascii⟩
    · have byte : (UInt8.ofNat (h * 16 + l)).toNat = h * 16 + l := by
        rw [UInt8.toNat_ofNat']
        omega
      have high : (h * 16 + l) / 16 = h := by omega
      have low : (h * 16 + l) % 16 = l := by omega
      rw [encode_cons, byte, high, low, List.map_cons, List.map_cons, first, second, lower]
  | case4 digits offset short =>
    cases Except.ok.inj run
    -- Of digits in even number only none make no pair.
    match digits with
    | [] => exact ⟨by simp, rfl⟩
    | [_] => cases even
    | high :: low :: rest => exact absurd rfl (short high low rest)

theorem readPairs_of_toLower (offset : Nat) {cs : List Char} {bytes : List UInt8}
    (lower : cs.map Char.toLower = encode bytes) :
    (∀ c ∈ cs, c.toNat < 128) ∧ readPairs offset (cs.map asciiByte) = .ok bytes := by
  induction bytes generalizing offset cs with
  | nil =>
    cases List.map_eq_nil_iff.mp lower
    exact ⟨by simp, rfl⟩
  | cons byte bytes ih =>
    rw [encode_cons] at lower
    obtain ⟨high, more, rfl, first, lower⟩ := List.map_eq_cons_iff.mp lower
    obtain ⟨low, rest, rfl, second, lower⟩ := List.map_eq_cons_iff.mp lower
    have size := byte.toNat_lt
    obtain ⟨highAscii, readHigh⟩ := read_of_digit (by omega) first
    obtain ⟨lowAscii, readLow⟩ := read_of_digit (by omega) second
    obtain ⟨ascii, later⟩ := ih (offset + 2) lower
    have value : byte.toNat / 16 * 16 + byte.toNat % 16 = byte.toNat := by omega
    constructor
    · simpa using ⟨highAscii, lowAscii, ascii⟩
    · simp only [List.map_cons, readPairs, readHigh, readLow, later, Except.map, value, UInt8.ofNat_toNat]

theorem decode_eq_ok_iff {text : String} {bytes : List UInt8} :
    decode text = .ok bytes ↔ text.toLower.toList = encode bytes := by
  have characters : text.toLower.toList = text.toList.map Char.toLower := String.toList_map
  rw [characters]
  constructor
  · intro run
    simp only [decode] at run
    obtain ⟨even, run⟩ := ok_of_unless run
    obtain ⟨ascii, lower⟩ := encode_of_readPairs run (by omega)
    rw [eq_of_utf8 rfl ascii, List.map_map]
    exact lower
  · intro lower
    obtain ⟨ascii, read⟩ := readPairs_of_toLower 0 lower
    have even := congrArg List.length lower
    rw [List.length_map, length_encode] at even
    have odd : ¬ text.toList.length % 2 = 1 := by omega
    simp only [decode, utf8_ascii ascii, List.length_map, odd, if_false]
    exact read

end Hex

namespace BytesEncoding

theorem isExact_scheme {encoding : BytesEncoding} {scheme : Base64.Scheme}
    (found : encoding.scheme? = some scheme) : scheme.IsExact := by
  cases encoding with
  | unspecified => cases found; decide +kernel
  | base64 => cases found; decide +kernel
  | base64Raw => cases found; decide +kernel
  | base64Url => cases found; decide +kernel
  | base64UrlRaw => cases found; decide +kernel
  | hex => cases found

def settled (encoding : BytesEncoding) (text : String) : String :=
  if encoding = .hex then text.toLower else text

theorem decode_eq_ok_iff {encoding : BytesEncoding} {text : String} {bytes : List UInt8} :
    encoding.decode text = .ok bytes ↔ encoding.settled text = encoding.encode bytes := by
  cases found : encoding.scheme? with
  | some scheme =>
    have strict : encoding ≠ .hex := by
      rintro rfl
      cases found
    rw [settled, if_neg strict]
    constructor
    · intro run
      simp only [decode, found] at run
      have same := Base64.Scheme.encode_of_decode (isSound_scheme found) (isExact_scheme found) (mapError_eq_ok run)
      simp only [encode, found, same, String.ofList_toList]
    · rintro rfl
      exact decode_encode encoding bytes
  | none =>
    have hex : encoding = .hex := by
      cases encoding <;> first | rfl | cases found
    subst hex
    rw [settled, if_pos rfl, encode, found, decode, found, ← String.toList_inj, String.toList_ofList,
      ← Hex.decode_eq_ok_iff]
    constructor
    · exact mapError_eq_ok
    · intro read
      simp only [read]
      rfl

/-- A text is read exactly when an encoding writes it, but for the case of hexadecimal digits. -/
theorem reads_what_is_written (encoding : BytesEncoding) :
    (∀ bytes, encoding.decode (encoding.encode bytes) = .ok bytes) ∧
      (∀ text bytes, encoding.decode text = .ok bytes ↔ encoding.settled text = encoding.encode bytes) ∧
      ∀ text bytes, base64.decode text = .ok bytes →
        ∃ wire, (Transform.bytesAs encoding).encodeValue (.str text) = .ok wire ∧
          (Transform.bytesAs encoding).decodeValue wire = .ok (.str text) := by
  refine ⟨decode_encode encoding, fun _ _ => decode_eq_ok_iff, fun text bytes valid => ?_⟩
  refine ⟨.str (encoding.encode bytes), by simp only [Transform.encodeValue, valid], ?_⟩
  have same : base64.encode bytes = text := (decode_eq_ok_iff.mp valid).symm
  simp only [Transform.decodeValue, decode_encode, same]

end BytesEncoding

end Wireform
