import Mathlib
import Wireform.Codec.Scalar
import Wireform.Time.Rfc3339

set_option autoImplicit false

namespace Wireform

theorem isDigit_of_mem_toDigits {n : Nat} {c : Char} (h : c ∈ Nat.toDigits 10 n) : c.isDigit = true :=
  Nat.isDigit_of_mem_toDigits (by decide) (by decide) h

namespace Integer

theorem magnitude_eq (digits : List Char) : magnitude digits = Nat.ofDigitChars 10 digits 0 := by
  simp only [magnitude, Nat.ofDigitChars_eq_foldl, Nat.mul_comm]

theorem ofDigits?_toDigits (n : Nat) : ofDigits? (Nat.toDigits 10 n) = some n := by
  have digits : (Nat.toDigits 10 n).all Char.isDigit = true := by
    rw [List.all_eq_true]
    intro c inside
    exact isDigit_of_mem_toDigits inside
  have present : (Nat.toDigits 10 n).isEmpty = false := by
    rw [List.isEmpty_eq_false_iff]
    exact Nat.toDigits_ne_nil
  simp [ofDigits?, digits, present, magnitude_eq]

theorem toList_toString_ofNat (n : Nat) : (toString (n : Int)).toList = Nat.toDigits 10 n := by
  rw [Int.toString_eq_repr, Int.repr.eq_def]
  exact Nat.toList_repr

theorem toList_toString_negSucc (n : Nat) :
    (toString (Int.negSucc n)).toList = '-' :: Nat.toDigits 10 (n + 1) := by
  rw [Int.toString_eq_repr, Int.repr.eq_def]
  simp [String.toList_append, Nat.toList_repr]

theorem parse_toString_ofNat (unsigned : Bool) (n : Nat) :
    parse unsigned (toString (n : Int)) = if inRange unsigned n then some (n : Int) else none := by
  have read := ofDigits?_toDigits n
  have digits : ∀ c ∈ Nat.toDigits 10 n, c.isDigit = true := fun _ => isDigit_of_mem_toDigits
  rw [parse, toList_toString_ofNat]
  cases written : Nat.toDigits 10 n with
  | nil => exact absurd written Nat.toDigits_ne_nil
  | cons c rest =>
    have first : c.isDigit = true := digits c (by simp [written])
    rw [written] at read
    split
    · rename_i plus
      rw [(List.cons.inj plus).1] at first
      exact absurd first (by decide)
    · rename_i minus
      rw [(List.cons.inj minus).1] at first
      exact absurd first (by decide)
    · simp only [read, Option.map_some, Option.bind_eq_bind, Option.bind_some, Int.ofNat_eq_natCast]

theorem parse_toString_negSucc (n : Nat) :
    parse false (toString (Int.negSucc n)) =
      if inRange false (Int.negSucc n) then some (Int.negSucc n) else none := by
  have value : -((n + 1 : Nat) : Int) = Int.negSucc n := by omega
  rw [parse, toList_toString_negSucc]
  simp only [ofDigits?_toDigits, Bool.false_eq_true, if_false, Option.pure_def, Option.bind_eq_bind]
  rw [Option.bind_some, Option.map_some, Option.bind_some, value]

theorem inRange_unsigned_negSucc (n : Nat) : inRange true (Int.negSucc n) = false := by
  have negative : decide (0 ≤ Int.negSucc n) = false := decide_eq_false (by omega)
  rw [inRange, if_pos rfl, negative, Bool.false_and]

theorem parse_toString_eq (unsigned : Bool) (n : Int) :
    parse unsigned (toString n) = if inRange unsigned n then some n else none := by
  cases n with
  | ofNat n => exact parse_toString_ofNat unsigned n
  | negSucc n =>
    cases unsigned with
    | false => exact parse_toString_negSucc n
    | true =>
      rw [inRange_unsigned_negSucc, parse, toList_toString_negSucc]
      rfl

theorem parse_toString {unsigned : Bool} {n : Int} (inside : inRange unsigned n = true) :
    parse unsigned (toString n) = some n := by
  rw [parse_toString_eq, if_pos inside]

end Integer

namespace Time

theorem isDigit_of_mem_padded (width n : Nat) {c : Char} (h : c ∈ padded width n) :
    c.isDigit = true := by
  simp only [padded, List.mem_append, List.mem_replicate] at h
  rcases h with ⟨_, rfl⟩ | inside
  · decide
  · exact isDigit_of_mem_toDigits inside

theorem value_padded (width n : Nat) : Nat.ofDigitChars 10 (padded width n) 0 = n := by
  simp [padded, Nat.ofDigitChars_append]

theorem length_padded {width n : Nat} (positive : 0 < width) (fits : n < 10 ^ width) :
    (padded width n).length = width := by
  have bound := (Nat.length_toDigits_le_iff (n := n) (by decide : 1 < 10) positive).mpr fits
  simp only [padded, List.length_append, List.length_replicate]
  omega

namespace Rfc3339

theorem readFixed_digits {digits : List Char} (all : ∀ c ∈ digits, c.isDigit = true) (sum : Nat)
    (rest : List Char) :
    readFixed digits.length sum (digits ++ rest) = .ok (Nat.ofDigitChars 10 digits sum, rest) := by
  induction digits generalizing sum with
  | nil => rfl
  | cons c digits ih =>
    have first := all c (by simp)
    have others := ih (fun d inside => all d (by simp [inside])) (sum * 10 + digitValue c)
    simp only [List.length_cons, List.cons_append, readFixed, first, if_true, others,
      Nat.ofDigitChars_cons]
    rw [Nat.mul_comm sum 10]
    rfl

theorem readFixed_padded {width n : Nat} (positive : 0 < width) (fits : n < 10 ^ width)
    (rest : List Char) : readFixed width 0 (padded width n ++ rest) = .ok (n, rest) := by
  have read := readFixed_digits (fun _ => isDigit_of_mem_padded width n) 0 rest
  rwa [length_padded positive fits, value_padded] at read

end Rfc3339

end Time

namespace Number

def IsIn (unsigned : Bool) : Number → Prop
  | .int n => Integer.inRange unsigned n = true
  | .float _ => False

instance (unsigned : Bool) : (number : Number) → Decidable (number.IsIn unsigned)
  | .int n => inferInstanceAs (Decidable (Integer.inRange unsigned n = true))
  | .float _ => inferInstanceAs (Decidable False)

def IsJson : Number → Prop
  | .int n => ∀ unsigned, (Number.int n).IsIn unsigned ∨ (Number.int n).IsIn !unsigned
  | .float _ => True

instance : (number : Number) → Decidable number.IsJson
  | .int n => inferInstanceAs (Decidable (∀ unsigned, (Number.int n).IsIn unsigned ∨ (Number.int n).IsIn !unsigned))
  | .float _ => inferInstanceAs (Decidable True)

end Number

namespace Transform

variable (unsigned : Bool)

theorem decodeValue_int (n : Int) : (integerAsNumber unsigned).decodeValue (.int n) = .ok (.str (toString n)) := rfl

theorem encodeValue_int (n : Int) : (integerAsNumber unsigned).encodeValue (.str (toString n)) =
    if Integer.inRange unsigned n then .ok (.int n) else .error (.notInteger (toString n)) := by
  simp only [encodeValue, Integer.parse_toString_eq]
  by_cases inside : Integer.inRange unsigned n = true
  · simp only [inside, if_true]
  · simp only [inside]
    rfl

/-- Integers are read, whichever word they are of, and written back if they are of the word of the field. -/
theorem integers_decoded {number : Number} (json : number.IsJson) :
    ((∃ value, (integerAsNumber unsigned).decodeValue (.num number) = .ok value) ↔
        number.IsIn unsigned ∨ number.IsIn !unsigned) ∧
      ∀ value, (integerAsNumber unsigned).decodeValue (.num number) = .ok value →
        (∃ n : Int, number = .int n ∧ value = .str (toString n)) ∧
          (number.IsIn unsigned → (integerAsNumber unsigned).encodeValue value = .ok (.num number)) ∧
          (¬ number.IsIn unsigned → ∃ fault, (integerAsNumber unsigned).encodeValue value = .error fault) := by
  cases number with
  | float x =>
    -- A floating-point number is not read, even if it has no fraction.
    have refused (value : Json) : (integerAsNumber unsigned).decodeValue (.num (.float x)) ≠ .ok value := nofun
    exact ⟨⟨fun ⟨value, run⟩ => absurd run (refused value), nofun⟩, fun value run => absurd run (refused value)⟩
  | int n =>
    refine ⟨⟨fun _ => json unsigned, fun _ => ⟨_, decodeValue_int unsigned n⟩⟩, fun value run => ?_⟩
    cases Except.ok.inj ((decodeValue_int unsigned n).symm.trans run)
    refine ⟨⟨n, rfl, rfl⟩, fun inside => ?_, fun outside => ?_⟩
    · have held : Integer.inRange unsigned n = true := inside
      rw [encodeValue_int, if_pos held]
      rfl
    · have stray : ¬ Integer.inRange unsigned n = true := outside
      rw [encodeValue_int, if_neg stray]
      exact ⟨_, rfl⟩

theorem integers_decoded_greatest : (Number.int 18446744073709551615).IsJson ∧
    ∃ value, (integerAsNumber true).decodeValue (.int 18446744073709551615) = .ok value ∧
      (integerAsNumber true).encodeValue value = .ok (.int 18446744073709551615) := by
  have json : (Number.int 18446744073709551615).IsJson := by decide
  have inside : (Number.int 18446744073709551615).IsIn true := by decide
  obtain ⟨reads, comes_back⟩ := integers_decoded true json
  obtain ⟨value, read⟩ := reads.mpr (.inl inside)
  exact ⟨json, value, read, (comes_back value read).2.1 inside⟩

/-- A negative number is read for an unsigned field, which has none. -/
theorem integers_overreach : ¬ ∀ (unsigned : Bool) (number : Number), number.IsJson →
    ((∃ value, (integerAsNumber unsigned).decodeValue (.num number) = .ok value) ↔ number.IsIn unsigned) := by
  intro exact_words
  have inside := (exact_words true (.int (-1)) (by decide)).mp ⟨_, decodeValue_int true (-1)⟩
  exact absurd inside (by decide)

end Transform

end Wireform
