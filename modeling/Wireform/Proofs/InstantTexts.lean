import Wireform.Proofs.CalendarDays
import Wireform.Proofs.Numerals
import Wireform.Proofs.Basic
import Wireform.Timestamp

set_option autoImplicit false

namespace Wireform

namespace Time

def Date.HasCommonYear (d : Date) : Prop := 0 ≤ d.year ∧ d.year ≤ 9999

instance (d : Date) : Decidable d.HasCommonYear := inferInstanceAs (Decidable (_ ∧ _))

theorem padded_cons (width n : Nat) : ∃ c rest, padded width n = c :: rest ∧ c.isDigit = true := by
  cases written : padded width n with
  | nil =>
    have digits := (List.append_eq_nil_iff.mp written).2
    exact absurd digits Nat.toDigits_ne_nil
  | cons c rest =>
    exact ⟨c, rest, rfl, isDigit_of_mem_padded width n (by simp [written])⟩

theorem digit_bounds {c : Char} (digit : c.isDigit = true) : 48 ≤ c.toNat ∧ c.toNat ≤ 57 := by
  simp only [Char.isDigit, Bool.and_eq_true, decide_eq_true_eq] at digit
  exact digit

theorem dropWhile_isBlank_padded (width n : Nat) (rest : List Char) :
    (padded width n ++ rest).dropWhile Text.isBlank = padded width n ++ rest := by
  obtain ⟨c, digits, written, digit⟩ := padded_cons width n
  rw [written, List.cons_append, List.dropWhile_cons_of_neg (by simp [Text.isBlank_digit digit])]

namespace Date

theorem yearText_common {d : Date} (common : d.HasCommonYear) :
    yearText d.year = padded 4 d.year.natAbs := by
  obtain ⟨low, high⟩ := common
  have notNegative : ¬ d.year < 0 := by omega
  have notLong : ¬ 9999 < d.year := by omega
  simp only [yearText, notNegative, notLong, if_false]

theorem readDigits_digits {digits : List Char} (all : ∀ c ∈ digits, c.isDigit = true) {sum : Nat}
    (fits : 10 ^ digits.length * (sum + 1) ≤ greatestWord) {most : Option Nat} {rest : List Char}
    (ends : most = some digits.length ∨ most = none ∧ ∀ c ∈ rest.head?, c.isDigit = false) :
    readDigits sum most (digits ++ rest) = .ok (Nat.ofDigitChars 10 digits sum, rest) := by
  induction digits generalizing sum most with
  | nil =>
    rcases ends with rfl | ⟨rfl, stop⟩
    · cases rest <;> rfl
    · cases rest with
      | nil => rfl
      | cons c rest => simp [readDigits, stop c rfl]
  | cons c digits ih =>
    have first := all c (by simp)
    have bounds := digit_bounds first
    have zero : '0'.toNat = 48 := rfl
    -- The bound on the whole numeral passes to its tail with the sum read so far, so no digit overflows.
    have next : 10 ^ digits.length * (sum * 10 + (c.toNat - '0'.toNat) + 1) ≤ greatestWord :=
      calc 10 ^ digits.length * (sum * 10 + (c.toNat - '0'.toNat) + 1)
          ≤ 10 ^ digits.length * (10 * (sum + 1)) := Nat.mul_le_mul_left _ (by omega)
        _ = 10 ^ (digits.length + 1) * (sum + 1) := by rw [Nat.pow_succ, Nat.mul_assoc]
        _ ≤ greatestWord := fits
    have within : ¬ greatestWord < sum * 10 + (c.toNat - '0'.toNat) := by
      have positive : 1 ≤ 10 ^ digits.length := Nat.one_le_pow _ _ (by decide)
      have grown := Nat.mul_le_mul_right (sum * 10 + (c.toNat - '0'.toNat) + 1) positive
      omega
    have fewer : most.map (· - 1) = some digits.length ∨
        most.map (· - 1) = none ∧ ∀ c ∈ rest.head?, c.isDigit = false := by
      rcases ends with rfl | ⟨rfl, stop⟩
      · exact .inl rfl
      · exact .inr ⟨rfl, stop⟩
    have later := ih (fun d inside => all d (by simp [inside])) next fewer
    rcases ends with rfl | ⟨rfl, _⟩ <;>
      simpa only [List.length_cons, List.cons_append, readDigits, first, if_true, within, if_false,
        Nat.ofDigitChars_cons, Nat.mul_comm 10 sum] using later

theorem readNumber_padded {width n : Nat} (short : width ≤ 9) (fits : n < 10 ^ 9) {most : Option Nat}
    {rest : List Char} (ends : most = some (padded width n).length ∨
      most = none ∧ ∀ c ∈ rest.head?, c.isDigit = false) :
    readNumber most (padded width n ++ rest) = .ok (n, rest) := by
  have length : (padded width n).length ≤ 9 := by
    have digits := (Nat.length_toDigits_le_iff (n := n) (by decide : 1 < 10) (by decide : 0 < 9)).mpr fits
    simp only [padded, List.length_append, List.length_replicate]
    omega
  have bound : 10 ^ (padded width n).length * (0 + 1) ≤ greatestWord := by
    rw [Nat.zero_add, Nat.mul_one]
    exact Nat.le_trans (Nat.pow_le_pow_right (by decide) length) (by decide)
  have read := readDigits_digits (fun _ => isDigit_of_mem_padded width n) bound ends
  rw [value_padded] at read
  obtain ⟨c, digits, written, digit⟩ := padded_cons width n
  rw [written, List.cons_append] at read ⊢
  simp only [readNumber, digit, if_true, read]

theorem readYear_yearText {year : Int} (small : year.natAbs < 10 ^ 9) {rest : List Char}
    (stop : ∀ c ∈ rest.head?, c.isDigit = false) : readYear (yearText year ++ rest) = .ok (year, rest) := by
  have inWord : -0x80000000 ≤ year ∧ year < 0x80000000 := by omega
  have signed : readNumber none (padded 4 year.natAbs ++ rest) = .ok (year.natAbs, rest) :=
    readNumber_padded (by decide) small (.inr ⟨rfl, stop⟩)
  rw [readYear]
  by_cases negative : year < 0
  · have value : -(year.natAbs : Int) = year := by omega
    have sign : Text.isBlank '-' = false := by decide
    rw [yearText, if_pos negative, List.cons_append, List.dropWhile_cons_of_neg (by simp [sign])]
    simp only [signed, ok_bind, pure_bind, value]
    rw [if_pos inWord]
    rfl
  have value : (year.natAbs : Int) = year := Int.natAbs_of_nonneg (by omega)
  by_cases long : 9999 < year
  · have sign : Text.isBlank '+' = false := by decide
    rw [yearText, if_neg negative, if_pos long, List.cons_append, List.dropWhile_cons_of_neg (by simp [sign])]
    simp only [signed, ok_bind, pure_bind, value]
    rw [if_pos inWord]
    rfl
  · have length : (padded 4 year.natAbs).length = 4 := length_padded (by decide) (by omega)
    have read : readNumber (some 4) (padded 4 year.natAbs ++ rest) = .ok (year.natAbs, rest) :=
      readNumber_padded (by decide) small (.inl (congrArg some length.symm))
    rw [yearText, if_neg negative, if_neg long, dropWhile_isBlank_padded]
    obtain ⟨c, digits, written, digit⟩ := padded_cons 4 year.natAbs
    have bounds := digit_bounds digit
    rw [written, List.cons_append] at read ⊢
    -- The first character is a digit and no sign.
    split
    · rename_i minus
      rw [(List.cons.inj minus).1] at bounds
      exact absurd bounds (by decide)
    · rename_i plus
      rw [(List.cons.inj plus).1] at bounds
      exact absurd bounds (by decide)
    · simp only [read, ok_bind, pure_bind, value]
      rw [if_pos inWord]
      rfl

theorem readPart_padded (bound : Nat) {n : Nat} (positive : 1 ≤ n) (inBound : n ≤ bound) (two : bound < 100)
    (rest : List Char) : readPart bound (padded 2 n ++ rest) = .ok (n, rest) := by
  have length : (padded 2 n).length = 2 := length_padded (by decide) (by omega)
  have read : readNumber (some 2) (padded 2 n ++ rest) = .ok (n, rest) :=
    readNumber_padded (by decide) (by omega) (.inl (congrArg some length.symm))
  simp only [readPart, dropWhile_isBlank_padded, read, bind, Except.bind, pure, Except.pure, positive,
    inBound, and_self, if_true]

theorem parse_text {d : Date} (real : d.inCalendar = true) : parse d.text = .ok d := by
  have parts := real
  simp only [inCalendar, Bool.and_eq_true, decide_eq_true_eq] at parts
  obtain ⟨⟨⟨⟨⟨least, greatest⟩, one⟩, twelve⟩, first⟩, last⟩ := parts
  have short := monthLength_le d.year d.month
  have earliest : firstYear = -262143 := rfl
  have latest : lastYear = 262142 := rfl
  have readYear : readYear (yearText d.year ++ '-' :: (padded 2 d.month ++ '-' :: padded 2 d.day)) =
      .ok (d.year, '-' :: (padded 2 d.month ++ '-' :: padded 2 d.day)) :=
    readYear_yearText (by omega) (by simp)
  have readMonth := readPart_padded 12 one twelve (by decide) ('-' :: padded 2 d.day)
  have readDay := readPart_padded 31 first (by omega) (by decide) []
  rw [List.append_nil] at readDay
  simp only [parse, text, chars, String.toList_ofList, List.append_assoc,
    List.cons_append, List.nil_append, readYear, readMonth, readDay, readHyphen, bind, Except.bind,
    if_true, List.isEmpty_nil, Bool.not_true, Bool.false_eq_true, if_false, real, pure, Except.pure]

end Date

namespace Rfc3339

theorem readFraction_padded {width n : Nat} (positive : 0 < width) (short : width ≤ 9)
    (fits : n < 10 ^ width) {rest : List Char} (stop : ∀ c ∈ rest.head?, c.isDigit = false) :
    readFraction ('.' :: (padded width n ++ rest)) = .ok (n * Nat.pow 10 (9 - width), rest) := by
  have digits : ∀ c ∈ padded width n, c.isDigit = true := fun _ => isDigit_of_mem_padded width n
  have ends : rest.takeWhile Char.isDigit = [] ∧ rest.dropWhile Char.isDigit = rest := by
    cases rest with
    | nil => exact ⟨rfl, rfl⟩
    | cons c rest =>
      have notDigit := stop c rfl
      simp [notDigit]
  have taken : (padded width n ++ rest).takeWhile Char.isDigit = padded width n := by
    rw [List.takeWhile_append_of_pos digits, ends.1, List.append_nil]
  have left : (padded width n ++ rest).dropWhile Char.isDigit = rest := by
    rw [List.dropWhile_append_of_pos digits, ends.2]
  have value : (padded width n).foldl (fun sum d => sum * 10 + digitValue d) 0 = n := by
    have read := value_padded width n
    simpa only [Nat.ofDigitChars_eq_foldl, Nat.mul_comm 10, digitValue] using read
  have length := length_padded positive fits
  have nine : (padded width n).take 9 = padded width n :=
    List.take_of_length_le (by rw [length]; exact short)
  obtain ⟨c, more, written, digit⟩ := padded_cons width n
  rw [written] at taken left nine value length ⊢
  rw [List.cons_append] at taken left ⊢
  simp only [readFraction, digit, if_true, taken, left, nine, value, length]

theorem readFraction_fractionChars {nanos : Nat} (short : nanos < nanosPerSecond) :
    readFraction (Instant.fractionChars nanos ++ ['Z']) = .ok (nanos, ['Z']) := by
  have bound : nanos < 1000000000 := short
  have stop : ∀ c ∈ ['Z'].head?, c.isDigit = false := by simp
  simp only [Instant.fractionChars]
  by_cases whole : nanos = 0
  · simp only [whole, if_true]
    rfl
  · by_cases millis : nanos % 1000000 = 0
    · have value : nanos / 1000000 * Nat.pow 10 (9 - 3) = nanos := by
        simp only [Nat.reduceSub, Nat.pow_eq, Nat.reducePow]
        omega
      simp only [whole, millis, if_false, if_true, List.cons_append]
      rw [readFraction_padded (by decide) (by decide) (by omega) stop, value]
    · by_cases micros : nanos % 1000 = 0
      · have value : nanos / 1000 * Nat.pow 10 (9 - 6) = nanos := by
          simp only [Nat.reduceSub, Nat.pow_eq, Nat.reducePow]
          omega
        simp only [whole, millis, micros, if_false, if_true, List.cons_append]
        rw [readFraction_padded (by decide) (by decide) (by omega) stop, value]
      · simp only [whole, millis, micros, if_false, List.cons_append]
        rw [readFraction_padded (by decide) (by decide) (by omega) stop]
        simp

theorem fewerBytes_long {count : Nat} {cs : List Char} (long : count ≤ cs.length) :
    fewerBytes count cs = false := by
  have bytes := Text.length_le_byteCount (cs.take count)
  rw [List.length_take, Nat.min_eq_left long] at bytes
  simp only [fewerBytes, decide_eq_false_iff_not]
  omega

end Rfc3339

namespace Instant

variable {t : Instant}

theorem seconds_eq (t : Instant) :
    t.date.dayNumber * secondsPerDay + t.secondOfDay = t.seconds ∧ t.secondOfDay < 86400 := by
  have nonneg := Int.emod_nonneg t.seconds (b := secondsPerDay) (by decide)
  have short := Int.emod_lt_of_pos t.seconds (b := secondsPerDay) (by decide)
  have whole := Int.mul_ediv_add_emod t.seconds secondsPerDay
  have day : secondsPerDay = 86400 := rfl
  rw [date, Date.dayNumber_ofDayNumber, secondOfDay]
  rw [day] at nonneg short whole ⊢
  omega

theorem inCalendar_date (t : Instant) : t.date.inCalendar = true := by
  obtain ⟨least, greatest, _, _⟩ := t.valid
  have low : leastSecond = -8334601228800 := rfl
  have high : greatestSecond = 8210266876799 := rfl
  have day : secondsPerDay = 86400 := rfl
  have days : -96465292 ≤ t.seconds / secondsPerDay ∧ t.seconds / secondsPerDay < 95026237 := by
    rw [day]
    omega
  have begins : Date.dayNumber ⟨Date.firstYear, 1, 1⟩ = -96465292 := by decide
  have ends : Date.dayNumber ⟨Date.lastYear + 1, 1, 1⟩ = 95026237 := by decide
  have after := (Date.le_year_iff Date.firstYear (t.seconds / secondsPerDay)).mpr (by omega)
  have before := mt (Date.le_year_iff (Date.lastYear + 1) (t.seconds / secondsPerDay)).mp (by omega)
  exact Date.inCalendar_ofDayNumber after (by omega)

theorem of?_seconds_nanos (t : Instant) : of? t.seconds t.nanos = some t := by
  rw [of?, dif_pos t.valid]

theorem leap_spec (t : Instant) : t.nanos / nanosPerSecond ≤ 1 ∧
    (t.nanos / nanosPerSecond = 1 → t.secondOfDay % 60 = 59) := by
  obtain ⟨_, _, twice, leap⟩ := t.valid
  have size : nanosPerSecond = 1000000000 := rfl
  have nonneg := Int.emod_nonneg t.seconds (b := secondsPerDay) (by decide)
  have day : secondsPerDay = 86400 := rfl
  rw [size] at twice leap ⊢
  refine ⟨by omega, fun one => ?_⟩
  have last := leap (by omega)
  simp only [secondOfDay]
  rw [day] at nonneg ⊢
  omega

theorem clock_spec (t : Instant) :
    let second := t.secondOfDay % 60 + t.nanos / nanosPerSecond
    t.secondOfDay / 3600 ≤ 23 ∧ t.secondOfDay / 60 % 60 ≤ 59 ∧ second ≤ 60 ∧
      second / 60 = t.nanos / nanosPerSecond ∧
      t.secondOfDay / 3600 * 3600 + t.secondOfDay / 60 % 60 * 60 +
        (second - t.nanos / nanosPerSecond) = t.secondOfDay := by
  obtain ⟨_, clock⟩ := t.seconds_eq
  obtain ⟨once, last⟩ := t.leap_spec
  simp only
  rcases Nat.le_one_iff_eq_zero_or_eq_one.mp once with none | one
  · rw [none]
    omega
  · have final := last one
    rw [one]
    omega

theorem date_spec (common : t.date.HasCommonYear) :
    t.date.year.natAbs < 10 ^ 4 ∧ t.date.month < 10 ^ 2 ∧ t.date.day < 10 ^ 2 ∧
      (⟨(t.date.year.natAbs : Int), t.date.month, t.date.day⟩ : Date) = t.date := by
  have calendar := t.inCalendar_date
  obtain ⟨low, high⟩ := common
  simp only [Date.inCalendar, Bool.and_eq_true, decide_eq_true_eq] at calendar
  obtain ⟨⟨⟨⟨_, _⟩, twelve⟩, _⟩, last⟩ := calendar
  have monthDays := Date.monthLength_le t.date.year t.date.month
  refine ⟨by omega, by omega, by omega, ?_⟩
  rw [Int.natAbs_of_nonneg low]

theorem parse_text (common : t.date.HasCommonYear) : Rfc3339.parse t.text = .ok t := by
  obtain ⟨seconds, _⟩ := t.seconds_eq
  obtain ⟨hour, minute, second, leap, clock⟩ := t.clock_spec
  obtain ⟨year, month, day, date⟩ := date_spec common
  have calendar := t.inCalendar_date
  have hours : t.secondOfDay / 3600 < 10 ^ 2 := by omega
  have minutes : t.secondOfDay / 60 % 60 < 10 ^ 2 := by omega
  have twoDigits : t.secondOfDay % 60 + t.nanos / nanosPerSecond < 10 ^ 2 := by omega
  have inRange : ¬ (23 < t.secondOfDay / 3600 ∨ 59 < t.secondOfDay / 60 % 60 ∨
      60 < t.secondOfDay % 60 + t.nanos / nanosPerSecond) := by omega
  have long : 19 ≤ t.chars.length := by
    simp only [chars, Date.chars, Date.yearText_common common, List.length_append, List.length_cons,
      List.length_nil, length_padded (by decide : 0 < 4) year, length_padded (by decide : 0 < 2) month,
      length_padded (by decide : 0 < 2) day, length_padded (by decide : 0 < 2) hours,
      length_padded (by decide : 0 < 2) minutes, length_padded (by decide : 0 < 2) twoDigits]
    omega
  have fraction := Rfc3339.readFraction_fractionChars (Nat.mod_lt t.nanos (by decide : 0 < nanosPerSecond))
  have nanos : t.nanos % nanosPerSecond + t.nanos / nanosPerSecond * nanosPerSecond = t.nanos :=
    Nat.mod_add_div' _ _
  have offset : Rfc3339.readOffset ['Z'] = .ok (0, []) := rfl
  have noOffset : ¬ secondsPerDay ≤ ((0 : Int).natAbs : Int) := by decide
  rw [text, Rfc3339.parse, String.toList_ofList]
  dsimp only
  rw [Rfc3339.fewerBytes_long long]
  simp only [chars, Date.chars, Date.yearText_common common, List.append_assoc, List.cons_append,
    List.nil_append, Rfc3339.readFixed_padded (by decide : 0 < 4) year,
    Rfc3339.readFixed_padded (by decide : 0 < 2) month, Rfc3339.readFixed_padded (by decide : 0 < 2) day,
    Rfc3339.readFixed_padded (by decide : 0 < 2) hours,
    Rfc3339.readFixed_padded (by decide : 0 < 2) minutes,
    Rfc3339.readFixed_padded (by decide : 0 < 2) twoDigits, fraction, ok_bind, Bool.false_eq_true,
    if_false, date, calendar, Bool.not_true, inRange, offset, noOffset, Rfc3339.readMark,
    List.contains_cons, beq_self_eq_true, Bool.true_or, if_true, List.isEmpty_nil, leap, clock, nanos,
    Int.sub_zero, seconds, of?_seconds_nanos]
  rfl

end Instant

end Time

namespace TimestampFormat

open Time

def Carries (format : TimestampFormat) (t : Instant) : Prop :=
  match format with
  | .unixSeconds => t.nanos = 0
  | .unixMillis => t.nanos < nanosPerSecond ∧ t.nanos % 1000000 = 0
  | .date => t.nanos = 0 ∧ t.secondOfDay = 0
  | .unspecified | .rfc3339 => True

instance (format : TimestampFormat) (t : Instant) : Decidable (format.Carries t) := by
  unfold Carries
  split <;> infer_instance

def unit? : TimestampFormat → Option Int
  | .unixSeconds => some 1000000000
  | .unixMillis => some 1000000
  | .date => some 86400000000000
  | .unspecified | .rfc3339 => none

theorem readText_text {t : Instant} (common : t.date.HasCommonYear) : readText t.text = .ok t := by
  rw [readText, Instant.parse_text common]
  rfl

theorem toSigned?_int {n : Int} (small : n < 0x8000000000000000) : (Number.int n).toSigned? = some n :=
  if_pos small

theorem ofMillis?_millis {t : Instant} (carried : unixMillis.Carries t) :
    Instant.ofMillis? t.millis = some t := by
  obtain ⟨short, whole⟩ := carried
  have size : nanosPerSecond = 1000000000 := rfl
  have seconds : t.millis / 1000 = t.seconds := by
    simp only [Instant.millis]
    omega
  have nanos : (t.millis % 1000).toNat * 1000000 = t.nanos := by
    simp only [Instant.millis]
    omega
  rw [Instant.ofMillis?, seconds, nanos, t.of?_seconds_nanos]

theorem midnight?_date {t : Instant} (carried : date.Carries t) : midnight? t.date = some t := by
  obtain ⟨nanos, midnight⟩ := carried
  obtain ⟨seconds, _⟩ := t.seconds_eq
  have same : t.date.dayNumber * Instant.secondsPerDay = t.seconds := by
    rw [← seconds, midnight]
    simp
  have again := t.of?_seconds_nanos
  rw [nanos] at again
  rw [midnight?, same, again]

theorem not_mem_dateText (d : Date) : d.text.toList.contains 'T' = false := by
  have noDigit : ∀ width n, 'T' ∉ padded width n := by
    intro width n inside
    exact absurd (isDigit_of_mem_padded _ _ inside) (by decide)
  have noYear : 'T' ∉ Date.yearText d.year := by
    rw [Date.yearText]
    split
    · simp [noDigit]
    · split <;> simp [noDigit]
  rw [← Bool.not_eq_true, List.contains_iff_mem, Date.text, String.toList_ofList, Date.chars]
  simp [noDigit, noYear]

theorem read_write {format : TimestampFormat} {t : Instant} (carried : format.Carries t) :
    format.read (format.write t) = .ok (if format.unit?.isSome then some t else none) := by
  obtain ⟨least, greatest, _, _⟩ := t.valid
  have size : greatestSecond = 8210266876799 := rfl
  cases format with
  | unspecified => rfl
  | rfc3339 => rfl
  | unixSeconds =>
    have nanos : t.nanos = 0 := carried
    have again := t.of?_seconds_nanos
    rw [nanos] at again
    simp only [write, Json.int, read, toSigned?_int (show t.seconds < 0x8000000000000000 by omega), again]
    rfl
  | unixMillis =>
    have short := carried.1
    have unit : nanosPerSecond = 1000000000 := rfl
    have small : t.millis < 0x8000000000000000 := by
      simp only [Instant.millis]
      omega
    simp only [write, Json.int, read, toSigned?_int small, ofMillis?_millis carried]
    rfl
  | date =>
    simp only [write, read, not_mem_dateText, Bool.false_eq_true, if_false, Date.parse_text t.inCalendar_date,
      midnight?_date carried]
    rfl

end TimestampFormat

end Wireform
