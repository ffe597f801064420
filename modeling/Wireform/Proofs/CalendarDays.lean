import Wireform.Time.Calendar

set_option autoImplicit false

namespace Wireform.Time.Date

def daysBeforeYear (year : Int) : Int := year * 365 + year / 4 - year / 100 + year / 400

def IsDayOfYear (year : Int) (day : Nat) : Prop :=
  day ≤ 365 ∧ (day = 365 → isLeap (year + 1) = true)

theorem month_of_day {day : Nat} (inYear : day ≤ 365) :
    (5 * day + 2) / 153 ≤ 11 ∧ daysBefore ((5 * day + 2) / 153) ≤ day := by
  simp only [daysBefore]
  omega

theorem dayNumber_ofDayOfYear (year : Int) {day : Nat} (inYear : day ≤ 365) :
    (ofDayOfYear year day).dayNumber = daysBeforeYear year + day - epoch := by
  obtain ⟨twelve, begun⟩ := month_of_day inYear
  simp only [ofDayOfYear, daysBeforeYear]
  by_cases early : (5 * day + 2) / 153 < 10
  · have late : ¬ (5 * day + 2) / 153 + 3 ≤ 2 := by omega
    have same : (5 * day + 2) / 153 + 3 - 3 = (5 * day + 2) / 153 := by omega
    simp only [early, if_true, dayNumber, late, if_false, same]
    omega
  · have late : (5 * day + 2) / 153 - 9 ≤ 2 := by omega
    have same : (5 * day + 2) / 153 - 9 + 9 = (5 * day + 2) / 153 := by omega
    simp only [early, if_false, dayNumber, late, if_true, same]
    omega

theorem month_ofDayOfYear (year : Int) {day : Nat} (inYear : IsDayOfYear year day) :
    let date := ofDayOfYear year day
    1 ≤ date.month ∧ date.month ≤ 12 ∧ 1 ≤ date.day ∧ date.day ≤ monthLength date.year date.month := by
  obtain ⟨short, leap⟩ := inYear
  obtain ⟨twelve, begun⟩ := month_of_day short
  simp only [daysBefore] at begun
  have next : day < (153 * ((5 * day + 2) / 153 + 1) + 2) / 5 := by omega
  simp only [ofDayOfYear, daysBefore]
  generalize (5 * day + 2) / 153 = month at twelve begun next
  by_cases early : month < 10
  · simp only [early, if_true, monthLength]
    refine ⟨by omega, by omega, by omega, ?_⟩
    split
    · omega
    · split <;> omega
  · simp only [early, if_false]
    refine ⟨by omega, by omega, by omega, ?_⟩
    by_cases february : month = 11
    · subst february
      simp only [monthLength, if_true]
      by_cases last : day = 365
      · simp only [leap last, if_true]
        omega
      · split <;> omega
    · have january : month = 10 := by omega
      subst january
      simp [monthLength]
      omega

theorem parts_spec {length most days count rest : Nat} (positive : 0 < length)
    (split : parts length most days = (count, rest)) :
    days = count * length + rest ∧ count ≤ most ∧ (count < most → rest < length) := by
  have whole := Nat.div_mul_le_self days length
  have next := Nat.lt_div_mul_add positive (a := days)
  simp only [parts, Prod.mk.injEq] at split
  obtain ⟨rfl, rfl⟩ := split
  by_cases few : days / length ≤ most
  · rw [Nat.min_eq_right few]
    refine ⟨by omega, few, fun _ => by omega⟩
  · rw [Nat.min_eq_left (by omega)]
    have within : most * length ≤ days / length * length := Nat.mul_le_mul_right _ (by omega)
    exact ⟨by omega, Nat.le_refl _, fun less => absurd less (Nat.lt_irrefl _)⟩

theorem ofDayNumber_spec (n : Int) :
    ∃ (year : Int) (day : Nat), ofDayNumber n = ofDayOfYear year day ∧ IsDayOfYear year day ∧
      n = daysBeforeYear year + day - epoch := by
  obtain ⟨centuries, inCentury, century⟩ :
      ∃ count rest, parts 36524 3 ((n + epoch) % 146097).toNat = (count, rest) := ⟨_, _, rfl⟩
  obtain ⟨fours, inFour, four⟩ : ∃ count rest, parts 1461 24 inCentury = (count, rest) := ⟨_, _, rfl⟩
  obtain ⟨ones, inYear, one⟩ : ∃ count rest, parts 365 3 inFour = (count, rest) := ⟨_, _, rfl⟩
  simp only [ofDayNumber, century, four, one, daysBeforeYear]
  replace century := parts_spec (by decide) century
  replace four := parts_spec (by decide) four
  replace one := parts_spec (by decide) one
  have days : n = n + epoch - epoch := by omega
  rw [days]
  generalize n + epoch = fromMarch at *
  have cycle := Int.emod_nonneg fromMarch (b := 146097) (by decide)
  have short := Int.emod_lt_of_pos fromMarch (b := 146097) (by decide)
  have whole := Int.mul_ediv_add_emod fromMarch 146097
  generalize fromMarch / 146097 = cycles at *
  generalize fromMarch % 146097 = rest at *
  refine ⟨_, _, rfl, ⟨?_, ?_⟩, ?_⟩
  · omega
  · intro last
    have leapFour : ones = 3 := by omega
    simp only [isLeap, Bool.and_eq_true, Bool.or_eq_true, beq_iff_eq, bne_iff_ne]
    omega
  · omega

theorem dayNumber_ofDayNumber (n : Int) : (ofDayNumber n).dayNumber = n := by
  obtain ⟨year, day, date, inYear, number⟩ := ofDayNumber_spec n
  rw [date, dayNumber_ofDayOfYear year inYear.1, number]

theorem inCalendar_ofDayNumber {n : Int} (notBefore : firstYear ≤ (ofDayNumber n).year)
    (notAfter : (ofDayNumber n).year ≤ lastYear) : (ofDayNumber n).inCalendar = true := by
  obtain ⟨year, day, date, inYear, _⟩ := ofDayNumber_spec n
  rw [date] at notBefore notAfter ⊢
  obtain ⟨one, twelve, first, last⟩ := month_ofDayOfYear year inYear
  simp only [inCalendar, Bool.and_eq_true, decide_eq_true_eq]
  exact ⟨⟨⟨⟨⟨notBefore, notAfter⟩, one⟩, twelve⟩, first⟩, last⟩

theorem le_year_iff (year n : Int) : year ≤ (ofDayNumber n).year ↔ dayNumber ⟨year, 1, 1⟩ ≤ n := by
  obtain ⟨march, day, date, ⟨short, _⟩, number⟩ := ofDayNumber_spec n
  have january : dayNumber ⟨year, 1, 1⟩ =
      daysBeforeYear (year - 1) + 306 - epoch := by
    simp [dayNumber, daysBefore, daysBeforeYear]
  rw [date, january, number]
  simp only [ofDayOfYear, daysBeforeYear]
  -- A year that begins in March comes to January on its day 306.
  by_cases early : (5 * day + 2) / 153 < 10
  · simp only [early, if_true]
    omega
  · simp only [early, if_false]
    omega

theorem daysBeforeYear_lt {year other : Int} {day : Nat} (inYear : IsDayOfYear year day) (later : year < other) :
    daysBeforeYear year + day < daysBeforeYear other := by
  obtain ⟨short, leap⟩ := inYear
  have grows : daysBeforeYear (year + 1) ≤ daysBeforeYear other := by
    simp only [daysBeforeYear]
    omega
  have next : daysBeforeYear year + day < daysBeforeYear (year + 1) := by
    simp only [isLeap, Bool.and_eq_true, Bool.or_eq_true, beq_iff_eq, bne_iff_ne] at leap
    simp only [daysBeforeYear]
    omega
  omega

theorem dayOfYear_unique {year other : Int} {day later : Nat} (inYear : IsDayOfYear year day)
    (inOther : IsDayOfYear other later)
    (same : daysBeforeYear year + day = daysBeforeYear other + later) : year = other ∧ day = later := by
  rcases Int.lt_trichotomy year other with before | equal | after
  · have less := daysBeforeYear_lt inYear before
    omega
  · subst equal
    omega
  · have less := daysBeforeYear_lt inOther after
    omega

theorem ofDayOfYear_daysBefore (year : Int) {month day : Nat} (first : 1 ≤ day)
    (last : daysBefore month + day ≤ daysBefore (month + 1)) :
    ofDayOfYear year (daysBefore month + (day - 1)) =
      if month < 10 then ⟨year, month + 3, day⟩ else ⟨year + 1, month - 9, day⟩ := by
  have same : (5 * (daysBefore month + (day - 1)) + 2) / 153 = month := by
    simp only [daysBefore] at last ⊢
    omega
  have rest : daysBefore month + (day - 1) - daysBefore month + 1 = day := by omega
  simp only [ofDayOfYear, same, rest]

theorem daysBefore_succ (year : Int) {month : Nat} (most : month ≤ 9) :
    daysBefore month + monthLength year (month + 3) = daysBefore (month + 1) := by
  have months : month = 0 ∨ month = 1 ∨ month = 2 ∨ month = 3 ∨ month = 4 ∨ month = 5 ∨ month = 6 ∨
      month = 7 ∨ month = 8 ∨ month = 9 := by omega
  rcases months with rfl | rfl | rfl | rfl | rfl | rfl | rfl | rfl | rfl | rfl <;> rfl

theorem exists_dayOfYear {d : Date} (real : d.inCalendar = true) :
    ∃ (year : Int) (day : Nat), d = ofDayOfYear year day ∧ IsDayOfYear year day := by
  obtain ⟨year, month, day⟩ := d
  simp only [inCalendar, Bool.and_eq_true, decide_eq_true_eq] at real
  obtain ⟨⟨⟨⟨_, one⟩, twelve⟩, first⟩, last⟩ := real
  have years : year - 1 + 1 = year := by omega
  by_cases january : month = 1
  · subst january
    have short : day ≤ 31 := last
    refine ⟨year - 1, daysBefore 10 + (day - 1), ?_, ?_, ?_⟩
    · rw [ofDayOfYear_daysBefore _ first (by simp only [daysBefore]; omega)]
      simp [years]
    · simp only [daysBefore]
      omega
    · simp only [daysBefore]
      omega
  by_cases february : month = 2
  · subst february
    have short : day ≤ 29 ∧ (day = 29 → isLeap year = true) := by
      simp only [monthLength, if_true] at last
      split at last
      · rename_i leap
        exact ⟨last, fun _ => leap⟩
      · omega
    refine ⟨year - 1, daysBefore 11 + (day - 1), ?_, ?_, ?_⟩
    · rw [ofDayOfYear_daysBefore _ first (by simp only [daysBefore]; omega)]
      simp [years]
    · simp only [daysBefore]
      omega
    · intro final
      rw [years]
      simp only [daysBefore] at final
      exact short.2 (by omega)
  · -- The other months lie in the year that begins in the March before them.
    obtain ⟨count, rfl⟩ : ∃ count, month = count + 3 := ⟨month - 3, by omega⟩
    have next := daysBefore_succ year (show count ≤ 9 by omega)
    have most : daysBefore (count + 1) ≤ 306 := by
      simp only [daysBefore]
      omega
    refine ⟨year, daysBefore count + (day - 1), ?_, ?_, ?_⟩
    · rw [ofDayOfYear_daysBefore _ first (by omega), if_pos (by omega)]
    · omega
    · omega

theorem ofDayNumber_dayNumber {d : Date} (real : d.inCalendar = true) : ofDayNumber d.dayNumber = d := by
  obtain ⟨year, day, date, inYear⟩ := exists_dayOfYear real
  obtain ⟨other, later, found, inOther, number⟩ := ofDayNumber_spec d.dayNumber
  have given := dayNumber_ofDayOfYear year inYear.1
  rw [← date, number] at given
  have same : daysBeforeYear year + day = daysBeforeYear other + later := by omega
  obtain ⟨rfl, rfl⟩ := dayOfYear_unique inYear inOther same
  rw [found, date]

theorem monthLength_le (year : Int) (month : Nat) : monthLength year month ≤ 31 := by
  simp only [monthLength]
  split
  · split <;> omega
  · split <;> omega

end Wireform.Time.Date
