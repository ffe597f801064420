import Wireform.Codec.Scalar
import Wireform.Proofs.InstantTexts

set_option autoImplicit false

namespace Wireform

namespace Time

namespace Instant

def sinceEpoch (t : Instant) : Int := t.seconds * nanosPerSecond + t.nanos

def IsRegular (t : Instant) : Prop := t.nanos < nanosPerSecond

instance (t : Instant) : Decidable t.IsRegular := inferInstanceAs (Decidable (_ < _))

/-- The last instant up to a given one that is a whole number of units from 1970. -/
structure IsFloor (unit : Int) (t floor : Instant) : Prop where
  regular : floor.IsRegular
  whole : unit ∣ floor.sinceEpoch
  reached : floor.sinceEpoch ≤ t.sinceEpoch
  next : t.sinceEpoch < floor.sinceEpoch + unit

end Instant

end Time

namespace TimestampFormat

open Time

theorem exists_carried (format : TimestampFormat) {t : Instant} (short : t.nanos < nanosPerSecond) :
    ∃ u : Instant, format.Carries u ∧ u.date = t.date ∧ format.write u = format.write t := by
  obtain ⟨least, greatest, _, _⟩ := t.valid
  have low : leastSecond = -8334601228800 := rfl
  have high : greatestSecond = 8210266876799 := rfl
  have unit : nanosPerSecond = 1000000000 := rfl
  cases format with
  | unspecified => exact ⟨t, trivial, rfl, rfl⟩
  | rfc3339 => exact ⟨t, trivial, rfl, rfl⟩
  | unixSeconds =>
    have valid : IsInstant t.seconds 0 := ⟨least, greatest, by decide, by omega⟩
    exact ⟨⟨t.seconds, 0, valid⟩, rfl, rfl, rfl⟩
  | unixMillis =>
    have valid : IsInstant t.seconds (t.nanos / 1000000 * 1000000) := ⟨least, greatest, by omega, by omega⟩
    refine ⟨⟨t.seconds, t.nanos / 1000000 * 1000000, valid⟩, ⟨?_, ?_⟩, rfl, ?_⟩
    · show t.nanos / 1000000 * 1000000 < nanosPerSecond
      omega
    · exact Nat.mul_mod_left _ _
    · have cut : ((t.nanos / 1000000 * 1000000 : Nat) : Int) / 1000000 = (t.nanos : Int) / 1000000 := by omega
      simp only [write, Instant.millis, cut]
  | date =>
    -- The first and the last second that there are do not end a day early: the first is a midnight.
    have day : Instant.secondsPerDay = 86400 := rfl
    have valid : IsInstant (t.seconds / Instant.secondsPerDay * Instant.secondsPerDay) 0 := by
      rw [day]
      exact ⟨by omega, by omega, by decide, by omega⟩
    have same : Instant.date ⟨_, 0, valid⟩ = t.date := by
      rw [Instant.date, Int.mul_ediv_cancel _ (by decide), Instant.date]
    refine ⟨⟨_, 0, valid⟩, ⟨rfl, ?_⟩, same, ?_⟩
    · simp [Instant.secondOfDay]
    · simp only [write, same]

theorem isFloor_of_written {format : TimestampFormat} {unit : Int} (counts : format.unit? = some unit) {t u : Instant}
    (regular : t.IsRegular) (carried : format.Carries u) (day : u.date = t.date)
    (same : format.write u = format.write t) : t.IsFloor unit u := by
  have size : nanosPerSecond = 1000000000 := rfl
  rw [Instant.IsRegular, size] at regular
  cases format with
  | unspecified => cases counts
  | rfc3339 => cases counts
  | unixSeconds =>
    cases counts
    have seconds : u.seconds = t.seconds := by simpa [write, Json.int] using same
    have nanos : u.nanos = 0 := carried
    constructor <;> simp only [Instant.IsRegular, Instant.sinceEpoch, size] <;> omega
  | unixMillis =>
    cases counts
    have millis : u.millis = t.millis := by simpa [write, Json.int] using same
    obtain ⟨short, whole⟩ := carried
    simp only [Instant.millis] at millis
    rw [size] at short
    constructor <;> simp only [Instant.IsRegular, Instant.sinceEpoch, size] <;> omega
  | date =>
    cases counts
    obtain ⟨nanos, midnight⟩ := carried
    -- Both lie in the same day, and the carried one at its midnight.
    obtain ⟨first, _⟩ := u.seconds_eq
    obtain ⟨second, short⟩ := t.seconds_eq
    have length : Instant.secondsPerDay = 86400 := rfl
    rw [day, length] at first
    rw [length] at second
    constructor <;> simp only [Instant.IsRegular, Instant.sinceEpoch, size] <;> omega

theorem write_mono {format : TimestampFormat} (numeric : format.isNumeric = true) {t u : Instant}
    (regular : t.IsRegular) (regular' : u.IsRegular) (later : t.sinceEpoch ≤ u.sinceEpoch) :
    ∃ m n : Int, format.write t = .int m ∧ format.write u = .int n ∧ m ≤ n := by
  have size : nanosPerSecond = 1000000000 := rfl
  simp only [Instant.IsRegular, Instant.sinceEpoch, size] at regular regular' later
  cases format with
  | unspecified => cases numeric
  | rfc3339 => cases numeric
  | date => cases numeric
  | unixSeconds => exact ⟨_, _, rfl, rfl, by omega⟩
  | unixMillis =>
    refine ⟨_, _, rfl, rfl, ?_⟩
    simp only [Instant.millis]
    omega

/-- What a format writes for an instant is read as its floor, and the numbers written keep the order of instants. -/
theorem written_floors {format : TimestampFormat} {unit : Int} (counts : format.unit? = some unit) {t : Instant}
    (regular : t.IsRegular) :
    (∃ floor, format.read (format.write t) = .ok (some floor) ∧ t.IsFloor unit floor) ∧
      (format.isNumeric = true → ∀ u : Instant, u.IsRegular → t.sinceEpoch ≤ u.sinceEpoch →
        ∃ m n : Int, format.write t = .int m ∧ format.write u = .int n ∧ m ≤ n) := by
  refine ⟨?_, fun numeric u regular' later => write_mono numeric regular regular' later⟩
  obtain ⟨floor, carried, day, same⟩ := format.exists_carried regular
  refine ⟨floor, ?_, isFloor_of_written counts regular carried day same⟩
  rw [← same, read_write carried, counts]
  rfl

def eve : Instant := ⟨-1, 999500000, by decide⟩

theorem written_floors_eve : unixMillis.unit? = some 1000000 ∧ eve.IsRegular ∧
    (∃ floor, unixMillis.read (unixMillis.write eve) = .ok (some floor) ∧ eve.IsFloor 1000000 floor) ∧
    ∃ m n : Int, unixMillis.write eve = .int m ∧ unixMillis.write ⟨0, 0, by decide⟩ = .int n ∧ m ≤ n := by
  have regular : eve.IsRegular := by decide
  have counts : unixMillis.unit? = some 1000000 := rfl
  obtain ⟨floors, grows⟩ := written_floors counts regular
  exact ⟨counts, regular, floors, grows rfl _ (by decide) (by decide)⟩

end TimestampFormat

namespace Time

namespace Date

theorem hasCommonYear_ofDayNumber (n : Int) : (ofDayNumber n).HasCommonYear ↔ -719528 ≤ n ∧ n ≤ 2932896 := by
  have first : dayNumber ⟨0, 1, 1⟩ = -719528 := by decide
  have next : dayNumber ⟨10000, 1, 1⟩ = 2932897 := by decide
  have after := le_year_iff 0 n
  have before := le_year_iff 10000 n
  rw [HasCommonYear]
  omega

theorem yearText_sign {year : Int} (uncommon : ¬ (0 ≤ year ∧ year ≤ 9999)) :
    ∃ sign digits, yearText year = sign :: digits ∧ sign.isDigit = false := by
  by_cases negative : year < 0
  · exact ⟨'-', _, by rw [yearText, if_pos negative], rfl⟩
  · exact ⟨'+', _, by rw [yearText, if_neg negative, if_pos (by omega)], rfl⟩

theorem inCalendar_of_parse {text : String} {d : Date} (run : parse text = .ok d) : d.inCalendar = true := by
  simp only [parse] at run
  obtain ⟨⟨year, rest⟩, _, run⟩ := bind_eq_ok run
  obtain ⟨rest, _, run⟩ := bind_eq_ok run
  obtain ⟨⟨month, rest⟩, _, run⟩ := bind_eq_ok run
  obtain ⟨rest, _, run⟩ := bind_eq_ok run
  obtain ⟨⟨day, rest⟩, _, run⟩ := bind_eq_ok run
  dsimp only at run
  split at run
  · cases run
  · split at run
    · rename_i real
      cases Except.ok.inj run
      exact real
    · cases run

end Date

namespace Instant

def firstCommon : Int := -62167219200
def lastCommon : Int := 253402300799

theorem hasCommonYear_iff (t : Instant) : t.date.HasCommonYear ↔ firstCommon ≤ t.seconds ∧ t.seconds ≤ lastCommon := by
  rw [date, Date.hasCommonYear_ofDayNumber, firstCommon, lastCommon, secondsPerDay]
  omega

theorem parse_text_uncommon {t u : Instant} (uncommon : ¬ t.date.HasCommonYear) : Rfc3339.parse t.text ≠ .ok u := by
  obtain ⟨sign, digits, year, noDigit⟩ := Date.yearText_sign uncommon
  intro run
  -- Such a year is written with a sign, where the text must have a digit.
  simp only [Rfc3339.parse, throw_bind, text, String.toList_ofList] at run
  obtain ⟨_, run⟩ := ok_of_unless run
  obtain ⟨_, read, _⟩ := bind_eq_ok run
  simp only [chars, Date.chars, year, List.cons_append, Rfc3339.readFixed, noDigit] at read
  cases read

end Instant

end Time

namespace TimestampFormat

open Time

/-- The wire values that stand for an instant that RFC 3339 text can express: numbers within the years 0 to 9999, dates of
these years, and texts in RFC 3339. -/
inductive Expresses : TimestampFormat → Json → Prop
  | seconds {n : Int} (first : Instant.firstCommon ≤ n) (last : n ≤ Instant.lastCommon) : Expresses .unixSeconds (.int n)
  | millis {n : Int} (first : Instant.firstCommon ≤ n / 1000) (last : n / 1000 ≤ Instant.lastCommon) :
      Expresses .unixMillis (.int n)
  | day {text : String} {d : Date} (short : 'T' ∉ text.toList) (read : Date.parse text = .ok d)
      (common : d.HasCommonYear) : Expresses .date (.str text)
  | whole {format : TimestampFormat} {text : String} {t : Instant} (long : format = .date → 'T' ∈ text.toList)
      (read : readText text = .ok t) : Expresses format (.str text)

theorem readText_text_iff {t : Instant} : (∃ u, readText t.text = .ok u) ↔ t.date.HasCommonYear := by
  constructor
  · intro ⟨u, read⟩
    by_contra uncommon
    exact Instant.parse_text_uncommon uncommon (mapError_eq_ok read)
  · exact fun common => ⟨t, readText_text common⟩

theorem of?_eq_some {seconds : Int} {nanos : Nat} {t : Instant} (made : Instant.of? seconds nanos = some t) :
    t.seconds = seconds ∧ t.nanos = nanos := by
  rw [Instant.of?] at made
  split at made
  · cases made
    exact ⟨rfl, rfl⟩
  · cases made

theorem toSigned?_eq_some {number : Number} {n : Int} (held : number.toSigned? = some n) : number = .int n := by
  cases number with
  | float x => cases held
  | int m =>
    simp only [Number.toSigned?] at held
    split at held
    · cases held
      rfl
    · cases held

inductive Stands : TimestampFormat → Json → Instant → Prop
  | number {format : TimestampFormat} {t : Instant} (numeric : format.isNumeric = true) : Stands format (format.write t) t
  | day {text : String} {t : Instant} (short : 'T' ∉ text.toList) (read : Date.parse text = .ok t.date) :
      Stands .date (.str text) t

theorem stands_day {text : String} {d : Date} {t : Instant} (short : ¬ text.toList.contains 'T' = true)
    (read : Date.parse text = .ok d) (made : Instant.of? (d.dayNumber * Instant.secondsPerDay) 0 = some t) :
    Stands .date (.str text) t := by
  have same : t.date = d := by
    rw [Instant.date, (of?_eq_some made).1, Int.mul_ediv_cancel _ (by decide),
      Date.ofDayNumber_dayNumber (Date.inCalendar_of_parse read)]
  exact .day (mt List.contains_iff_mem.mpr short) (by rw [same]; exact read)

theorem read_cases {format : TimestampFormat} {wire : Json} {result : Option Instant}
    (run : format.read wire = .ok result) :
    (∃ text, wire = .str text ∧ result = none ∧ (format = .date → 'T' ∈ text.toList)) ∨
      ∃ t, result = some t ∧ t.nanos < nanosPerSecond ∧ format.Stands wire t := by
  -- The branches of the reader: a count of seconds, a count of milliseconds, the text of a day, any other text.
  simp only [read] at run
  split at run
  · split at run
    · rename_i held
      split at run
      · rename_i made
        obtain ⟨rfl, nanos⟩ := of?_eq_some made
        cases run
        cases toSigned?_eq_some held
        exact .inr ⟨_, rfl, by rw [nanos]; decide, .number rfl⟩
      · cases run
    · cases run
  · split at run
    · rename_i millis held
      split at run
      · rename_i t made
        obtain ⟨seconds, nanos⟩ := of?_eq_some made
        cases run
        cases toSigned?_eq_some held
        have size : nanosPerSecond = 1000000000 := rfl
        have whole : t.millis = millis := by
          rw [Instant.millis, seconds, nanos]
          omega
        have written : Json.num (.int millis) = unixMillis.write t := by
          rw [write, whole]
          rfl
        exact .inr ⟨t, rfl, by omega, written ▸ .number rfl⟩
      · cases run
    · cases run
  · rename_i text
    split at run
    · rename_i long
      cases run
      exact .inl ⟨text, rfl, rfl, fun _ => List.contains_iff_mem.mp long⟩
    · rename_i short
      split at run
      · cases run
      · rename_i parsed
        split at run
        · rename_i made
          cases run
          exact .inr ⟨_, rfl, by rw [(of?_eq_some made).2]; decide, stands_day short parsed made⟩
        · cases run
  · rename_i _ text date
    cases run
    exact .inl ⟨text, rfl, rfl, fun same => (date same).elim⟩
  · cases run

theorem expresses_write_iff {format : TimestampFormat} (numeric : format.isNumeric = true) {t : Instant}
    (regular : t.nanos < nanosPerSecond) : format.Expresses (format.write t) ↔ t.date.HasCommonYear := by
  have size : nanosPerSecond = 1000000000 := rfl
  rw [Instant.hasCommonYear_iff]
  cases format with
  | unspecified => cases numeric
  | rfc3339 => cases numeric
  | date => cases numeric
  | unixSeconds =>
    constructor
    · intro expresses
      cases expresses with
      | seconds first last => exact ⟨first, last⟩
    · exact fun ⟨first, last⟩ => .seconds first last
  | unixMillis =>
    have seconds : t.millis / 1000 = t.seconds := by
      rw [Instant.millis]
      omega
    constructor
    · intro expresses
      cases expresses with
      | millis first last => exact ⟨seconds ▸ first, seconds ▸ last⟩
    · exact fun ⟨first, last⟩ => .millis (seconds.symm ▸ first) (seconds.symm ▸ last)

theorem expresses_kept_iff {format : TimestampFormat} {text : String} (long : format = .date → 'T' ∈ text.toList) :
    format.Expresses (.str text) ↔ ∃ t, readText text = .ok t := by
  constructor
  · intro expresses
    cases expresses with
    | day short => exact absurd (long rfl) short
    | whole _ known => exact ⟨_, known⟩
  · exact fun ⟨t, known⟩ => .whole long known

theorem expresses_stands_iff {format : TimestampFormat} {wire : Json} {t : Instant} (regular : t.nanos < nanosPerSecond)
    (stands : format.Stands wire t) : format.Expresses wire ↔ t.date.HasCommonYear := by
  cases stands with
  | number numeric => exact expresses_write_iff numeric regular
  | day short parsed =>
    constructor
    · intro expresses
      cases expresses with
      | day _ again common => exact Except.ok.inj (parsed.symm.trans again) ▸ common
      | whole long => exact absurd (long rfl) short
    · exact fun common => .day short parsed common

theorem write_of_stands {format : TimestampFormat} {wire : Json} {t : Instant} (stands : format.Stands wire t)
    (given : (∃ number, wire = .num number) ∨ ∃ u, wire = format.write u) : format.write t = wire := by
  cases stands with
  | number numeric => rfl
  | day short parsed =>
    rcases given with ⟨number, never⟩ | ⟨u, written⟩
    · cases never
    · cases written
      -- Other texts are read as this date too; the one at hand is the one that is written.
      have same := Except.ok.inj (parsed.symm.trans (Date.parse_text u.inCalendar_date))
      rw [write, same]

end TimestampFormat

namespace Transform

open TimestampFormat

theorem encodeValue_timestamp (format : TimestampFormat) (text : String) :
    (∃ wire, (timestampAs format).encodeValue (.str text) = .ok wire) ↔ ∃ t, readText text = .ok t := by
  simp only [encodeValue]
  cases readText text with
  | ok t => exact ⟨fun _ => ⟨t, rfl⟩, fun _ => ⟨_, rfl⟩⟩
  | error fault =>
    constructor
    · rintro ⟨_, run⟩
      cases run
    · rintro ⟨_, run⟩
      cases run

theorem encodeValue_kept {format : TimestampFormat} {text : String} (long : format = .date → 'T' ∈ text.toList)
    {t : Time.Instant} (written : .str text = format.write t) (read : ∃ u, readText text = .ok u) :
    (timestampAs format).encodeValue (.str text) = .ok (.str text) := by
  have kept (same : text = t.text) (writes : format.write t = .str t.text) :
      (timestampAs format).encodeValue (.str text) = .ok (.str text) := by
    subst same
    simp only [encodeValue, readText_text (readText_text_iff.mp read), writes]
  cases format with
  | unixSeconds => cases written
  | unixMillis => cases written
  | date =>
    cases written
    -- A text that stays has a T, a written date has none.
    have short := not_mem_dateText t.date
    rw [List.contains_iff_mem.mpr (long rfl)] at short
    cases short
  | unspecified => exact kept (Json.str.inj written) rfl
  | rfc3339 => exact kept (Json.str.inj written) rfl

/-- What is read as a timestamp is text in RFC 3339, which is written again, exactly if the wire value expresses an
instant; and a number or a written date is then written again as it was. -/
theorem timestamps_decoded {format : TimestampFormat} {wire value : Json}
    (run : (timestampAs format).decodeValue wire = .ok value) :
    ∃ text, value = .str text ∧ ((∃ t, readText text = .ok t) ↔ format.Expresses wire) ∧
      ((∃ again, (timestampAs format).encodeValue value = .ok again) ↔ format.Expresses wire) ∧
      (format.Expresses wire → (∃ number, wire = .num number) ∨ (∃ t, wire = format.write t) →
        (timestampAs format).encodeValue value = .ok wire) := by
  cases result : format.read wire with
  | error fault =>
    simp only [decodeValue, result] at run
    cases run
  | ok found =>
    rcases read_cases result with ⟨text, rfl, rfl, long⟩ | ⟨t, rfl, regular, stands⟩
    · simp only [decodeValue, result] at run
      cases run
      have expresses := (expresses_kept_iff long).symm
      refine ⟨text, rfl, expresses, (encodeValue_timestamp format text).trans expresses, ?_⟩
      rintro whole (⟨number, never⟩ | ⟨t, written⟩)
      · cases never
      · exact encodeValue_kept long written (expresses.mpr whole)
    · simp only [decodeValue, result] at run
      cases run
      have expresses := readText_text_iff.trans (expresses_stands_iff regular stands).symm
      refine ⟨t.text, rfl, expresses, (encodeValue_timestamp format t.text).trans expresses, ?_⟩
      intro common given
      have known := readText_text ((expresses_stands_iff regular stands).mp common)
      simp only [encodeValue, known, write_of_stands stands given]

theorem timestamps_decoded_date : ∃ value, (timestampAs .date).decodeValue (.str "2024-02-29") = .ok value ∧
    date.Expresses (.str "2024-02-29") ∧ (timestampAs .date).encodeValue value = .ok (.str "2024-02-29") := by
  have run : (timestampAs .date).decodeValue (.str "2024-02-29") = .ok (.str "2024-02-29T00:00:00Z") := by rfl
  have expresses : date.Expresses (.str "2024-02-29") := .day (d := ⟨2024, 2, 29⟩) (by decide) rfl (by decide)
  have written : Json.str "2024-02-29" = date.write ⟨1709164800, 0, by decide⟩ := by rfl
  obtain ⟨_, _, _, _, again⟩ := timestamps_decoded run
  exact ⟨_, run, expresses, again expresses (.inr ⟨_, written⟩)⟩

/-- The wire value is read as a timestamp, but what is made of it is no text in RFC 3339. -/
def Strays (format : TimestampFormat) (wire : Json) : Prop :=
  ∃ text, (timestampAs format).decodeValue wire = .ok (.str text) ∧ ∀ t, readText text ≠ .ok t

/-- A text that is no timestamp passes, and so does the first second of the year 10000. -/
theorem timestamps_stray : Strays .unixSeconds (.str "soon") ∧ Strays .unixSeconds (.int 253402300800) := by
  constructor
  · refine ⟨"soon", rfl, fun t read => ?_⟩
    cases read
  · refine ⟨_, rfl, fun t read => ?_⟩
    have far := readText_text_iff.mp ⟨t, read⟩
    exact absurd ((Time.Instant.hasCommonYear_iff _).mp far).2 (by decide)

end Transform

end Wireform
