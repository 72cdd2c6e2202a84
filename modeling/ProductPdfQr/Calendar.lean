/-
# Instants and their text

An `Instant` is an aware timestamp: microseconds since the start of year 1, UTC, inside the
years a timestamp can have.  `formatTime` is its one text, `parseTime?` reads it back.
The Gregorian calendar is here as far as the text needs it, with the two ways between a day
number and a date and the week a Monday opens.
-/
import Mathlib.Order.Monotone.Basic
import ProductPdfQr.Json.Codec

namespace ProductPdfQr

open Json (digitChar digitVal ofDigits)

/-! ## 1. Dates -/

/-- A year, a month from 1, a day from 1. -/
structure Date where
  year : Nat
  month : Nat
  day : Nat
  deriving DecidableEq, Repr

namespace Calendar

/-- Days before the first of January of a year, counted from year 1. -/
def daysBeforeYear (y : Nat) : Nat :=
  let p := y - 1
  365 * p + p / 4 - p / 100 + p / 400

/-- Every fourth year, but of the centuries only every fourth. -/
def isLeap (y : Nat) : Bool := y % 4 = 0 && (y % 100 ≠ 0 || y % 400 = 0)

/-- Days of the year before the first of a month. -/
def daysBeforeMonth (leap : Bool) (m : Nat) : Nat :=
  let extra := if leap then 1 else 0
  match m with
  | 0 | 1 => 0
  | 2 => 31
  | 3 => 59 + extra
  | 4 => 90 + extra
  | 5 => 120 + extra
  | 6 => 151 + extra
  | 7 => 181 + extra
  | 8 => 212 + extra
  | 9 => 243 + extra
  | 10 => 273 + extra
  | 11 => 304 + extra
  | 12 => 334 + extra
  | _ => 365 + extra

/-- The month the `r`th day of a year lies in, days counted from 0. -/
def monthOf (leap : Bool) (r : Nat) : Nat :=
  ((List.range 12).filter fun m => daysBeforeMonth leap (m + 1) ≤ r).length

/-- The day number of a date: 0 is the first of January of year 1. -/
def dayNumber (d : Date) : Nat :=
  daysBeforeYear d.year + daysBeforeMonth (isLeap d.year) d.month + (d.day - 1)

/-- The year a day number lies in. -/
def yearOf (n : Nat) : Nat :=
  let y := n * 400 / 146097 + 1
  if n < daysBeforeYear y then y - 1 else if n < daysBeforeYear (y + 1) then y else y + 1

/-- The date of a day number. -/
def date (n : Nat) : Date :=
  let y := yearOf n
  let r := n - daysBeforeYear y
  let m := monthOf (isLeap y) r
  ⟨y, m, r - daysBeforeMonth (isLeap y) m + 1⟩

/-- The date exists. -/
def ValidDate (d : Date) : Prop :=
  1 ≤ d.year ∧ 1 ≤ d.month ∧ d.month ≤ 12 ∧ 1 ≤ d.day ∧
    daysBeforeMonth (isLeap d.year) d.month + d.day ≤
      daysBeforeMonth (isLeap d.year) (d.month + 1)

instance (d : Date) : Decidable (ValidDate d) := by unfold ValidDate; infer_instance

/-- The number of days of a year. -/
def yearLength (leap : Bool) : Nat := if leap then 366 else 365

theorem daysBeforeYear_succ {y : Nat} (hy : 1 ≤ y) :
    daysBeforeYear (y + 1) = daysBeforeYear y + yearLength (isLeap y) := by
  obtain ⟨p, rfl⟩ : ∃ p, y = p + 1 := ⟨y - 1, by omega⟩
  have hmono : p / 100 ≤ p / 4 := Nat.div_le_div_left (by omega) (by omega)
  simp only [daysBeforeYear, Nat.add_sub_cancel, Nat.succ_div, yearLength, isLeap,
    Nat.dvd_iff_mod_eq_zero]
  by_cases h4 : (p + 1) % 4 = 0
  · by_cases h100 : (p + 1) % 100 = 0
    · by_cases h400 : (p + 1) % 400 = 0 <;> simp [h4, h100, h400] <;> omega
    · have h400 : (p + 1) % 400 ≠ 0 := by omega
      simp [h4, h100, h400]
      omega
  · have h100 : (p + 1) % 100 ≠ 0 := by omega
    have h400 : (p + 1) % 400 ≠ 0 := by omega
    simp [h4, h100, h400]
    omega

/-- A year is 146097 days in 400, give or take the leap days of the current four centuries. -/
theorem daysBeforeYear_approx (p : Nat) :
    400 * daysBeforeYear (p + 1) ≤ 146097 * p + 396 ∧
      146097 * p ≤ 400 * daysBeforeYear (p + 1) + 699 := by
  simp only [daysBeforeYear, Nat.add_sub_cancel]
  omega

/-- The year a day lies in is the one whose first day is not after it and whose successor's
is. -/
theorem yearOf_bracket (n : Nat) :
    1 ≤ yearOf n ∧ daysBeforeYear (yearOf n) ≤ n ∧ n < daysBeforeYear (yearOf n + 1) := by
  have hlo : 146097 * (n * 400 / 146097) ≤ 400 * n := by omega
  have hhi : 400 * n < 146097 * (n * 400 / 146097 + 1) := by omega
  unfold yearOf
  dsimp only
  generalize n * 400 / 146097 = p at hlo hhi
  split
  · next h =>
    obtain _ | p := p
    · exact absurd h (by simp [daysBeforeYear])
    · obtain ⟨hup, -⟩ := daysBeforeYear_approx p
      rw [Nat.add_sub_cancel]
      exact ⟨by omega, by omega, h⟩
  · split
    · next h h' => exact ⟨by omega, by omega, h'⟩
    · next h h' =>
      obtain ⟨-, hdown⟩ := daysBeforeYear_approx (p + 1 + 1)
      exact ⟨by omega, by omega, by omega⟩

theorem daysBeforeYear_mono {y y' : Nat} (h : y ≤ y') : daysBeforeYear y ≤ daysBeforeYear y' := by
  refine monotone_nat_of_le_succ (fun y => ?_) h
  rcases Nat.eq_zero_or_pos y with rfl | hy
  · decide
  · rw [daysBeforeYear_succ hy]
    exact Nat.le_add_right _ _

/-- The bracket determines the year. -/
theorem yearOf_eq {n y : Nat} (hlo : daysBeforeYear y ≤ n) (hhi : n < daysBeforeYear (y + 1)) :
    yearOf n = y := by
  obtain ⟨-, hlo', hhi'⟩ := yearOf_bracket n
  by_contra hne
  rcases Nat.lt_or_gt_of_ne hne with hlt | hgt
  · have := daysBeforeYear_mono (Nat.succ_le_of_lt hlt)
    simp only [Nat.succ_eq_add_one] at this
    omega
  · have := daysBeforeYear_mono (Nat.succ_le_of_lt hgt)
    simp only [Nat.succ_eq_add_one] at this
    omega

theorem monthOf_bracket_all : ∀ leap : Bool, ∀ r < yearLength leap,
    1 ≤ monthOf leap r ∧ monthOf leap r ≤ 12 ∧ daysBeforeMonth leap (monthOf leap r) ≤ r ∧
      r < daysBeforeMonth leap (monthOf leap r + 1) := by
  decide +kernel

theorem monthOf_eq_all : ∀ leap : Bool, ∀ m ≤ 12, ∀ d < 31, 1 ≤ m →
    daysBeforeMonth leap m + d < daysBeforeMonth leap (m + 1) →
      monthOf leap (daysBeforeMonth leap m + d) = m := by
  decide +kernel

theorem daysBeforeMonth_le_yearLength : ∀ leap : Bool, ∀ m ≤ 12,
    daysBeforeMonth leap (m + 1) ≤ yearLength leap ∧
      daysBeforeMonth leap (m + 1) ≤ daysBeforeMonth leap m + 31 := by
  decide

/-- The date of a day number exists, and the number is the number of that date. -/
theorem date_spec (n : Nat) : ValidDate (date n) ∧ dayNumber (date n) = n := by
  obtain ⟨hy, hlo, hhi⟩ := yearOf_bracket n
  rw [daysBeforeYear_succ hy] at hhi
  obtain ⟨hm, hm', hb, hb'⟩ :=
    monthOf_bracket_all (isLeap (yearOf n)) (n - daysBeforeYear (yearOf n)) (by omega)
  refine ⟨⟨hy, hm, hm', ?_, ?_⟩, ?_⟩ <;> simp only [date, dayNumber] <;> omega

/-- A date that exists is the date of its number. -/
theorem date_dayNumber {d : Date} (h : ValidDate d) : date (dayNumber d) = d := by
  obtain ⟨hy, hm, hm', hd, hfit⟩ := h
  obtain ⟨hlen, hshort⟩ := daysBeforeMonth_le_yearLength (isLeap d.year) d.month hm'
  have hyear : yearOf (dayNumber d) = d.year := by
    apply yearOf_eq
    · simp only [dayNumber]
      omega
    · rw [daysBeforeYear_succ hy]
      simp only [dayNumber]
      omega
  have hrest : dayNumber d - daysBeforeYear d.year =
      daysBeforeMonth (isLeap d.year) d.month + (d.day - 1) := by
    simp only [dayNumber]
    omega
  have hmonth := monthOf_eq_all (isLeap d.year) d.month hm' (d.day - 1) (by omega) hm (by omega)
  unfold date
  dsimp only
  rw [hyear, hrest, hmonth]
  have hday : daysBeforeMonth (isLeap d.year) d.month + (d.day - 1) -
      daysBeforeMonth (isLeap d.year) d.month + 1 = d.day := by omega
  rw [hday]

/-! ### Weeks -/

/-- Monday is 0. -/
def weekday (n : Nat) : Nat := n % 7

/-- The Monday of the first ISO week of a year: the week its first Thursday is in.  (Year 1
starts on a Monday, so the subtraction never cuts.) -/
def isoWeekOneMonday (y : Nat) : Nat :=
  let first := daysBeforeYear y
  first - weekday first + (if 3 < weekday first then 7 else 0)

/-- `isocalendar`: the ISO year and week of a day. -/
def isoWeek (n : Nat) : Nat × Nat :=
  let y := yearOf n
  if n < isoWeekOneMonday y then (y - 1, (n - isoWeekOneMonday (y - 1)) / 7 + 1)
  else
    let week := (n - isoWeekOneMonday y) / 7
    if 52 ≤ week ∧ isoWeekOneMonday (y + 1) ≤ n then (y + 1, 1) else (y, week + 1)

end Calendar

/-! ## 2. Decimal fields -/

/-- `n` in `w` decimal digits. -/
def padDigits : Nat → Nat → List Char
  | 0, _ => []
  | w + 1, n => padDigits w (n / 10) ++ [digitChar (n % 10)]

@[simp] theorem padDigits_length (w n : Nat) : (padDigits w n).length = w := by
  induction w generalizing n with
  | zero => rfl
  | succ w ih => simp [padDigits, ih]

theorem padDigits_isDigit (w n : Nat) : ∀ c ∈ padDigits w n, c.isDigit = true := by
  induction w generalizing n with
  | zero => simp [padDigits]
  | succ w ih =>
    intro c hc
    rcases List.mem_append.mp hc with hc | hc
    · exact ih (n / 10) c hc
    · rw [List.mem_singleton.mp hc]
      exact Json.digitChar_isDigit (by omega)

theorem ofDigits_padDigits {w n : Nat} (h : n < 10 ^ w) : ofDigits (padDigits w n) = n := by
  induction w generalizing n with
  | zero =>
    have : n = 0 := by simpa using h
    simp [padDigits, ofDigits, this]
  | succ w ih =>
    have hq : ofDigits (padDigits w (n / 10)) = n / 10 := ih (by rw [pow_succ] at h; omega)
    rw [padDigits, ofDigits, List.foldl_append]
    change List.foldl _ (ofDigits (padDigits w (n / 10))) _ = n
    rw [hq]
    simp only [List.foldl_cons, List.foldl_nil, Json.digitVal_digitChar (Nat.mod_lt n (by omega))]
    omega

/-- A field of exactly `w` digits at the front. -/
def readField? (w : Nat) (cs : List Char) : Option (Nat × List Char) :=
  if (cs.take w).length = w ∧ (cs.take w).all (·.isDigit) = true then
    some (ofDigits (cs.take w), cs.drop w)
  else none

/-- One given character at the front. -/
def expect? (c : Char) : List Char → Option (List Char)
  | [] => none
  | d :: rest => if d = c then some rest else none

@[simp] theorem expect?_cons (c : Char) (rest : List Char) : expect? c (c :: rest) = some rest :=
  if_pos rfl

theorem readField?_padDigits {w n : Nat} (h : n < 10 ^ w) (rest : List Char) :
    readField? w (padDigits w n ++ rest) = some (n, rest) := by
  have htake : (padDigits w n ++ rest).take w = padDigits w n := by
    simp
  have hdrop : (padDigits w n ++ rest).drop w = rest := by
    simp
  have hall : (padDigits w n).all (·.isDigit) = true :=
    List.all_eq_true.mpr (padDigits_isDigit w n)
  simp [readField?, htake, hdrop, hall, ofDigits_padDigits h]

/-! ## 3. Instants -/

/-- Microseconds of a day. -/
def dayMicros : Nat := 86400000000

/-- The end of the last year a timestamp can name. -/
def endOfTime : Nat := 3652059 * dayMicros

theorem endOfTime_pos : 0 < endOfTime := by decide

/-- An aware timestamp, in microseconds since the start of year 1, UTC. -/
structure Instant where
  micros : Nat
  bounded : micros < endOfTime
  deriving DecidableEq

namespace Instant

instance : LE Instant := ⟨fun a b => a.micros ≤ b.micros⟩

instance : LT Instant := ⟨fun a b => a.micros < b.micros⟩

instance (a b : Instant) : Decidable (a ≤ b) := inferInstanceAs (Decidable (a.micros ≤ b.micros))

instance (a b : Instant) : Decidable (a < b) := inferInstanceAs (Decidable (a.micros < b.micros))

theorem ext_micros {a b : Instant} (h : a.micros = b.micros) : a = b := by
  cases a
  cases b
  simpa using h

/-- The date of an instant. -/
def date (i : Instant) : Date := Calendar.date (i.micros / dayMicros)

/-- Microseconds since midnight. -/
def ofDay (i : Instant) : Nat := i.micros % dayMicros

/-- The parts of the text: hours, minutes, seconds and microseconds of the day. -/
def clock (i : Instant) : Nat × Nat × Nat × Nat :=
  (i.ofDay / 3600000000, i.ofDay / 60000000 % 60, i.ofDay / 1000000 % 60, i.ofDay % 1000000)

/-- `format_time`: the instant's canonical text, as characters. -/
def formatChars (i : Instant) : List Char :=
  padDigits 4 i.date.year ++ '-' :: (padDigits 2 i.date.month ++ '-' :: (padDigits 2 i.date.day ++
    'T' :: (padDigits 2 i.clock.1 ++ ':' :: (padDigits 2 i.clock.2.1 ++ ':' ::
      (padDigits 2 i.clock.2.2.1 ++ '.' :: (padDigits 6 i.clock.2.2.2 ++ ['Z']))))))

/-- `format_time`. -/
def formatTime (i : Instant) : String := String.ofList i.formatChars

/-- Put an instant together from the parts of its text. -/
def ofParts? (d : Date) (h m s f : Nat) : Option Instant :=
  if d.year ≤ 9999 ∧ Calendar.ValidDate d ∧ h < 24 ∧ m < 60 ∧ s < 60 then
    let micros := Calendar.dayNumber d * dayMicros + h * 3600000000 + m * 60000000 + s * 1000000 + f
    if hb : micros < endOfTime then some ⟨micros, hb⟩ else none
  else none

/-- Read `YYYY-MM-DDTHH:MM:SS.ffffffZ`. -/
def parseChars? (cs : List Char) : Option Instant := do
  let (year, cs) ← readField? 4 cs
  let cs ← expect? '-' cs
  let (month, cs) ← readField? 2 cs
  let cs ← expect? '-' cs
  let (day, cs) ← readField? 2 cs
  let cs ← expect? 'T' cs
  let (h, cs) ← readField? 2 cs
  let cs ← expect? ':' cs
  let (m, cs) ← readField? 2 cs
  let cs ← expect? ':' cs
  let (s, cs) ← readField? 2 cs
  let cs ← expect? '.' cs
  let (f, cs) ← readField? 6 cs
  let cs ← expect? 'Z' cs
  if cs = [] then ofParts? ⟨year, month, day⟩ h m s f else none

/-- `datetime.fromisoformat(value.replace("Z", "+00:00"))` followed by the check that the
result formats as `value` again: only the canonical text of an instant passes. -/
def parseTime? (s : String) : Option Instant :=
  (parseChars? s.toList).filter fun i => i.formatTime = s

theorem date_valid (i : Instant) : Calendar.ValidDate i.date := (Calendar.date_spec _).1

theorem dayNumber_date (i : Instant) : Calendar.dayNumber i.date = i.micros / dayMicros :=
  (Calendar.date_spec _).2

theorem year_le (i : Instant) : i.date.year ≤ 9999 := by
  have hday : i.micros / dayMicros < 3652059 :=
    Nat.div_lt_of_lt_mul (by simpa [endOfTime, Nat.mul_comm] using i.bounded)
  obtain ⟨-, hlo, -⟩ := Calendar.yearOf_bracket (i.micros / dayMicros)
  by_contra hgt
  have hmono : Calendar.daysBeforeYear 10000 ≤ Calendar.daysBeforeYear i.date.year :=
    Calendar.daysBeforeYear_mono (by omega)
  have hend : Calendar.daysBeforeYear 10000 = 3652059 := by decide
  have : Calendar.daysBeforeYear i.date.year ≤ i.micros / dayMicros := hlo
  omega

theorem ofParts?_clock (i : Instant) :
    ofParts? i.date i.clock.1 i.clock.2.1 i.clock.2.2.1 i.clock.2.2.2 = some i := by
  have hbound := i.bounded
  have hday : i.ofDay < dayMicros := Nat.mod_lt _ (by decide)
  simp only [dayMicros] at hday
  have hmicros : i.micros / dayMicros * dayMicros + i.clock.1 * 3600000000 +
      i.clock.2.1 * 60000000 + i.clock.2.2.1 * 1000000 + i.clock.2.2.2 = i.micros := by
    simp only [clock, ofDay, dayMicros]
    omega
  have hranges : i.clock.1 < 24 ∧ i.clock.2.1 < 60 ∧ i.clock.2.2.1 < 60 := by
    simp only [clock]
    omega
  simp only [ofParts?, i.year_le, i.date_valid, hranges, dayNumber_date, hmicros, and_self, if_true,
    hbound, dif_pos]

theorem parseChars?_formatChars (i : Instant) : parseChars? i.formatChars = some i := by
  have hvalid := i.date_valid
  have hyear := i.year_le
  have hday : i.date.day < 10 ^ 2 := by
    obtain ⟨-, -, hm, -, hfit⟩ := hvalid
    have := (Calendar.daysBeforeMonth_le_yearLength (Calendar.isLeap i.date.year) _ hm).2
    omega
  have hmonth : i.date.month < 10 ^ 2 := by
    obtain ⟨-, -, hm, -⟩ := hvalid
    omega
  have hofDay : i.ofDay < 86400000000 := Nat.mod_lt _ (by decide)
  have hh : i.clock.1 < 10 ^ 2 := by simp only [clock]; omega
  have hmin : i.clock.2.1 < 10 ^ 2 := by simp only [clock]; omega
  have hsec : i.clock.2.2.1 < 10 ^ 2 := by simp only [clock]; omega
  have hfrac : i.clock.2.2.2 < 10 ^ 6 := by simp only [clock]; omega
  have hyear' : i.date.year < 10 ^ 4 := by omega
  unfold parseChars? formatChars
  simp only [readField?_padDigits hyear', readField?_padDigits hmonth, readField?_padDigits hday,
    readField?_padDigits hh, readField?_padDigits hmin, readField?_padDigits hsec,
    readField?_padDigits hfrac, expect?_cons, Option.bind_eq_bind, Option.bind_some, if_true]
  exact ofParts?_clock i

/-- **The round trip.**  The canonical text of an instant reads back as that instant. -/
@[simp] theorem parseTime?_formatTime (i : Instant) : parseTime? i.formatTime = some i := by
  simp [parseTime?, formatTime, parseChars?_formatChars]

theorem formatTime_injective {i i' : Instant} (h : i.formatTime = i'.formatTime) : i = i' := by
  have hi := parseTime?_formatTime i
  rw [h, parseTime?_formatTime] at hi
  exact (Option.some.inj hi).symm

/-- Only canonical texts are read. -/
theorem formatTime_of_parseTime? {s : String} {i : Instant} (h : parseTime? s = some i) :
    i.formatTime = s := by
  simpa using (Option.filter_eq_some_iff.mp h).2

/-- Whole seconds from `a` to `b`, toward zero: `int((b - a).total_seconds())`. -/
def secondsSince (b a : Instant) : Int := ((b.micros : Int) - a.micros).tdiv 1000000

end Instant

end ProductPdfQr
