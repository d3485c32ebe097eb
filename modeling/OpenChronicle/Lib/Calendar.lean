/-
The proleptic Gregorian calendar, from year 1 to year 9999, to the microsecond.

A wall clock reading is a structure that carries the bounds of its fields. It is counted in microseconds
from the start of year 1, the count orders readings as their fields do, and each count in range is read
back by the walk over cycles of 400, 100, 4 years and one.

The definitions follow the algorithms of Python's `datetime` in pure Python, so that the odd steps are
where it has them: the estimate of the month that may be one too large, and the last day of a cycle that
belongs to the year before. The tables of a year are small, and what is said of a single year is decided
by going through them; whatever crosses years is arithmetic over `days_before_year`.

`of_micros` and `micros` are inverse to each other on the range. `micros_lt_iff` is what the texts of
timestamps and the orders of the store rest on, and `micros_inj` is its corollary that two readings of
one count are the same reading.
-/
import Mathlib.Tactic.IntervalCases
import Mathlib.Tactic.Ring

set_option autoImplicit false

namespace Calendar

/-! ## Days -/

/-- Every fourth year, less the hundreds that four hundred does not divide. -/
def is_leap (year : ℕ) : Bool := year % 4 = 0 && (year % 100 ≠ 0 || year % 400 = 0)

/-- The days of all years before this one. -/
def days_before_year (year : ℕ) : ℕ :=
  let y := year - 1
  y * 365 + y / 4 - y / 100 + y / 400

/-- The length of a month. -/
def days_in_month (leap : Bool) : ℕ → ℕ
  | 2 => if leap then 29 else 28
  | 4 | 6 | 9 | 11 => 30
  | _ => 31

/-- The days of a year before this month. -/
def days_before_month (leap : Bool) (month : ℕ) : ℕ :=
  ((List.range (month - 1)).map fun i => days_in_month leap (i + 1)).sum

/-- A quotient grows by one where the divisor divides, and nowhere else. -/
theorem div_succ (n d : ℕ) : (n + 1) / d = n / d + if (n + 1) % d = 0 then 1 else 0 := by
  rw [Nat.succ_div]
  simp only [Nat.dvd_iff_mod_eq_zero]

/-- The three quotients of the closed form together grow by the leap day of the year. -/
theorem days_before_year_succ {year : ℕ} (h : 1 ≤ year) :
    days_before_year (year + 1) = days_before_year year + 365 + (is_leap year).toNat := by
  obtain ⟨n, rfl⟩ : ∃ n, year = n + 1 := ⟨year - 1, by omega⟩
  rw [days_before_year, days_before_year, is_leap, Nat.add_sub_cancel, Nat.add_sub_cancel, div_succ n 4,
    div_succ n 100, div_succ n 400]
  have hcentury : n / 100 ≤ n * 365 := by omega
  -- 4 divides 100, which divides 400
  have h4 : (n + 1) % 100 = 0 → (n + 1) % 4 = 0 := by omega
  have h100 : (n + 1) % 400 = 0 → (n + 1) % 100 = 0 := by omega
  generalize n / 4 = n4, n / 100 = n100, n / 400 = n400, (n + 1) % 4 = r4, (n + 1) % 100 = r100,
    (n + 1) % 400 = r400 at *
  by_cases hr4 : r4 = 0
  · by_cases hr100 : r100 = 0
    · by_cases hr400 : r400 = 0
      · simp [hr4, hr100, hr400]
        omega
      · simp [hr4, hr100, hr400]
        omega
    · have hr400 : r400 ≠ 0 := fun hzero => hr100 (h100 hzero)
      simp [hr4, hr100, hr400]
      omega
  · have hr100 : r100 ≠ 0 := fun hzero => hr4 (h4 hzero)
    have hr400 : r400 ≠ 0 := fun hzero => hr100 (h100 hzero)
    simp [hr4, hr100, hr400]
    omega

/-- A year ends before a later one starts. -/
theorem days_before_year_mono {year year' : ℕ} (h : 1 ≤ year) (hlt : year < year') :
    days_before_year year + 365 + (is_leap year).toNat ≤ days_before_year year' := by
  induction year', hlt using Nat.le_induction with
  | base => rw [days_before_year_succ h]
  | succ later hle ih =>
      rw [days_before_year_succ (by omega)]
      omega

/-- A month ends before a later one of its year starts, and the last ends with the year. -/
theorem month_ends : ∀ leap : Bool, ∀ month < 13, 1 ≤ month →
    (∀ month' < 13, month < month' →
      days_before_month leap month + days_in_month leap month ≤ days_before_month leap month')
    ∧ days_before_month leap month + days_in_month leap month ≤ 365 + leap.toNat := by
  decide

/-! ## Readings -/

/-- A date and a time of day. -/
structure DateTime where
  year : ℕ
  month : ℕ
  day : ℕ
  hour : ℕ
  minute : ℕ
  second : ℕ
  microsecond : ℕ
  year_mem : 1 ≤ year ∧ year ≤ 9999
  month_mem : 1 ≤ month ∧ month ≤ 12
  day_mem : 1 ≤ day ∧ day ≤ days_in_month (is_leap year) month
  hour_lt : hour < 24
  minute_lt : minute < 60
  second_lt : second < 60
  microsecond_lt : microsecond < 1000000
  deriving DecidableEq, Repr

/-- The microseconds of a day. -/
def DAY : ℕ := 86400000000

/-- The days of years 1 to 9999. -/
def MAX_DAYS : ℕ := 3652059

namespace DateTime

/-- The reading with these fields, if they are in their bounds. -/
def of_fields (year month day hour minute second microsecond : ℕ) : Option DateTime :=
  if h : (1 ≤ year ∧ year ≤ 9999) ∧ (1 ≤ month ∧ month ≤ 12)
      ∧ (1 ≤ day ∧ day ≤ days_in_month (is_leap year) month)
      ∧ hour < 24 ∧ minute < 60 ∧ second < 60 ∧ microsecond < 1000000 then
    some ⟨year, month, day, hour, minute, second, microsecond, h.1, h.2.1, h.2.2.1, h.2.2.2.1,
      h.2.2.2.2.1, h.2.2.2.2.2.1, h.2.2.2.2.2.2⟩
  else none

/-- The days before this one. -/
def days (d : DateTime) : ℕ :=
  days_before_year d.year + days_before_month (is_leap d.year) d.month + (d.day - 1)

/-- The microseconds of its day before it. -/
def of_day (d : DateTime) : ℕ :=
  ((d.hour * 60 + d.minute) * 60 + d.second) * 1000000 + d.microsecond

/-- The microseconds since the start of year 1. -/
def micros (d : DateTime) : ℕ := d.days * DAY + d.of_day

/-- A reading keeps its own bounds, so it can be built from its fields. -/
theorem of_fields_self (d : DateTime) :
    of_fields d.year d.month d.day d.hour d.minute d.second d.microsecond = some d := by
  rw [of_fields, dif_pos ⟨d.year_mem, d.month_mem, d.day_mem, d.hour_lt, d.minute_lt, d.second_lt,
    d.microsecond_lt⟩]

/-- A time of day does not reach into the next day. -/
theorem of_day_lt (d : DateTime) : d.of_day < DAY := by
  have hh := d.hour_lt
  have hm := d.minute_lt
  have hs := d.second_lt
  have hu := d.microsecond_lt
  rw [of_day, DAY]
  omega

/-- The fields, the most significant first, are in order at the first where they differ. -/
def Before (d e : DateTime) : Prop :=
  d.year < e.year ∨ d.year = e.year ∧ (d.month < e.month ∨ d.month = e.month ∧
    (d.day < e.day ∨ d.day = e.day ∧ (d.hour < e.hour ∨ d.hour = e.hour ∧
      (d.minute < e.minute ∨ d.minute = e.minute ∧ (d.second < e.second ∨ d.second = e.second ∧
        d.microsecond < e.microsecond)))))

/-- The proofs of the bounds are no part of a reading. -/
theorem ext_fields {d e : DateTime} (hy : d.year = e.year) (hmo : d.month = e.month)
    (hd : d.day = e.day) (hh : d.hour = e.hour) (hmi : d.minute = e.minute)
    (hs : d.second = e.second) (hus : d.microsecond = e.microsecond) : d = e := by
  cases d
  cases e
  simp_all

/-- The order of the fields is total. With the next lemma it is the order of the counts. -/
theorem before_trichotomy (d e : DateTime) : d.Before e ∨ d = e ∨ e.Before d := by
  by_cases hsame : d.year = e.year ∧ d.month = e.month ∧ d.day = e.day ∧ d.hour = e.hour
      ∧ d.minute = e.minute ∧ d.second = e.second ∧ d.microsecond = e.microsecond
  · obtain ⟨hy, hmo, hd, hh, hmi, hs, hus⟩ := hsame
    exact .inr (.inl (ext_fields hy hmo hd hh hmi hs hus))
  · rw [Before, Before]
    omega

/-- A later date is a later day. -/
theorem days_lt {d e : DateTime}
    (h : d.year < e.year ∨ d.year = e.year ∧ (d.month < e.month ∨ d.month = e.month ∧ d.day < e.day)) :
    d.days < e.days := by
  have hd := d.day_mem
  have hends := month_ends (is_leap d.year) d.month (by have := d.month_mem; omega) d.month_mem.1
  rw [days, days]
  rcases h with hyear | ⟨hyear, hmonth | ⟨hmonth, hday⟩⟩
  · have hmono := days_before_year_mono d.year_mem.1 hyear
    omega
  · rw [← hyear]
    have hlater := hends.1 e.month (by have := e.month_mem; omega) hmonth
    omega
  · rw [← hyear, ← hmonth]
    omega

/-- Either the day is later, and a day is longer than any time of day, or the day is the same and the
time is later. -/
theorem micros_lt_of_before {d e : DateTime} (h : d.Before e) : d.micros < e.micros := by
  have hd := d.of_day_lt
  by_cases hdate : d.year = e.year ∧ d.month = e.month ∧ d.day = e.day
  · obtain ⟨hy, hmo, hda⟩ := hdate
    have hdays : d.days = e.days := by rw [days, days, hy, hmo, hda]
    have hme := e.minute_lt
    have hse := e.second_lt
    have hmd := d.minute_lt
    have hsd := d.second_lt
    have hud := d.microsecond_lt
    have htime : d.of_day < e.of_day := by
      rw [Before] at h
      rw [of_day, of_day]
      omega
    rw [micros, micros, hdays]
    omega
  · have hlt : d.days < e.days := by
      apply days_lt
      rw [Before] at h
      omega
    rw [micros, micros]
    have hstep : d.days * DAY + DAY ≤ e.days * DAY := by
      rw [← Nat.succ_mul]
      exact Nat.mul_le_mul_right DAY hlt
    omega

/-- **The count is in the order of the fields.** -/
theorem micros_lt_iff {d e : DateTime} : d.micros < e.micros ↔ d.Before e := by
  constructor
  · intro h
    rcases before_trichotomy d e with hb | rfl | hb
    · exact hb
    · omega
    · have := micros_lt_of_before hb
      omega
  · exact micros_lt_of_before

/-- Of two readings that differ, one is before the other. -/
theorem micros_inj {d e : DateTime} (h : d.micros = e.micros) : d = e := by
  rcases before_trichotomy d e with hb | rfl | hb
  · have := micros_lt_of_before hb
    omega
  · rfl
  · have := micros_lt_of_before hb
    omega

end DateTime

/-! ## Reading a count back -/

/-- Month and day of the month of this day of a year, counted from zero. The estimate of
the month is right or one too large. -/
def month_of (leap : Bool) (n : ℕ) : ℕ × ℕ :=
  let estimate := (n + 50) / 32
  let month := if n < days_before_month leap estimate then estimate - 1 else estimate
  (month, n - days_before_month leap month + 1)

/-- Decided for the days of both kinds of year: the month found is the one that the day lies in. -/
theorem month_of_spec : ∀ leap : Bool, ∀ n < 365 + leap.toNat,
    (1 ≤ (month_of leap n).1 ∧ (month_of leap n).1 ≤ 12)
      ∧ (1 ≤ (month_of leap n).2 ∧ (month_of leap n).2 ≤ days_in_month leap (month_of leap n).1)
      ∧ days_before_month leap (month_of leap n).1 + ((month_of leap n).2 - 1) = n := by
  decide +kernel

/-- Year, month and day of this day, counted from zero: whole cycles of 400, 100 and 4
years first, the last day of such a cycle apart. -/
def date_of (n : ℕ) : ℕ × ℕ × ℕ :=
  let n400 := n / 146097
  let r400 := n % 146097
  let n100 := r400 / 36524
  let r100 := r400 % 36524
  let n4 := r100 / 1461
  let r4 := r100 % 1461
  let n1 := r4 / 365
  let year := n400 * 400 + n100 * 100 + n4 * 4 + n1 + 1
  if n1 = 4 ∨ n100 = 4 then (year - 1, 12, 31)
  else (year, month_of (is_leap year) (r4 % 365))

/-- The days before a year, by its place in the cycles. -/
theorem days_before_cycles (n400 n100 n4 n1 : ℕ) (h100 : n100 ≤ 3) (h4 : n4 ≤ 24) (h1 : n1 ≤ 3) :
    days_before_year (n400 * 400 + n100 * 100 + n4 * 4 + n1 + 1)
      = n400 * 146097 + n100 * 36524 + n4 * 1461 + n1 * 365 := by
  have hquarter : (n400 * 400 + n100 * 100 + n4 * 4 + n1) / 4 = n400 * 100 + n100 * 25 + n4 := by omega
  have hcentury : (n400 * 400 + n100 * 100 + n4 * 4 + n1) / 100 = n400 * 4 + n100 := by omega
  have hcycle : (n400 * 400 + n100 * 100 + n4 * 4 + n1) / 400 = n400 := by omega
  rw [days_before_year, Nat.add_sub_cancel, hquarter, hcentury, hcycle]
  omega

/-- A day that is in the first 365 of its year. -/
theorem regular_day_spec {n year r : ℕ} (hr : r < 365) (hn : days_before_year year + r = n)
    (hyear : 1 ≤ year) :
    1 ≤ year ∧ (1 ≤ (month_of (is_leap year) r).1 ∧ (month_of (is_leap year) r).1 ≤ 12)
      ∧ (1 ≤ (month_of (is_leap year) r).2
        ∧ (month_of (is_leap year) r).2 ≤ days_in_month (is_leap year) (month_of (is_leap year) r).1)
      ∧ days_before_year year + days_before_month (is_leap year) (month_of (is_leap year) r).1
        + ((month_of (is_leap year) r).2 - 1) = n := by
  obtain ⟨hm, hd, hsum⟩ := month_of_spec (is_leap year) r (by omega)
  exact ⟨hyear, hm, hd, by omega⟩

/-- The last day of a leap year. -/
theorem last_day_spec {n year : ℕ} (hleap : is_leap year = true) (hn : days_before_year year + 365 = n)
    (hyear : 1 ≤ year) :
    1 ≤ year ∧ (1 ≤ 12 ∧ 12 ≤ 12) ∧ (1 ≤ 31 ∧ 31 ≤ days_in_month (is_leap year) 12)
      ∧ days_before_year year + days_before_month (is_leap year) 12 + (31 - 1) = n := by
  have hmonth : days_before_month true 12 = 335 := by decide
  have hlength : days_in_month true 12 = 31 := by decide
  rw [hleap, hmonth, hlength]
  omega

/-- The cases are those of the definition: a day among the first of its cycle, or the last day of a
cycle of 4 or of 400 years, which ends with a leap day. -/
theorem date_of_spec (n : ℕ) :
    1 ≤ (date_of n).1 ∧ (1 ≤ (date_of n).2.1 ∧ (date_of n).2.1 ≤ 12)
      ∧ (1 ≤ (date_of n).2.2
        ∧ (date_of n).2.2 ≤ days_in_month (is_leap (date_of n).1) (date_of n).2.1)
      ∧ days_before_year (date_of n).1 + days_before_month (is_leap (date_of n).1) (date_of n).2.1
        + ((date_of n).2.2 - 1) = n := by
  rw [date_of]
  have hn : n = n / 146097 * 146097 + n % 146097 := by omega
  have hr400 : n % 146097 = n % 146097 / 36524 * 36524 + n % 146097 % 36524 := by omega
  have hr100 : n % 146097 % 36524 = n % 146097 % 36524 / 1461 * 1461 + n % 146097 % 36524 % 1461 := by omega
  have hr4 : n % 146097 % 36524 % 1461
      = n % 146097 % 36524 % 1461 / 365 * 365 + n % 146097 % 36524 % 1461 % 365 := by omega
  have hlt400 : n % 146097 < 146097 := Nat.mod_lt _ (by omega)
  have hlt100 : n % 146097 % 36524 < 36524 := Nat.mod_lt _ (by omega)
  have hlt4 : n % 146097 % 36524 % 1461 < 1461 := Nat.mod_lt _ (by omega)
  have hlt1 : n % 146097 % 36524 % 1461 % 365 < 365 := Nat.mod_lt _ (by omega)
  -- the quotients and remainders of the walk, by name from here on
  generalize n % 146097 % 36524 % 1461 % 365 = r1 at *
  generalize n % 146097 % 36524 % 1461 / 365 = n1 at *
  generalize n % 146097 % 36524 % 1461 = r4 at *
  generalize n % 146097 % 36524 / 1461 = n4 at *
  generalize n % 146097 % 36524 = r100 at *
  generalize n % 146097 / 36524 = n100 at *
  generalize n % 146097 = r400 at *
  generalize n / 146097 = n400 at *
  by_cases hlast : n1 = 4 ∨ n100 = 4
  · -- the last day of a leap year: four years are behind, or four centuries
    rw [if_pos hlast]
    dsimp only
    rcases hlast with rfl | rfl
    · have hyear : n400 * 400 + n100 * 100 + n4 * 4 + 4 + 1 - 1 = n400 * 400 + n100 * 100 + n4 * 4 + 3 + 1 := rfl
      rw [hyear]
      apply last_day_spec
      · rw [is_leap]
        simp only [Bool.and_eq_true, Bool.or_eq_true, decide_eq_true_eq]
        omega
      · rw [days_before_cycles n400 n100 n4 3 (by omega) (by omega) (by omega)]
        omega
      · omega
    · have hyear : n400 * 400 + 4 * 100 + n4 * 4 + n1 + 1 - 1 = n400 * 400 + 3 * 100 + 24 * 4 + 3 + 1 := by omega
      rw [hyear]
      apply last_day_spec
      · rw [is_leap]
        simp only [Bool.and_eq_true, Bool.or_eq_true, decide_eq_true_eq]
        omega
      · rw [days_before_cycles n400 3 24 3 (by omega) (by omega) (by omega)]
        omega
      · omega
  · rw [if_neg hlast]
    -- a day among the first 365 of its year
    apply regular_day_spec
    · exact hlt1
    · rw [days_before_cycles n400 n100 n4 n1 (by omega) (by omega) (by omega)]
      omega
    · omega

namespace DateTime

/-- The reading this many microseconds after the start of year 1. -/
def of_micros (t : ℤ) : Option DateTime :=
  if 0 ≤ t ∧ t < MAX_DAYS * DAY then
    let n := t.toNat
    let (year, month, day) := date_of (n / DAY)
    let second := n % DAY / 1000000
    of_fields year month day (second / 3600) (second / 60 % 60) (second % 60) (n % 1000000)
  else none

/-- Fields in their bounds make a reading. -/
theorem of_fields_pos (year month day hour minute second microsecond : ℕ)
    (h : (1 ≤ year ∧ year ≤ 9999) ∧ (1 ≤ month ∧ month ≤ 12)
      ∧ (1 ≤ day ∧ day ≤ days_in_month (is_leap year) month)
      ∧ hour < 24 ∧ minute < 60 ∧ second < 60 ∧ microsecond < 1000000) :
    ∃ d, of_fields year month day hour minute second microsecond = some d ∧ d.year = year
      ∧ d.month = month ∧ d.day = day ∧ d.hour = hour ∧ d.minute = minute ∧ d.second = second
      ∧ d.microsecond = microsecond := by
  rw [of_fields, dif_pos h]
  exact ⟨_, rfl, rfl, rfl, rfl, rfl, rfl, rfl, rfl⟩

/-- Every count in range is that of a reading. -/
theorem of_micros_pos {t : ℤ} (h : 0 ≤ t ∧ t < MAX_DAYS * DAY) :
    ∃ d, of_micros t = some d ∧ (d.micros : ℤ) = t := by
  obtain ⟨n, rfl⟩ := Int.eq_ofNat_of_zero_le h.1
  have hn : n < MAX_DAYS * DAY := by exact_mod_cast h.2
  have hday : n / DAY < MAX_DAYS := Nat.div_lt_of_lt_mul (by rw [Nat.mul_comm]; exact hn)
  have hrest : n % DAY < DAY := Nat.mod_lt _ (by decide)
  obtain ⟨hyear, hmonth, hdate, hsum⟩ := date_of_spec (n / DAY)
  have hmax : (date_of (n / DAY)).1 ≤ 9999 := by
    by_contra hlate
    have hmono := days_before_year_mono (by omega : 1 ≤ 9999) (Nat.lt_of_not_le hlate)
    have hlast : days_before_year 9999 + 365 + (is_leap 9999).toNat = MAX_DAYS := by decide
    omega
  have hus : n % 1000000 = n % DAY % 1000000 := by
    rw [DAY]
    omega
  rw [DAY] at hrest
  have hbounds : n % DAY / 1000000 / 3600 < 24 ∧ n % DAY / 1000000 / 60 % 60 < 60
      ∧ n % DAY / 1000000 % 60 < 60 ∧ n % 1000000 < 1000000 := by
    rw [DAY]
    omega
  obtain ⟨d, hd, hy, hmo, hda, hh, hmi, hs, hu⟩ :=
    of_fields_pos _ _ _ _ _ _ _ ⟨⟨hyear, hmax⟩, hmonth, hdate, hbounds⟩
  refine ⟨d, ?_, ?_⟩
  · rw [of_micros, if_pos h]
    exact hd
  · have hdays : d.days = n / DAY := by
      rw [days, hy, hmo, hda]
      exact hsum
    have htime : d.of_day = n % DAY := by
      rw [of_day, hh, hmi, hs, hu, hus]
      omega
    rw [micros, hdays, htime]
    exact_mod_cast Nat.div_add_mod' n DAY

/-- Only that reading is read back. -/
theorem micros_of_micros {t : ℤ} {d : DateTime} (h : of_micros t = some d) : (d.micros : ℤ) = t := by
  by_cases hrange : 0 ≤ t ∧ t < MAX_DAYS * DAY
  · obtain ⟨d', hd', hmicros⟩ := of_micros_pos hrange
    rw [h] at hd'
    rw [Option.some.inj hd']
    exact hmicros
  · rw [of_micros, if_neg hrange] at h
    cases h

/-- Outside the years 1 to 9999 there is no reading; the source has an `OverflowError` there. -/
theorem of_micros_eq_none {t : ℤ} : of_micros t = none ↔ t < 0 ∨ MAX_DAYS * DAY ≤ t := by
  constructor
  · intro h
    by_contra hrange
    obtain ⟨d, hd, -⟩ := of_micros_pos (t := t) (by omega)
    rw [h] at hd
    cases hd
  · intro h
    rw [of_micros, if_neg (by omega)]

end DateTime

end Calendar
