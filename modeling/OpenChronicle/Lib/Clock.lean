/-
Timestamps in seconds, and the text of a day.

A clock that counts seconds from 1970 gives a fraction; a reading has microseconds. The conversion
rounds to the nearest one and ends with the calendar. Days are compared as texts, which are in the order
of the days.

The file system's clock is such a clock. Its times are rational numbers here, so what is rounded is the
fraction of a microsecond and not the float that carries it. Beyond the year 9999 there is no reading,
and a caller has to say what it does with such a file.
-/
import Mathlib.Data.Char
import Mathlib.Data.List.Lex
import Mathlib.Data.Rat.Floor
import OpenChronicle.Lib.IsoText

set_option autoImplicit false

namespace Calendar

/-- The nearest integer, the even one of two. -/
def round_half_even (x : ℚ) : ℤ :=
  if Int.fract x < 1 / 2 then ⌊x⌋
  else if 1 / 2 < Int.fract x then ⌊x⌋ + 1
  else if ⌊x⌋ % 2 = 0 then ⌊x⌋ else ⌊x⌋ + 1

/-- Whole numbers stay. -/
theorem round_half_even_intCast (n : ℤ) : round_half_even n = n := by
  rw [round_half_even, Int.fract_intCast, if_pos (by norm_num), Int.floor_intCast]

namespace DateTime

/-- The last reading. -/
def last : DateTime where
  year := 9999
  month := 12
  day := 31
  hour := 23
  minute := 59
  second := 59
  microsecond := 999999
  year_mem := by decide
  month_mem := by decide
  day_mem := by decide
  hour_lt := by decide
  minute_lt := by decide
  second_lt := by decide
  microsecond_lt := by decide

/-- Every reading is before the end of the calendar. -/
theorem micros_lt (d : DateTime) : d.micros < MAX_DAYS * DAY := by
  have hlast : last.micros + 1 = MAX_DAYS * DAY := by decide
  have hnot : ¬ last.micros < d.micros := by
    have hyear := d.year_mem
    have hmonth := d.month_mem
    have hhour := d.hour_lt
    have hminute := d.minute_lt
    have hsecond := d.second_lt
    have hmicro := d.microsecond_lt
    have hday : d.month = 12 → d.day ≤ 31 := by
      intro hm
      have hle := d.day_mem.2
      rw [hm] at hle
      exact hle
    rw [micros_lt_iff, Before]
    simp only [last]
    omega
  omega

/-- A reading is read back from its count. -/
theorem of_micros_micros (d : DateTime) : of_micros d.micros = some d := by
  have hlt := d.micros_lt
  obtain ⟨d', hd', hmicros⟩ := of_micros_pos (t := d.micros) (by omega)
  have hsame : d' = d := micros_inj (by exact_mod_cast hmicros)
  rw [hd', hsame]

/-- 1970, in microseconds since the start of year 1. -/
def UNIX_EPOCH : ℤ := 62135596800000000

/-- `datetime.fromtimestamp(t, tz=UTC)`; `none` is its error. -/
def fromtimestamp (t : ℚ) : Option DateTime := of_micros (round_half_even (t * 1000000) + UNIX_EPOCH)

/-- `timestamp` of a reading in UTC. -/
def timestamp (d : DateTime) : ℚ := ((d.micros - UNIX_EPOCH : ℤ) : ℚ) / 1000000

/-- The time of a reading is that reading again; there is nothing to round. -/
theorem fromtimestamp_timestamp (d : DateTime) : fromtimestamp d.timestamp = some d := by
  have hmicros : d.timestamp * 1000000 = ((d.micros - UNIX_EPOCH : ℤ) : ℚ) := by
    rw [timestamp, div_mul_cancel₀ _ (by norm_num)]
  rw [fromtimestamp, hmicros, round_half_even_intCast, Int.sub_add_cancel]
  exact of_micros_micros d

/-- The clock runs with the count. -/
theorem timestamp_le_iff {d e : DateTime} : d.timestamp ≤ e.timestamp ↔ d.micros ≤ e.micros := by
  rw [timestamp, timestamp, div_le_div_iff_of_pos_right (by norm_num), Int.cast_le]
  omega

/-- `strftime("%Y-%m-%d")`. -/
def day_text (d : DateTime) : List Char :=
  IsoText.pad 4 d.year ++ '-' :: (IsoText.pad 2 d.month ++ '-' :: IsoText.pad 2 d.day)

/-- The texts have fixed widths, so they compare as the numbers do. -/
theorem day_text_lt_iff {d e : DateTime} : day_text d < day_text e
    ↔ d.year < e.year ∨ d.year = e.year ∧ (d.month < e.month ∨ d.month = e.month ∧ d.day < e.day) := by
  obtain ⟨hyear, hmonth, hday, -⟩ := IsoText.fields_lt d
  obtain ⟨hyear', hmonth', hday', -⟩ := IsoText.fields_lt e
  have hsep : ¬ '-' < '-' := Char.lt_irrefl _
  have hend : ¬ ([] : List Char) < [] := List.lt_irrefl _
  have hdays := IsoText.pad_append_lt_iff hday hday' [] []
  rw [List.append_nil, List.append_nil] at hdays
  rw [day_text, day_text, IsoText.pad_append_lt_iff hyear hyear', List.cons_lt_cons_iff,
    IsoText.pad_append_lt_iff hmonth hmonth', List.cons_lt_cons_iff, hdays]
  simp only [hsep, hend, false_or, true_and, and_false, or_false]

/-- Later readings have later days. -/
theorem day_text_le {d e : DateTime} (h : d.micros ≤ e.micros) : day_text d ≤ day_text e := by
  refine not_lt.mp fun hlt => ?_
  have hdays := days_lt (day_text_lt_iff.mp hlt)
  have hd := d.of_day_lt
  have he := e.of_day_lt
  have hstep := Nat.mul_le_mul_right DAY (Nat.succ_le_of_lt hdays)
  rw [Nat.succ_mul] at hstep
  rw [micros, micros] at h
  omega

end DateTime

end Calendar
