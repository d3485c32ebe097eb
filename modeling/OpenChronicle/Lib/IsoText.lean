/-
`datetime.isoformat` and `datetime.fromisoformat`.

The text of a reading has fixed fields, padded with zeros, a fraction only when there are
microseconds, and the offset from UTC if the reading has one. `fromisoformat` takes more
formats than the one `isoformat` writes; the definition here reads that one, with `Z` for an
offset of zero, a comma for the point, a fraction of any length and any separator between
date and time, and answers `none` for the others.

The first result is that reading undoes writing. The second is that among texts with the
offset `+00:00` the order of the texts is the order of the readings: a text without a
fraction sorts before those with one, because `+` sorts before the point.
-/
import Mathlib.Data.List.Lex
import OpenChronicle.Lib.Calendar

set_option autoImplicit false

namespace IsoText

open Calendar

/-! ## Numbers of a fixed width -/

def is_digit (c : Char) : Bool := '0' ≤ c && c ≤ '9'

/-- `int(s)` of decimal digits. -/
def value (s : List Char) : ℕ := s.foldl (fun n c => 10 * n + (c.toNat - 48)) 0

/-- `"%0wd" % n` of a number of at most `w` digits. -/
def pad : ℕ → ℕ → List Char
  | 0, _ => []
  | w + 1, n => Nat.digitChar (n / 10 ^ w) :: pad w (n % 10 ^ w)

theorem digitChar_facts : ∀ a < 10, is_digit (Nat.digitChar a) = true ∧ (Nat.digitChar a).toNat = 48 + a := by
  decide

theorem digitChar_lt_iff {a b : ℕ} (ha : a < 10) (hb : b < 10) :
    Nat.digitChar a < Nat.digitChar b ↔ a < b := by
  have ha' := (digitChar_facts a ha).2
  have hb' := (digitChar_facts b hb).2
  have hlt : Nat.digitChar a < Nat.digitChar b ↔ (Nat.digitChar a).toNat < (Nat.digitChar b).toNat := Iff.rfl
  rw [hlt, ha', hb']
  omega

theorem digitChar_inj {a b : ℕ} (ha : a < 10) (hb : b < 10) (h : Nat.digitChar a = Nat.digitChar b) :
    a = b := by
  have ha' := (digitChar_facts a ha).2
  have hb' := (digitChar_facts b hb).2
  rw [h] at ha'
  omega

theorem head_lt {w n : ℕ} (h : n < 10 ^ (w + 1)) : n / 10 ^ w < 10 := by
  rw [pow_succ] at h
  exact Nat.div_lt_of_lt_mul h

theorem rest_lt (w n : ℕ) : n % 10 ^ w < 10 ^ w := Nat.mod_lt _ (by positivity)

@[simp] theorem pad_length (w n : ℕ) : (pad w n).length = w := by
  induction w generalizing n with
  | zero => rfl
  | succ w ih => rw [pad, List.length_cons, ih]

theorem pad_digits {w n : ℕ} (h : n < 10 ^ w) : ∀ c ∈ pad w n, is_digit c = true := by
  induction w generalizing n with
  | zero => simp [pad]
  | succ w ih =>
      intro c hc
      rw [pad, List.mem_cons] at hc
      rcases hc with rfl | hc
      · exact (digitChar_facts _ (head_lt h)).1
      · exact ih (rest_lt w n) c hc

theorem value_pad {w n : ℕ} (h : n < 10 ^ w) : value (pad w n) = n := by
  have key : ∀ (w n acc : ℕ), n < 10 ^ w →
      (pad w n).foldl (fun n c => 10 * n + (c.toNat - 48)) acc = acc * 10 ^ w + n := by
    intro w
    induction w with
    | zero =>
        intro n acc hn
        rw [pow_zero] at hn ⊢
        rw [pad, List.foldl_nil]
        omega
    | succ w ih =>
        intro n acc hn
        have hdigit := (digitChar_facts _ (head_lt hn)).2
        have hsplit := Nat.div_add_mod n (10 ^ w)
        rw [pad, List.foldl_cons, ih _ _ (rest_lt w n), hdigit, Nat.add_sub_cancel_left, add_mul]
        calc 10 * acc * 10 ^ w + n / 10 ^ w * 10 ^ w + n % 10 ^ w
            = acc * 10 ^ (w + 1) + (10 ^ w * (n / 10 ^ w) + n % 10 ^ w) := by ring
          _ = acc * 10 ^ (w + 1) + n := by rw [hsplit]
  rw [value, key w n 0 h]
  omega

/-- A number is below another if its leading part is, or that is equal and the rest is. -/
theorem lt_iff_div_mod (a b p : ℕ) : a < b ↔ a / p < b / p ∨ a / p = b / p ∧ a % p < b % p := by
  have ha := Nat.div_add_mod a p
  have hb := Nat.div_add_mod b p
  rcases Nat.eq_zero_or_pos p with rfl | hp
  · simp
  have hra := Nat.mod_lt a hp
  have hrb := Nat.mod_lt b hp
  rcases Nat.lt_trichotomy (a / p) (b / p) with hlt | heq | hgt
  · have hstep : p * (a / p) + p ≤ p * (b / p) := by
      rw [← Nat.mul_succ]
      exact Nat.mul_le_mul_left p hlt
    omega
  · rw [heq] at ha ⊢
    omega
  · have hstep : p * (b / p) + p ≤ p * (a / p) := by
      rw [← Nat.mul_succ]
      exact Nat.mul_le_mul_left p hgt
    omega

/-- **Texts that start with a number of one width** are in the order of the numbers, and for
the same number in the order of what follows. -/
theorem pad_append_lt_iff {w a b : ℕ} (ha : a < 10 ^ w) (hb : b < 10 ^ w) (s t : List Char) :
    pad w a ++ s < pad w b ++ t ↔ a < b ∨ a = b ∧ s < t := by
  induction w generalizing a b with
  | zero =>
      rw [pow_zero] at ha hb
      have hab : a = b := by omega
      simp [pad, hab]
  | succ w ih =>
      have hsame : a = b ↔ a / 10 ^ w = b / 10 ^ w ∧ a % 10 ^ w = b % 10 ^ w := by
        constructor
        · rintro rfl
          exact ⟨rfl, rfl⟩
        · rintro ⟨hdiv, hmod⟩
          rw [← Nat.div_add_mod a (10 ^ w), hdiv, hmod, Nat.div_add_mod]
      have hhead : Nat.digitChar (a / 10 ^ w) = Nat.digitChar (b / 10 ^ w) ↔ a / 10 ^ w = b / 10 ^ w :=
        ⟨digitChar_inj (head_lt ha) (head_lt hb), fun h => by rw [h]⟩
      rw [pad, pad, List.cons_append, List.cons_append, List.cons_lt_cons_iff,
        digitChar_lt_iff (head_lt ha) (head_lt hb), hhead, ih (rest_lt w a) (rest_lt w b),
        lt_iff_div_mod a b (10 ^ w), hsame]
      tauto

/-! ## Writing -/

/-- `".%06d" % microsecond`, left out for zero. -/
def fraction (microsecond : ℕ) : List Char :=
  if microsecond = 0 then [] else '.' :: pad 6 microsecond

/-- The offset from UTC, in microseconds: hours and minutes, and seconds if there are any. -/
def format_offset : Option ℤ → List Char
  | none => []
  | some offset =>
      let a := offset.natAbs
      let sign := if offset < 0 then '-' else '+'
      let seconds :=
        if a % 60000000 = 0 then [] else ':' :: (pad 2 (a / 1000000 % 60) ++ fraction (a % 1000000))
      sign :: (pad 2 (a / 3600000000) ++ ':' :: (pad 2 (a / 60000000 % 60) ++ seconds))

/-- `isoformat`. -/
def isoformat (d : DateTime) (offset : Option ℤ) : List Char :=
  pad 4 d.year ++ '-' :: (pad 2 d.month ++ '-' :: (pad 2 d.day ++ 'T' :: (pad 2 d.hour ++ ':' ::
    (pad 2 d.minute ++ ':' :: (pad 2 d.second ++ (fraction d.microsecond ++ format_offset offset))))))

/-! ## Reading -/

/-- A number of `w` digits, and what follows. -/
def digits (w : ℕ) (s : List Char) : Option (ℕ × List Char) :=
  let shown := s.take w
  if shown.length = w ∧ shown.all is_digit then some (value shown, s.drop w) else none

/-- One of these characters, and what follows. -/
def expect (allowed : List Char) : List Char → Option (List Char)
  | c :: s => if c ∈ allowed then some s else none
  | [] => none

/-- The microseconds after a point, cut after six digits; none without a point. -/
def read_fraction (s : List Char) : Option (ℕ × List Char) :=
  match expect ['.', ','] s with
  | none => some (0, s)
  | some s =>
      let shown := (s.takeWhile is_digit).take 6
      if shown = [] then none
      else some (value shown * 10 ^ (6 - shown.length), s.dropWhile is_digit)

/-- The seconds of an offset, which may be missing. -/
def read_seconds (s : List Char) : Option (ℕ × ℕ) :=
  match s with
  | [] => some (0, 0)
  | _ => do
      let s ← expect [':'] s
      let (second, s) ← digits 2 s
      let (microsecond, s) ← read_fraction s
      if s = [] then some (second, microsecond) else none

/-- The offset, to the end of the text. An offset is shorter than a day. -/
def read_offset (s : List Char) : Option (Option ℤ) :=
  match s with
  | [] => some none
  | ['Z'] => some (some 0)
  | sign :: s => do
      let _ ← expect ['+', '-'] [sign]
      let (hour, s) ← digits 2 s
      let s ← expect [':'] s
      let (minute, s) ← digits 2 s
      let (second, microsecond) ← read_seconds s
      let a : ℕ := ((hour * 60 + minute) * 60 + second) * 1000000 + microsecond
      if minute < 60 ∧ second < 60 ∧ a < DAY then some (some (if sign = '-' then -a else a)) else none

/-- `fromisoformat`. -/
def fromisoformat (s : List Char) : Option (DateTime × Option ℤ) := do
  let (year, s) ← digits 4 s
  let s ← expect ['-'] s
  let (month, s) ← digits 2 s
  let s ← expect ['-'] s
  let (day, s) ← digits 2 s
  let (hour, s) ← digits 2 s.tail
  let s ← expect [':'] s
  let (minute, s) ← digits 2 s
  let s ← expect [':'] s
  let (second, s) ← digits 2 s
  let (microsecond, s) ← read_fraction s
  let offset ← read_offset s
  let d ← DateTime.of_fields year month day hour minute second microsecond
  some (d, offset)

/-! ### Reading undoes writing -/

theorem digits_pad {w n : ℕ} (h : n < 10 ^ w) (rest : List Char) :
    digits w (pad w n ++ rest) = some (n, rest) := by
  have htake : (pad w n ++ rest).take w = pad w n := by
    rw [List.take_append_of_le_length (by rw [pad_length]), List.take_of_length_le (by rw [pad_length])]
  have hdrop : (pad w n ++ rest).drop w = rest := by
    rw [List.drop_append_of_le_length (by rw [pad_length]), List.drop_of_length_le (by rw [pad_length]),
      List.nil_append]
  rw [digits, htake, hdrop]
  rw [if_pos ⟨pad_length w n, List.all_eq_true.mpr (pad_digits h)⟩, value_pad h]

theorem expect_cons {c : Char} {allowed : List Char} (h : c ∈ allowed) (s : List Char) :
    expect allowed (c :: s) = some s := if_pos h

/-- What follows a fraction: it starts with no digit and no point. -/
def Ends (s : List Char) : Prop := ∀ c ∈ s.head?, is_digit c = false ∧ c ∉ ['.', ',']

theorem read_fraction_fraction {n : ℕ} (h : n < 1000000) {rest : List Char} (hrest : Ends rest) :
    read_fraction (fraction n ++ rest) = some (n, rest) := by
  rw [fraction]
  split
  · next hzero =>
      rw [List.nil_append, read_fraction, hzero]
      have hnone : expect ['.', ','] rest = none := by
        rcases rest with _ | ⟨c, s⟩
        · rfl
        · exact if_neg (hrest c rfl).2
      rw [hnone]
  · next hpos =>
      have hdigits := pad_digits (show n < 10 ^ 6 from h)
      have hstop : rest.takeWhile is_digit = [] ∧ rest.dropWhile is_digit = rest := by
        rcases rest with _ | ⟨c, s⟩
        · exact ⟨rfl, rfl⟩
        · have hc := (hrest c rfl).1
          rw [List.takeWhile_cons, List.dropWhile_cons, hc]
          exact ⟨rfl, rfl⟩
      have htake : (pad 6 n ++ rest).takeWhile is_digit = pad 6 n := by
        rw [List.takeWhile_append_of_pos hdigits, hstop.1, List.append_nil]
      have hdrop : (pad 6 n ++ rest).dropWhile is_digit = rest := by
        rw [List.dropWhile_append_of_pos hdigits, hstop.2]
      have hshown : (pad 6 n).take 6 = pad 6 n := List.take_of_length_le (by rw [pad_length])
      have hne : pad 6 n ≠ [] := List.ne_nil_of_length_pos (by rw [pad_length]; omega)
      rw [List.cons_append, read_fraction, expect_cons (by decide)]
      dsimp only
      rw [htake, hdrop, hshown, if_neg hne, pad_length, value_pad (show n < 10 ^ 6 from h)]
      norm_num

theorem ends_format_offset (offset : Option ℤ) : Ends (format_offset offset) := by
  rcases offset with _ | offset
  · nofun
  · rintro c ⟨⟩
    split
    · decide
    · decide

theorem ends_nil : Ends [] := nofun

/-- The seconds of an offset. -/
theorem read_seconds_spec (a : ℕ) :
    read_seconds (if a % 60000000 = 0 then []
        else ':' :: (pad 2 (a / 1000000 % 60) ++ fraction (a % 1000000)))
      = some (a / 1000000 % 60, a % 1000000) := by
  split
  · have hsecond : a / 1000000 % 60 = 0 := by omega
    have hmicro : a % 1000000 = 0 := by omega
    rw [hsecond, hmicro]
    rfl
  · have hmicro : a % 1000000 < 1000000 := Nat.mod_lt _ (by omega)
    have hread : read_fraction (fraction (a % 1000000)) = some (a % 1000000, []) := by
      have h := read_fraction_fraction hmicro ends_nil
      rwa [List.append_nil] at h
    simp [read_seconds, expect_cons, digits_pad (show a / 1000000 % 60 < 10 ^ 2 by omega), hread]

theorem read_offset_format {offset : Option ℤ} (h : ∀ o ∈ offset, o.natAbs < DAY) :
    read_offset (format_offset offset) = some offset := by
  rcases offset with _ | o
  · rfl
  · have ho : o.natAbs < 86400000000 := h o rfl
    have hhour : o.natAbs / 3600000000 < 10 ^ 2 := by omega
    have hminute : o.natAbs / 60000000 % 60 < 10 ^ 2 := by omega
    have hseconds := read_seconds_spec o.natAbs
    have hsum : ((o.natAbs / 3600000000 * 60 + o.natAbs / 60000000 % 60) * 60 + o.natAbs / 1000000 % 60)
        * 1000000 + o.natAbs % 1000000 = o.natAbs := by omega
    have hbounds : o.natAbs / 60000000 % 60 < 60 ∧ o.natAbs / 1000000 % 60 < 60 ∧ o.natAbs < DAY :=
      ⟨by omega, by omega, ho⟩
    have hsign : (if o < 0 then '-' else '+') ∈ ['+', '-'] := by
      split
      · decide
      · decide
    rw [format_offset, read_offset]
    · rw [expect_cons hsign]
      simp only [Option.bind_eq_bind, Option.bind_some, digits_pad hhour, expect_cons (List.mem_singleton.mpr rfl),
        digits_pad hminute, hseconds, hsum, if_pos hbounds]
      by_cases hneg : o < 0
      · rw [if_pos hneg, if_pos rfl]
        congr 2
        omega
      · rw [if_neg hneg, if_neg (by decide)]
        congr 2
        omega
    · split
      · nofun
      · nofun

/-- Every field fits its width. -/
theorem fields_lt (d : DateTime) : d.year < 10 ^ 4 ∧ d.month < 10 ^ 2 ∧ d.day < 10 ^ 2 ∧ d.hour < 10 ^ 2
    ∧ d.minute < 10 ^ 2 ∧ d.second < 10 ^ 2 := by
  have hlength : ∀ leap : Bool, ∀ m < 13, days_in_month leap m < 10 ^ 2 := by decide
  have hday := hlength (is_leap d.year) d.month (Nat.lt_succ_of_le d.month_mem.2)
  have hyear := d.year_mem
  have hmonth := d.month_mem
  have hday' := d.day_mem
  have hhour := d.hour_lt
  have hminute := d.minute_lt
  have hsecond := d.second_lt
  omega

theorem isoformat_append (d : DateTime) (offset : Option ℤ) :
    isoformat d offset = isoformat d none ++ format_offset offset := by
  simp [isoformat, format_offset]

/-- A reading followed by any text of an offset. -/
theorem fromisoformat_append (d : DateTime) {offset : Option ℤ} {tail : List Char} (hends : Ends tail)
    (htail : read_offset tail = some offset) : fromisoformat (isoformat d none ++ tail) = some (d, offset) := by
  obtain ⟨hyear, hmonth, hday, hhour, hminute, hsecond⟩ := fields_lt d
  have hfraction := read_fraction_fraction d.microsecond_lt hends
  rw [fromisoformat, isoformat, format_offset]
  simp only [List.append_assoc, List.cons_append, List.append_nil]
  have hexpect : ∀ (c : Char) (s : List Char), expect [c] (c :: s) = some s :=
    fun c s => expect_cons (List.mem_singleton.mpr rfl) s
  -- the fields in the order in which they are read, each with what follows it
  refine Option.bind_eq_some_iff.mpr ⟨_, digits_pad hyear _, ?_⟩
  refine Option.bind_eq_some_iff.mpr ⟨_, hexpect '-' _, ?_⟩
  refine Option.bind_eq_some_iff.mpr ⟨_, digits_pad hmonth _, ?_⟩
  refine Option.bind_eq_some_iff.mpr ⟨_, hexpect '-' _, ?_⟩
  refine Option.bind_eq_some_iff.mpr ⟨_, digits_pad hday _, ?_⟩
  refine Option.bind_eq_some_iff.mpr ⟨_, digits_pad hhour _, ?_⟩
  refine Option.bind_eq_some_iff.mpr ⟨_, hexpect ':' _, ?_⟩
  refine Option.bind_eq_some_iff.mpr ⟨_, digits_pad hminute _, ?_⟩
  refine Option.bind_eq_some_iff.mpr ⟨_, hexpect ':' _, ?_⟩
  refine Option.bind_eq_some_iff.mpr ⟨_, digits_pad hsecond _, ?_⟩
  refine Option.bind_eq_some_iff.mpr ⟨_, hfraction, ?_⟩
  refine Option.bind_eq_some_iff.mpr ⟨_, htail, ?_⟩
  exact Option.bind_eq_some_iff.mpr ⟨_, DateTime.of_fields_self d, rfl⟩

/-- **Reading undoes writing**, for every reading and every offset shorter than a day. -/
theorem fromisoformat_isoformat (d : DateTime) {offset : Option ℤ}
    (h : ∀ o ∈ offset, o.natAbs < DAY) : fromisoformat (isoformat d offset) = some (d, offset) := by
  rw [isoformat_append]
  exact fromisoformat_append d (ends_format_offset offset) (read_offset_format h)

/-- The characters of a timestamp. -/
def is_iso_char (c : Char) : Bool := is_digit c || c ∈ ['-', ':', 'T', '.', '+', 'Z']

theorem iso_chars (d : DateTime) {offset : Option ℤ} (h : ∀ o ∈ offset, o.natAbs < DAY) :
    ∀ c ∈ isoformat d offset, is_iso_char c = true := by
  have hpad : ∀ {w n}, n < 10 ^ w → ∀ c ∈ pad w n, is_iso_char c = true := by
    intro w n hn c hc
    rw [is_iso_char, pad_digits hn c hc, Bool.true_or]
  have hfraction : ∀ {n}, n < 1000000 → ∀ c ∈ fraction n, is_iso_char c = true := by
    intro n hn c hc
    rw [fraction] at hc
    split at hc
    · exact absurd hc List.not_mem_nil
    · rcases List.mem_cons.mp hc with rfl | hc
      · decide
      · exact hpad (show n < 10 ^ 6 from hn) c hc
  have hoffset : ∀ c ∈ format_offset offset, is_iso_char c = true := by
    rcases offset with _ | o
    · exact fun c hc => absurd hc List.not_mem_nil
    · have ho : o.natAbs < 86400000000 := h o rfl
      have hhour := hpad (show o.natAbs / 3600000000 < 10 ^ 2 by omega)
      have hminute := hpad (show o.natAbs / 60000000 % 60 < 10 ^ 2 by omega)
      have hsecond := hpad (show o.natAbs / 1000000 % 60 < 10 ^ 2 by omega)
      have hmicro := hfraction (show o.natAbs % 1000000 < 1000000 by omega)
      intro c hc
      simp only [format_offset, List.mem_cons, List.mem_append] at hc
      rcases hc with rfl | hc | rfl | hc | hc
      · split
        · decide
        · decide
      · exact hhour c hc
      · decide
      · exact hminute c hc
      · split at hc
        · exact absurd hc List.not_mem_nil
        · rcases List.mem_cons.mp hc with rfl | hc
          · decide
          · rcases List.mem_append.mp hc with hc | hc
            · exact hsecond c hc
            · exact hmicro c hc
  -- the digits of the fields, with the marks between them
  obtain ⟨hyear, hmonth, hday, hhour, hminute, hsecond⟩ := fields_lt d
  intro c hc
  rw [isoformat] at hc
  simp only [List.mem_append, List.mem_cons] at hc
  rcases hc with hc | rfl | hc | rfl | hc | rfl | hc | rfl | hc | rfl | hc | hc | hc
  · exact hpad hyear c hc
  · decide
  · exact hpad hmonth c hc
  · decide
  · exact hpad hday c hc
  · decide
  · exact hpad hhour c hc
  · decide
  · exact hpad hminute c hc
  · decide
  · exact hpad hsecond c hc
  · exact hfraction d.microsecond_lt c hc
  · exact hoffset c hc

/-! ## The order of the texts -/

/-- A text without a fraction comes first: `+` sorts before the point. -/
theorem fraction_lt_iff {a b : ℕ} (ha : a < 1000000) (hb : b < 1000000) :
    fraction a ++ format_offset (some 0) < fraction b ++ format_offset (some 0) ↔ a < b := by
  have hpad := pad_append_lt_iff (show a < 10 ^ 6 from ha) (show b < 10 ^ 6 from hb)
    (format_offset (some 0)) (format_offset (some 0))
  have hzone : format_offset (some 0) = '+' :: "00:00".toList := by decide
  rw [fraction, fraction]
  by_cases hza : a = 0
  · by_cases hzb : b = 0
    · rw [if_pos hza, if_pos hzb, hza, hzb]
      simp
    · have hplus : '+' < '.' := by decide
      rw [if_pos hza, if_neg hzb, hzone, List.nil_append, List.cons_append, List.cons_lt_cons_iff]
      simp [hplus]
      omega
  · by_cases hzb : b = 0
    · have hplus : ¬ '.' < '+' := by decide
      have hne : ¬ '.' = '+' := by decide
      rw [if_neg hza, if_pos hzb, hzone, List.nil_append, List.cons_append, List.cons_lt_cons_iff]
      simp [hplus, hne, hzb]
    · rw [if_neg hza, if_neg hzb, List.cons_append, List.cons_append, List.cons_lt_cons_iff, hpad]
      simp

/-- **The texts of UTC readings are in the order of the readings.** -/
theorem isoformat_lt_iff (d e : DateTime) :
    isoformat d (some 0) < isoformat e (some 0) ↔ d.micros < e.micros := by
  obtain ⟨hyear, hmonth, hday, hhour, hminute, hsecond⟩ := fields_lt d
  obtain ⟨hyear', hmonth', hday', hhour', hminute', hsecond'⟩ := fields_lt e
  have hsep : ∀ c : Char, ¬ c < c := Char.lt_irrefl
  rw [DateTime.micros_lt_iff, DateTime.Before, isoformat, isoformat, pad_append_lt_iff hyear hyear',
    List.cons_lt_cons_iff, pad_append_lt_iff hmonth hmonth', List.cons_lt_cons_iff,
    pad_append_lt_iff hday hday', List.cons_lt_cons_iff, pad_append_lt_iff hhour hhour',
    List.cons_lt_cons_iff, pad_append_lt_iff hminute hminute', List.cons_lt_cons_iff,
    pad_append_lt_iff hsecond hsecond', fraction_lt_iff d.microsecond_lt e.microsecond_lt]
  simp only [hsep, false_or, true_and]

end IsoText
