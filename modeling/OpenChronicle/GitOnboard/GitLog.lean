/-
The text of `git log`, and the parser that reads it back.

A commit is printed between three sentinels: one before it, one between its fields and one after
its body, so that a body of several lines is not taken for the rows of `--numstat`. All three begin
and end with `---`. Reading is exact as long as no text completes a sentinel, alone or with the
dashes of the sentinel beside it; `Legible` is that condition, with what `strip` and `int` ask of
the rest.

The parser does not see what git wrote. The child is run with `text=True`, so a carriage return has
become a line feed, and a CRLF one line feed, before the first sentinel is looked for. A body written on
another system therefore comes back with other line ends. The main theorem is about the text that git
writes, with the decoding in front of the parser: it asks for no carriage return in the one-line fields,
and in a body for none but those that `strip` takes anyway.

The proof has two halves. The decoder turns the rendering of commits into the rendering of the same
commits with decoded bodies, and those are legible again, since a sentinel has no line feed and so is not
made by the decoding. The parser then reads the rendering, sentinel by sentinel: the entries are cut
where they were joined, then the header from the rows, then the fields from each other.
-/
import OpenChronicle.GitOnboard.Model
import OpenChronicle.Lib.Delimited
import OpenChronicle.Lib.Newlines
import OpenChronicle.Store.Timestamps

set_option autoImplicit false

namespace OpenChronicle

namespace GitLog

open PyStr

/-! ## Sentinels -/

def dashes : List Char := "---".toList

/-- `separator`. -/
def separator : List Char := "---GIT_ONBOARD_SEP---".toList

/-- `field_sep`. -/
def field_sep : List Char := "---GIT_ONBOARD_FIELD---".toList

/-- `body_end`. -/
def body_end : List Char := "---GIT_ONBOARD_BODYEND---".toList

/-! ## `int` -/

/-- CPython's table of decimal digits, of which only the ASCII digits are known. -/
structure DecimalTable where
  decimal : Char → Option ℕ
  ascii : ∀ d < 10, decimal (Nat.digitChar d) = some d

/-- `sys.int_info.default_max_str_digits`. -/
def MAX_STR_DIGITS : ℕ := 4300

section Int

variable (T : DecimalTable)

/-- The digits of a literal: groups with single underscores between them. -/
def int_digits (s : List Char) : Option ℕ :=
  let groups := split_on ['_'] s
  if groups.all (· ≠ []) then
    match groups.flatten.mapM T.decimal with
    | some ds => if MAX_STR_DIGITS < ds.length then none else some (ds.foldl (fun n d => 10 * n + d) 0)
    | none => none
  else none

/-- `int(s)`; `none` is the `ValueError`. -/
def int_str (s : List Char) : Option ℤ :=
  let s := strip s
  if s.head? = some '-' then (int_digits T s.tail).map fun n : ℕ => -(n : ℤ)
  else if s.head? = some '+' then (int_digits T s.tail).map fun n : ℕ => (n : ℤ)
  else (int_digits T s).map fun n : ℕ => (n : ℤ)

end Int

/-! ## The parser -/

/-- `GitCommit`, its date with the author's offset. -/
structure LogCommit where
  hash : String
  author : String
  date : PyDatetime
  subject : String
  body : String
  files_changed : List String
  insertions : ℤ
  deletions : ℤ

section Parser

variable (T : DecimalTable)

/-- `int(s) if s != "-" else 0`. -/
def count (s : List Char) : Option ℤ := if s ≠ ['-'] then int_str T s else some 0

/-- One line of the numstat block; `none` is a line that is not a row. -/
def numstat_row (line : List Char) : Option (ℤ × ℤ × List Char) :=
  match split_on ['\t'] line with
  | ins :: dels :: path :: _ => do
      let ins ← count T ins
      let dels ← count T dels
      some (ins, dels, path)
  | _ => none

/-- The loop over `numstat_part.split("\n")`. -/
def numstat_rows (numstat_part : List Char) : List (ℤ × ℤ × List Char) :=
  (((split_on ['\n'] numstat_part).map strip).filter (· ≠ [])).filterMap (numstat_row T)

/-- The author date. What is no timestamp counts as `now`, a timestamp without an offset is refused. -/
def author_date (now : PyDatetime) (date_str : List Char) : Except Exc PyDatetime :=
  match PyDatetime.fromisoformat (String.ofList date_str) with
  | none => .ok now
  | some date => (date.require_utc "git author date").map fun _ => date

/-- One entry; `none` is an entry that is skipped. -/
def parse_entry (now : PyDatetime) (raw_entry : List Char) : Except Exc (Option LogCommit) :=
  let entry := strip raw_entry
  if entry = [] then .ok none
  else
    match partition body_end entry with
    | none => .ok none
    | some (header_part, numstat_part) =>
        match split_max field_sep 4 header_part with
        | commit_hash :: author :: date_str :: subject :: rest => do
            let date ← author_date now date_str
            let rows := numstat_rows T numstat_part
            .ok (some
              { hash := String.ofList commit_hash, author := String.ofList author, date
                subject := String.ofList subject, body := String.ofList (strip (rest.head?.getD []))
                files_changed := rows.map fun r => String.ofList r.2.2
                insertions := (rows.map (·.1)).sum, deletions := (rows.map (·.2.1)).sum })
        | _ => .ok none

/-- `extract_commits_from_git`, from `output = result.stdout` on. The output is the decoded text: of what
git `wrote`, it is `universal_newlines wrote`. -/
def parse_log (now : PyDatetime) (output : List Char) : Except Exc (List LogCommit) :=
  if strip output = [] then .ok []
  else ((split_on separator output).mapM (parse_entry T now)).map List.reduceOption

end Parser

/-! ## What git prints -/

/-- A row of `--numstat`; a binary file has no counts. -/
structure NumstatRow where
  insertions : Option ℕ
  deletions : Option ℕ
  path : List Char

/-- The columns of `--numstat`. -/
def count_text : Option ℕ → List Char
  | none => ['-']
  | some n => Nat.toDigits 10 n

/-- A row of `--numstat`, without its newline. -/
def NumstatRow.text (r : NumstatRow) : List Char :=
  count_text r.insertions ++ '\t' :: (count_text r.deletions ++ '\t' :: r.path)

/-- A commit as `%H`, `%an`, `%aI`, `%s`, `%b` and `--numstat` print it. -/
structure Printed where
  hash : List Char
  author : List Char
  date : PyDatetime
  date_text : List Char
  subject : List Char
  body : List Char
  rows : List NumstatRow

/-- `%aI` of a date: to the second, with an offset in minutes, or `Z` for UTC. -/
def StrictIso (date : PyDatetime) (text : List Char) : Prop :=
  ∃ offset : ℤ, date.utcoffset = some offset ∧ date.reading.microsecond = 0 ∧ offset % 60000000 = 0
    ∧ (text = IsoText.isoformat date.reading (some offset)
      ∨ (offset = 0 ∧ text = IsoText.isoformat date.reading none ++ ['Z']))

/-- The fields, joined. -/
def Printed.header (c : Printed) : List Char :=
  c.hash ++ field_sep ++ (c.author ++ field_sep ++ (c.date_text ++ field_sep ++ (c.subject ++ field_sep ++ c.body)))

/-- An empty line and the rows, if there are any. -/
def Printed.entry (c : Printed) : List Char :=
  c.header ++ body_end ++ '\n' :: if c.rows = [] then [] else '\n' :: c.rows.flatMap fun r => r.text ++ ['\n']

/-- The output of `git log`. -/
def render (commits : List Printed) : List Char := commits.flatMap fun c => separator ++ c.entry

/-- What the parser should make of it. -/
def Printed.commit (c : Printed) : LogCommit where
  hash := String.ofList c.hash
  author := String.ofList c.author
  date := c.date
  subject := String.ofList c.subject
  body := String.ofList (strip c.body)
  files_changed := c.rows.map fun r => String.ofList r.path
  insertions := (c.rows.map fun r => ((r.insertions.getD 0 : ℕ) : ℤ)).sum
  deletions := (c.rows.map fun r => ((r.deletions.getD 0 : ℕ) : ℤ)).sum

/-! ## Legible commits -/

/-- The row can be read back: a path with no tab and no newline of either kind, with text and not in
whitespace, that does not hold the separator of entries; counts that `int` takes. -/
structure NumstatRow.Legible (r : NumstatRow) : Prop where
  path_ne : r.path ≠ []
  path_trimmed : Trimmed r.path
  no_tab : '\t' ∉ r.path
  no_newline : '\n' ∉ r.path
  no_return : '\r' ∉ r.path
  no_separator : ¬ separator <:+: r.path
  digits : ∀ n, r.insertions = some n ∨ r.deletions = some n → (Nat.toDigits 10 n).length ≤ MAX_STR_DIGITS

/-- No field completes a sentinel with the dashes around it, the hash does not begin with
whitespace, the date exists in UTC, and text mode changes nothing that is kept. -/
structure Printed.Legible (c : Printed) : Prop where
  hash_start : ∀ a ∈ c.hash.head?, isspace a = false
  hash_free : ∀ s ∈ [separator, field_sep, body_end], ¬ s <:+: c.hash ++ dashes
  author_free : ¬ separator <:+: dashes ++ c.author ++ dashes ∧ ¬ body_end <:+: dashes ++ c.author ++ dashes
    ∧ ¬ field_sep <:+: c.author ++ dashes
  subject_free : ¬ separator <:+: dashes ++ c.subject ++ dashes ∧ ¬ body_end <:+: dashes ++ c.subject ++ dashes
    ∧ ¬ field_sep <:+: c.subject ++ dashes
  body_free : ¬ separator <:+: dashes ++ c.body ++ dashes ∧ ¬ body_end <:+: dashes ++ c.body ++ dashes
  no_return : '\r' ∉ c.hash ∧ '\r' ∉ c.author ∧ '\r' ∉ c.subject
  -- the carriage returns of a CRLF message: those of its last lines are stripped, others are not
  body_returns : '\r' ∉ strip c.body
  strict_date : StrictIso c.date c.date_text
  in_range : ∃ utc, c.date.require_utc "git author date" = .ok utc
  rows : ∀ r ∈ c.rows, r.Legible

/-! ## Counts -/

section Counts

variable (T : DecimalTable)

/-- A numeral is made of the ten digits. -/
theorem toDigits_chars (n : ℕ) : ∀ c ∈ Nat.toDigits 10 n, ∃ d < 10, c = Nat.digitChar d := by
  induction n using Nat.strongRecOn with
  | _ n ih =>
      intro c hc
      by_cases hlt : n < 10
      · rw [Nat.toDigits_of_lt_base hlt, List.mem_singleton] at hc
        exact ⟨n, hlt, hc⟩
      · rw [Nat.toDigits_of_base_le (by decide) (by omega), List.mem_append, List.mem_singleton] at hc
        rcases hc with hc | rfl
        · exact ih (n / 10) (by omega) c hc
        · exact ⟨n % 10, Nat.mod_lt n (by decide), rfl⟩

/-- What holds of the ten digits holds of a numeral. -/
theorem toDigits_forall {p : Char → Prop} [DecidablePred p] (hp : ∀ d < 10, p (Nat.digitChar d)) (n : ℕ) :
    ∀ c ∈ Nat.toDigits 10 n, p c := by
  intro c hc
  obtain ⟨d, hd, rfl⟩ := toDigits_chars n c hc
  exact hp d hd

/-- The table reads each digit, so the numeral is read as a list of digits of the same length. -/
theorem mapM_toDigits (n : ℕ) :
    ∃ ds, (Nat.toDigits 10 n).mapM T.decimal = some ds ∧ ds.length = (Nat.toDigits 10 n).length
      ∧ ds.foldl (fun n d => 10 * n + d) 0 = n := by
  induction n using Nat.strongRecOn with
  | _ n ih =>
      by_cases hlt : n < 10
      · refine ⟨[n], ?_, ?_, ?_⟩
        · rw [Nat.toDigits_of_lt_base hlt]
          simp [T.ascii n hlt]
        · rw [Nat.toDigits_of_lt_base hlt]
          rfl
        · simp
      · obtain ⟨ds, hmap, hlen, hvalue⟩ := ih (n / 10) (by omega)
        refine ⟨ds ++ [n % 10], ?_, ?_, ?_⟩
        · rw [Nat.toDigits_of_base_le (by decide) (by omega)]
          simp [hmap, T.ascii (n % 10) (Nat.mod_lt n (by decide))]
        · rw [Nat.toDigits_of_base_le (by decide) (by omega), List.length_append, List.length_append, hlen]
          rfl
        · rw [List.foldl_append, hvalue, List.foldl_cons, List.foldl_nil]
          omega

/-- `strip` takes nothing off a numeral. -/
theorem toDigits_trimmed (n : ℕ) : Trimmed (Nat.toDigits 10 n) := by
  have hspace := toDigits_forall (p := fun c => isspace c = false) (by decide) n
  exact ⟨fun c hc => hspace c (List.mem_of_head? hc), fun c hc => hspace c (List.mem_of_getLast? hc)⟩

/-- `int` reads a numeral, if it is not too long. -/
theorem int_str_toDigits (n : ℕ) :
    int_str T (Nat.toDigits 10 n)
      = if MAX_STR_DIGITS < (Nat.toDigits 10 n).length then none else some (n : ℤ) := by
  obtain ⟨ds, hmap, hlen, hvalue⟩ := mapM_toDigits T n
  have hhead : ∀ c ∈ (Nat.toDigits 10 n).head?, c ≠ '-' ∧ c ≠ '+' := fun c hc =>
    toDigits_forall (p := fun c => c ≠ '-' ∧ c ≠ '+') (by decide) n c (List.mem_of_head? hc)
  have hsplit : split_on ['_'] (Nat.toDigits 10 n) = [Nat.toDigits 10 n] := by
    refine split_max_none ?_ _
    intro hin
    have hmem : '_' ∈ Nat.toDigits 10 n := hin.subset List.mem_cons_self
    exact toDigits_forall (p := fun c => c ≠ '_') (by decide) n '_' hmem rfl
  have hdigits : int_digits T (Nat.toDigits 10 n)
      = if MAX_STR_DIGITS < (Nat.toDigits 10 n).length then none else some n := by
    rw [int_digits, hsplit, List.all_cons, List.all_nil, Bool.and_true,
      if_pos (decide_eq_true Nat.toDigits_ne_nil), List.flatten_singleton, hmap]
    dsimp only
    rw [hlen, hvalue]
  rw [int_str, strip_trimmed (toDigits_trimmed n)]
  have hminus : ¬ (Nat.toDigits 10 n).head? = some '-' := fun h => (hhead _ h).1 rfl
  have hplus : ¬ (Nat.toDigits 10 n).head? = some '+' := fun h => (hhead _ h).2 rfl
  rw [if_neg hminus, if_neg hplus, hdigits]
  split
  · rfl
  · rfl

/-- A numeral is read by `int`, whatever its length. -/
theorem count_some (n : ℕ) : count T (count_text (some n)) = int_str T (Nat.toDigits 10 n) := by
  have hne : count_text (some n) ≠ ['-'] := by
    intro heq
    have hmem : '-' ∈ Nat.toDigits 10 n := by
      rw [show Nat.toDigits 10 n = ['-'] from heq]
      exact List.mem_cons_self
    exact toDigits_forall (p := fun c => c ≠ '-') (by decide) n '-' hmem rfl
  rw [count, if_pos hne]
  rfl

/-- A count is read back, `-` as zero. -/
theorem read_count (o : Option ℕ) (h : ∀ n, o = some n → (Nat.toDigits 10 n).length ≤ MAX_STR_DIGITS) :
    count T (count_text o) = some ((o.getD 0 : ℕ) : ℤ) := by
  cases o with
  | none => rfl
  | some n =>
      have hlen := h n rfl
      rw [count_some, int_str_toDigits, if_neg (by omega)]
      rfl

/-- A count with more digits than `int` takes is no number; the row is dropped. -/
theorem read_long {n : ℕ} (h : MAX_STR_DIGITS < (Nat.toDigits 10 n).length) :
    count T (count_text (some n)) = none := by
  rw [count_some, int_str_toDigits, if_pos h]

/-- The characters of a count are the ten digits and the dash. -/
theorem count_chars {p : Char → Prop} [DecidablePred p] (hdash : p '-') (hp : ∀ d < 10, p (Nat.digitChar d))
    (o : Option ℕ) : ∀ c ∈ count_text o, p c := by
  cases o with
  | none =>
      intro c hc
      rw [count_text, List.mem_singleton] at hc
      rw [hc]
      exact hdash
  | some n => exact toDigits_forall hp n

end Counts

/-! ## Rows -/

section Rows

variable (T : DecimalTable)

/-- A single character occurs in no text that does not have it. -/
theorem not_infix_char {c : Char} {s : List Char} (h : c ∉ s) : ¬ [c] <:+: s ++ [c].dropLast := by
  rw [List.dropLast_singleton, List.append_nil]
  exact fun hin => h (hin.subset List.mem_cons_self)

/-- A count is not empty, so a row does not begin with its tab. -/
theorem count_head (o : Option ℕ) : ∃ a rest, count_text o = a :: rest := by
  cases o with
  | none => exact ⟨'-', [], rfl⟩
  | some n => exact List.exists_cons_of_ne_nil Nat.toDigits_ne_nil

/-- A row is cut at its tabs. -/
theorem NumstatRow.split_text {r : NumstatRow} (h : '\t' ∉ r.path) :
    split_on ['\t'] r.text = [count_text r.insertions, count_text r.deletions, r.path] := by
  have hcount := count_chars (p := fun c => c ≠ '\t') (by decide) (by decide)
  have hled := @split_on_led _ _ ['\t'] (count_text r.insertions) (by decide)
    [count_text r.deletions, r.path] (by
      intro p hp
      simp only [List.mem_cons, List.not_mem_nil, or_false] at hp
      rcases hp with rfl | rfl | rfl
      · exact not_infix_char fun hin => hcount _ _ hin rfl
      · exact not_infix_char fun hin => hcount _ _ hin rfl
      · exact not_infix_char h)
  rw [← hled]
  congr 1
  simp [NumstatRow.text]

variable {r : NumstatRow} (h : r.Legible)

include h

/-- `strip` leaves a row alone: it starts with a count and ends with its path. -/
theorem NumstatRow.Legible.trimmed : Trimmed r.text := by
  obtain ⟨a, rest, ha⟩ := count_head r.insertions
  have hspace := count_chars (p := fun c => isspace c = false) (by decide) (by decide) r.insertions
  constructor
  · intro c hc
    rw [NumstatRow.text, ha, List.cons_append, List.head?_cons, Option.mem_some_iff] at hc
    rw [← hc]
    exact hspace a (by rw [ha]; exact List.mem_cons_self)
  · intro c hc
    refine h.path_trimmed.2 c ?_
    obtain ⟨last, hlast⟩ : ∃ last, r.path.getLast? = some last :=
      ⟨_, List.getLast?_eq_some_getLast h.path_ne⟩
    rw [NumstatRow.text, List.getLast?_append, List.getLast?_cons, List.getLast?_append, List.getLast?_cons, hlast] at hc
    rw [hlast]
    simpa using hc

/-- So the block is cut between rows only. -/
theorem NumstatRow.Legible.text_no_newline : '\n' ∉ r.text := by
  have hcount := count_chars (p := fun c => c ≠ '\n') (by decide) (by decide)
  rw [NumstatRow.text]
  simp only [List.mem_append, List.mem_cons, not_or]
  exact ⟨fun hin => hcount _ _ hin rfl, by decide, fun hin => hcount _ _ hin rfl, by decide, h.no_newline⟩

/-- Nor does a row hold the separator of entries; only its path could. -/
theorem NumstatRow.Legible.text_no_separator : ¬ separator <:+: r.text := by
  have hcount : ∀ o, ¬ separator <:+: count_text o := by
    intro o hin
    have hmem : 'G' ∈ count_text o := hin.subset (by decide)
    exact count_chars (p := fun c => c ≠ 'G') (by decide) (by decide) o 'G' hmem rfl
  intro hin
  rcases infix_append_char (by decide) hin with hin | hin
  · exact hcount _ hin
  · rcases infix_append_char (by decide) hin with hin | hin
    · exact hcount _ hin
    · exact h.no_separator hin

/-- A row is read back. -/
theorem NumstatRow.Legible.read :
    numstat_row T r.text = some (((r.insertions.getD 0 : ℕ) : ℤ), ((r.deletions.getD 0 : ℕ) : ℤ), r.path) := by
  rw [numstat_row, NumstatRow.split_text h.no_tab]
  dsimp only
  rw [read_count T _ fun n hn => h.digits n (.inl hn), read_count T _ fun n hn => h.digits n (.inr hn)]
  rfl

end Rows

/-- The numstat block of an entry, without the newline that ends it. -/
def block (rows : List NumstatRow) : List Char :=
  if rows = [] then [] else '\n' :: '\n' :: ['\n'].intercalate (rows.map (·.text))

/-- An entry ends with a newline whether it has rows or not. -/
theorem entry_eq (c : Printed) : c.entry = c.header ++ body_end ++ block c.rows ++ ['\n'] := by
  have hlines : ∀ r : NumstatRow, ∀ rest : List NumstatRow, ((r :: rest).flatMap fun r => r.text ++ ['\n'])
      = ['\n'].intercalate ((r :: rest).map (·.text)) ++ ['\n'] := by
    intro r rest
    induction rest generalizing r with
    | nil => simp [List.intercalate]
    | cons r' rest ih =>
        rw [List.flatMap_cons, ih r']
        simp [List.intercalate]
  rw [Printed.entry, block]
  rcases c.rows with _ | ⟨r, rest⟩
  · simp
  · rw [if_neg (by simp), if_neg (by simp), hlines]
    simp

/-- The block in the form in which `split` is read back: an empty piece, then the rows. -/
theorem block_led (r : NumstatRow) (rest : List NumstatRow) :
    block (r :: rest) = [] ++ ([] :: (r :: rest).map (·.text)).flatMap (['\n'] ++ ·) := by
  have hlines : ∀ r : NumstatRow, ∀ rest : List NumstatRow, '\n' :: ['\n'].intercalate ((r :: rest).map (·.text))
      = ((r :: rest).map (·.text)).flatMap (['\n'] ++ ·) := by
    intro r rest
    induction rest generalizing r with
    | nil => simp [List.intercalate]
    | cons r' rest ih =>
        rw [List.map_cons, List.flatMap_cons, ← ih r']
        simp [List.intercalate]
  rw [block, if_neg (by simp), List.flatMap_cons, ← hlines]
  rfl

/-- The rows of an entry are read back, and nothing else is. -/
theorem numstat_rows_block (T : DecimalTable) {rows : List NumstatRow} (h : ∀ r ∈ rows, r.Legible) :
    numstat_rows T (block rows)
      = rows.map fun r => (((r.insertions.getD 0 : ℕ) : ℤ), ((r.deletions.getD 0 : ℕ) : ℤ), r.path) := by
  rcases rows with _ | ⟨r, rest⟩
  · rfl
  · have hsplit : split_on ['\n'] (block (r :: rest)) = [] :: [] :: (r :: rest).map (·.text) := by
      rw [block_led]
      refine split_on_led (by decide) _ ?_
      intro p hp
      simp only [List.mem_cons, List.mem_map] at hp
      rcases hp with rfl | rfl | ⟨r', hr', rfl⟩
      · decide
      · decide
      · exact not_infix_char (h r' (List.mem_cons.mpr hr')).text_no_newline
    have hstrip : ((r :: rest).map (·.text)).map strip = (r :: rest).map (·.text) := by
      rw [List.map_map]
      apply List.map_congr_left
      intro r' hr'
      exact strip_trimmed (h r' hr').trimmed
    have hkept : ((r :: rest).map (·.text)).filter (· ≠ []) = (r :: rest).map (·.text) := by
      rw [List.filter_eq_self]
      intro t ht
      obtain ⟨r', -, rfl⟩ := List.mem_map.mp ht
      obtain ⟨a, tail, ha⟩ := count_head r'.insertions
      simp [NumstatRow.text, ha]
    have hblank : strip [] = [] := rfl
    rw [numstat_rows, hsplit, List.map_cons, List.map_cons, hstrip, hblank, List.filter_cons_of_neg (by simp),
      List.filter_cons_of_neg (by simp), hkept, List.filterMap_map, ← List.filterMap_eq_map]
    apply List.filterMap_congr
    intro r' hr'
    exact (h r' hr').read T

/-! ## No sentinel where none is printed -/

section Free

/-- Every sentinel is cut at its dashes only. -/
theorem dashes_border {s : List Char} (hs : s ∈ [separator, field_sep, body_end]) :
    ¬ dashes <:+: s.tail.dropLast := by
  simp only [List.mem_cons, List.not_mem_nil, or_false] at hs
  rcases hs with rfl | rfl | rfl
  · decide
  · decide
  · decide

/-- Each sentinel begins with the dashes and goes on. -/
theorem dashes_prefix {s : List Char} (hs : s ∈ [separator, field_sep, body_end]) :
    ∃ rest, s = dashes ++ rest ∧ rest ≠ [] := by
  simp only [List.mem_cons, List.not_mem_nil, or_false] at hs
  rcases hs with rfl | rfl | rfl
  · exact ⟨"GIT_ONBOARD_SEP---".toList, rfl, by decide⟩
  · exact ⟨"GIT_ONBOARD_FIELD---".toList, rfl, by decide⟩
  · exact ⟨"GIT_ONBOARD_BODYEND---".toList, rfl, by decide⟩

/-- A text that does not complete the sentinel with its first dashes can be cut there. -/
theorem free_dropLast {s a : List Char} (hs : s ∈ [separator, field_sep, body_end]) (h : ¬ s <:+: a ++ dashes) :
    ¬ s <:+: a ++ s.dropLast := by
  obtain ⟨rest, hsep, hrest⟩ := dashes_prefix hs
  exact not_infix_append_dropLast (dashes_border hs) hsep hrest h

/-- The sentinels of an entry do not occur around the sentinel between two fields. -/
theorem free_join {s a b d : List Char} (hs : s = separator ∨ s = body_end) (ha : ¬ s <:+: d ++ a ++ dashes)
    (hb : ¬ s <:+: dashes ++ b) : ¬ s <:+: d ++ (a ++ field_sep ++ b) := by
  have hmem : s ∈ [separator, field_sep, body_end] := by
    rcases hs with rfl | rfl
    · exact List.mem_cons_self
    · decide
  have hself : ¬ s <:+: dashes ++ "GIT_ONBOARD_FIELD".toList ++ dashes := by
    rcases hs with rfl | rfl
    · decide
    · decide
  have hcut : d ++ (a ++ field_sep ++ b)
      = d ++ a ++ dashes ++ ("GIT_ONBOARD_FIELD".toList ++ dashes ++ b) := by
    rw [show field_sep = dashes ++ "GIT_ONBOARD_FIELD".toList ++ dashes from rfl]
    simp only [List.append_assoc]
  rw [hcut]
  intro hin
  rcases infix_append_border (dashes_border hmem) hin with hin | hin
  · exact ha hin
  · rw [← List.append_assoc, ← List.append_assoc] at hin
    rcases infix_append_border (dashes_border hmem) hin with hin | hin
    · exact hself hin
    · exact hb hin

/-- A date has no letter of a sentinel and no carriage return. -/
theorem date_chars {date : PyDatetime} {text : List Char} (h : StrictIso date text) :
    ∀ a ∈ ['G', '\r'], a ∉ text := by
  intro a ha
  have hiso : ∀ offset : Option ℤ, (∀ o ∈ offset, o.natAbs < Calendar.DAY) →
      a ∉ IsoText.isoformat date.reading offset := by
    intro offset hoffset hin
    have hchar := IsoText.iso_chars date.reading hoffset a hin
    simp only [List.mem_cons, List.not_mem_nil, or_false] at ha
    rcases ha with rfl | rfl
    · revert hchar
      decide
    · revert hchar
      decide
  obtain ⟨offset, hoffset, -, -, rfl | ⟨-, rfl⟩⟩ := h
  · refine hiso _ ?_
    rintro o ⟨⟩
    exact date.utcoffset_lt offset hoffset
  · rw [List.mem_append, not_or, List.mem_singleton]
    refine ⟨hiso none nofun, ?_⟩
    rintro rfl
    revert ha
    decide

/-- A text without that letter completes no sentinel. -/
theorem free_of_letter {s a : List Char} (hs : s ∈ [separator, field_sep, body_end]) (h : 'G' ∉ a) :
    ¬ s <:+: a := by
  intro hin
  refine h (hin.subset ?_)
  simp only [List.mem_cons, List.not_mem_nil, or_false] at hs
  rcases hs with rfl | rfl | rfl
  · decide
  · decide
  · decide

variable {c : Printed} (h : c.Legible)

include h

/-- The date cannot complete a sentinel. -/
theorem Printed.Legible.date_free {s : List Char} (hs : s ∈ [separator, field_sep, body_end]) :
    ¬ s <:+: dashes ++ c.date_text ++ dashes := by
  apply free_of_letter hs
  simp only [List.mem_append, not_or]
  exact ⟨⟨by decide, date_chars h.strict_date 'G' List.mem_cons_self⟩, by decide⟩

/-- Field by field, each joined to the next by a sentinel of another kind. -/
theorem Printed.Legible.header_free {s : List Char} (hs : s = separator ∨ s = body_end) :
    ¬ s <:+: c.header ++ dashes := by
  have hmem : s ∈ [separator, field_sep, body_end] := by
    rcases hs with rfl | rfl
    · exact List.mem_cons_self
    · decide
  have hauthor : ¬ s <:+: dashes ++ c.author ++ dashes := by
    rcases hs with rfl | rfl
    · exact h.author_free.1
    · exact h.author_free.2.1
  have hsubject : ¬ s <:+: dashes ++ c.subject ++ dashes := by
    rcases hs with rfl | rfl
    · exact h.subject_free.1
    · exact h.subject_free.2.1
  have hbody : ¬ s <:+: dashes ++ c.body ++ dashes := by
    rcases hs with rfl | rfl
    · exact h.body_free.1
    · exact h.body_free.2
  -- from the last field back to the first
  rw [List.append_assoc] at hbody
  have h4 := free_join hs hsubject hbody
  have h3 := free_join hs (h.date_free hmem) h4
  have h2 := free_join hs hauthor h3
  have h1 := free_join (d := []) hs (h.hash_free s hmem) h2
  rw [Printed.header]
  simpa only [List.nil_append, List.append_assoc] using h1

/-- The rows hold no separator, and newlines stand between them. -/
theorem Printed.Legible.block_free : ¬ separator <:+: block c.rows := by
  have hlines : ∀ rows : List NumstatRow, (∀ r ∈ rows, r.Legible) →
      ¬ separator <:+: (rows.map (·.text)).flatMap (['\n'] ++ ·) := by
    intro rows hrows
    induction rows with
    | nil => decide
    | cons r rest ih =>
        rw [List.map_cons, List.flatMap_cons]
        intro hin
        rcases infix_append_char (c := '\n') (a := []) (by decide) hin with hin | hin
        · revert hin
          decide
        · have hin : separator <:+: r.text ++ (rest.map (·.text)).flatMap (['\n'] ++ ·) := hin
          rcases rest with _ | ⟨r', rest⟩
          · rw [List.map_nil, List.flatMap_nil, List.append_nil] at hin
            exact (hrows r List.mem_cons_self).text_no_separator hin
          · rcases infix_append_char (c := '\n') (by decide) hin with hin | hin
            · exact (hrows r List.mem_cons_self).text_no_separator hin
            · refine ih (fun r' hr' => hrows r' (List.mem_cons_of_mem _ hr')) ?_
              exact hin.trans (List.suffix_cons _ _).isInfix
  rcases hrows : c.rows with _ | ⟨r, rest⟩
  · decide
  · rw [block_led]
    intro hin
    rcases infix_append_char (c := '\n') (a := []) (by decide) hin with hin | hin
    · revert hin
      decide
    · exact hlines (r :: rest) (hrows ▸ h.rows) hin

/-- The separator is found where it was printed and nowhere else. -/
theorem Printed.Legible.entry_free : ¬ separator <:+: c.entry ++ separator.dropLast := by
  rw [entry_eq, List.append_assoc]
  intro hin
  rcases infix_append_char (c := '\n') (by decide) hin with hin | hin
  · have hend : ¬ separator <:+: c.header ++ body_end := by
      rw [show body_end = dashes ++ "GIT_ONBOARD_BODYEND---".toList from rfl, ← List.append_assoc]
      intro hin
      rcases infix_append_border (dashes_border List.mem_cons_self) hin with hin | hin
      · exact h.header_free (.inl rfl) hin
      · revert hin
        decide
    rcases hrows : c.rows with _ | ⟨r, rest⟩
    · rw [hrows, block, if_pos rfl, List.append_nil] at hin
      exact hend hin
    · have hblock := h.block_free
      rw [hrows, block_led] at hin hblock
      rcases infix_append_char (c := '\n') (by decide) hin with hin | hin
      · exact hend hin
      · exact hblock (hin.trans (List.suffix_cons _ _).isInfix)
  · revert hin
    decide

end Free

/-! ## Reading an entry back -/

section Read

variable {c : Printed} (h : c.Legible)

include h

/-- The author date is read back as it was, in either form. -/
theorem Printed.Legible.read_date (now : PyDatetime) : author_date now c.date_text = .ok c.date := by
  have hread : PyDatetime.fromisoformat (String.ofList c.date_text) = some c.date := by
    obtain ⟨offset, hoffset, -, -, htext⟩ := h.strict_date
    rcases htext with htext | ⟨rfl, htext⟩
    · rw [← PyDatetime.fromisoformat_isoformat c.date, PyDatetime.isoformat, hoffset, htext]
    · have hiso : IsoText.fromisoformat c.date_text = some (c.date.reading, some 0) := by
        rw [htext]
        refine IsoText.fromisoformat_append c.date.reading ?_ rfl
        rintro _ ⟨⟩
        decide
      rw [PyDatetime.fromisoformat, String.toList_ofList, hiso]
      dsimp only
      rw [dif_pos (by rintro _ ⟨⟩; decide)]
      rcases hdate : c.date with ⟨reading, utcoffset, hlt⟩
      rw [hdate] at hoffset
      cases hoffset
      rfl
  obtain ⟨utc, hutc⟩ := h.in_range
  rw [author_date, hread]
  dsimp only
  rw [hutc]
  rfl

/-- The five fields. -/
theorem Printed.Legible.fields :
    split_max field_sep 4 c.header = [c.hash, c.author, c.date_text, c.subject, c.body] := by
  have hmem : field_sep ∈ [separator, field_sep, body_end] := by decide
  have hne : field_sep ≠ [] := by decide
  have hdate : ¬ field_sep <:+: c.date_text ++ dashes := by
    intro hin
    refine h.date_free hmem (hin.trans ?_)
    rw [List.append_assoc]
    exact (List.suffix_append _ _).isInfix
  rw [Printed.header, split_max_append hne (free_dropLast hmem (h.hash_free _ hmem)),
    split_max_append hne (free_dropLast hmem h.author_free.2.2), split_max_append hne (free_dropLast hmem hdate),
    split_max_append hne (free_dropLast hmem h.subject_free.2.2)]
  rfl

omit h in
/-- The end of the body is there at least, so the entry is not passed over as empty. -/
theorem entry_ne (c : Printed) : c.header ++ body_end ++ block c.rows ≠ [] := by
  intro hnil
  have hend : body_end = [] := (List.append_eq_nil_iff.mp (List.append_eq_nil_iff.mp hnil).1).2
  exact absurd hend (by decide)

/-- Of an entry, `strip` takes the last newline only. -/
theorem Printed.Legible.strip_entry : strip c.entry = c.header ++ body_end ++ block c.rows := by
  have htrimmed : Trimmed (c.header ++ body_end ++ block c.rows) := by
    constructor
    · -- the hash, or the dashes after it
      intro a ha
      rw [Printed.header] at ha
      rcases hhash : c.hash with _ | ⟨b, rest⟩
      · rw [hhash] at ha
        obtain rfl : '-' = a := Option.some.inj ha
        decide
      · rw [hhash] at ha
        obtain rfl : b = a := Option.some.inj ha
        exact h.hash_start b (by rw [hhash]; exact rfl)
    · -- the last path, or the dashes of the sentinel
      intro a ha
      rcases List.eq_nil_or_concat c.rows with hrows | ⟨rest, r, hrows⟩
      · rw [hrows, block, if_pos rfl, List.append_nil, List.getLast?_append] at ha
        obtain rfl : '-' = a := Option.some.inj ha
        decide
      · rw [List.concat_eq_append] at hrows
        have hr : r.Legible := h.rows r (by rw [hrows]; exact List.mem_append_right _ List.mem_cons_self)
        obtain ⟨last, hlast⟩ : ∃ last, r.text.getLast? = some last := by
          obtain ⟨b, tail, hb⟩ := count_head r.insertions
          refine ⟨_, List.getLast?_eq_some_getLast ?_⟩
          simp [NumstatRow.text, hb]
        refine hr.trimmed.2 a ?_
        rcases rest with _ | ⟨r', rest⟩
        · rw [hrows, List.nil_append, block_led] at ha
          simp only [List.map_cons, List.map_nil, List.flatMap_cons, List.flatMap_nil, List.append_nil,
            List.getLast?_append, hlast, Option.some_or] at ha
          rw [hlast]
          exact ha
        · rw [hrows, List.cons_append, block_led] at ha
          simp only [List.map_cons, List.map_nil, List.map_append, List.flatMap_cons, List.flatMap_nil,
            List.flatMap_append, List.append_nil, List.getLast?_append, hlast, Option.some_or] at ha
          rw [hlast]
          exact ha
  have hstrip := strip_append (l := []) (r := ['\n']) nofun (by simp [isspace]) htrimmed (entry_ne c)
  rw [entry_eq]
  exact hstrip

variable (T : DecimalTable)

/-- The parser undoes an entry: cut at the end of the body, then into fields and rows. -/
theorem Printed.Legible.read_entry (now : PyDatetime) : parse_entry T now c.entry = .ok (some c.commit) := by
  have hend : body_end ∈ [separator, field_sep, body_end] := by decide
  rw [parse_entry, h.strip_entry, if_neg (entry_ne c),
    partition_append (by decide) (free_dropLast hend (h.header_free (.inr rfl)))]
  dsimp only
  rw [h.fields]
  dsimp only
  rw [h.read_date, numstat_rows_block T h.rows]
  show Except.ok (some _) = _
  simp only [Printed.commit, List.map_map, List.head?_cons, Option.getD_some]
  rfl

end Read

/-- The parser reads back the rendering of legible commits. -/
theorem parse_rendered (T : DecimalTable) (now : PyDatetime) {commits : List Printed}
    (h : ∀ c ∈ commits, c.Legible) : parse_log T now (render commits) = .ok (commits.map Printed.commit) := by
  rcases commits with _ | ⟨c, rest⟩
  · rfl
  · have hoccupied : strip (render (c :: rest)) ≠ [] := by
      intro hempty
      rw [strip, List.rdropWhile_eq_nil_iff] at hempty
      have hfirst : (render (c :: rest)).dropWhile isspace = render (c :: rest) := rfl
      rw [hfirst] at hempty
      exact absurd (hempty '-' List.mem_cons_self) (by decide)
    have hcut : split_on separator (render (c :: rest)) = [] :: (c :: rest).map Printed.entry := by
      have hled := @split_on_led _ _ separator [] (by decide) ((c :: rest).map Printed.entry) (by
        intro p hp
        rcases List.mem_cons.mp hp with rfl | hp
        · decide
        · obtain ⟨c', hc', rfl⟩ := List.mem_map.mp hp
          exact (h c' hc').entry_free)
      rw [List.nil_append, List.flatMap_map] at hled
      exact hled
    have hread : ∀ cs : List Printed, (∀ c ∈ cs, c.Legible) →
        (cs.map Printed.entry).mapM (parse_entry T now) = .ok (cs.map fun c => some c.commit) := by
      intro cs hcs
      induction cs with
      | nil => rfl
      | cons c cs ih =>
          rw [List.map_cons, List.mapM_cons, (hcs c List.mem_cons_self).read_entry T now,
            ih fun c hc => hcs c (List.mem_cons_of_mem _ hc)]
          rfl
    rw [parse_log, if_neg hoccupied, hcut, List.mapM_cons, hread _ h]
    show Except.ok (List.filterMap id (none :: (c :: rest).map fun c => some c.commit)) = _
    rw [List.filterMap_cons_none rfl, List.filterMap_map]
    show Except.ok (List.filterMap (fun c => some (Printed.commit c)) (c :: rest)) = _
    rw [List.filterMap_eq_map']

/-! ## Text mode -/

section Decoding

/-- The commit that the parser is given: its body has been decoded. -/
def Printed.decoded (c : Printed) : Printed := { c with body := universal_newlines c.body }

/-- Text mode does not touch a row. -/
theorem NumstatRow.Legible.text_no_return {r : NumstatRow} (h : r.Legible) : '\r' ∉ r.text := by
  have hcount := count_chars (p := fun c => c ≠ '\r') (by decide) (by decide)
  rw [NumstatRow.text]
  simp only [List.mem_append, List.mem_cons, not_or]
  exact ⟨fun hin => hcount _ _ hin rfl, by decide, fun hin => hcount _ _ hin rfl, by decide, h.no_return⟩

variable {c : Printed} (h : c.Legible)

include h

/-- Only the body of an entry is decoded, and it is decoded by itself: dashes follow it. -/
theorem Printed.Legible.decode_entry (rest : List Char) :
    universal_newlines (separator ++ c.entry ++ rest) = separator ++ c.decoded.entry ++ universal_newlines rest := by
  -- no carriage return stands in the rows,
  have hrows : '\r' ∉ block c.rows ++ ['\n'] := by
    have hlines : ∀ t ∈ c.rows.map (·.text), '\r' ∉ t := by
      intro t ht
      obtain ⟨r, hr, rfl⟩ := List.mem_map.mp ht
      exact (h.rows r hr).text_no_return
    rcases hcases : c.rows with _ | ⟨r, rows⟩
    · decide
    · rw [hcases] at hlines
      rw [block_led]
      simp only [List.nil_append, List.flatMap_cons, List.mem_append, List.mem_flatMap, List.mem_singleton, not_or,
        not_exists, not_and]
      exact ⟨⟨⟨by decide, by decide⟩, fun t ht => ⟨by decide, hlines t ht⟩⟩, by decide⟩
  -- nor in the fields before the body,
  have hfields : '\r' ∉ separator ++ (c.hash ++ field_sep ++ (c.author ++ field_sep
      ++ (c.date_text ++ field_sep ++ (c.subject ++ field_sep)))) := by
    have hdate := date_chars h.strict_date '\r' (by decide)
    obtain ⟨hhash, hauthor, hsubject⟩ := h.no_return
    have hsep : '\r' ∉ separator := by decide
    have hfield : '\r' ∉ field_sep := by decide
    simp only [List.mem_append, not_or]
    exact ⟨hsep, ⟨hhash, hfield⟩, ⟨hauthor, hfield⟩, ⟨hdate, hfield⟩, hsubject, hfield⟩
  have htail : '\r' ∉ body_end ++ (block c.rows ++ ['\n']) := by
    rw [List.mem_append, not_or]
    exact ⟨by decide, hrows⟩
  -- and behind the body come dashes, so a carriage return at its end is not joined to a line feed
  have hdashes : ∀ a ∈ (body_end ++ (block c.rows ++ ['\n']) ++ rest).head?, a ≠ '\n' := by
    rintro a ⟨⟩
    decide
  calc universal_newlines (separator ++ c.entry ++ rest)
      = universal_newlines (separator ++ (c.hash ++ field_sep ++ (c.author ++ field_sep
          ++ (c.date_text ++ field_sep ++ (c.subject ++ field_sep))))
          ++ (c.body ++ (body_end ++ (block c.rows ++ ['\n']) ++ rest))) := by
        rw [entry_eq, Printed.header]
        simp only [List.append_assoc]
    _ = separator ++ (c.hash ++ field_sep ++ (c.author ++ field_sep
          ++ (c.date_text ++ field_sep ++ (c.subject ++ field_sep))))
          ++ (universal_newlines c.body ++ (body_end ++ (block c.rows ++ ['\n']) ++ universal_newlines rest)) := by
        rw [universal_newlines_append hfields, ← universal_newlines_append htail rest]
        congr 1
        exact newlines_append hdashes c.body false
    _ = separator ++ c.decoded.entry ++ universal_newlines rest := by
        rw [entry_eq, Printed.header]
        simp only [List.append_assoc]
        rfl

/-- The decoding makes no sentinel, so a legible commit stays legible. -/
theorem Printed.Legible.decoded : c.decoded.Legible where
  hash_start := h.hash_start
  hash_free := h.hash_free
  author_free := h.author_free
  subject_free := h.subject_free
  body_free := by
    have hback : ∀ s ∈ [separator, body_end], s <:+: dashes ++ c.decoded.body ++ dashes → s <:+: dashes ++ c.body ++ dashes := by
      intro s hs hin
      have hline : '\n' ∉ s := by
        simp only [List.mem_cons, List.not_mem_nil, or_false] at hs
        rcases hs with rfl | rfl
        · decide
        · decide
      refine infix_of_universal_newlines hline ?_
      have hbody : universal_newlines (dashes ++ c.body ++ dashes) = dashes ++ c.decoded.body ++ dashes := by
        have hdashes : ∀ a ∈ dashes.head?, a ≠ '\n' := by
          rintro a ⟨⟩
          decide
        rw [List.append_assoc, universal_newlines_append (by decide), List.append_assoc]
        congr 1
        rw [universal_newlines, newlines_append hdashes]
        rfl
      rw [hbody]
      exact hin
    exact ⟨fun hin => h.body_free.1 (hback _ List.mem_cons_self hin),
      fun hin => h.body_free.2 (hback _ (List.mem_cons_of_mem _ List.mem_cons_self) hin)⟩
  no_return := h.no_return
  body_returns := by
    rw [Printed.decoded, strip_universal_newlines h.body_returns]
    exact h.body_returns
  strict_date := h.strict_date
  in_range := h.in_range
  rows := h.rows

/-- `strip` takes what the decoding has changed at the ends of a body, and between them it changes
nothing. -/
theorem Printed.Legible.decoded_commit : c.decoded.commit = c.commit := by
  rw [Printed.commit, Printed.commit]
  simp only [Printed.decoded]
  rw [strip_universal_newlines h.body_returns]

end Decoding

/-- Entry by entry; a separator stands between any two. -/
theorem decode_render {commits : List Printed} (h : ∀ c ∈ commits, c.Legible) :
    universal_newlines (render commits) = render (commits.map Printed.decoded) := by
  induction commits with
  | nil => rfl
  | cons c rest ih =>
      have hrest := ih fun c hc => h c (List.mem_cons_of_mem _ hc)
      have hcons : ∀ (c : Printed) rest, render (c :: rest) = separator ++ c.entry ++ render rest := fun _ _ => rfl
      rw [List.map_cons, hcons, hcons, (h c List.mem_cons_self).decode_entry, hrest]

/-- **`git log` is read back**: of legible commits, the parser returns the commits that were printed, in
their order, each with its own fields, files and sums. -/
theorem parse_log_render (T : DecimalTable) (now : PyDatetime) {commits : List Printed}
    (h : ∀ c ∈ commits, c.Legible) :
    parse_log T now (universal_newlines (render commits)) = .ok (commits.map Printed.commit) := by
  have hdecoded : ∀ c ∈ commits.map Printed.decoded, c.Legible := by
    intro d hd
    obtain ⟨c, hc, rfl⟩ := List.mem_map.mp hd
    exact (h c hc).decoded
  have hsame : (commits.map Printed.decoded).map Printed.commit = commits.map Printed.commit := by
    rw [List.map_map]
    apply List.map_congr_left
    intro c hc
    exact (h c hc).decoded_commit
  rw [decode_render h, parse_rendered T now hdecoded, hsame]

/-! ## What is not read back -/

/-- A row of decimal counts and a path without tab, newline or surrounding whitespace. -/
def NumstatRow.Plain (r : NumstatRow) : Prop := Trimmed r.path ∧ '\t' ∉ r.path ∧ '\n' ∉ r.path

instance : DecidablePred NumstatRow.Plain := fun _ => inferInstanceAs (Decidable (_ ∧ _ ∧ _))

/-- No field holds a sentinel of its own. -/
structure Printed.Plain (c : Printed) : Prop where
  fields : ∀ field ∈ [c.hash, c.author, c.subject], '\n' ∉ field ∧ ∀ s ∈ [separator, field_sep, body_end], ¬ s <:+: field
  body : ¬ separator <:+: c.body ∧ ¬ body_end <:+: c.body
  strict_date : StrictIso c.date c.date_text
  rows : ∀ r ∈ c.rows, r.Plain

/-- A table of the ASCII digits alone. -/
def ascii_table : DecimalTable where
  decimal c := if IsoText.is_digit c then some (c.toNat - '0'.toNat) else none
  ascii := by decide

theorem no_microsecond : 0 < 1000000 := by decide

theorem year_2026 : 1 ≤ 2026 ∧ 2026 ≤ 9999 := by decide

/-- 1 January of a year, at an offset. -/
def new_year (year : ℕ) (h : 1 ≤ year ∧ year ≤ 9999) (offset : ℤ) (hoffset : offset.natAbs < Calendar.DAY) : PyDatetime where
  reading :=
    { year, month := 1, day := 1, hour := 0, minute := 0, second := 0, microsecond := 0, year_mem := h
      month_mem := by decide, day_mem := ⟨by decide, by cases Calendar.is_leap year <;> decide⟩, hour_lt := by decide
      minute_lt := by decide, second_lt := by decide, microsecond_lt := no_microsecond }
  utcoffset := some offset
  utcoffset_lt := by
    rintro _ ⟨⟩
    exact hoffset

def plain : Printed where
  hash := "0123abcd".toList
  author := "Ada".toList
  date := new_year 2026 year_2026 0 (by decide)
  date_text := "2026-01-01T00:00:00+00:00".toList
  subject := "Fix".toList
  body := "a---GIT_ONBOARD_FIELD---b\n\n1\t2\tc.txt".toList
  rows := [⟨some 3, none, "a b.txt".toList⟩]

/-- Six commits that are not read back, each for its own reason. -/
def adversarial : List Printed :=
  -- the first sentinel found is not the one printed
  [{ plain with subject := "---GIT_ONBOARD_FIELD".toList },
    { plain with rows := [⟨some 3, none, separator⟩] },
    -- what `strip` takes was part of a field, or of a row
    { plain with hash := " 0123abcd".toList },
    { plain with rows := [⟨some 3, none, []⟩] },
    -- text mode has made another line end of it before the parser begins
    { plain with body := ['a', '\r', 'b'] },
    -- a date that is out of range in UTC is an error of the whole call
    { plain with
      date := new_year 1 (by decide) 3600000000 (by decide)
      date_text := "0001-01-01T00:00:00+01:00".toList }]

/-- A count that is too long for `int`. -/
def long_row : NumstatRow := ⟨some (10 ^ MAX_STR_DIGITS), none, "a.txt".toList⟩

/-- To see that a commit is not read back it is enough that one field differs. -/
theorem parse_log_ne {c : Printed} {now : PyDatetime}
    (h : ((parse_log ascii_table now (universal_newlines (render [c]))).map fun cs =>
        cs.map fun c => (c.hash, c.subject, c.body, c.files_changed)) ≠ .ok [(String.ofList c.hash,
          String.ofList c.subject, String.ofList (strip c.body), c.rows.map fun r => String.ofList r.path)]) :
    parse_log ascii_table now (universal_newlines (render [c])) ≠ .ok [c.commit] := by
  intro heq
  rw [heq] at h
  exact h rfl

/-- Freedom from the sentinels is not enough. -/
theorem plain_is_not_enough :
    (∀ c ∈ adversarial, c.Plain
      ∧ parse_log ascii_table plain.date (universal_newlines (render [c])) ≠ .ok [c.commit])
      ∧ long_row.Plain ∧ numstat_row ascii_table long_row.text = none := by
  have hdate : StrictIso plain.date plain.date_text := ⟨0, rfl, rfl, rfl, .inl (by decide)⟩
  refine ⟨?_, by decide, ?_⟩
  · intro c hc
    simp only [adversarial, List.mem_cons, List.not_mem_nil, or_false] at hc
    rcases hc with rfl | rfl | rfl | rfl | rfl | rfl
    · exact ⟨⟨by decide, by decide, hdate, by decide⟩, parse_log_ne (by decide +kernel)⟩
    · exact ⟨⟨by decide, by decide, hdate, by decide⟩, parse_log_ne (by decide +kernel)⟩
    · exact ⟨⟨by decide, by decide, hdate, by decide⟩, parse_log_ne (by decide +kernel)⟩
    · exact ⟨⟨by decide, by decide, hdate, by decide⟩, parse_log_ne (by decide +kernel)⟩
    · exact ⟨⟨by decide, by decide, hdate, by decide⟩, parse_log_ne (by decide +kernel)⟩
    · exact ⟨⟨by decide, by decide, ⟨3600000000, rfl, rfl, rfl, .inl (by decide)⟩, by decide⟩,
        parse_log_ne (by decide +kernel)⟩
  · have hlong : MAX_STR_DIGITS < (Nat.toDigits 10 (10 ^ MAX_STR_DIGITS)).length := by
      rw [← Nat.not_le, Nat.length_toDigits_le_iff (by decide) (by decide)]
      exact Nat.lt_irrefl _
    rw [numstat_row, NumstatRow.split_text (by decide)]
    dsimp only
    rw [show long_row.insertions = some (10 ^ MAX_STR_DIGITS) from rfl, read_long ascii_table hlong]
    rfl

/-- A commit with text in every field, its body ended as another system ends a line, and one with hardly
any. -/
theorem parse_log_render_two :
    parse_log ascii_table plain.date
      (universal_newlines (render [{ plain with body := plain.body ++ ['\r', '\n'] },
        { plain with author := [], subject := [], body := [], rows := [] }]))
      = .ok [plain.commit, { plain.commit with author := "", subject := "", body := "", files_changed := [], insertions := 0, deletions := 0 }] := by
  have hrange : ∃ utc, plain.date.require_utc "git author date" = .ok utc := by
    obtain ⟨d, hd, -⟩ := Calendar.DateTime.of_micros_pos (t := plain.date.reading.micros - 0) (by decide +kernel)
    refine ⟨PyDatetime.utc d, ?_⟩
    rw [PyDatetime.require_utc, show plain.date.utcoffset = some 0 from rfl]
    dsimp only
    rw [hd]
  have hdate : StrictIso plain.date plain.date_text := ⟨0, rfl, rfl, rfl, .inl (by decide)⟩
  refine parse_log_render ascii_table plain.date ?_
  intro c hc
  simp only [List.mem_cons, List.not_mem_nil, or_false] at hc
  have hstart : ∀ a ∈ plain.hash.head?, isspace a = false := by
    rintro a ⟨⟩
    rfl
  rcases hc with rfl | rfl
  · refine ⟨hstart, by decide, by decide, by decide, by decide, by decide, by decide, hdate, hrange, ?_⟩
    intro r hr
    obtain rfl := List.mem_singleton.mp hr
    refine ⟨by decide, by decide, by decide, by decide, by decide, by decide, ?_⟩
    rintro n (hn | hn)
    · obtain rfl := Option.some.inj hn
      decide
    · cases hn
  · refine ⟨hstart, by decide, by decide, by decide, by decide, by decide, by decide, hdate, hrange, ?_⟩
    intro r hr
    cases hr

end GitLog

end OpenChronicle
