/-
What `_fts5_escape` makes of a query, as FTS5 reads it.

FTS5 is not part of the repository. `ReadsMatch` states what its documentation says of the text after
`MATCH`: it ends at the first NUL, a string runs to the next double quote that is not one of a pair, and
strings joined by `OR` are an expression. Escaping leaves nothing outside of strings but `OR`, for every
query without a NUL. `str.split` does not take NUL for whitespace, so one stays inside a string, and
there the text ends before the string does.

The escaped text is brought into one form for both branches: a list of contents, each put in quotes,
joined by `OR` (`expression`). No content has a double quote in it, since they were removed before, so
that each string ends where its closing quote is; what a query had of operators, filters and marks is
inside of strings. What is left to show is that the contents hold the tokens of the query, and that
something comes back unless there was nothing but whitespace and quotes.

The reader at the end of the file reads the whole language of expressions. It is there to show that what
is assumed of FTS5 can be met, by a reader that does treat the other marks as operators.
-/
import OpenChronicle.Lib.Words
import OpenChronicle.Store.Search

set_option autoImplicit false

namespace OpenChronicle.Escape

variable {F R : Type}

/-! ## The MATCH language -/

/-- A token of the expression. A string that is not quoted, `AND`, `NOT` and the marks for
columns, prefixes and groups are all `other`. -/
inductive Token where
  | quoted (content : List Char)
  | OR
  | other (text : List Char)
  deriving DecidableEq, Repr

/-- The character at which SQLite takes a text to end. -/
def NUL : Char := Char.ofNat 0

/-- The quoted strings, joined only by `OR`. -/
def or_joined (contents : List (List Char)) : List Token :=
  (contents.map .quoted).intersperse .OR

/-- FTS5's reader, as documented; `none` is its syntax error. -/
structure ReadsMatch (P : Platform R) (tokens : List Char → Option (List Token)) : Prop where
  ends_at_nul : ∀ s t, NUL ∉ s → tokens (s ++ NUL :: t) = tokens s
  empty : tokens [] = some []
  blank : ∀ s, tokens (' ' :: s) = tokens s
  closed : ∀ s t, '"' ∉ s → NUL ∉ s → t.head? ≠ some '"' →
    tokens ('"' :: s ++ '"' :: t) = (tokens t).map (.quoted s :: ·)
  unterminated : ∀ s, '"' ∉ s → NUL ∉ s → tokens ('"' :: s) = none
  or_word : ∀ t, tokens ('O' :: 'R' :: ' ' :: t) = (tokens t).map (.OR :: ·)
  accepts : ∀ idx expression contents, contents ≠ [] →
    tokens expression.toList = some (or_joined contents) →
    ∃ rank, P.fts5_match idx expression = .ok rank

/-! ## The expression -/

/-- The query's whitespace tokens with the double quotes removed. -/
def clean_tokens (query : String) : List (List Char) :=
  ((PyStr.split query.toList).map (PyStr.without '"')).filter (· ≠ [])

/-- What the strings of the expression are to hold. -/
def contents (query : String) (phrase : Bool) : List (List Char) :=
  if phrase then [PyStr.join [' '] (clean_tokens query)] else clean_tokens query

/-- `f'"{token}"'`. -/
def quote (token : List Char) : List Char := '"' :: token ++ ['"']

/-- `" OR ".join(...)`. -/
def expression (contents : List (List Char)) : List Char :=
  PyStr.join " OR ".toList (contents.map quote)

/-- White space is no quote, so taking the quotes out moves no boundary of a word. -/
theorem quote_not_space (c : Char) (hc : PyStr.isspace c = true) : decide (c ≠ '"') = true := by
  refine decide_eq_true ?_
  rintro rfl
  exact absurd hc (by decide)

/-- The quotes may go before the split or after it. -/
theorem split_without (s : List Char) :
    PyStr.split (PyStr.without '"' s) = ((PyStr.split s).map (PyStr.without '"')).filter (· ≠ []) :=
  PyStr.split_filter quote_not_space

/-- A cleaned token is not empty and has no quotes. -/
theorem mem_clean_tokens {query : String} {t : List Char} (ht : t ∈ clean_tokens query) :
    t ≠ [] ∧ '"' ∉ t := by
  rw [clean_tokens, ← split_without] at ht
  refine ⟨(PyStr.word_of_split ht).1, ?_⟩
  intro hq
  have hmem := (PyStr.mem_split_iff.mp ⟨t, ht, hq⟩).1
  exact absurd (List.mem_filter.mp hmem).2 (by simp)

/-- A character stands in a cleaned token when it stands in the query and is neither
whitespace nor a double quote. -/
theorem mem_clean_tokens_iff (query : String) (c : Char) :
    (∃ t ∈ clean_tokens query, c ∈ t)
      ↔ c ∈ query.toList ∧ PyStr.isspace c = false ∧ c ≠ '"' := by
  rw [clean_tokens, ← split_without, PyStr.mem_split_iff, PyStr.without, List.mem_filter]
  simp only [decide_eq_true_eq]
  tauto

/-- Nothing is left of a query of whitespace and quotes. -/
theorem clean_tokens_eq_nil_iff (query : String) :
    clean_tokens query = [] ↔ ∀ c ∈ query.toList, PyStr.isspace c = true ∨ c = '"' := by
  constructor
  · intro hnil c hc
    by_contra hout
    have hout' : PyStr.isspace c = false ∧ c ≠ '"' := by simpa using hout
    obtain ⟨t, ht, -⟩ := (mem_clean_tokens_iff query c).mpr ⟨hc, hout'⟩
    rw [hnil] at ht
    cases ht
  · intro hall
    by_contra hne
    obtain ⟨t, ht⟩ := List.exists_mem_of_ne_nil _ hne
    obtain ⟨c, hc⟩ := List.exists_mem_of_ne_nil t (mem_clean_tokens ht).1
    obtain ⟨hmem, hspace, hquote⟩ := (mem_clean_tokens_iff query c).mp ⟨t, ht, hc⟩
    rcases hall c hmem with h | h
    · rw [h] at hspace
      cases hspace
    · exact hquote h

/-- A join of words that are not empty is empty only without words. -/
theorem join_eq_nil_iff {sep : List Char} {parts : List (List Char)} (h : ∀ p ∈ parts, p ≠ []) :
    PyStr.join sep parts = [] ↔ parts = [] := by
  rcases parts with _ | ⟨p, _ | ⟨q, rest⟩⟩
  · simp [PyStr.join]
  · simp [PyStr.join, List.intercalate, h p]
  · simp [PyStr.join, List.intercalate, h p]

/-- `_fts5_escape` answers the expression of its contents, or nothing. -/
theorem fts5_escape_eq (query : String) (phrase : Bool) :
    (fts5_escape query phrase).toList
      = if clean_tokens query = [] then [] else expression (contents query phrase) := by
  have hparts : ∀ t ∈ clean_tokens query, t ≠ [] := fun t ht => (mem_clean_tokens ht).1
  rw [fts5_escape]
  by_cases hblank : PyStr.isBlank query.toList = true
  · -- the guard of the first line only takes what would come to nothing anyway
    have hnil : clean_tokens query = [] := by
      rw [clean_tokens_eq_nil_iff]
      intro c hc
      exact Or.inl (List.all_eq_true.mp hblank c hc)
    rw [if_pos hblank, if_pos hnil]
    rfl
  · rw [if_neg hblank]
    by_cases hphrase : phrase = true
    · simp only [hphrase, if_true, split_without, contents]
      rw [← clean_tokens]
      by_cases hnil : clean_tokens query = []
      · rw [if_pos hnil, if_pos ((join_eq_nil_iff hparts).mpr hnil)]
        rfl
      · rw [if_neg hnil, if_neg (fun h => hnil ((join_eq_nil_iff hparts).mp h)), String.toList_ofList]
        simp [expression, quote, PyStr.join, List.intercalate]
    · simp only [Bool.not_eq_true] at hphrase
      simp only [hphrase, Bool.false_eq_true, if_false, contents, String.toList_ofList]
      rw [← clean_tokens]
      by_cases hnil : clean_tokens query = []
      · rw [if_pos hnil, hnil]
        rfl
      · rw [if_neg hnil]
        rfl

/-- Where there is a token there is a string. -/
theorem contents_ne_nil (query : String) (phrase : Bool) (h : clean_tokens query ≠ []) :
    contents query phrase ≠ [] := by
  rw [contents]
  by_cases hphrase : phrase = true
  · rw [if_pos hphrase]
    exact List.cons_ne_nil _ _
  · rw [if_neg hphrase]
    exact h

/-- A character of the contents is one of a token, or the blank of a phrase. -/
theorem mem_contents {query : String} {phrase : Bool} {c : Char} (hc : c ≠ ' ') :
    (∃ t ∈ contents query phrase, c ∈ t) ↔ ∃ t ∈ clean_tokens query, c ∈ t := by
  have hjoin : ∀ parts : List (List Char),
      c ∈ PyStr.join [' '] parts ↔ ∃ t ∈ parts, c ∈ t := by
    intro parts
    induction parts with
    | nil => simp [PyStr.join]
    | cons p rest ih =>
        rcases rest with _ | ⟨q, rest⟩
        · simp [PyStr.join, List.intercalate]
        · have hstep : PyStr.join [' '] (p :: q :: rest) = p ++ ' ' :: PyStr.join [' '] (q :: rest) := by
            simp [PyStr.join, List.intercalate]
          rw [hstep, List.mem_append, List.mem_cons, ih, List.exists_mem_cons_iff]
          simp [hc]
  rw [contents]
  by_cases hphrase : phrase = true
  · simp only [hphrase, if_true, List.mem_singleton, exists_eq_left, hjoin]
  · simp only [hphrase, Bool.false_eq_true, if_false]

/-! ## How it is read -/

section Read

variable {P : Platform R} {tokens : List Char → Option (List Token)}

/-- The form of an expression with more than one string. -/
theorem expression_cons (t t' : List Char) (rest : List (List Char)) :
    expression (t :: t' :: rest)
      = '"' :: t ++ '"' :: (' ' :: 'O' :: 'R' :: ' ' :: expression (t' :: rest)) := by
  simp [expression, quote, PyStr.join, List.intercalate]

/-- Strings without a NUL are read as they were written. -/
theorem tokens_expression (h : ReadsMatch P tokens) (t : List Char) (rest : List (List Char))
    (hall : ∀ t' ∈ t :: rest, '"' ∉ t' ∧ NUL ∉ t') :
    tokens (expression (t :: rest)) = some (or_joined (t :: rest)) := by
  induction rest generalizing t with
  | nil =>
      obtain ⟨hquote, hnul⟩ := hall t List.mem_cons_self
      have hone : expression [t] = '"' :: t ++ '"' :: [] := by
        simp [expression, quote, PyStr.join, List.intercalate]
      rw [hone, h.closed t [] hquote hnul (by simp), h.empty]
      rfl
  | cons t' rest ih =>
      obtain ⟨hquote, hnul⟩ := hall t List.mem_cons_self
      have hrest := ih t' fun u hu => hall u (List.mem_cons_of_mem _ hu)
      rw [expression_cons, h.closed t _ hquote hnul (by simp), h.blank, h.or_word, hrest]
      rfl

/-- The text ends at a NUL, inside the string that holds it. -/
theorem tokens_quote_nul (h : ReadsMatch P tokens) {t : List Char} (hquote : '"' ∉ t)
    (hnul : NUL ∈ t) (rest : List Char) : tokens ('"' :: t ++ '"' :: rest) = none := by
  obtain ⟨a, b, rfl, ha⟩ := List.eq_append_cons_of_mem hnul
  have hqa : '"' ∉ a := fun hq => hquote (List.mem_append_left _ hq)
  have hcut : NUL ∉ '"' :: a := by
    intro hn
    rcases List.mem_cons.mp hn with hn | hn
    · exact absurd hn (by decide)
    · exact ha hn
  have hsplit : '"' :: (a ++ NUL :: b) ++ '"' :: rest
      = ('"' :: a) ++ NUL :: (b ++ '"' :: rest) := by simp
  rw [hsplit, h.ends_at_nul _ _ hcut, h.unterminated a hqa ha]

/-- The strings before the one with the NUL have been read; the text ends in the middle of that one. -/
theorem tokens_expression_nul (h : ReadsMatch P tokens) (t : List Char) (rest : List (List Char))
    (hall : ∀ t' ∈ t :: rest, '"' ∉ t') (hnul : ∃ t' ∈ t :: rest, NUL ∈ t') :
    tokens (expression (t :: rest)) = none := by
  have hquote := hall t List.mem_cons_self
  induction rest generalizing t with
  | nil =>
      obtain ⟨t', ht', hn⟩ := hnul
      obtain rfl := List.mem_singleton.mp ht'
      have hone : expression [t'] = '"' :: t' ++ '"' :: [] := by
        simp [expression, quote, PyStr.join, List.intercalate]
      rw [hone, tokens_quote_nul h hquote hn]
  | cons t' rest ih =>
      rw [expression_cons]
      by_cases hn : NUL ∈ t
      · exact tokens_quote_nul h hquote hn _
      · -- the strings before the one with the NUL are read, and then nothing comes of it
        have hlater : ∃ u ∈ t' :: rest, NUL ∈ u := by
          obtain ⟨u, hu, hun⟩ := hnul
          rcases List.mem_cons.mp hu with rfl | hu
          · exact absurd hun hn
          · exact ⟨u, hu, hun⟩
        have hrest := ih t' (fun u hu => hall u (List.mem_cons_of_mem _ hu)) hlater
          (hall t' (List.mem_cons_of_mem _ List.mem_cons_self))
        rw [h.closed t _ hquote hn (by simp), h.blank, h.or_word, hrest]
        rfl

end Read

/-! ## The result -/

/-- The query is neutralized: nothing comes back exactly when only whitespace and double
quotes went in; otherwise FTS5 reads quoted strings joined by `OR` that hold the query's
tokens; and a search does not fail on it, although a limit that cannot be bound fails. -/
def Neutralized (F : Type) [LinearOrder R] (P : Platform R)
    (tokens : List Char → Option (List Token)) (query : String) (phrase : Bool) : Prop :=
  (fts5_escape query phrase = "" ↔ ∀ c ∈ query.toList, PyStr.isspace c = true ∨ c = '"')
    ∧ (fts5_escape query phrase ≠ "" →
      tokens (fts5_escape query phrase).toList = some (or_joined (contents query phrase)))
    ∧ ∀ (s : SqliteStore F) limit project_id tags mode, s.db.memory_fts ≠ none →
      (∃ items, s.fts5_search_memory P query limit project_id tags phrase mode = .ok items)
        ∨ 2 ^ 63 ≤ limit
          ∧ s.fts5_search_memory P query limit project_id tags phrase mode = .error .OverflowError

/-- An expression that is read is searched for, unless the limit cannot be bound. -/
theorem search_ok [LinearOrder R] {P : Platform R} {s : SqliteStore F} {query : String}
    {limit : ℕ} {project_id : Option String} {tags : Option (List PyStr.Text)} {phrase : Bool}
    {mode : PinnedMode} (hindex : s.db.memory_fts ≠ none)
    (hmatch : fts5_escape query phrase ≠ "" →
      ∀ idx, ∃ rank, P.fts5_match idx (fts5_escape query phrase) = .ok rank) :
    (∃ items, s.fts5_search_memory P query limit project_id tags phrase mode = .ok items)
      ∨ 2 ^ 63 ≤ limit
        ∧ s.fts5_search_memory P query limit project_id tags phrase mode = .error .OverflowError := by
  by_cases hover : fts5_escape query phrase ≠ "" ∧ s.db.memory_fts.isSome ∧ 2 ^ 63 ≤ limit
  · right
    rw [SqliteStore.fts5_search_memory, if_pos hover]
    exact ⟨hover.2.2, rfl⟩
  · left
    rw [SqliteStore.fts5_search_memory, if_neg hover, SqliteStore.fts5_ranking]
    by_cases hempty : fts5_escape query phrase = ""
    · rw [if_pos hempty]
      exact ⟨_, rfl⟩
    · obtain ⟨idx, hidx⟩ := Option.ne_none_iff_exists'.mp hindex
      obtain ⟨rank, hrank⟩ := hmatch hempty idx
      simp only [if_neg hempty, hidx, hrank]
      exact ⟨_, rfl⟩

/-- There is nothing to search for exactly if no word is left. -/
theorem fts5_escape_eq_empty_iff (query : String) (phrase : Bool) :
    fts5_escape query phrase = "" ↔ clean_tokens query = [] := by
  rw [← String.toList_inj, fts5_escape_eq]
  by_cases hnil : clean_tokens query = []
  · rw [if_pos hnil]
    simp [hnil]
  · rw [if_neg hnil]
    obtain ⟨t, rest, hcontents⟩ :=
      List.exists_cons_of_ne_nil (contents_ne_nil query phrase hnil)
    have hne : expression (contents query phrase) ≠ [] := by
      rw [hcontents]
      rcases rest with _ | ⟨t', rest⟩
      · simp [expression, quote, PyStr.join, List.intercalate]
      · rw [expression_cons]
        exact List.cons_ne_nil _ _
    simpa [hnil] using hne

/-- **Escaping neutralizes a query exactly when no NUL is in it.** -/
theorem fts5_escape_neutralizes_iff (F : Type) [LinearOrder R] {P : Platform R}
    {tokens : List Char → Option (List Token)} (h : ReadsMatch P tokens) (query : String)
    (phrase : Bool) : Neutralized F P tokens query phrase ↔ NUL ∉ query.toList := by
  have hempty : fts5_escape query phrase = ""
      ↔ ∀ c ∈ query.toList, PyStr.isspace c = true ∨ c = '"' := by
    rw [fts5_escape_eq_empty_iff, clean_tokens_eq_nil_iff]
  have hquotes : ∀ t ∈ contents query phrase, '"' ∉ t := by
    intro t ht hq
    obtain ⟨u, hu, huq⟩ := (mem_contents (by decide)).mp ⟨t, ht, hq⟩
    exact (mem_clean_tokens hu).2 huq
  constructor
  · rintro ⟨-, hread, -⟩ hnul
    -- a NUL is neither space nor quote, so some token still has it
    have hinside : ∃ t ∈ clean_tokens query, NUL ∈ t :=
      (mem_clean_tokens_iff query NUL).mpr ⟨hnul, by decide, by decide⟩
    have hne : clean_tokens query ≠ [] := by
      obtain ⟨t, ht, -⟩ := hinside
      exact List.ne_nil_of_mem ht
    obtain ⟨t, rest, hcontents⟩ :=
      List.exists_cons_of_ne_nil (contents_ne_nil query phrase hne)
    have hsome := hread (by rw [ne_eq, fts5_escape_eq_empty_iff]; exact hne)
    rw [fts5_escape_eq, if_neg hne, hcontents, tokens_expression_nul h] at hsome
    · cases hsome
    · rw [← hcontents]
      exact hquotes
    · rw [← hcontents]
      exact (mem_contents (by decide)).mpr hinside
  · intro hnul
    have hnuls : ∀ t ∈ contents query phrase, NUL ∉ t := by
      intro t ht hn
      have hin := (mem_contents (by decide)).mp ⟨t, ht, hn⟩
      exact hnul ((mem_clean_tokens_iff query NUL).mp hin).1
    -- with no quote and no NUL inside, each phrase is read as it was written
    have hread : fts5_escape query phrase ≠ "" →
        contents query phrase ≠ []
          ∧ tokens (fts5_escape query phrase).toList = some (or_joined (contents query phrase)) := by
      intro hne
      rw [ne_eq, fts5_escape_eq_empty_iff] at hne
      have hcne := contents_ne_nil query phrase hne
      refine ⟨hcne, ?_⟩
      obtain ⟨t, rest, hcontents⟩ := List.exists_cons_of_ne_nil hcne
      rw [fts5_escape_eq, if_neg hne]
      rw [hcontents] at hquotes hnuls ⊢
      exact tokens_expression h t rest fun u hu => ⟨hquotes u hu, hnuls u hu⟩
    refine ⟨hempty, fun hne => (hread hne).2, ?_⟩
    intro s limit project_id tags mode hindex
    refine search_ok hindex fun hne idx => ?_
    exact h.accepts idx _ _ (hread hne).1 (hread hne).2

/-! ## A reader of the whole language -/

/-- What has been read and is not yet a token: a bareword that may go on, or a string
whose last double quote may be the first of a pair. Both are in reverse. -/
inductive Pending where
  | nothing
  | word (w : List Char)
  | string (body : List Char)

def Pending.tokens : Pending → List Token
  | nothing => []
  | word w => if w.reverse = ['O', 'R'] then [.OR] else [.other w.reverse]
  | string body => [.quoted body.reverse]

/-- Between tokens, or inside a string. -/
inductive Mode where
  | between (p : Pending)
  | inside (body : List Char)

/-- The characters that FTS5 takes for part of a word, outside ASCII all of them. -/
def is_bareword (c : Char) : Bool := c.isAlphanum || c = '_' || c.toNat = 26 || 128 ≤ c.toNat

def is_blank (c : Char) : Bool := c = ' ' || c = '\t' || c = '\n' || c = '\r'

/-- The characters that mean something between tokens. -/
def is_mark (c : Char) : Bool := c ∈ "()\x7b\x7d:,+*-^".toList

def read_match : Mode → List Char → Option (List Token)
  | .between p, [] => some p.tokens
  | .between p, c :: cs =>
      if c = NUL then some p.tokens
      else if c = '"' then
        match p with
        | .string body => read_match (.inside ('"' :: body)) cs
        | p => (read_match (.inside []) cs).map (p.tokens ++ ·)
      else if is_bareword c then
        match p with
        | .word w => read_match (.between (.word (c :: w))) cs
        | p => (read_match (.between (.word [c])) cs).map (p.tokens ++ ·)
      else if is_blank c then (read_match (.between .nothing) cs).map (p.tokens ++ ·)
      else if is_mark c then
        (read_match (.between .nothing) cs).map (p.tokens ++ .other [c] :: ·)
      else none
  | .inside _, [] => none
  | .inside body, c :: cs =>
      if c = NUL then none
      else if c = '"' then read_match (.between (.string body)) cs
      else read_match (.inside (c :: body)) cs

def match_tokens (text : List Char) : Option (List Token) := read_match (.between .nothing) text

/-- One of the strings is in the content. -/
def hits (toks : List Token) (content : String) : Bool :=
  toks.any fun t =>
    match t with
    | .quoted body => PyStr.contains body content.toList
    | _ => false

def platform : Platform ℕ where
  lower := id
  lower_tag := id
  casefold := id
  fts5_match idx expression :=
    match match_tokens expression.toList with
    | none => .error .OperationalError
    | some toks => .ok fun rowid =>
        if idx.any (fun e => e.rowid = rowid && hits toks e.content) then some 0 else none

/-- What stands behind the character is never read, -/
theorem read_match_ends_at_nul (s t : List Char) :
    ∀ m : Mode, NUL ∉ s → read_match m (s ++ NUL :: t) = read_match m s := by
  induction s with
  | nil =>
      intro m _
      rcases m with p | body
      · simp [read_match]
      · simp [read_match]
  | cons c cs ih =>
      intro m hnul
      obtain ⟨hc, hcs⟩ := List.ne_and_not_mem_of_not_mem_cons hnul
      have hc' : c ≠ NUL := fun h => hc h.symm
      rcases m with p | body
      · simp only [List.cons_append, read_match, if_neg hc', ih _ hcs]
      · simp only [List.cons_append, read_match, if_neg hc', ih _ hcs]

/-- and up to a quote a string is read as it stands. -/
theorem read_match_inside (s t : List Char) : ∀ body : List Char, '"' ∉ s → NUL ∉ s →
    read_match (.inside body) (s ++ t) = read_match (.inside (s.reverse ++ body)) t := by
  induction s with
  | nil => exact fun _ _ _ => rfl
  | cons c cs ih =>
      intro body hquote hnul
      obtain ⟨hc, hcs⟩ := List.ne_and_not_mem_of_not_mem_cons hquote
      obtain ⟨hn, hns⟩ := List.ne_and_not_mem_of_not_mem_cons hnul
      rw [List.cons_append, read_match, if_neg (Ne.symm hn), if_neg (Ne.symm hc), ih _ hcs hns]
      simp

/-- A finished string goes out before whatever comes next. -/
theorem read_match_string (body t : List Char) (ht : t.head? ≠ some '"') :
    read_match (.between (.string body)) t
      = (read_match (.between .nothing) t).map (.quoted body.reverse :: ·) := by
  rcases t with _ | ⟨c, cs⟩
  · rfl
  · have hc : c ≠ '"' := by simpa using ht
    simp only [read_match, if_neg hc, Pending.tokens]
    by_cases hn : c = NUL
    · simp [hn]
    · by_cases hw : is_bareword c = true
      · simp [hn, hw]
      · by_cases hb : is_blank c = true
        · simp [hn, hw, hb]
        · by_cases hm : is_mark c = true
          · simp [hn, hw, hb, hm, Function.comp_def]
          · simp [hn, hw, hb, hm]

theorem platform_reads : ReadsMatch platform match_tokens where
  ends_at_nul s t hs := read_match_ends_at_nul s t _ hs
  empty := rfl
  blank s := by
    have hread : match_tokens (' ' :: s) = (match_tokens s).map ([] ++ ·) := rfl
    rw [hread]
    simp
  closed s t hquote hnul ht := by
    have hopen : match_tokens ('"' :: s ++ '"' :: t)
        = (read_match (.inside []) (s ++ '"' :: t)).map ([] ++ ·) := rfl
    have hclose : ∀ body, read_match (.inside body) ('"' :: t)
        = read_match (.between (.string body)) t := fun _ => rfl
    rw [hopen, read_match_inside s _ [] hquote hnul, hclose, read_match_string _ t ht]
    simp [match_tokens, Function.comp_def]
  unterminated s hquote hnul := by
    have hopen : match_tokens ('"' :: s) = (read_match (.inside []) s).map ([] ++ ·) := rfl
    have hread := read_match_inside s [] [] hquote hnul
    rw [List.append_nil] at hread
    rw [hopen, hread]
    rfl
  or_word t := by
    have hread : match_tokens ('O' :: 'R' :: ' ' :: t)
        = ((match_tokens t).map ([.OR] ++ ·)).map ([] ++ ·) := rfl
    rw [hread, Option.map_map]
    rfl
  accepts idx expression contents _ hread := by
    have hmatch : platform.fts5_match idx expression
        = match match_tokens expression.toList with
          | none => .error .OperationalError
          | some toks => .ok fun rowid =>
              if idx.any (fun e => e.rowid = rowid && hits toks e.content) then some 0
              else none := rfl
    rw [hmatch, hread]
    exact ⟨_, rfl⟩

/-- Operators, a column filter, a prefix mark and a stray double quote in a query. -/
theorem fts5_escape_neutralizes_sample :
    ReadsMatch platform match_tokens ∧ NUL ∉ "tags: say\" OR NOT hi*".toList
      ∧ Neutralized Unit platform match_tokens "tags: say\" OR NOT hi*" false :=
  ⟨platform_reads, by decide,
    (fts5_escape_neutralizes_iff Unit platform_reads "tags: say\" OR NOT hi*" false).mpr (by decide)⟩

/-- One NUL, and the search fails with a syntax error. -/
theorem nul_is_a_syntax_error :
    ¬ Neutralized Unit platform match_tokens (String.ofList ['a', NUL, 'b']) false := by
  rintro ⟨-, -, hsearch⟩
  have hraises : SqliteStore.fts5_search_memory platform
      (⟨{ memory_fts := some [] }, true⟩ : SqliteStore Unit) (String.ofList ['a', NUL, 'b']) 8
      none none false .include_pins = .error .OperationalError := by
    decide +kernel
  rcases hsearch ⟨{ memory_fts := some [] }, true⟩ 8 none none .include_pins (by simp) with
    ⟨items, hrun⟩ | ⟨-, hrun⟩
  · rw [hraises] at hrun
    cases hrun
  · rw [hraises] at hrun
    cases hrun

end OpenChronicle.Escape
