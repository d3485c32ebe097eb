/-
Patterns with two wildcards and an escape character: SQL's `LIKE ... ESCAPE`.

A pattern is read into tokens once, and the tokens are matched against the text. Two characters compare
by a relation the caller gives, so that case folding is a parameter.

Escaping is a fixed number of substitutions, one for each special character, each over the whole text.
Substituting the escape character first leaves every later substitution nothing of the earlier ones to
touch: `passes_eq_escape` says that the passes together are one substitution, and `tokens_escape_append`
that the reading undoes it.

A pattern that ends with an escape character has nothing to escape there; it is none, and no pattern
that was built by escaping ends so.
-/
import Mathlib.Data.List.Forall2
import Mathlib.Data.List.Infix

set_option autoImplicit false

namespace Like

/-! ## Tokens and matching -/

/-- One element of a pattern. -/
inductive Token (α : Type) where
  /-- Any run of characters. -/
  | many
  /-- Any one character. -/
  | one
  | lit (c : α)
  deriving DecidableEq, Repr

/-- The special characters of a pattern language. -/
structure Specials (α : Type) where
  escape : α
  many : α
  one : α

section Reading

variable {α : Type} [DecidableEq α] (sp : Specials α)

/-- The tokens of a pattern: an escape makes the character after it a literal. `none` is a
pattern that ends in an escape, which nothing matches. -/
def tokens : List α → Option (List (Token α))
  | [] => some []
  | [c] =>
      if c = sp.escape then none
      else if c = sp.many then some [.many]
      else if c = sp.one then some [.one]
      else some [.lit c]
  | c :: d :: rest =>
      if c = sp.escape then (tokens rest).map (.lit d :: ·)
      else if c = sp.many then (tokens (d :: rest)).map (.many :: ·)
      else if c = sp.one then (tokens (d :: rest)).map (.one :: ·)
      else (tokens (d :: rest)).map (.lit c :: ·)

/-- The three rules of the reading: an escaped character stands for itself, -/
theorem tokens_escape_cons (d : α) (rest : List α) :
    tokens sp (sp.escape :: d :: rest) = (tokens sp rest).map (.lit d :: ·) := by
  rw [tokens, if_pos rfl]

/-- a wildcard that is not escaped is one, -/
theorem tokens_many_cons (h : sp.many ≠ sp.escape) (rest : List α) :
    tokens sp (sp.many :: rest) = (tokens sp rest).map (.many :: ·) := by
  cases rest with
  | nil => simp only [tokens, if_neg h, if_true, Option.map_some]
  | cons d rest => rw [tokens, if_neg h, if_pos rfl]

/-- and any other character stands for itself. -/
theorem tokens_lit_cons {c : α} (hescape : c ≠ sp.escape) (hmany : c ≠ sp.many) (hone : c ≠ sp.one)
    (rest : List α) : tokens sp (c :: rest) = (tokens sp rest).map (.lit c :: ·) := by
  cases rest with
  | nil => simp only [tokens, if_neg hescape, if_neg hmany, if_neg hone, Option.map_some]
  | cons d rest => rw [tokens, if_neg hescape, if_neg hmany, if_neg hone]

end Reading

section Matching

variable {α : Type} (same : α → α → Bool)

/-- Whether the whole text matches; `same` compares a literal with a character of the text. -/
def accepts : List (Token α) → List α → Bool
  | [], s => s.isEmpty
  | .many :: ts, s => s.tails.any fun rest => accepts ts rest
  | .one :: _, [] => false
  | .one :: ts, _ :: s => accepts ts s
  | .lit _ :: _, [] => false
  | .lit c :: ts, d :: s => same c d && accepts ts s

/-- `%` takes any beginning of the text. -/
theorem accepts_many_iff {ts : List (Token α)} {s : List α} :
    accepts same (.many :: ts) s = true ↔ ∃ skipped rest, s = skipped ++ rest ∧ accepts same ts rest = true := by
  rw [accepts, List.any_eq_true]
  constructor
  · intro h
    obtain ⟨rest, hrest, hts⟩ := h
    obtain ⟨skipped, hs⟩ := (List.mem_tails _ _).mp hrest
    exact ⟨skipped, rest, hs.symm, hts⟩
  · intro h
    obtain ⟨skipped, rest, hs, hts⟩ := h
    exact ⟨rest, (List.mem_tails _ _).mpr ⟨skipped, hs.symm⟩, hts⟩

/-- A run of literals matches a text character by character. -/
theorem accepts_lits_append {v : List α} {ts : List (Token α)} {s : List α} :
    accepts same (v.map .lit ++ ts) s = true
      ↔ ∃ found rest, s = found ++ rest ∧ List.Forall₂ (fun c d => same c d = true) v found
          ∧ accepts same ts rest = true := by
  induction v generalizing s with
  -- the literals are read from the left, one character each
  | nil =>
      rw [List.map_nil, List.nil_append]
      constructor
      · intro h
        exact ⟨[], s, rfl, .nil, h⟩
      · intro h
        obtain ⟨found, rest, hs, hfound, hts⟩ := h
        cases hfound
        rw [hs]
        exact hts
  | cons c v ih =>
      rw [List.map_cons, List.cons_append]
      cases s with
      | nil =>
          rw [accepts]
          constructor
          · intro h
            exact absurd h Bool.false_ne_true
          · intro h
            obtain ⟨found, rest, hs, hfound, -⟩ := h
            cases hfound
            exact absurd hs (List.cons_ne_nil _ _).symm
      | cons d s =>
          rw [accepts, Bool.and_eq_true, ih]
          constructor
          · intro h
            obtain ⟨hsame, found, rest, hs, hfound, hts⟩ := h
            exact ⟨d :: found, rest, by rw [hs, List.cons_append], .cons hsame hfound, hts⟩
          · intro h
            obtain ⟨found, rest, hs, hfound, hts⟩ := h
            cases hfound with
            | cons hsame hfound =>
                rw [List.cons_append, List.cons.injEq] at hs
                rw [hs.1]
                exact ⟨hsame, _, rest, hs.2, hfound, hts⟩

/-- A literal between two wildcards is found anywhere in the text. -/
theorem accepts_surrounded_iff {v s : List α} :
    accepts same (.many :: (v.map .lit ++ [.many])) s = true
      ↔ ∃ before found after, s = before ++ found ++ after
          ∧ List.Forall₂ (fun c d => same c d = true) v found := by
  rw [accepts_many_iff]
  constructor
  · intro h
    obtain ⟨before, rest, hs, hrest⟩ := h
    obtain ⟨found, after, hfound, hv, -⟩ := (accepts_lits_append same).mp hrest
    exact ⟨before, found, after, by rw [hs, hfound, List.append_assoc], hv⟩
  · intro h
    obtain ⟨before, found, after, hs, hv⟩ := h
    refine ⟨before, found ++ after, by rw [hs, List.append_assoc], ?_⟩
    refine (accepts_lits_append same).mpr ⟨found, after, rfl, hv, ?_⟩
    -- the closing wildcard takes all that is left
    exact (accepts_many_iff same).mpr ⟨after, [], (List.append_nil after).symm, rfl⟩

end Matching

/-! ## Escaping, one special character after another -/

section Escaping

variable {α : Type} [DecidableEq α]

/-- `s.replace(old, new)` for one character `old`. -/
def replace (old : α) (new s : List α) : List α := s.flatMap fun c => if c = old then new else [c]

/-- One substitution for each of `chars`, in that order. -/
def passes (esc : α) (chars s : List α) : List α :=
  chars.foldl (fun value ch => replace ch [esc, ch] value) s

/-- All of `chars` escaped at once. -/
def escape (esc : α) (chars s : List α) : List α :=
  s.flatMap fun c => if c ∈ chars then [esc, c] else [c]

/-- A pass for a new character goes over an escaped text and leaves its escapes alone, as the
escape character is one of those already done. -/
theorem replace_escape {esc ch : α} {done : List α} (hesc : esc ∈ done) (hch : ch ∉ done)
    (s : List α) : replace ch [esc, ch] (escape esc done s) = escape esc (done ++ [ch]) s := by
  have hne : esc ≠ ch := by
    intro h
    rw [h] at hesc
    exact hch hesc
  rw [replace, escape, escape, List.flatMap_assoc]
  congr 1
  funext c
  by_cases hdone : c ∈ done
  · have hc : c ≠ ch := by
      intro h
      rw [h] at hdone
      exact hch hdone
    rw [if_pos hdone, if_pos (List.mem_append_left _ hdone), List.flatMap_cons, List.flatMap_singleton,
      if_neg hne, if_neg hc]
    rfl
  · rw [if_neg hdone, List.flatMap_singleton]
    by_cases hc : c = ch
    · rw [if_pos hc, hc, if_pos (List.mem_append_right _ (List.mem_singleton.mpr rfl))]
    · rw [if_neg hc, if_neg]
      rw [List.mem_append, List.mem_singleton]
      exact not_or.mpr ⟨hdone, hc⟩

/-- The escape character was the first to be substituted, so the ones put in later are not touched. -/
theorem passes_escape {esc : α} {done chars : List α} (hesc : esc ∈ done)
    (hnodup : (done ++ chars).Nodup) (s : List α) :
    passes esc chars (escape esc done s) = escape esc (done ++ chars) s := by
  induction chars generalizing done with
  | nil => rw [List.append_nil, passes, List.foldl_nil]
  | cons ch chars ih =>
      have hch : ch ∉ done := by
        intro h
        exact (List.nodup_append.mp hnodup).2.2 ch h ch List.mem_cons_self rfl
      have hjoin : done ++ [ch] ++ chars = done ++ ch :: chars := by
        rw [List.append_assoc, List.singleton_append]
      rw [passes, List.foldl_cons, replace_escape hesc hch, ← hjoin]
      exact ih (List.mem_append_left _ hesc) (by rw [hjoin]; exact hnodup)

/-- With the escape character first, the passes escape every special character once. -/
theorem passes_eq_escape {esc : α} {chars : List α} (hnodup : (esc :: chars).Nodup) (s : List α) :
    passes esc (esc :: chars) s = escape esc (esc :: chars) s := by
  have hfirst : replace esc [esc, esc] s = escape esc [esc] s := by
    rw [replace, escape]
    congr 1
    funext c
    by_cases hc : c = esc
    · rw [if_pos hc, if_pos (List.mem_singleton.mpr hc), hc]
    · rw [if_neg hc, if_neg (fun h => hc (List.mem_singleton.mp h))]
  rw [passes, List.foldl_cons, hfirst]
  exact passes_escape (List.mem_singleton.mpr rfl) hnodup s

variable (sp : Specials α)

/-- Reading undoes escaping, whatever comes after. -/
theorem tokens_escape_append (v rest : List α) :
    tokens sp (escape sp.escape [sp.escape, sp.many, sp.one] v ++ rest)
      = (tokens sp rest).map (v.map .lit ++ ·) := by
  induction v with
  | nil =>
      rw [escape, List.flatMap_nil, List.nil_append, List.map_nil]
      exact Option.map_id'.symm
  | cons c v ih =>
      have hmap : ∀ ts : Option (List (Token α)),
          (ts.map (v.map .lit ++ ·)).map (.lit c :: ·) = ts.map ((c :: v).map .lit ++ ·) := by
        intro ts
        rw [Option.map_map]
        rfl
      rw [escape, List.flatMap_cons, ← escape, List.append_assoc]
      by_cases hc : c ∈ [sp.escape, sp.many, sp.one]
      · rw [if_pos hc, List.cons_append, List.singleton_append, tokens_escape_cons, ih, hmap]
      · rw [if_neg hc, List.singleton_append]
        rw [List.mem_cons, List.mem_cons, List.mem_singleton, not_or, not_or] at hc
        rw [tokens_lit_cons sp hc.1 hc.2.1 hc.2.2, ih, hmap]

end Escaping

/-! ## The pattern operator -/

section Operator

variable {α : Type} [DecidableEq α] (sp : Specials α) (same : α → α → Bool)

/-- `text LIKE pattern ESCAPE esc`. -/
def like (pattern text : List α) : Bool := (tokens sp pattern).any fun ts => accepts same ts text

/-- **Escaped text is literal.** A text escaped pass by pass and put between two wildcards is
looked for as it stands. -/
theorem like_surrounded_iff (hnodup : [sp.escape, sp.many, sp.one].Nodup) (v s : List α) :
    like sp same (sp.many :: (passes sp.escape [sp.escape, sp.many, sp.one] v ++ [sp.many])) s = true
      ↔ ∃ before found after, s = before ++ found ++ after
          ∧ List.Forall₂ (fun c d => same c d = true) v found := by
  have hmany : sp.many ≠ sp.escape := by
    intro h
    exact (List.nodup_cons.mp hnodup).1 (by rw [← h]; exact List.mem_cons_self)
  rw [like, tokens_many_cons sp hmany, passes_eq_escape hnodup, tokens_escape_append,
    tokens_many_cons sp hmany, tokens]
  exact accepts_surrounded_iff same

end Operator

end Like
