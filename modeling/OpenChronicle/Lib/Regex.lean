/-
Regular expressions over an arbitrary alphabet, by derivatives.

A character class is a predicate, so one expression serves an alphabet of any size; Mathlib's
`RegularExpression` has single characters only. What a word must look like is stated with Mathlib's
`Language`, whether it does is computed one character at a time, and `fullmatch_iff` is the agreement of
the two.

Python's `re.match` of a pattern between `^` and `$` is not a full match: `$` also holds just before a
final newline. `match_dollar` is that test, and `match_dollar_iff` says what it accepts.

The expressions are those without groups, backward references and look-ahead. A lazy repetition has the
same language as the greedy one, so for a test it is written as a star; where it matters which match is
taken, the backtracking matcher of the next module is used on the same expressions.
-/
import Mathlib.Computability.Language

set_option autoImplicit false

open Computability

/-- The constructors are those of a regular language, with a class of characters for a single one. -/
inductive Regex (α : Type) where
  | empty
  | epsilon
  | char (p : α → Bool)
  | seq (r s : Regex α)
  | alt (r s : Regex α)
  | star (r : Regex α)

namespace Regex

variable {α : Type}

/-! ## Meaning -/

/-- The words of an expression. -/
def lang : Regex α → Language α
  | empty => 0
  | epsilon => 1
  | char p => {w | ∃ c, p c = true ∧ w = [c]}
  | seq r s => r.lang * s.lang
  | alt r s => r.lang + s.lang
  | star r => r.lang∗

variable {r s : Regex α} {w : List α}

@[simp] theorem mem_empty : w ∈ (empty : Regex α).lang ↔ False := Iff.rfl

@[simp] theorem mem_epsilon : w ∈ (epsilon : Regex α).lang ↔ w = [] := Iff.rfl

@[simp] theorem mem_char {p : α → Bool} : w ∈ (char p).lang ↔ ∃ c, p c = true ∧ w = [c] := Iff.rfl

@[simp] theorem mem_alt : w ∈ (alt r s).lang ↔ w ∈ r.lang ∨ w ∈ s.lang := Iff.rfl

/-- A word of the first, then one of the second. -/
theorem mem_seq : w ∈ (seq r s).lang ↔ ∃ u ∈ r.lang, ∃ v ∈ s.lang, u ++ v = w := Language.mem_mul

/-- Words of the expression, none of them empty, one behind the other. -/
theorem mem_star : w ∈ (star r).lang ↔ ∃ L : List (List α), w = L.flatten ∧ ∀ y ∈ L, y ∈ r.lang ∧ y ≠ [] :=
  Language.mem_kstar_iff_exists_nonempty

/-! ## Matching -/

/-- The empty word matches. -/
def nullable : Regex α → Bool
  | empty => false
  | epsilon => true
  | char _ => false
  | seq r s => r.nullable && s.nullable
  | alt r s => r.nullable || s.nullable
  | star _ => true

/-- What is left to match once a character has been read. -/
def deriv (c : α) : Regex α → Regex α
  | empty => empty
  | epsilon => empty
  | char p => if p c then epsilon else empty
  | seq r s => if r.nullable then alt (seq (r.deriv c) s) (s.deriv c) else seq (r.deriv c) s
  | alt r s => alt (r.deriv c) (s.deriv c)
  | star r => seq (r.deriv c) (star r)

/-- `re.fullmatch`. -/
def fullmatch (r : Regex α) : List α → Bool
  | [] => r.nullable
  | c :: w => (r.deriv c).fullmatch w

/-- By induction over the expression. -/
theorem nullable_iff (r : Regex α) : r.nullable = true ↔ [] ∈ r.lang := by
  induction r with
  | empty => simp [nullable]
  | epsilon => simp [nullable]
  | char p => simp [nullable]
  | seq r s ihr ihs =>
      rw [nullable, Bool.and_eq_true, ihr, ihs, mem_seq]
      constructor
      · rintro ⟨hr, hs⟩
        exact ⟨[], hr, [], hs, rfl⟩
      · rintro ⟨u, hu, v, hv, huv⟩
        obtain ⟨rfl, rfl⟩ := List.append_eq_nil_iff.mp huv
        exact ⟨hu, hv⟩
  | alt r s ihr ihs => rw [nullable, Bool.or_eq_true, ihr, ihs, mem_alt]
  | star r =>
      rw [nullable, mem_star]
      exact iff_of_true rfl ⟨[], rfl, by simp⟩

/-- The derivative reads one character. -/
theorem mem_deriv (c : α) (r : Regex α) (w : List α) : w ∈ (r.deriv c).lang ↔ c :: w ∈ r.lang := by
  induction r generalizing w with
  | empty => simp [deriv]
  | epsilon => simp [deriv]
  | char p =>
      rw [deriv]
      by_cases hp : p c = true
      · rw [if_pos hp, mem_epsilon, mem_char]
        constructor
        · rintro rfl
          exact ⟨c, hp, rfl⟩
        · rintro ⟨d, -, hd⟩
          exact (List.cons.inj hd).2
      · rw [if_neg hp, mem_empty, mem_char, false_iff]
        rintro ⟨d, hd, hw⟩
        rw [(List.cons.inj hw).1] at hp
        exact hp hd
  | seq r s ihr ihs =>
      -- the character is read by the first part, or the first part is empty
      have hfirst : w ∈ (seq (r.deriv c) s).lang ↔ ∃ u, c :: u ∈ r.lang ∧ ∃ v ∈ s.lang, u ++ v = w := by
        rw [mem_seq]
        exact exists_congr fun u => and_congr_left fun _ => ihr u
      have hboth : c :: w ∈ (seq r s).lang
          ↔ (∃ u, c :: u ∈ r.lang ∧ ∃ v ∈ s.lang, u ++ v = w) ∨ ([] ∈ r.lang ∧ c :: w ∈ s.lang) := by
        rw [mem_seq]
        constructor
        · rintro ⟨u, hu, v, hv, huv⟩
          rcases u with _ | ⟨d, u⟩
          · rw [List.nil_append] at huv
            exact .inr ⟨hu, huv ▸ hv⟩
          · obtain ⟨rfl, rfl⟩ := List.cons.inj huv
            exact .inl ⟨u, hu, v, hv, rfl⟩
        · rintro (⟨u, hu, v, hv, rfl⟩ | ⟨hr, hs⟩)
          · exact ⟨c :: u, hu, v, hv, rfl⟩
          · exact ⟨[], hr, c :: w, hs, rfl⟩
      rw [deriv, hboth]
      by_cases hr : r.nullable = true
      · rw [if_pos hr, mem_alt, hfirst, ihs]
        exact or_congr_right (iff_and_self.mpr fun _ => (nullable_iff r).mp hr)
      · rw [if_neg hr, hfirst]
        exact (or_iff_left fun h => hr ((nullable_iff r).mpr h.1)).symm
  | alt r s ihr ihs => rw [deriv, mem_alt, mem_alt, ihr, ihs]
  | star r ih =>
      rw [deriv, mem_seq]
      constructor
      · rintro ⟨u, hu, v, hv, rfl⟩
        obtain ⟨L, rfl, hL⟩ := mem_star.mp hv
        refine mem_star.mpr ⟨(c :: u) :: L, rfl, ?_⟩
        intro y hy
        rcases List.mem_cons.mp hy with rfl | hy
        · exact ⟨(ih u).mp hu, List.cons_ne_nil _ _⟩
        · exact hL y hy
      · intro hw
        obtain ⟨L, hflat, hL⟩ := mem_star.mp hw
        rcases L with _ | ⟨y, L⟩
        · cases hflat
        · obtain ⟨hy, hne⟩ := hL y List.mem_cons_self
          rcases y with _ | ⟨d, u⟩
          · exact absurd rfl hne
          · obtain ⟨rfl, rfl⟩ := List.cons.inj hflat
            exact ⟨u, (ih u).mpr hy, L.flatten,
              mem_star.mpr ⟨L, rfl, fun z hz => hL z (List.mem_cons_of_mem _ hz)⟩, rfl⟩

/-- **The test is membership**, by induction over the word. -/
theorem fullmatch_iff (r : Regex α) (w : List α) : r.fullmatch w = true ↔ w ∈ r.lang := by
  induction w generalizing r with
  | nil => exact nullable_iff r
  | cons c w ih => rw [fullmatch, ih, mem_deriv]

/-! ## Abbreviations -/

/-- The characters of a literal. -/
def lit [DecidableEq α] : List α → Regex α
  | [] => epsilon
  | c :: w => seq (char fun d => d = c) (lit w)

/-- `r?`. -/
def opt (r : Regex α) : Regex α := alt r epsilon

/-- `[…]+`. -/
def plus (p : α → Bool) : Regex α := seq (char p) (star (char p))

theorem mem_seq_char {p : α → Bool} : w ∈ (seq (char p) r).lang ↔ ∃ c v, p c = true ∧ v ∈ r.lang ∧ w = c :: v := by
  rw [mem_seq]
  constructor
  · rintro ⟨u, ⟨c, hc, rfl⟩, v, hv, rfl⟩
    exact ⟨c, v, hc, hv, rfl⟩
  · rintro ⟨c, v, hc, hv, rfl⟩
    exact ⟨[c], ⟨c, hc, rfl⟩, v, hv, rfl⟩

/-- A literal has itself as its only word. -/
@[simp] theorem mem_lit [DecidableEq α] {u : List α} : w ∈ (lit u).lang ↔ w = u := by
  induction u generalizing w with
  | nil => exact mem_epsilon
  | cons c u ih =>
      rw [lit, mem_seq_char]
      constructor
      · rintro ⟨d, v, hd, hv, rfl⟩
        rw [ih.mp hv, of_decide_eq_true hd]
      · rintro rfl
        exact ⟨c, u, by simp, ih.mpr rfl, rfl⟩

@[simp] theorem mem_opt : w ∈ (opt r).lang ↔ w ∈ r.lang ∨ w = [] := by
  rw [opt, mem_alt, mem_epsilon]

/-- Words over a class. -/
theorem mem_star_char {p : α → Bool} : w ∈ (star (char p)).lang ↔ ∀ c ∈ w, p c = true := by
  rw [mem_star]
  constructor
  · rintro ⟨L, rfl, hL⟩ c hc
    obtain ⟨y, hy, hcy⟩ := List.mem_flatten.mp hc
    obtain ⟨⟨d, hd, rfl⟩, -⟩ := hL y hy
    rwa [List.mem_singleton.mp hcy]
  · intro h
    refine ⟨w.map fun c => [c], ?_, ?_⟩
    · induction w with
      | nil => rfl
      | cons c w ih => rw [List.map_cons, List.flatten_cons, ← ih fun d hd => h d (List.mem_cons_of_mem _ hd)]; rfl
    · intro y hy
      obtain ⟨c, hc, rfl⟩ := List.mem_map.mp hy
      exact ⟨⟨c, h c hc, rfl⟩, List.cons_ne_nil _ _⟩

/-- The same, and not the empty one. -/
theorem mem_plus {p : α → Bool} : w ∈ (plus p).lang ↔ w ≠ [] ∧ ∀ c ∈ w, p c = true := by
  rw [plus, mem_seq_char]
  constructor
  · rintro ⟨c, v, hc, hv, rfl⟩
    refine ⟨List.cons_ne_nil _ _, ?_⟩
    intro d hd
    rcases List.mem_cons.mp hd with rfl | hd
    · exact hc
    · exact mem_star_char.mp hv d hd
  · rintro ⟨hne, hall⟩
    obtain ⟨c, v, rfl⟩ := List.exists_cons_of_ne_nil hne
    exact ⟨c, v, hall c List.mem_cons_self,
      mem_star_char.mpr fun d hd => hall d (List.mem_cons_of_mem _ hd), rfl⟩

/-! ## `re.match` up to `$` -/

/-- `re.match` of the expression between `^` and `$`. -/
def match_dollar [DecidableEq α] (newline : α) (r : Regex α) (w : List α) : Bool :=
  r.fullmatch w || (w.getLast? = some newline && r.fullmatch w.dropLast)

/-- A word of the language, or one with a newline behind it. -/
theorem match_dollar_iff [DecidableEq α] {newline : α} :
    match_dollar newline r w = true ↔ w ∈ r.lang ∨ ∃ t ∈ r.lang, w = t ++ [newline] := by
  rw [match_dollar, Bool.or_eq_true, fullmatch_iff, Bool.and_eq_true, decide_eq_true_eq, fullmatch_iff]
  refine or_congr_right ?_
  constructor
  · rintro ⟨hlast, hinit⟩
    exact ⟨w.dropLast, hinit, (List.dropLast_append_getLast? newline hlast).symm⟩
  · rintro ⟨t, ht, rfl⟩
    rw [List.getLast?_concat, List.dropLast_concat]
    exact ⟨rfl, ht⟩

end Regex
