/-
Text cut at a separator: `str.partition`, `str.split(sep)`, `str.splitlines` and `str.strip`.

Both look for the leftmost occurrence. Text that was joined with separators is cut where it was joined
only if no occurrence starts earlier, and an occurrence may straddle a piece and the separator after it.
`partition_append` states that with the separator less its last character. A separator that begins and
ends with the same border can also be completed by the border of the separator next to it;
`infix_append_border` splits such a text at the border, so that it is enough to look at each piece with
the borders around it.

The conditions are stated as `¬ sep <:+: …` throughout, of a piece with what stands beside it, because
that is what can be decided of given texts and what an author of a format can promise. `str.strip` is in
this file since fields that are cut out of a line are stripped: `strip_append` says what it takes.
-/
import Mathlib.Data.List.DropRight
import Mathlib.Data.List.Infix
import OpenChronicle.Lib.PyStr

set_option autoImplicit false

namespace PyStr

variable {α : Type} [DecidableEq α]

/-! ## `str.partition` -/

/-- What stands before and after the first occurrence of `sep`. -/
def partition (sep : List α) : List α → Option (List α × List α)
  | [] => if sep = [] then some ([], []) else none
  | c :: s =>
      if sep <+: c :: s then some ([], (c :: s).drop sep.length)
      else (partition sep s).map fun p => (c :: p.1, p.2)

variable {sep a b s : List α}

/-- The cut is where the separator was put, unless an occurrence starts before it. -/
theorem partition_append (hsep : sep ≠ []) (hfirst : ¬ sep <:+: a ++ sep.dropLast) :
    partition sep (a ++ sep ++ b) = some (a, b) := by
  induction a with
  | nil =>
      obtain ⟨c, rest, rfl⟩ := List.exists_cons_of_ne_nil hsep
      rw [List.nil_append, List.cons_append, partition, if_pos ⟨b, rfl⟩, List.length_cons, List.drop_succ_cons,
        List.drop_left]
  | cons c a ih =>
      have hlater : ¬ sep <:+: a ++ sep.dropLast := fun h => hfirst (h.trans (List.suffix_cons c _).isInfix)
      have hhere : ¬ sep <+: c :: (a ++ sep ++ b) := by
        intro hprefix
        -- an occurrence this early ends before the last character of the separator
        refine hfirst (List.IsPrefix.isInfix ?_)
        have hlen : sep.length ≤ (c :: (a ++ sep.dropLast)).length := by
          rw [List.length_cons, List.length_append, List.length_dropLast]
          omega
        refine List.prefix_of_prefix_length_le hprefix ⟨sep.drop (sep.length - 1) ++ b, ?_⟩ hlen
        have hjoin : sep.dropLast ++ (sep.drop (sep.length - 1) ++ b) = sep ++ b := by
          rw [← List.append_assoc, List.dropLast_eq_take, List.take_append_drop]
        simp only [List.cons_append, List.append_assoc, hjoin]
      rw [List.cons_append, List.cons_append, partition, if_neg hhere, ih hlater]
      rfl

/-- A text without an occurrence is not cut. -/
theorem partition_eq_none (h : ¬ sep <:+: s) : partition sep s = none := by
  induction s with
  | nil =>
      rw [partition, if_neg]
      rintro rfl
      exact h (List.infix_refl _)
  | cons c s ih =>
      rw [partition, if_neg fun hp => h hp.isInfix, ih fun hi => h (hi.trans (List.suffix_cons c s).isInfix)]
      rfl

/-! ## `str.split(sep)` -/

/-- `s.split(sep, maxsplit)`. -/
def split_max (sep : List α) : ℕ → List α → List (List α)
  | 0, s => [s]
  | n + 1, s =>
      match partition sep s with
      | none => [s]
      | some (before, after) => before :: split_max sep n after

/-- `s.split(sep)`; there are no more cuts than characters. -/
def split_on (sep s : List α) : List (List α) := split_max sep s.length s

/-- The first cut, and the rest of the text for the others. -/
theorem split_max_append (hsep : sep ≠ []) (hfirst : ¬ sep <:+: a ++ sep.dropLast) (n : ℕ) :
    split_max sep (n + 1) (a ++ sep ++ b) = a :: split_max sep n b := by
  rw [split_max, partition_append hsep hfirst]

/-- A text without an occurrence is one piece. -/
theorem split_max_none (h : ¬ sep <:+: s) (n : ℕ) : split_max sep n s = [s] := by
  cases n with
  | zero => rfl
  | succ n => rw [split_max, partition_eq_none h]

/-- Pieces that each begin with the separator are cut apart again. -/
theorem split_on_led (hsep : sep ≠ []) (pieces : List (List α))
    (hfirst : ∀ p ∈ a :: pieces, ¬ sep <:+: p ++ sep.dropLast) :
    split_on sep (a ++ pieces.flatMap (sep ++ ·)) = a :: pieces := by
  have hcuts : ∀ n, pieces.length ≤ n → split_max sep n (a ++ pieces.flatMap (sep ++ ·)) = a :: pieces := by
    induction pieces generalizing a with
    | nil =>
        intro n _
        rw [List.flatMap_nil, List.append_nil]
        refine split_max_none ?_ n
        exact fun h => hfirst a List.mem_cons_self (h.trans (List.prefix_append a _).isInfix)
    | cons p pieces ih =>
        intro n hn
        obtain ⟨m, rfl⟩ : ∃ m, n = m + 1 := ⟨n - 1, by rw [List.length_cons] at hn; omega⟩
        have hcut : a ++ (p :: pieces).flatMap (sep ++ ·) = a ++ sep ++ (p ++ pieces.flatMap (sep ++ ·)) := by
          rw [List.flatMap_cons]
          simp only [List.append_assoc]
        rw [hcut, split_max_append hsep (hfirst a List.mem_cons_self)]
        rw [ih (fun q hq => hfirst q (List.mem_cons_of_mem _ hq)) m (by rw [List.length_cons] at hn; omega)]
  refine hcuts _ ?_
  have hpos : 1 ≤ sep.length := List.length_pos_iff.mpr hsep
  have hlen : ∀ l : List (List α), l.length ≤ (l.flatMap (sep ++ ·)).length := by
    intro l
    induction l with
    | nil => simp
    | cons p l ih =>
        rw [List.flatMap_cons, List.length_append, List.length_append, List.length_cons]
        omega
  have := hlen pieces
  rw [List.length_append]
  omega

/-! ## The first character outside a class -/

omit [DecidableEq α] in
/-- A text is cut in one way at its first character outside a class. -/
theorem append_cons_unique {p : α → Bool} {c d : α} {v w : List α} (ha : ∀ x ∈ a, p x = true)
    (hb : ∀ x ∈ b, p x = true) (hc : p c = false) (hd : p d = false)
    (h : a ++ c :: v = b ++ d :: w) : a = b ∧ c = d ∧ v = w := by
  induction a generalizing b with
  | nil =>
      rcases b with _ | ⟨x, b⟩
      · exact ⟨rfl, List.cons.inj h⟩
      · -- the first character is outside the class and in it
        have hx := hb x List.mem_cons_self
        rw [← (List.cons.inj h).1, hc] at hx
        cases hx
  | cons x a ih =>
      rcases b with _ | ⟨y, b⟩
      · have hx := ha x List.mem_cons_self
        rw [(List.cons.inj h).1, hd] at hx
        cases hx
      · obtain ⟨rfl, htail⟩ := List.cons.inj h
        obtain ⟨rfl, hrest⟩ := ih (fun z hz => ha z (List.mem_cons_of_mem _ hz))
          (fun z hz => hb z (List.mem_cons_of_mem _ hz)) htail
        exact ⟨rfl, hrest⟩

/-! ## Occurrences in joined text -/

omit [DecidableEq α] in
/-- A separator cannot straddle a character it does not have. -/
theorem infix_append_char {c : α} (hc : c ∉ sep) (h : sep <:+: a ++ c :: b) : sep <:+: a ∨ sep <:+: b := by
  obtain ⟨u, v, huv⟩ := h
  rw [List.append_assoc] at huv
  rcases List.append_eq_append_iff.mp huv with ⟨m, hm, hrest⟩ | ⟨m, hm, hrest⟩
  · -- the occurrence starts in the first part
    rcases List.append_eq_append_iff.mp hrest with ⟨m', hm', -⟩ | ⟨m', hm', hend⟩
    · exact .inl ⟨u, m', by rw [List.append_assoc, ← hm', ← hm]⟩
    · rcases m' with _ | ⟨d, m'⟩
      · rw [List.append_nil] at hm'
        exact .inl ⟨u, [], by rw [List.append_nil, hm', ← hm]⟩
      · -- it would hold the character
        obtain ⟨rfl, -⟩ := List.cons.inj hend
        exact absurd (by rw [hm']; simp) hc
  · rcases m with _ | ⟨d, m⟩
    · -- it starts at the character
      rcases sep with _ | ⟨e, sep⟩
      · exact .inl (List.nil_infix)
      · obtain ⟨rfl, -⟩ := List.cons.inj hrest
        exact absurd List.mem_cons_self hc
    · obtain ⟨-, rfl⟩ := List.cons.inj hrest
      exact .inr ⟨m, v, List.append_assoc _ _ _⟩

omit [DecidableEq α] in
/-- A separator with a border that occurs nowhere inside it lies on one side of any such border. -/
theorem infix_append_border {border : List α} (hborder : ¬ border <:+: sep.tail.dropLast)
    (h : sep <:+: a ++ border ++ b) : sep <:+: a ++ border ∨ sep <:+: border ++ b := by
  obtain ⟨u, v, huv⟩ := h
  rw [List.append_assoc, List.append_assoc] at huv
  rcases List.append_eq_append_iff.mp huv with ⟨m, hm, hrest⟩ | ⟨m, hm, hrest⟩
  · rw [← List.append_assoc] at hrest
    rcases List.append_eq_append_iff.mp hrest with ⟨m', hm', -⟩ | ⟨m', hm', -⟩
    · exact .inl ⟨u, m', by rw [hm, List.append_assoc, ← hm', List.append_assoc]⟩
    · rcases m with _ | ⟨c, m⟩
      · rw [List.nil_append] at hrest
        exact .inr ⟨[], v, by rw [List.nil_append, hrest]⟩
      · rcases List.eq_nil_or_concat m' with rfl | ⟨m'', d, rfl⟩
        · rw [List.append_nil] at hm'
          exact .inl ⟨u, [], by rw [hm, hm', List.append_nil, List.append_assoc]⟩
        · -- the border would be inside the separator
          refine absurd ⟨m, m'', ?_⟩ hborder
          rw [hm', List.cons_append, List.cons_append, List.tail_cons, List.concat_eq_append, ← List.append_assoc,
            List.dropLast_concat]
  · exact .inr ⟨m, v, by rw [hrest, List.append_assoc]⟩

omit [DecidableEq α] in
/-- A separator with such a border straddles no piece unless the piece and the border hold it. -/
theorem not_infix_append_dropLast {border rest : List α} (hborder : ¬ border <:+: sep.tail.dropLast)
    (hsep : sep = border ++ rest) (hrest : rest ≠ []) (h : ¬ sep <:+: a ++ border) :
    ¬ sep <:+: a ++ sep.dropLast := by
  intro hin
  have hsplit : a ++ sep.dropLast = a ++ border ++ rest.dropLast := by
    rw [hsep, List.dropLast_append_of_ne_nil hrest, List.append_assoc]
  rw [hsplit] at hin
  rcases infix_append_border hborder hin with hleft | hright
  · exact h hleft
  · -- too short
    have hlen := hright.length_le
    have hpos := List.length_pos_iff.mpr hrest
    rw [hsep, List.length_append, List.length_append, List.length_dropLast] at hlen
    omega

/-! ## `str.splitlines` -/

/-- The characters a line ends at. -/
def is_line_break (c : Char) : Bool :=
  let n := c.toNat
  (0x0A ≤ n && n ≤ 0x0D) || (0x1C ≤ n && n ≤ 0x1E) || n == 0x85 || n == 0x2028 || n == 0x2029

/-- The loop of `str.splitlines()`: `acc` is the line being read, reversed. -/
def splitlines_loop : List Char → List Char → List (List Char)
  | [], acc => if acc = [] then [] else [acc.reverse]
  | '\r' :: '\n' :: s, acc => acc.reverse :: splitlines_loop s []
  | c :: s, acc =>
      if is_line_break c then acc.reverse :: splitlines_loop s [] else splitlines_loop s (c :: acc)

/-- `s.splitlines()`. -/
def splitlines (s : List Char) : List (List Char) := splitlines_loop s []

/-! ## `str.strip` -/

/-- `s.strip()`. -/
def strip (s : List Char) : List Char := (s.dropWhile isspace).rdropWhile isspace

/-- It neither begins nor ends with whitespace. -/
def Trimmed (s : List Char) : Prop :=
  (∀ c ∈ s.head?, isspace c = false) ∧ ∀ c ∈ s.getLast?, isspace c = false

instance : DecidablePred Trimmed := fun s =>
  decidable_of_iff ((s.head?.all fun c => !isspace c) = true ∧ (s.getLast?.all fun c => !isspace c) = true) (by
    simp only [Trimmed, Option.all_eq_true, Bool.not_eq_true', Option.mem_def])

/-- Whitespace on both sides of a text that is trimmed. -/
theorem strip_append {l core r : List Char} (hl : ∀ c ∈ l, isspace c = true) (hr : ∀ c ∈ r, isspace c = true)
    (hcore : Trimmed core) (hne : core ≠ []) : strip (l ++ core ++ r) = core := by
  have hleft : (l ++ core ++ r).dropWhile isspace = core ++ r := by
    rw [List.append_assoc, List.dropWhile_append_of_pos hl]
    obtain ⟨c, rest, rfl⟩ := List.exists_cons_of_ne_nil hne
    rw [List.cons_append, List.dropWhile_cons_of_neg (by rw [hcore.1 c rfl]; decide)]
  have hright : (core ++ r).rdropWhile isspace = core := by
    rw [List.rdropWhile, List.reverse_append,
      List.dropWhile_append_of_pos fun c hc => hr c (List.mem_reverse.mp hc)]
    rcases List.eq_nil_or_concat core with rfl | ⟨init, c, rfl⟩
    · exact absurd rfl hne
    · rw [List.concat_eq_append] at hcore ⊢
      rw [List.reverse_append, List.reverse_singleton, List.singleton_append,
        List.dropWhile_cons_of_neg (by rw [hcore.2 c (by simp)]; decide), ← List.singleton_append,
        List.reverse_append, List.reverse_reverse, List.reverse_singleton]
  rw [strip, hleft, hright]

/-- Nothing to take. -/
theorem strip_trimmed {s : List Char} (h : Trimmed s) : strip s = s := by
  by_cases hne : s = []
  · rw [hne]
    rfl
  · have := strip_append (l := []) (r := []) (by simp) (by simp) h hne
    rwa [List.nil_append, List.append_nil] at this

end PyStr
