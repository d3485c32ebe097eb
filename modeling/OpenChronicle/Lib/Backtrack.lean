/-
`re.sub` by a backtracking matcher.

A word of the language may be a match at a place in several ways, and which one `re` takes depends on
the order it tries them in: the first branch of an alternative first, one more turn of a star before
stopping. `ends` lists what is left after each match, in that order; the first is the match taken.
`sub_group` is `re.compile("(group)tail").sub(r"\1", text)`: from left to right, each match replaced by
its group.

As a test, the matcher is the language again (`mem_ends`). What it has beyond the language is the order,
and the one shape for which the order is worked out is the run of a class up to a character, `[p]*[q]`:
it goes as far as the class allows and then back to the last place with a `q`. That is the shape of the
user part of a URL. Where the class has the last character too, no other match starts behind the one
that was taken (`ends_run_head`).
-/
import OpenChronicle.Lib.Regex

set_option autoImplicit false

namespace Regex

variable {α : Type}

/-! ## The matcher -/

/-- The turns of a star; a turn that reads nothing is not taken. -/
def repeat_ends (step : List α → List (List α)) : ℕ → List α → List (List α)
  | 0, s => [s]
  | n + 1, s => ((step s).filter (·.length < s.length)).flatMap (repeat_ends step n) ++ [s]

/-- What is left of the text after each match at its start, in the order they are tried. -/
def ends : Regex α → List α → List (List α)
  | empty, _ => []
  | epsilon, s => [s]
  | char _, [] => []
  | char p, c :: s => if p c then [s] else []
  | seq r t, s => (r.ends s).flatMap t.ends
  | alt r t, s => r.ends s ++ t.ends s
  | star r, s => repeat_ends r.ends s.length s

variable {r t : Regex α} {s rest : List α}

/-- By induction over the turns. A turn reads at least one character, so as many turns as the text is
long are enough. -/
theorem mem_repeat_ends (hstep : ∀ s rest, rest ∈ r.ends s ↔ ∃ w ∈ r.lang, s = w ++ rest) (n : ℕ) :
    ∀ s : List α, s.length ≤ n →
      (rest ∈ repeat_ends r.ends n s
        ↔ ∃ L : List (List α), (∀ y ∈ L, y ∈ r.lang ∧ y ≠ []) ∧ s = L.flatten ++ rest) := by
  induction n with
  | zero =>
      intro s hlen
      obtain rfl := List.eq_nil_of_length_eq_zero (Nat.le_zero.mp hlen)
      rw [repeat_ends, List.mem_singleton]
      constructor
      · rintro rfl
        exact ⟨[], by simp, rfl⟩
      · rintro ⟨L, -, hs⟩
        exact (List.append_eq_nil_iff.mp hs.symm).2
  | succ n ih =>
      intro s hlen
      rw [repeat_ends, List.mem_append, List.mem_flatMap, List.mem_singleton]
      constructor
      · rintro (⟨mid, hmid, hrest⟩ | rfl)
        · obtain ⟨hmem, hshort⟩ := List.mem_filter.mp hmid
          have hlt : mid.length < s.length := of_decide_eq_true hshort
          obtain ⟨w, hw, rfl⟩ := (hstep s mid).mp hmem
          obtain ⟨L, hL, rfl⟩ := (ih mid (by omega)).mp hrest
          -- a repetition that reads nothing is not tried, and is not needed
          have hne : w ≠ [] := by
            rintro rfl
            simp at hlt
          refine ⟨w :: L, ?_, by simp⟩
          intro y hy
          rcases List.mem_cons.mp hy with rfl | hy
          · exact ⟨hw, hne⟩
          · exact hL y hy
        · exact ⟨[], by simp, rfl⟩
      · rintro ⟨L, hL, rfl⟩
        rcases L with _ | ⟨w, L⟩
        · exact .inr rfl
        · obtain ⟨hw, hne⟩ := hL w List.mem_cons_self
          have hpos : 0 < w.length := List.length_pos_iff.mpr hne
          have hcut : (w :: L).flatten ++ rest = w ++ (L.flatten ++ rest) := by simp
          -- the first word of the list is read first
          refine .inl ⟨L.flatten ++ rest, List.mem_filter.mpr ⟨?_, ?_⟩, ?_⟩
          · exact (hstep _ _).mpr ⟨w, hw, hcut⟩
          · refine decide_eq_true ?_
            simp only [hcut, List.length_append]
            omega
          · refine (ih _ ?_).mpr ⟨L, fun y hy => hL y (List.mem_cons_of_mem _ hy), rfl⟩
            rw [hcut, List.length_append] at hlen
            omega

/-- The matcher finds the words of the language, and finds all of them. -/
theorem mem_ends (r : Regex α) (s rest : List α) :
    rest ∈ r.ends s ↔ ∃ w ∈ r.lang, s = w ++ rest := by
  induction r generalizing s rest with
  -- by the expression, for any text and any rest
  | empty => simp [ends]
  | epsilon =>
      rw [ends, List.mem_singleton]
      constructor
      · rintro rfl
        exact ⟨[], rfl, rfl⟩
      · rintro ⟨w, hw, rfl⟩
        rw [mem_epsilon.mp hw]
        rfl
  | char p =>
      rcases s with _ | ⟨c, s⟩
      · rw [ends]
        refine iff_of_false (by simp) ?_
        rintro ⟨w, ⟨d, -, rfl⟩, hs⟩
        cases hs
      · rw [ends]
        by_cases hp : p c = true
        · rw [if_pos hp, List.mem_singleton]
          constructor
          · rintro rfl
            exact ⟨[c], ⟨c, hp, rfl⟩, rfl⟩
          · rintro ⟨w, ⟨d, -, rfl⟩, hs⟩
            exact (List.cons.inj hs).2.symm
        · rw [if_neg hp]
          refine iff_of_false (by simp) ?_
          rintro ⟨w, ⟨d, hd, rfl⟩, hs⟩
          rw [(List.cons.inj hs).1] at hp
          exact hp hd
  | seq r t ihr iht =>
      rw [ends, List.mem_flatMap]
      constructor
      · rintro ⟨mid, hmid, hrest⟩
        obtain ⟨u, hu, rfl⟩ := (ihr s mid).mp hmid
        obtain ⟨v, hv, rfl⟩ := (iht mid rest).mp hrest
        exact ⟨u ++ v, mem_seq.mpr ⟨u, hu, v, hv, rfl⟩, by rw [List.append_assoc]⟩
      · rintro ⟨w, hw, rfl⟩
        obtain ⟨u, hu, v, hv, rfl⟩ := mem_seq.mp hw
        refine ⟨v ++ rest, (ihr _ _).mpr ⟨u, hu, by rw [List.append_assoc]⟩, ?_⟩
        exact (iht _ _).mpr ⟨v, hv, rfl⟩
  | alt r t ihr iht =>
      rw [ends, List.mem_append, ihr, iht]
      constructor
      · rintro (⟨w, hw, hs⟩ | ⟨w, hw, hs⟩)
        · exact ⟨w, mem_alt.mpr (.inl hw), hs⟩
        · exact ⟨w, mem_alt.mpr (.inr hw), hs⟩
      · rintro ⟨w, hw, hs⟩
        rcases mem_alt.mp hw with hw | hw
        · exact .inl ⟨w, hw, hs⟩
        · exact .inr ⟨w, hw, hs⟩
  | star r ih =>
      -- as many rounds as the text has letters are enough
      rw [ends, mem_repeat_ends ih s.length s le_rfl]
      constructor
      · rintro ⟨L, hL, hs⟩
        exact ⟨L.flatten, mem_star.mpr ⟨L, rfl, hL⟩, hs⟩
      · rintro ⟨w, hw, hs⟩
        obtain ⟨L, rfl, hL⟩ := mem_star.mp hw
        exact ⟨L, hL, hs⟩

/-- There is no match exactly when no word of the language is a beginning of the text. -/
theorem ends_eq_nil_iff (r : Regex α) (s : List α) :
    r.ends s = [] ↔ ∀ w ∈ r.lang, ∀ rest, s ≠ w ++ rest := by
  rw [List.eq_nil_iff_forall_not_mem]
  constructor
  · intro h w hw rest hs
    exact h rest ((mem_ends r s rest).mpr ⟨w, hw, hs⟩)
  · intro h rest hrest
    obtain ⟨w, hw, hs⟩ := (mem_ends r s rest).mp hrest
    exact h w hw rest hs

/-! ## Runs of one class -/

/-- A star of a class goes on while it can. -/
theorem ends_star_char_cons (p : α → Bool) (c : α) (s : List α) :
    (star (char p)).ends (c :: s)
      = if p c then (star (char p)).ends s ++ [c :: s] else [c :: s] := by
  rw [ends, List.length_cons, repeat_ends, ends]
  by_cases hp : p c = true
  · rw [if_pos hp, if_pos hp, List.filter_cons_of_pos (by simp)]
    simp [ends]
  · rw [if_neg hp, if_neg hp]
    rfl

/-- `[p]*[q]`: the last `q` before the run of `p` is over is tried first. -/
theorem ends_run_cons (p q : α → Bool) (c : α) (s : List α) :
    (seq (star (char p)) (char q)).ends (c :: s)
      = (if p c then (seq (star (char p)) (char q)).ends s else []) ++ if q c then [s] else [] := by
  rw [ends, ends_star_char_cons]
  by_cases hp : p c = true
  · rw [if_pos hp, if_pos hp, List.flatMap_append]
    simp only [List.flatMap_cons, List.flatMap_nil, List.append_nil, ends]
  · rw [if_neg hp, if_neg hp]
    simp only [List.flatMap_cons, List.flatMap_nil, List.append_nil, List.nil_append, ends]

/-- After the match that is taken no other one starts: it ran to the last `q`. -/
theorem ends_run_head {p q : α → Bool} {s rest : List α}
    (h : ((seq (star (char p)) (char q)).ends s).head? = some rest) :
    (∃ seg c, (∀ d ∈ seg, p d = true) ∧ q c = true ∧ s = seg ++ c :: rest
        ∧ (p c = true → (seq (star (char p)) (char q)).ends rest = []))
      ∧ rest.length < s.length := by
  induction s with
  | nil => cases h
  | cons c s ih =>
      rw [ends_run_cons] at h
      by_cases hmore : (if p c then (seq (star (char p)) (char q)).ends s else []) = []
      · -- the run goes no further than this character
        rw [hmore, List.nil_append] at h
        by_cases hq : q c = true
        · rw [if_pos hq] at h
          obtain rfl := Option.some.inj h
          refine ⟨⟨[], c, by simp, hq, rfl, fun hp => ?_⟩, by simp⟩
          rwa [if_pos hp] at hmore
        · rw [if_neg hq] at h
          cases h
      · by_cases hp : p c = true
        · rw [if_pos hp] at hmore h
          rw [List.head?_append_of_ne_nil _ hmore] at h
          obtain ⟨⟨seg, d, hseg, hd, rfl, hlast⟩, hlen⟩ := ih h
          refine ⟨⟨c :: seg, d, ?_, hd, rfl, hlast⟩, by rw [List.length_cons]; omega⟩
          intro e he
          rcases List.mem_cons.mp he with rfl | he
          · exact hp
          · exact hseg e he
        · rw [if_neg hp] at hmore
          exact absurd rfl hmore

/-! ## Substitution -/

/-- The match taken at the start of the text: its group, and what is left after it. -/
def match_group (group tail : Regex α) (s : List α) : Option (List α × List α) :=
  ((group.ends s).flatMap fun mid =>
    (tail.ends mid).map fun rest => (s.take (s.length - mid.length), rest)).head?

/-- Each turn either takes a match, which is shorter than the text, or passes one character on. -/
def sub_loop (group tail : Regex α) : ℕ → List α → List α
  | 0, s => s
  | _ + 1, [] => []
  | n + 1, c :: s =>
      match match_group group tail (c :: s) with
      | some (kept, rest) => kept ++ sub_loop group tail n rest
      | none => c :: sub_loop group tail n s

/-- `re.compile("(group)tail").sub(r"\1", text)`, for a pattern that does not match the
empty text. -/
def sub_group (group tail : Regex α) (s : List α) : List α := sub_loop group tail s.length s

section Sub

variable {group tail : Regex α}

/-- More turns than characters change nothing. -/
theorem sub_loop_eq (hread : ∀ s kept rest, match_group group tail s = some (kept, rest) →
      rest.length < s.length) (n : ℕ) :
    ∀ (m : ℕ) (s : List α), s.length ≤ n → s.length ≤ m →
      sub_loop group tail n s = sub_loop group tail m s := by
  induction n with
  | zero =>
      intro m s hn _
      obtain rfl := List.eq_nil_of_length_eq_zero (Nat.le_zero.mp hn)
      rcases m with _ | m
      · rfl
      · rfl
  | succ n ih =>
      intro m s hn hm
      rcases s with _ | ⟨c, s⟩
      · rcases m with _ | m
        · rfl
        · rfl
      · rw [List.length_cons] at hn hm
        obtain ⟨m, rfl⟩ := Nat.exists_eq_add_one_of_ne_zero (show m ≠ 0 by omega)
        rw [sub_loop, sub_loop]
        rcases hmatch : match_group group tail (c :: s) with _ | ⟨kept, rest⟩
        · simp only [ih m s (by omega) (by omega)]
        · have hlen := hread _ _ _ hmatch
          rw [List.length_cons] at hlen
          simp only [ih m rest (by omega) (by omega)]

/-- One place of the text: the match there, or its character. -/
theorem sub_group_cons (hread : ∀ s kept rest, match_group group tail s = some (kept, rest) →
      rest.length < s.length) (c : α) (s : List α) :
    sub_group group tail (c :: s)
      = match match_group group tail (c :: s) with
        | some (kept, rest) => kept ++ sub_group group tail rest
        | none => c :: sub_group group tail s := by
  rw [sub_group, List.length_cons, sub_loop]
  rcases hmatch : match_group group tail (c :: s) with _ | ⟨kept, rest⟩
  · rfl
  · have hlen := hread _ _ _ hmatch
    rw [List.length_cons] at hlen
    simp only [sub_group, sub_loop_eq hread s.length rest.length rest (by omega) le_rfl]

end Sub

end Regex
