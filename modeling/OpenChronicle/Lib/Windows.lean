/-
Orders computed from growing windows.

A ranking that scores each element from several sources, and cuts every source to a window before
scoring, computes for each window size its own candidate list and its own scores. Place by place those
orders agree with the order over everything under one exact condition (`agree_iff`): each element is
completely inside the window in use at its own place, and the elements tied with it there are as many as
in the whole.

A page of such a ranking is computed with the window of that page, so what a reader sees of it, page by
page, comes from different orders. That is why the condition looks at the window in use at a place: an
element may be cut short in a window that is used before its place, as long as it does not get there.
-/
import OpenChronicle.Lib.Ranking

set_option autoImplicit false

namespace Ranking

/-- Candidates and scores for each window size, and for everything. `Inside w x`
says that a window of size `w` cuts nothing off `x`'s score. -/
structure Windows (α Q : Type) [LinearOrder Q] where
  cands : ℕ → List α
  score : ℕ → α → Q
  all : List α
  full : α → Q
  Inside : ℕ → α → Prop
  nodup : ∀ w, (cands w).Nodup
  nodup_all : all.Nodup
  subset : ∀ w, cands w ⊆ all
  score_le : ∀ w x, score w x ≤ full x
  mem_of_inside : ∀ w x, x ∈ all → Inside w x → x ∈ cands w
  score_of_inside : ∀ w x, Inside w x → score w x = full x
  inside_mono : ∀ w w' x, w ≤ w' → Inside w x → Inside w' x

namespace Windows

variable {α Q : Type} [LinearOrder Q] [DecidableEq α] (W : Windows α Q)

/-- The order a window of size `w` computes. -/
def order (w : ℕ) : List α := sortDesc (W.score w) (W.cands w)

/-- The order over everything. -/
def orderAll : List α := sortDesc W.full W.all

/-- The place of an element in the order over everything. -/
def place (x : α) : ℕ := W.all.countP fun y => Beats W.full W.all y x

variable (win : ℕ → ℕ)

/-- Place `j` is computed with window `win j`, and comes out right: the element,
and every part of its score. -/
def Agree : Prop :=
  ∀ j, (W.order (win j))[j]? = W.orderAll[j]? ∧ ∀ x, W.orderAll[j]? = some x → W.Inside (win j) x

/-- The window in use at an element's place holds it completely, and ties it with
as many earlier elements as there are. -/
def Settled : Prop :=
  ∀ x ∈ W.all, W.Inside (win (W.place x)) x
    ∧ tiesBefore (W.score (win (W.place x))) (W.cands (win (W.place x))) x
        = tiesBefore W.full W.all x

variable {W win}

/-- A higher score is an earlier place. -/
theorem place_le {x y : α} (h : W.full x < W.full y) : W.place y ≤ W.place x := by
  refine List.countP_mono_left ?_
  intro z _ hz
  simp only [decide_eq_true_eq] at hz ⊢
  rcases hz with hlt | ⟨heq, -⟩
  · exact .inl (h.trans hlt)
  · exact .inl (heq ▸ h)

omit [DecidableEq α] in
/-- Two counts over lists without repetition that count the same elements. -/
theorem countP_eq_of_mem_iff {l₁ l₂ : List α} {p q : α → Bool} (h₁ : l₁.Nodup) (h₂ : l₂.Nodup)
    (h : ∀ x, (x ∈ l₁ ∧ p x = true) ↔ (x ∈ l₂ ∧ q x = true)) : l₁.countP p = l₂.countP q := by
  rw [List.countP_eq_length_filter, List.countP_eq_length_filter]
  refine List.Perm.length_eq ((List.perm_ext_iff_of_nodup (h₁.filter p) (h₂.filter q)).mpr ?_)
  intro x
  rw [List.mem_filter, List.mem_filter]
  exact h x

/-- Once every element is inside at its place, the window in use at `x`'s place
sees exactly the elements above `x`: each of them stands earlier, so it was
inside a smaller window already. -/
theorem above_eq (hmono : Monotone win) (hin : ∀ y ∈ W.all, W.Inside (win (W.place y)) y)
    {x : α} (hx : x ∈ W.all) :
    ((W.cands (win (W.place x))).countP fun y =>
        decide (W.score (win (W.place x)) x < W.score (win (W.place x)) y))
      = W.all.countP fun y => decide (W.full x < W.full y) := by
  set w := win (W.place x) with hw
  have hxs : W.score w x = W.full x := W.score_of_inside w x (hin x hx)
  apply countP_eq_of_mem_iff (W.nodup w) W.nodup_all
  intro y
  rw [decide_eq_true_eq, decide_eq_true_eq, hxs]
  constructor
  · rintro ⟨hy, hlt⟩
    exact ⟨W.subset w hy, lt_of_lt_of_le hlt (W.score_le w y)⟩
  · rintro ⟨hy, hlt⟩
    have hyin : W.Inside w y := W.inside_mono _ _ y (hmono (place_le hlt)) (hin y hy)
    rw [W.score_of_inside w y hyin]
    exact ⟨W.mem_of_inside w y hy hyin, hlt⟩

/-- An element stands at its place. -/
theorem getElem?_orderAll_place {x : α} (hx : x ∈ W.all) : W.orderAll[W.place x]? = some x :=
  getElem?_sortDesc W.nodup_all hx

/-- Counting: what beats an element in its window is what beats it in the whole. -/
theorem agree_of_settled (hmono : Monotone win) (h : W.Settled win) : W.Agree win := by
  intro j
  cases hj : W.orderAll[j]? with
  | none =>
      refine ⟨?_, by simp⟩
      -- a window has no more candidates than there are
      have hlen : W.all.length ≤ j := by
        rw [List.getElem?_eq_none_iff, orderAll, length_sortDesc] at hj
        exact hj
      rw [List.getElem?_eq_none_iff, order, length_sortDesc]
      exact ((List.subperm_of_subset (W.nodup _) (W.subset _)).length_le).trans hlen
  | some x =>
      have hx : x ∈ W.all := mem_sortDesc.mp (List.mem_of_getElem? hj)
      have hplace : W.place x = j := countP_of_getElem?_sortDesc W.nodup_all hj
      obtain ⟨hin, hties⟩ := h x hx
      have habove := above_eq hmono (fun y hy => (h y hy).1) hx
      rw [hplace] at hin hties habove
      constructor
      · have hcount : ((W.cands (win j)).countP fun y =>
            Beats (W.score (win j)) (W.cands (win j)) y x) = j := by
          rw [countP_beats, habove, hties, ← countP_beats]
          exact hplace
        have hat : (W.order (win j))[(W.cands (win j)).countP fun y =>
            Beats (W.score (win j)) (W.cands (win j)) y x]? = some x :=
          getElem?_sortDesc (W.nodup (win j)) (W.mem_of_inside _ x hx hin)
        rwa [hcount] at hat
      · intro y hy
        rw [← Option.some.inj hy]
        exact hin

/-- An element stands at its place in both orders, so as many beat it in both, and those that score more
are the same. -/
theorem settled_of_agree (hmono : Monotone win) (h : W.Agree win) : W.Settled win := by
  have hin : ∀ y ∈ W.all, W.Inside (win (W.place y)) y := by
    intro y hy
    exact (h _).2 y (getElem?_orderAll_place hy)
  intro x hx
  refine ⟨hin x hx, ?_⟩
  have habove := above_eq hmono hin hx
  have hat : (W.order (win (W.place x)))[W.place x]? = some x := by
    rw [(h _).1]
    exact getElem?_orderAll_place hx
  have hcount := countP_of_getElem?_sortDesc (W.nodup _) hat
  rw [countP_beats, habove] at hcount
  have hfull : W.place x
      = (W.all.countP fun y => decide (W.full x < W.full y)) + tiesBefore W.full W.all x :=
    countP_beats W.full W.all x
  omega

/-- **When windows agree with the whole.** -/
theorem agree_iff (hmono : Monotone win) : W.Agree win ↔ W.Settled win :=
  ⟨settled_of_agree hmono, agree_of_settled hmono⟩

end Windows

end Ranking
