/-
Rankings, windows of them, and pages of a stream.

Three groups of facts about lists. A page of a stream does not change when the stream is cut beyond the
page's end, or when it is over-fetched by what a filter will remove. A stable sort by a score puts an
element at the number of elements that beat it. And a "top `k`" window, specified as numpy specifies it
(the `k` largest, in order, ties in any order), is a prefix of the sorted list as soon as no two scores
tie.

The second group turns a question about a sorted list into one about counting: `Beats` compares score
first and place in the list second, and where an element stands is how many beat it. No later proof has
to look at how the list was sorted. The third group is for windows whose order among ties is not known.
What holds of every such window is said by `IsTop`; that a bound is exact is shown with the one window
that has the worst order, `worstFirst`.
-/
import Mathlib.Algebra.Order.Ring.Nat
import Mathlib.Data.List.Sort
import Mathlib.Tactic.Linarith

set_option autoImplicit false

namespace Ranking

/-! ## Pages of a stream -/

section Pages

variable {α κ : Type}

/-- `l[offset : offset + k]`. -/
def slice (l : List α) (offset k : ℕ) : List α := (l.drop offset).take k

/-- A page by its places. -/
theorem getElem?_slice (l : List α) (offset k i : ℕ) :
    (slice l offset k)[i]? = if i < k then l[offset + i]? else none := by
  rw [slice, List.getElem?_take]
  split
  · rw [List.getElem?_drop]
  · rfl

/-- No page is longer than it was asked to be. -/
theorem slice_length_le (l : List α) (offset k : ℕ) : (slice l offset k).length ≤ k := by
  rw [slice, List.length_take]
  exact Nat.min_le_left _ _

theorem mem_of_mem_slice {l : List α} {offset k : ℕ} {x : α} (h : x ∈ slice l offset k) :
    x ∈ l :=
  List.mem_of_mem_drop (List.mem_of_mem_take h)

/-- A page has the order of the stream. -/
theorem slice_sublist (l : List α) (offset k : ℕ) : (slice l offset k).Sublist l :=
  (List.take_sublist _ _).trans (List.drop_sublist _ _)

/-- Cutting the second half of a stream beyond the page's end leaves the page. -/
theorem slice_append_take (a b : List α) {offset k m : ℕ} (hm : offset + k ≤ m) :
    slice (a ++ b.take m) offset k = slice (a ++ b) offset k := by
  apply List.ext_getElem?
  intro i
  rw [getElem?_slice, getElem?_slice]
  by_cases hi : i < k
  · rw [if_pos hi, if_pos hi, List.getElem?_append, List.getElem?_append]
    by_cases ha : offset + i < a.length
    · rw [if_pos ha, if_pos ha]
    · rw [if_neg ha, if_neg ha, List.getElem?_take, if_pos (by omega)]
  · rw [if_neg hi, if_neg hi]

/-- A page is full unless the stream is over. -/
theorem length_slice (l : List α) (offset k : ℕ) :
    (slice l offset k).length = min k (l.length - offset) := by
  rw [slice, List.length_take, List.length_drop]

theorem getElem?_filterMap {β : Type} {f : α → Option β} {l : List α}
    (hf : ∀ x ∈ l, (f x).isSome) (i : ℕ) : (l.filterMap f)[i]? = l[i]?.bind f := by
  induction l generalizing i with
  | nil => rfl
  | cons x t ih =>
      obtain ⟨y, hy⟩ := Option.isSome_iff_exists.mp (hf x List.mem_cons_self)
      rw [List.filterMap_cons_some hy]
      rcases i with _ | i
      · simp [hy]
      · rw [List.getElem?_cons_succ, List.getElem?_cons_succ]
        exact ih (fun z hz => hf z (List.mem_cons_of_mem _ hz)) i

/-- Paging commutes with a map that keeps every row. -/
theorem slice_filterMap {β : Type} {f : α → Option β} {l : List α} (hf : ∀ x ∈ l, (f x).isSome)
    (offset k : ℕ) : slice (l.filterMap f) offset k = (slice l offset k).filterMap f := by
  apply List.ext_getElem?
  intro i
  rw [getElem?_slice, getElem?_filterMap hf, getElem?_filterMap fun x hx => hf x (mem_of_mem_slice hx),
    getElem?_slice]
  by_cases hi : i < k
  · rw [if_pos hi, if_pos hi]
  · rw [if_neg hi, if_neg hi]
    rfl

/-- A prefix that reaches the page's end, or the stream's, has the stream's page. -/
theorem slice_of_leading {a b : List α} (h : a <+: b) {offset k : ℕ}
    (hlen : b.length ≤ offset ∨ min (offset + k) b.length ≤ a.length) :
    slice a offset k = slice b offset k := by
  obtain ⟨c, rfl⟩ := h
  apply List.ext_getElem?
  intro i
  rw [getElem?_slice, getElem?_slice]
  by_cases hi : i < k
  · rw [if_pos hi, if_pos hi]
    by_cases ha : offset + i < a.length
    · rw [List.getElem?_append_left ha]
    · rw [List.length_append] at hlen
      rw [List.getElem?_eq_none (by omega), List.getElem?_eq_none]
      rw [List.length_append]
      omega
  · rw [if_neg hi, if_neg hi]

/-- The pages of a stream, one after the other, are the stream. -/
theorem flatMap_slices (l : List α) (k N : ℕ) :
    (List.range N).flatMap (fun n => slice l (n * k) k) = l.take (N * k) := by
  induction N with
  | zero => simp
  | succ N ih =>
      rw [List.range_succ, List.flatMap_append, ih, List.flatMap_singleton, slice,
        Nat.succ_mul, List.take_add]

/-- A filter that can remove at most as many rows as the over-fetch leaves the
first `n` survivors intact. -/
theorem take_filter_overfetch [DecidableEq κ] (key : α → κ) (l : List α)
    (hn : (l.map key).Nodup) (ex : List κ) (n : ℕ) :
    ((l.take (n + ex.length)).filter fun x => key x ∉ ex).take n
      = (l.filter fun x => key x ∉ ex).take n := by
  set p : α → Bool := fun x => key x ∉ ex with hp
  set w := l.take (n + ex.length) with hw
  by_cases hl : l.length ≤ n + ex.length
  · rw [hw, List.take_of_length_le hl]
  · -- the removed rows of the window have distinct keys, all of them in `ex`
    have hremoved : (w.filter fun x => !p x).length ≤ ex.length := by
      have hnd : ((w.filter fun x => !p x).map key).Nodup :=
        hn.sublist ((List.filter_sublist.trans (List.take_sublist _ _)).map key)
      have hsub : (w.filter fun x => !p x).map key ⊆ ex := by
        intro k hk
        obtain ⟨x, hx, rfl⟩ := List.mem_map.mp hk
        simpa [hp] using (List.mem_filter.mp hx).2
      have := (List.subperm_of_subset hnd hsub).length_le
      rwa [List.length_map] at this
    have hwlen : w.length = n + ex.length := by
      rw [hw, List.length_take]
      omega
    have hsplit : w.length = (w.filter p).length + (w.filter fun x => !p x).length := by
      rw [← List.countP_eq_length_filter, ← List.countP_eq_length_filter,
        List.length_eq_countP_add_countP p]
      simp
    have hkept : n ≤ (w.filter p).length := by omega
    have hall : l.filter p = w.filter p ++ (l.drop (n + ex.length)).filter p := by
      rw [hw, ← List.filter_append, List.take_append_drop]
    rw [hall, List.take_append_of_le_length hkept]

end Pages

/-! ## A property the order prefers -/

section Preferred

variable {α : Type} {p : α → Bool} {l : List α}

/-- Where what comes before an element with the property has it too, the places of those that
have it are the first ones. -/
theorem getElem?_iff_lt_countP (h : l.Pairwise fun a b => p b = true → p a = true) {i : ℕ} {x : α}
    (hx : l[i]? = some x) : p x = true ↔ i < l.countP p := by
  induction l generalizing i with
  | nil => simp at hx
  | cons a l ih =>
      obtain ⟨hfirst, hrest⟩ := List.pairwise_cons.mp h
      by_cases ha : p a = true
      · rw [List.countP_cons_of_pos ha]
        cases i with
        | zero =>
            obtain rfl : a = x := by simpa using hx
            simp [ha]
        | succ i =>
            rw [List.getElem?_cons_succ] at hx
            rw [ih hrest hx]
            omega
      · -- the first one has not, so none has
        have hnone : (a :: l).countP p = 0 := by
          rw [List.countP_eq_zero]
          intro b hb hpb
          rcases List.mem_cons.mp hb with rfl | hb
          · exact ha hpb
          · exact ha (hfirst b hb hpb)
        have hin : x ∈ a :: l := List.mem_of_getElem? hx
        rw [hnone]
        constructor
        · intro hpx
          exact absurd hpx (List.countP_eq_zero.mp hnone x hin)
        · omega

/-- **A page has only such elements** exactly when it ends among them, or is empty. -/
theorem forall_mem_slice_iff (h : l.Pairwise fun a b => p b = true → p a = true) (offset k : ℕ) :
    (∀ x ∈ slice l offset k, p x = true) ↔ min l.length (offset + k) ≤ max (l.countP p) offset := by
  constructor
  · intro hall
    by_contra hmore
    have hlt : max (l.countP p) offset < l.length := by omega
    have hget : l[max (l.countP p) offset]? = some (l[max (l.countP p) offset]) := List.getElem?_eq_getElem hlt
    have hin : l[max (l.countP p) offset] ∈ slice l offset k := by
      apply List.mem_of_getElem? (i := max (l.countP p) offset - offset)
      rw [getElem?_slice, if_pos (by omega), Nat.add_sub_cancel' (by omega)]
      exact hget
    have := (getElem?_iff_lt_countP h hget).mp (hall _ hin)
    omega
  · intro hle x hx
    obtain ⟨i, hi⟩ := List.mem_iff_getElem?.mp hx
    rw [getElem?_slice] at hi
    by_cases hik : i < k
    · rw [if_pos hik] at hi
      have hlt := (List.getElem?_eq_some_iff.mp hi).1
      exact (getElem?_iff_lt_countP h hi).mpr (by omega)
    · rw [if_neg hik] at hi
      cases hi

end Preferred

/-! ## Orders that agree on what is sorted -/

theorem orderedInsert_congr {α : Type} {r r' : α → α → Prop} [DecidableRel r] [DecidableRel r'] {a : α}
    {l : List α} (h : ∀ b ∈ l, r a b ↔ r' a b) : l.orderedInsert r a = l.orderedInsert r' a := by
  induction l with
  | nil => rfl
  | cons b l ih =>
      rw [List.orderedInsert, List.orderedInsert, ih fun c hc => h c (List.mem_cons_of_mem _ hc)]
      by_cases hab : r a b
      · rw [if_pos hab, if_pos ((h b List.mem_cons_self).mp hab)]
      · rw [if_neg hab, if_neg (mt (h b List.mem_cons_self).mpr hab)]

theorem insertionSort_congr {α : Type} {r r' : α → α → Prop} [DecidableRel r] [DecidableRel r'] {l : List α}
    (h : ∀ a ∈ l, ∀ b ∈ l, r a b ↔ r' a b) : l.insertionSort r = l.insertionSort r' := by
  induction l with
  | nil => rfl
  | cons a l ih =>
      have hrest := ih fun b hb c hc => h b (List.mem_cons_of_mem _ hb) c (List.mem_cons_of_mem _ hc)
      rw [List.insertionSort_cons, List.insertionSort_cons, hrest]
      apply orderedInsert_congr
      intro b hb
      have hin : b ∈ l := (List.mem_insertionSort r').mp hb
      exact h a List.mem_cons_self b (List.mem_cons_of_mem _ hin)

/-! ## The place of an element in a stable sort -/

section Place

variable {α S : Type} [LinearOrder S]

/-- Descending by score, ties in the order they came. -/
def sortDesc (score : α → S) (l : List α) : List α :=
  l.insertionSort fun a b => score b ≤ score a

variable {score : α → S} {l : List α}

theorem sortDesc_perm (score : α → S) (l : List α) : (sortDesc score l).Perm l :=
  List.perm_insertionSort _ _

@[simp] theorem mem_sortDesc {x : α} : x ∈ sortDesc score l ↔ x ∈ l :=
  (sortDesc_perm score l).mem_iff

@[simp] theorem length_sortDesc : (sortDesc score l).length = l.length :=
  (sortDesc_perm score l).length_eq

theorem sortDesc_pairwise (score : α → S) (l : List α) :
    (sortDesc score l).Pairwise fun a b => score b ≤ score a := by
  have : Std.Total fun a b : α => score b ≤ score a := ⟨fun a b => le_total _ _⟩
  have : IsTrans α fun a b : α => score b ≤ score a := ⟨fun _ _ _ h₁ h₂ => le_trans h₂ h₁⟩
  exact List.pairwise_insertionSort _ _

/-- What a cut of the sorted list leaves out scores no higher than what it keeps. -/
theorem score_le_of_cut {n : ℕ} {a b : α} (ha : a ∈ (sortDesc score l).take n) (hb : b ∈ l)
    (hcut : b ∉ (sortDesc score l).take n) : score b ≤ score a := by
  have hsorted := sortDesc_pairwise score l
  have hdrop : b ∈ (sortDesc score l).drop n := by
    have hmem : b ∈ sortDesc score l := mem_sortDesc.mpr hb
    rw [← List.take_append_drop n (sortDesc score l), List.mem_append] at hmem
    exact hmem.resolve_left hcut
  rw [← List.take_append_drop n (sortDesc score l)] at hsorted
  exact (List.pairwise_append.mp hsorted).2.2 a ha b hdrop

variable [DecidableEq α]

/-- A higher score is kept as long as a lower one is, and stands before it. -/
theorem cut_of_lt {n : ℕ} {a b : α} (ha : a ∈ l) (hlt : score b < score a)
    (hb : b ∈ (sortDesc score l).take n) :
    a ∈ (sortDesc score l).take n
      ∧ ((sortDesc score l).take n).idxOf a < ((sortDesc score l).take n).idxOf b := by
  have hkept : a ∈ (sortDesc score l).take n := by
    by_contra hcut
    exact absurd (score_le_of_cut hb ha hcut) (not_le.mpr hlt)
  refine ⟨hkept, ?_⟩
  by_contra hnot
  have hsorted := (sortDesc_pairwise score l).sublist (List.take_sublist n _)
  rw [List.pairwise_iff_getElem] at hsorted
  have hia := List.idxOf_lt_length_of_mem hkept
  have hib := List.idxOf_lt_length_of_mem hb
  rcases lt_or_eq_of_le (not_lt.mp hnot) with hbefore | hsame
  · have hle := hsorted _ _ hib hia hbefore
    rw [List.getElem_idxOf, List.getElem_idxOf] at hle
    exact absurd hle (not_le.mpr hlt)
  · exact hlt.ne (congrArg score ((List.idxOf_inj hb).mp hsame))

/-- `a` beats `b`: a larger score, or an equal one and earlier in the list. -/
def Beats (score : α → S) (l : List α) (a b : α) : Prop :=
  score b < score a ∨ (score a = score b ∧ l.idxOf a < l.idxOf b)

instance (score : α → S) (l : List α) (a b : α) : Decidable (Beats score l a b) :=
  inferInstanceAs (Decidable (_ ∨ _))

/-- The elements tied with `x` that come before it in the list. -/
def tiesBefore (score : α → S) (l : List α) (x : α) : ℕ :=
  l.countP fun y => score y = score x ∧ l.idxOf y < l.idxOf x

/-- Of two elements one beats the other, never both. -/
theorem Beats.asymm {a b : α} (h : Beats score l a b) : ¬ Beats score l b a := by
  rcases h with h | ⟨he, hi⟩
  · rintro (h' | ⟨he', -⟩)
    · exact lt_asymm h h'
    · exact h.ne he'
  · rintro (h' | ⟨-, hi'⟩)
    · exact h'.ne he
    · omega

/-- In a list without repetition the places ascend. -/
theorem idxOf_pairwise (hn : l.Nodup) : l.Pairwise fun a b => l.idxOf a < l.idxOf b := by
  rw [List.pairwise_iff_getElem]
  intro i j hi hj hij
  rwa [hn.idxOf_getElem, hn.idxOf_getElem]

/-- An element of smaller index stands before the other. -/
theorem pair_sublist_of_idxOf_lt {a b : α} (ha : a ∈ l) (hb : b ∈ l)
    (h : l.idxOf a < l.idxOf b) : [a, b].Sublist l := by
  have hfst : a ∈ l.take (l.idxOf b) := (List.mem_take_iff_idxOf_lt ha).mpr h
  have hsnd : b ∈ l.drop (l.idxOf b) := by
    have hlt := List.idxOf_lt_length_of_mem hb
    rw [List.drop_eq_getElem_cons hlt, List.getElem_idxOf hlt]
    exact List.mem_cons_self
  have := (List.singleton_sublist.mpr hfst).append (List.singleton_sublist.mpr hsnd)
  rwa [List.take_append_drop] at this

/-- A stable sort is strictly ordered by `Beats`. -/
theorem beats_of_stable (hn : l.Nodup) {L : List α} (hperm : L.Perm l)
    (hsorted : L.Pairwise fun a b => score b ≤ score a)
    (hstable : ∀ a b, score b ≤ score a → [a, b].Sublist l → [a, b].Sublist L) : L.Pairwise (Beats score l) := by
  have hnd : L.Nodup := hperm.nodup_iff.mpr hn
  have hidx := idxOf_pairwise hnd
  rw [List.pairwise_iff_forall_sublist] at hidx ⊢
  intro a b hab
  have hle : score b ≤ score a := List.pairwise_iff_forall_sublist.mp hsorted hab
  rcases hle.lt_or_eq with hlt | heq
  · exact .inl hlt
  · refine .inr ⟨heq.symm, ?_⟩
    have ha : a ∈ l := hperm.mem_iff.mp (hab.subset (by simp))
    have hb : b ∈ l := hperm.mem_iff.mp (hab.subset (by simp))
    have hlt := hidx hab
    by_contra hge
    have hne : l.idxOf a ≠ l.idxOf b := by
      intro he
      rw [(List.idxOf_inj ha).mp he] at hlt
      exact lt_irrefl _ hlt
    -- otherwise `b` stands before `a` in `l`, and stability keeps it there
    have hba : [b, a].Sublist L := hstable b a heq.ge (pair_sublist_of_idxOf_lt hb ha (by omega))
    exact lt_asymm hlt (hidx hba)

/-- The sort is in the order of `Beats`, ties included. -/
theorem sortDesc_beats (hn : l.Nodup) : (sortDesc score l).Pairwise (Beats score l) :=
  beats_of_stable hn (sortDesc_perm score l) (sortDesc_pairwise score l)
    fun _ _ hle hab => List.pair_sublist_insertionSort hle hab

/-- Both sorts are stable, so they agree. -/
theorem mergeSort_eq_sortDesc (hn : l.Nodup) :
    l.mergeSort (fun a b => decide (score b ≤ score a)) = sortDesc score l := by
  have hperm := List.mergeSort_perm l fun a b => decide (score b ≤ score a)
  have htrans : ∀ a b c : α, decide (score b ≤ score a) = true → decide (score c ≤ score b) = true →
      decide (score c ≤ score a) = true := by
    intro a b c hab hbc
    exact decide_eq_true (le_trans (of_decide_eq_true hbc) (of_decide_eq_true hab))
  have htotal : ∀ a b : α, (decide (score b ≤ score a) || decide (score a ≤ score b)) = true := by
    intro a b
    rcases le_total (score b) (score a) with hle | hle
    · simp [hle]
    · simp [hle]
  have hsorted := (List.pairwise_mergeSort htrans htotal l).imp fun h => of_decide_eq_true h
  have hbeats : (l.mergeSort fun a b => decide (score b ≤ score a)).Pairwise (Beats score l) :=
    beats_of_stable hn hperm hsorted fun a b hle hab =>
      List.pair_sublist_mergeSort htrans htotal (decide_eq_true hle) hab
  exact (hperm.trans (sortDesc_perm score l).symm).eq_of_pairwise
    (fun a b _ _ hab hba => absurd hba hab.asymm) hbeats (sortDesc_beats hn)

omit [DecidableEq α] in
/-- In a list ordered by an asymmetric relation, the element at place `i` has
exactly `i` elements before it in that order. -/
theorem countP_before_getElem {r : α → α → Prop} [DecidableRel r]
    (hasymm : ∀ a b, r a b → ¬ r b a) :
    ∀ (L : List α), L.Pairwise r → ∀ (i : ℕ) (hi : i < L.length),
      (L.countP fun y => r y L[i]) = i
  | [], _, i, hi => absurd hi (by simp)
  | a :: t, hp, i, hi => by
      obtain ⟨hat, ht⟩ := List.pairwise_cons.mp hp
      have hirr : ∀ b, ¬ r b b := fun b h => hasymm b b h h
      rcases i with _ | i
      · rw [List.getElem_cons_zero, List.countP_eq_zero]
        intro y hy
        rcases List.mem_cons.mp hy with rfl | hy
        · simpa using hirr _
        · simpa using hasymm _ _ (hat y hy)
      · have hi' : i < t.length := by simpa using hi
        rw [List.getElem_cons_succ, List.countP_cons, countP_before_getElem hasymm t ht i hi',
          if_pos (by simpa using hat _ (List.getElem_mem hi'))]

/-- **The place of an element.** The stable sort puts `x` at the number of
elements that beat it. -/
theorem getElem?_sortDesc (hn : l.Nodup) {x : α} (hx : x ∈ l) :
    (sortDesc score l)[l.countP fun y => Beats score l y x]? = some x := by
  obtain ⟨i, hi, rfl⟩ := List.getElem_of_mem (mem_sortDesc.mpr hx : x ∈ sortDesc score l)
  have hplace := countP_before_getElem (fun _ _ h => Beats.asymm h) _ (sortDesc_beats hn) i hi
  rw [(sortDesc_perm score l).countP_eq] at hplace
  rw [hplace, List.getElem?_eq_getElem hi]

/-- Conversely, what stands at place `j` has `j` elements beating it. -/
theorem countP_of_getElem?_sortDesc (hn : l.Nodup) {x : α} {j : ℕ}
    (hj : (sortDesc score l)[j]? = some x) : (l.countP fun y => Beats score l y x) = j := by
  obtain ⟨hlt, rfl⟩ := List.getElem?_eq_some_iff.mp hj
  have hplace := countP_before_getElem (fun _ _ h => Beats.asymm h) _ (sortDesc_beats hn) j hlt
  rwa [(sortDesc_perm score l).countP_eq] at hplace

/-- The elements that beat `x`: those of larger score, and the ties before it. -/
theorem countP_beats (score : α → S) (l : List α) (x : α) :
    (l.countP fun y => Beats score l y x)
      = (l.countP fun y => score x < score y) + tiesBefore score l x := by
  have key : ∀ m : List α, (m.countP fun y => Beats score l y x)
      = (m.countP fun y => score x < score y)
        + (m.countP fun y => score y = score x ∧ l.idxOf y < l.idxOf x) := by
    intro m
    induction m with
    | nil => rfl
    | cons a t ih =>
        rw [List.countP_cons, List.countP_cons, List.countP_cons, ih]
        by_cases hlt : score x < score a
        · have hne : ¬ score a = score x := hlt.ne'
          simp [Beats, hlt, hne]
          omega
        · simp [Beats, hlt]
          omega
  exact key l

end Place

/-! ## Top-`k` windows

`IsTop k l w` is what `argpartition` followed by `argsort` of a slice promises:
`w` holds `min k l.length` entries of `l`, in descending order, and nothing left
out scores higher than anything kept. -/

section Window

variable {α S : Type} [LinearOrder S]

structure IsTop (score : α → S) (k : ℕ) (l w : List α) : Prop where
  split : ∃ rest, (w ++ rest).Perm l ∧ ∀ x ∈ w, ∀ y ∈ rest, score y ≤ score x
  length_eq : w.length = min k l.length
  sorted : w.Pairwise fun a b => score b ≤ score a

variable {score : α → S} {k : ℕ} {l w : List α}

/-- A window has only what the list has. -/
theorem IsTop.subset (h : IsTop score k l w) : w ⊆ l := by
  obtain ⟨rest, hperm, -⟩ := h.split
  intro x hx
  exact hperm.mem_iff.mp (List.mem_append_left _ hx)

/-- The keys of a window are distinct when those of the list are. -/
theorem IsTop.nodup_map {κ : Type} (key : α → κ) (h : IsTop score k l w)
    (hn : (l.map key).Nodup) : (w.map key).Nodup := by
  obtain ⟨rest, hperm, -⟩ := h.split
  have := (hperm.map key).nodup_iff.mpr hn
  rw [List.map_append] at this
  exact (List.nodup_append.mp this).1

/-- Sorting by any total preorder that refines the score and cutting at `k`
gives such a window. -/
theorem isTop_of_sort {r : α → α → Prop} [DecidableRel r] [Std.Total r] [IsTrans α r]
    (hr : ∀ a b, r a b → score b ≤ score a) (k : ℕ) (l : List α) :
    IsTop score k l ((l.insertionSort r).take k) := by
  have hsorted := (List.pairwise_insertionSort r l).imp fun {a b} h => hr a b h
  refine ⟨⟨(l.insertionSort r).drop k, ?_, ?_⟩, ?_, ?_⟩
  · rw [List.take_append_drop]
    exact List.perm_insertionSort r l
  · rw [← List.take_append_drop k (l.insertionSort r), List.pairwise_append] at hsorted
    exact hsorted.2.2
  · rw [List.length_take, (List.perm_insertionSort r l).length_eq]
  · exact hsorted.sublist (List.take_sublist _ _)

/-- Without ties the window is forced: it is a prefix of the sorted list. -/
theorem IsTop.eq_take (h : IsTop score k l w)
    (hinj : ∀ a ∈ l, ∀ b ∈ l, score a = score b → a = b) : w = (sortDesc score l).take k := by
  obtain ⟨rest, hperm, hdom⟩ := h.split
  have hperm' : (w ++ sortDesc score rest).Perm (sortDesc score l) :=
    ((sortDesc_perm score rest).append_left w).trans (hperm.trans (sortDesc_perm score l).symm)
  have hsorted : (w ++ sortDesc score rest).Pairwise fun a b => score b ≤ score a := by
    rw [List.pairwise_append]
    exact ⟨h.sorted, sortDesc_pairwise score rest, fun x hx y hy => hdom x hx y (mem_sortDesc.mp hy)⟩
  have heq : w ++ sortDesc score rest = sortDesc score l := by
    refine hperm'.eq_of_pairwise ?_ hsorted (sortDesc_pairwise score l)
    intro a b ha hb hab hba
    have ha' : a ∈ l := mem_sortDesc.mp (hperm'.mem_iff.mp ha)
    exact hinj a ha' b (mem_sortDesc.mp hb) (le_antisymm hba hab)
  by_cases hk : k ≤ l.length
  · have hlen : w.length = k := by rw [h.length_eq, Nat.min_eq_left hk]
    rw [← heq, ← hlen, List.take_left]
  · have hlen : w.length = l.length := by
      rw [h.length_eq, Nat.min_eq_right (by omega)]
    have hrest : rest = [] := by
      have := hperm.length_eq
      rw [List.length_append, hlen] at this
      exact List.length_eq_zero_iff.mp (by omega)
    rw [← heq, hrest, List.take_of_length_le]
    · simp [sortDesc]
    · simp [sortDesc]
      omega

/-! ### A window that is filtered afterwards

`p` is what survives. The survivors of a window are the first survivors of the
whole list; how many there are depends on how many of the others stand ahead. -/

/-- Two descending lists of the same elements have the same scores place by place. -/
theorem map_score_of_perm {ρ σ : List α} (hperm : ρ.Perm σ)
    (hρ : ρ.Pairwise fun a b => score b ≤ score a) (hσ : σ.Pairwise fun a b => score b ≤ score a) :
    ρ.map score = σ.map score := by
  have hρ' : (ρ.map score).Pairwise fun a b => b ≤ a := List.pairwise_map.mpr hρ
  have hσ' : (σ.map score).Pairwise fun a b => b ≤ a := List.pairwise_map.mpr hσ
  refine (hperm.map score).eq_of_pairwise ?_ hρ' hσ'
  intro a b _ _ hab hba
  exact le_antisymm hba hab

/-- The same for one place. -/
theorem score_getElem?_of_perm {ρ σ : List α} (hperm : ρ.Perm σ)
    (hρ : ρ.Pairwise fun a b => score b ≤ score a) (hσ : σ.Pairwise fun a b => score b ≤ score a)
    {j : ℕ} {x u : α} (hx : ρ[j]? = some x) (hu : σ[j]? = some u) : score x = score u := by
  have hj : (ρ.map score)[j]? = (σ.map score)[j]? := by rw [map_score_of_perm hperm hρ hσ]
  rw [List.getElem?_map, List.getElem?_map, hx, hu] at hj
  exact Option.some.inj hj

theorem IsTop.filter_leads (h : IsTop score k l w) (p : α → Bool) :
    ∃ ρ, ρ.Perm (l.filter p) ∧ (ρ.Pairwise fun a b => score b ≤ score a)
      ∧ w.filter p <+: ρ ∧ ∀ y ∈ ρ.drop (w.filter p).length, ∀ z ∈ w, score y ≤ score z := by
  obtain ⟨rest, hperm, hdom⟩ := h.split
  refine ⟨w.filter p ++ sortDesc score (rest.filter p), ?_, ?_, List.prefix_append _ _, ?_⟩
  · refine ((sortDesc_perm score (rest.filter p)).append_left _).trans ?_
    rw [← List.filter_append]
    exact hperm.filter p
  · rw [List.pairwise_append]
    refine ⟨h.sorted.sublist List.filter_sublist, sortDesc_pairwise score _, ?_⟩
    intro x hx y hy
    exact hdom x (List.mem_filter.mp hx).1 y (List.mem_filter.mp (mem_sortDesc.mp hy)).1
  · intro y hy z hz
    rw [List.drop_left] at hy
    exact hdom z hz y (List.mem_filter.mp (mem_sortDesc.mp hy)).1

/-- Who survives and who does not make up the list. -/
theorem length_filter_add (p : α → Bool) (l : List α) :
    (l.filter p).length + (l.filter fun x => !p x).length = l.length := by
  rw [← List.countP_eq_length_filter, ← List.countP_eq_length_filter]
  have := List.length_eq_countP_add_countP p (l := l)
  simp only [Bool.not_eq_true, Bool.decide_eq_false] at this
  omega

/-- **Enough survive.** If those that do not survive and score at least as high as
the `j`th best survivor leave room for `j` more in the window, the window holds
`j` survivors. -/
theorem IsTop.survivors (h : IsTop score k l w) (p : α → Bool) {j : ℕ} {u : α}
    (hu : (sortDesc score (l.filter p))[j]? = some u)
    (hroom : (l.countP fun y => !p y && decide (score u ≤ score y)) + (j + 1) ≤ k) :
    j + 1 ≤ (w.filter p).length := by
  by_contra hfew
  obtain ⟨ρ, hρ, hsorted, hpre, hdom⟩ := h.filter_leads p
  obtain ⟨rest, hperm, -⟩ := h.split
  -- the `j`th best survivor was left out, so the whole window scores at least as high
  have hlt : j < ρ.length := by
    have hlen := (List.getElem?_eq_some_iff.mp hu).1
    rwa [length_sortDesc, ← hρ.length_eq] at hlen
  have hscore : score ρ[j] = score u :=
    score_getElem?_of_perm (hρ.trans (sortDesc_perm score _).symm) hsorted
      (sortDesc_pairwise score _) (List.getElem?_eq_getElem hlt) hu
  have hall : ∀ z ∈ w, score u ≤ score z := by
    intro z hz
    rw [← hscore]
    refine hdom _ ?_ z hz
    rw [List.mem_drop_iff_getElem]
    exact ⟨j - (w.filter p).length, by omega, by congr 1; omega⟩
  have hothers : (w.filter fun x => !p x).length
      ≤ l.countP fun y => !p y && decide (score u ≤ score y) := by
    rw [← hperm.countP_eq, List.countP_append, ← List.countP_eq_length_filter]
    refine le_trans (le_of_eq (List.countP_congr ?_)) (Nat.le_add_right _ _)
    intro z hz
    simp [hall z hz]
  have hsplit := length_filter_add p w
  have hwhole : l.length < k := by
    have := h.length_eq
    omega
  -- a window shorter than its bound is the whole list, and leaves no survivor out
  have hlen : w.length = l.length := by
    rw [h.length_eq]
    omega
  have hrest : rest = [] := by
    have := hperm.length_eq
    rw [List.length_append, hlen] at this
    exact List.length_eq_zero_iff.mp (by omega)
  rw [hrest, List.append_nil] at hperm
  have := (hperm.filter p).length_eq
  rw [← hρ.length_eq] at this
  omega

/-- The order that puts those that will not survive first among ties. -/
def worstFirst (score : α → S) (p : α → Bool) (a b : α) : Prop :=
  score b < score a ∨ (score a = score b ∧ (p a = true → p b = true))

instance (score : α → S) (p : α → Bool) : DecidableRel (worstFirst score p) :=
  fun _ _ => inferInstanceAs (Decidable (_ ∨ _))

instance (score : α → S) (p : α → Bool) : Std.Total (worstFirst score p) where
  total a b := by
    rcases lt_trichotomy (score a) (score b) with hlt | heq | hgt
    · exact .inr (.inl hlt)
    · by_cases hb : p b = true
      · exact .inl (.inr ⟨heq, fun _ => hb⟩)
      · exact .inr (.inr ⟨heq.symm, fun h => absurd h hb⟩)
    · exact .inl (.inl hgt)

instance (score : α → S) (p : α → Bool) : IsTrans α (worstFirst score p) where
  trans a b c := by
    rintro (hab | ⟨hab, pab⟩) (hbc | ⟨hbc, pbc⟩)
    · exact .inl (hbc.trans hab)
    · exact .inl (hbc ▸ hab)
    · exact .inl (hab ▸ hbc)
    · exact .inr ⟨hab.trans hbc, fun h => pbc (pab h)⟩

/-- The order refines that of the scores, so it makes a window. -/
theorem worstFirst_le {p : α → Bool} {a b : α} (h : worstFirst score p a b) :
    score b ≤ score a := by
  rcases h with h | ⟨h, -⟩
  · exact h.le
  · exact h.ge

/-- **No more survive.** When ties go to those that do not survive, `j` survivors in
the window mean that everything ahead of the `j`th fitted as well. -/
theorem room_of_survivors (p : α → Bool) {j : ℕ} {u : α}
    (hu : (sortDesc score (l.filter p))[j]? = some u)
    (hj : j + 1 ≤ (((l.insertionSort (worstFirst score p)).take k).filter p).length) :
    (l.countP fun y => !p y && decide (score u ≤ score y)) + (j + 1) ≤ k := by
  set z := l.insertionSort (worstFirst score p) with hz
  set w := z.take k with hw
  have hzsorted : z.Pairwise (worstFirst score p) := List.pairwise_insertionSort _ _
  have hzperm : z.Perm l := List.perm_insertionSort _ _
  have hpre : w.filter p <+: z.filter p := by
    refine List.IsPrefix.filter p ?_
    exact List.take_prefix k z
  -- the `j`th survivor of the window scores as the `j`th best survivor
  have hy : ∃ y ∈ w, p y = true ∧ score y = score u := by
    have hlt : j < (w.filter p).length := hj
    have hmem := List.getElem_mem hlt
    refine ⟨(w.filter p)[j], (List.mem_filter.mp hmem).1, (List.mem_filter.mp hmem).2, ?_⟩
    have hplace : (z.filter p)[j]? = some (w.filter p)[j] := by
      rw [← List.getElem?_eq_getElem hlt]
      obtain ⟨t, ht⟩ := hpre
      rw [← ht, List.getElem?_append_left hlt]
    exact score_getElem?_of_perm ((hzperm.filter p).trans (sortDesc_perm score _).symm)
      ((hzsorted.imp fun h => worstFirst_le h).sublist List.filter_sublist)
      (sortDesc_pairwise score _) hplace hu
  obtain ⟨y, hyw, hyp, hys⟩ := hy
  -- so nothing that scores that high and does not survive is outside the window
  have hzero : ((z.drop k).countP fun y => !p y && decide (score u ≤ score y)) = 0 := by
    rw [List.countP_eq_zero]
    intro v hv hcount
    simp only [Bool.and_eq_true, Bool.not_eq_true', decide_eq_true_eq] at hcount
    have hrel : worstFirst score p y v := by
      rw [← List.take_append_drop k z, List.pairwise_append] at hzsorted
      exact hzsorted.2.2 y hyw v hv
    rcases hrel with hlt | ⟨-, himp⟩
    · rw [hys] at hlt
      exact absurd hcount.2 (not_le.mpr hlt)
    · rw [himp hyp] at hcount
      exact absurd hcount.1 (by simp)
  have hin : (l.countP fun y => !p y && decide (score u ≤ score y))
      ≤ (w.filter fun x => !p x).length := by
    rw [← hzperm.countP_eq, ← List.take_append_drop k z, List.countP_append, hzero,
      ← List.countP_eq_length_filter, Nat.add_zero]
    refine List.countP_mono_left ?_
    intro v _ hv
    simp only [Bool.and_eq_true] at hv
    exact hv.1
  have hsplit := length_filter_add p w
  have hlen : w.length ≤ k := List.length_take_le _ _
  omega

end Window

end Ranking
