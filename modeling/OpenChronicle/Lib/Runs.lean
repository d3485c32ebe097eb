/-
Stable sorting of lists that come in separate runs.

A stable sort keeps elements of one key in their order, and this together with the order of the keys
determines it. So lists whose keys do not meet may be sorted one by one, in whichever order they stand:
`by_key_append` is that fact for two of them, `Apart` asks it of many.

It is used where the source merges groups of elements and sorts again after each merge. The groups are
apart in their keys, and `Apart.merge` says that merging neighbours leaves the whole in the order it
had, so the sorts of the source need not be followed one after the other.
-/
import Mathlib.Data.List.Basic
import Mathlib.Order.Lattice

set_option autoImplicit false

namespace Runs

variable {α κ : Type} [LinearOrder κ] {key : α → κ}

/-! ## The stable sort -/

/-- Sort by a key, elements of one key in the order they had. -/
def by_key (key : α → κ) (l : List α) : List α := l.mergeSort fun a b => key a ≤ key b

/-- Sorting loses nothing. -/
theorem by_key_perm (l : List α) : (by_key key l).Perm l := List.mergeSort_perm l _

/-- The same elements. -/
theorem mem_by_key {a : α} {l : List α} : a ∈ by_key key l ↔ a ∈ l := (by_key_perm l).mem_iff

/-- The keys ascend. -/
theorem by_key_sorted (l : List α) : (by_key key l).Pairwise fun a b => key a ≤ key b := by
  have hsorted : (by_key key l).Pairwise fun a b => decide (key a ≤ key b) = true := by
    apply List.pairwise_mergeSort
    · intro a b c hab hbc
      simp only [decide_eq_true_eq] at hab hbc ⊢
      exact le_trans hab hbc
    · intro a b
      simp only [Bool.or_eq_true, decide_eq_true_eq]
      exact le_total (key a) (key b)
  refine hsorted.imp ?_
  intro a b h
  exact of_decide_eq_true h

/-- The elements of one key keep their order. -/
theorem filter_by_key (l : List α) (k : κ) :
    (by_key key l).filter (key · = k) = l.filter (key · = k) := by
  have hone : (l.filter (key · = k)).Pairwise fun a b => decide (key a ≤ key b) = true := by
    refine List.Pairwise.imp_of_mem ?_ (List.pairwise_of_forall fun _ _ => trivial)
    intro a b ha hb _
    have hka : key a = k := by simpa using (List.mem_filter.mp ha).2
    have hkb : key b = k := by simpa using (List.mem_filter.mp hb).2
    simp [hka, hkb]
  have hsub : (l.filter (key · = k)).Sublist (by_key key l) := by
    refine List.sublist_mergeSort (fun a b c hab hbc => ?_) (fun a b => ?_) hone List.filter_sublist
    · simp only [decide_eq_true_eq] at hab hbc ⊢
      exact le_trans hab hbc
    · simp only [Bool.or_eq_true, decide_eq_true_eq]
      exact le_total (key a) (key b)
  have hfiltered := hsub.filter (key · = k)
  simp only [List.filter_filter, Bool.and_self] at hfiltered
  refine (hfiltered.eq_of_length ?_).symm
  exact ((by_key_perm l).filter _).length_eq.symm

/-- Two sorted lists that agree on every key are the same. -/
theorem eq_of_filter {l l' : List α} (h : l.Pairwise fun a b => key a ≤ key b)
    (h' : l'.Pairwise fun a b => key a ≤ key b)
    (hkeys : ∀ k, l.filter (key · = k) = l'.filter (key · = k)) : l = l' := by
  have hmem : ∀ {x y : List α}, (∀ k, x.filter (key · = k) = y.filter (key · = k)) →
      ∀ a ∈ x, a ∈ y := by
    intro x y hxy a ha
    have hin : a ∈ x.filter (key · = key a) := List.mem_filter.mpr ⟨ha, by simp⟩
    rw [hxy] at hin
    exact (List.mem_filter.mp hin).1
  induction l generalizing l' with
  | nil =>
      rcases l' with _ | ⟨b, rest⟩
      · rfl
      · exact absurd (hmem (fun k => (hkeys k).symm) b (by simp)) (by simp)
  | cons a rest ih =>
      rcases l' with _ | ⟨b, rest'⟩
      · exact absurd (hmem hkeys a (by simp)) (by simp)
      -- both heads have the least key
      have hle : key a ≤ key b := by
        rcases List.mem_cons.mp (hmem (fun k => (hkeys k).symm) b (by simp)) with rfl | hin
        · exact le_refl _
        · exact (List.pairwise_cons.mp h).1 b hin
      have hge : key b ≤ key a := by
        rcases List.mem_cons.mp (hmem hkeys a (by simp)) with rfl | hin
        · exact le_refl _
        · exact (List.pairwise_cons.mp h').1 a hin
      have hkey : key b = key a := le_antisymm hge hle
      have hfirst := hkeys (key a)
      rw [List.filter_cons_of_pos (by simp), List.filter_cons_of_pos (by simp [hkey])] at hfirst
      obtain ⟨rfl, -⟩ := List.cons.inj hfirst
      refine congrArg (a :: ·) (ih h.of_cons h'.of_cons ?_)
      intro k
      have hk := hkeys k
      by_cases ha : key a = k
      · rw [List.filter_cons_of_pos (by simp [ha]), List.filter_cons_of_pos (by simp [ha])] at hk
        exact (List.cons.inj hk).2
      · rw [List.filter_cons_of_neg (by simp [ha]), List.filter_cons_of_neg (by simp [ha])] at hk
        exact hk

/-- A sorted list stays as it is. -/
theorem by_key_of_sorted {l : List α} (h : l.Pairwise fun a b => key a ≤ key b) : by_key key l = l :=
  eq_of_filter (by_key_sorted l) h (filter_by_key l)

/-! ## Runs -/

/-- All keys of the first list are below those of the second. -/
def Below (key : α → κ) (x y : List α) : Prop := ∀ a ∈ x, ∀ b ∈ y, key a < key b

variable {x y z : List α}

/-- Two lists below a third are below it together. -/
theorem Below.append_left (hx : Below key x z) (hy : Below key y z) : Below key (x ++ y) z := by
  intro a ha
  rcases List.mem_append.mp ha with hin | hin
  · exact hx a hin
  · exact hy a hin

/-- The two sorted runs, one behind the other, are sorted. -/
theorem sorted_append (h : Below key x y) :
    (by_key key x ++ by_key key y).Pairwise fun a b => key a ≤ key b := by
  refine List.pairwise_append.mpr ⟨by_key_sorted x, by_key_sorted y, ?_⟩
  intro a ha b hb
  exact le_of_lt (h a (mem_by_key.mp ha) b (mem_by_key.mp hb))

/-- No key is in both lists. -/
theorem filter_of_below (h : Below key x y) (k : κ) :
    x.filter (key · = k) = [] ∨ y.filter (key · = k) = [] := by
  rcases hx : x.filter (key · = k) with _ | ⟨a, rest⟩
  · exact .inl rfl
  · right
    rw [List.filter_eq_nil_iff]
    intro b hb hk
    have ha : a ∈ x.filter (key · = k) := by simp [hx]
    have hlt := h a (List.mem_filter.mp ha).1 b hb
    have hka : key a = k := by simpa using (List.mem_filter.mp ha).2
    have hkb : key b = k := by simpa using hk
    rw [hka, hkb] at hlt
    exact lt_irrefl k hlt

/-- **Runs may be sorted one by one.** -/
theorem by_key_append (h : Below key x y) : by_key key (x ++ y) = by_key key x ++ by_key key y := by
  refine eq_of_filter (by_key_sorted _) (sorted_append h) ?_
  intro k
  rw [filter_by_key, List.filter_append, List.filter_append, filter_by_key, filter_by_key]

/-- The same when the later run stands first. -/
theorem by_key_append_swapped (h : Below key x y) :
    by_key key (y ++ x) = by_key key x ++ by_key key y := by
  refine eq_of_filter (by_key_sorted _) (sorted_append h) ?_
  intro k
  rw [filter_by_key, List.filter_append, List.filter_append, filter_by_key, filter_by_key]
  rcases filter_of_below h k with hx | hy
  · rw [hx, List.append_nil, List.nil_append]
  · rw [hy, List.append_nil, List.nil_append]

/-- Runs that are not empty, each below the ones after it. -/
structure Apart (key : α → κ) (runs : List (List α)) : Prop where
  filled : ∀ run ∈ runs, run ≠ []
  below : runs.Pairwise (Below key)

/-- All of it, in order. -/
def sorted (key : α → κ) (runs : List (List α)) : List α := runs.flatMap (by_key key)

section Merging

variable {pre post : List (List α)} {g h : List α}

/-- Neighbours may be merged either way. -/
theorem Apart.merge (hapart : Apart key (pre ++ g :: h :: post)) {m : List α} (hm : m = g ++ h ∨ m = h ++ g) :
    Apart key (pre ++ m :: post) ∧ sorted key (pre ++ m :: post) = sorted key (pre ++ g :: h :: post) := by
  obtain ⟨hpre, hrest, hcross⟩ := List.pairwise_append.mp hapart.below
  obtain ⟨hg, hh⟩ := List.pairwise_cons.mp hrest
  obtain ⟨hh, hpost⟩ := List.pairwise_cons.mp hh
  have hgh : Below key g h := hg h (by simp)
  have hmem : ∀ a, a ∈ m ↔ a ∈ g ∨ a ∈ h := by
    intro a
    rcases hm with rfl | rfl
    · exact List.mem_append
    · rw [List.mem_append]
      exact or_comm
  refine ⟨⟨?_, ?_⟩, ?_⟩
  · intro run hrun
    rcases List.mem_append.mp hrun with hin | hin
    · exact hapart.filled run (by simp [hin])
    · rcases List.mem_cons.mp hin with rfl | hin
      · intro hnil
        refine hapart.filled g (by simp) (List.eq_nil_iff_forall_not_mem.mpr fun a ha => ?_)
        have hin := (hmem a).mpr (.inl ha)
        rw [hnil] at hin
        cases hin
      · exact hapart.filled run (by simp [hin])
  · refine List.pairwise_append.mpr ⟨hpre, List.pairwise_cons.mpr ⟨?_, hpost⟩, ?_⟩
    · intro run hrun a ha
      rcases (hmem a).mp ha with hin | hin
      · exact hg run (by simp [hrun]) a hin
      · exact hh run hrun a hin
    · intro run hrun run' hrun' a ha b hb
      rcases List.mem_cons.mp hrun' with rfl | hin
      · rcases (hmem b).mp hb with hin | hin
        · exact hcross run hrun g (by simp) a ha b hin
        · exact hcross run hrun h (by simp) a ha b hin
      · exact hcross run hrun run' (by simp [hin]) a ha b hb
  · have hsort : by_key key m = by_key key g ++ by_key key h := by
      rcases hm with rfl | rfl
      · exact by_key_append hgh
      · exact by_key_append_swapped hgh
    simp [sorted, hsort]

/-- Runs that are sorted already. -/
theorem sorted_eq_flatten {runs : List (List α)} (h : runs.flatten.Pairwise fun a b => key a ≤ key b) :
    sorted key runs = runs.flatten := by
  induction runs with
  | nil => rfl
  | cons run rest ih =>
      rw [List.flatten_cons] at h ⊢
      obtain ⟨hrun, hrest, -⟩ := List.pairwise_append.mp h
      rw [sorted, List.flatMap_cons, by_key_of_sorted hrun]
      exact congrArg (run ++ ·) (ih hrest)

end Merging

end Runs
