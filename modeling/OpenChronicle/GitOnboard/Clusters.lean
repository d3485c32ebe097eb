/-
`cluster_commits` cuts the sorted commits into runs.

All three passes keep one invariant: the groups are not empty, each lies before the next one, and
sorting them one by one gives the sorted input. Pass 1 opens a group only behind a gap, which is longer
than a window of no less than zero, so that no date is in two groups. The other passes only merge
neighbours; the cap merges the first group forward, with its commits behind newer ones, and it is the
last sort that puts them right.

The invariant is one of the library (`Apart`), stated for any list of runs with a key, and what is shown
here is that each pass is one of the moves that keep it: to append a run that lies behind, to add to the
last run, to merge two neighbours. Nothing else is needed of what the passes look at. That pass 2 merges
by common files, or that the cap merges the smallest group, decides which partition comes out and never
whether it is one.

The gap of pass 1 is exact here and a float in the source. The windows of the callers are whole hours,
and the partition does not depend on where the cuts are.
-/
import Mathlib.Algebra.Order.Ring.Rat
import OpenChronicle.GitOnboard.Model
import OpenChronicle.Lib.Runs

set_option autoImplicit false

namespace OpenChronicle

open Runs

/-! ## The passes -/

/-- The groups after pass 2. -/
def overlapping_groups (commits : List GitCommit) (time_window_hours : ℚ) : List (List GitCommit) :=
  match by_date commits with
  | [] => []
  | first :: rest =>
      let groups := rest.foldl (time_step time_window_hours) [[first]]
      groups.tail.foldl overlap_step (groups.take 1)

/-- The whole function as the cap of what the first two passes give, with a sort of each group. -/
theorem cluster_commits_eq (commits : List GitCommit) (max_clusters : ℤ) (time_window_hours : ℚ) :
    cluster_commits commits max_clusters time_window_hours
      = (cap_groups (max 1 max_clusters).toNat (overlapping_groups commits time_window_hours).length
          (overlapping_groups commits time_window_hours)).map fun group => ⟨by_date group⟩ := by
  unfold cluster_commits overlapping_groups
  rcases by_date commits with _ | ⟨first, rest⟩
  · rfl
  · rfl

section Invariant

variable {groups merged : List (List GitCommit)} {g : List GitCommit} {commit : GitCommit}

theorem Apart.snoc (h : Apart GitCommit.date groups) (hg : g ≠ [])
    (hbelow : ∀ run ∈ groups, Below GitCommit.date run g) : Apart GitCommit.date (groups ++ [g]) := by
  refine ⟨?_, List.pairwise_append.mpr ⟨h.below, List.pairwise_singleton _ _, ?_⟩⟩
  · intro run hrun
    rcases List.mem_append.mp hrun with hin | hin
    · exact h.filled run hin
    · rw [List.mem_singleton.mp hin]
      exact hg
  · intro run hrun run' hrun'
    rw [List.mem_singleton.mp hrun']
    exact hbelow run hrun

/-! ### Pass 1 -/

/-- A commit that is not older than any before it joins the last group or opens a new one. -/
theorem time_step_apart {time_window_hours : ℚ} (hwindow : 0 ≤ time_window_hours)
    (h : Apart GitCommit.date groups) (hne : groups ≠ [])
    (hsorted : (groups.flatten ++ [commit]).Pairwise fun a b => a.date ≤ b.date) :
    Apart GitCommit.date (time_step time_window_hours groups commit)
      ∧ time_step time_window_hours groups commit ≠ []
      ∧ (time_step time_window_hours groups commit).flatten = groups.flatten ++ [commit] := by
  obtain ⟨init, current, rfl⟩ := (List.eq_nil_or_concat' groups).resolve_left hne
  obtain ⟨before, prev, rfl⟩ :=
    (List.eq_nil_or_concat' current).resolve_left (h.filled current (by simp))
  have hstep : time_step time_window_hours (init ++ [before ++ [prev]]) commit
      = if time_window_hours < ((commit.date - prev.date : ℤ) : ℚ) / 3600000000 then
          init ++ [before ++ [prev]] ++ [[commit]]
        else init ++ [before ++ [prev] ++ [commit]] := by
    simp [time_step]
  obtain ⟨hold, -, hcommit⟩ := List.pairwise_append.mp hsorted
  have hprev : ∀ a ∈ (init ++ [before ++ [prev]]).flatten, a.date ≤ prev.date := by
    have hflat : (init ++ [before ++ [prev]]).flatten = init.flatten ++ before ++ [prev] := by simp
    rw [hflat] at hold ⊢
    intro a ha
    rcases List.mem_append.mp ha with hin | hin
    · exact (List.pairwise_append.mp hold).2.2 a hin prev (by simp)
    · rw [List.mem_singleton.mp hin]
  have hlast : prev.date ≤ commit.date := hcommit prev (by simp) commit (by simp)
  rw [hstep]
  split
  · next hgap =>
      -- a gap longer than the window is longer than nothing
      have hlt : prev.date < commit.date := by
        have hpos : (0 : ℚ) < ((commit.date - prev.date : ℤ) : ℚ) / 3600000000 := lt_of_le_of_lt hwindow hgap
        have hnum : (0 : ℚ) < ((commit.date - prev.date : ℤ) : ℚ) := by
          have hprod := mul_pos hpos (by decide : (0 : ℚ) < 3600000000)
          rwa [div_mul_cancel₀ _ (by decide : (3600000000 : ℚ) ≠ 0)] at hprod
        have hint : (0 : ℤ) < commit.date - prev.date := by exact_mod_cast hnum
        exact Int.sub_pos.mp hint
      refine ⟨Apart.snoc h (by simp) ?_, by simp, by simp⟩
      intro run hrun a ha b hb
      rw [List.mem_singleton.mp hb]
      exact lt_of_le_of_lt (hprev a (List.mem_flatten.mpr ⟨run, hrun, ha⟩)) hlt
  · refine ⟨?_, by simp, by simp⟩
    obtain ⟨hinit, -, hcross⟩ := List.pairwise_append.mp h.below
    have hbefore : Apart GitCommit.date init := ⟨fun run hrun => h.filled run (by simp [hrun]), hinit⟩
    refine Apart.snoc hbefore (by simp) ?_
    intro run hrun a ha b hb
    have hrun' : Below GitCommit.date run (before ++ [prev]) := hcross run hrun _ (by simp)
    rcases List.mem_append.mp hb with hin | hin
    · exact hrun' a ha b hin
    · rw [List.mem_singleton.mp hin]
      exact lt_of_lt_of_le (hrun' a ha prev (by simp)) hlast

/-- Pass 1, by induction over the sorted commits. -/
theorem time_groups_apart {time_window_hours : ℚ} (hwindow : 0 ≤ time_window_hours)
    (rest : List GitCommit) (h : Apart GitCommit.date groups) (hne : groups ≠ [])
    (hsorted : (groups.flatten ++ rest).Pairwise fun a b => a.date ≤ b.date) :
    Apart GitCommit.date (rest.foldl (time_step time_window_hours) groups)
      ∧ rest.foldl (time_step time_window_hours) groups ≠ []
      ∧ (rest.foldl (time_step time_window_hours) groups).flatten = groups.flatten ++ rest := by
  induction rest generalizing groups with
  | nil => exact ⟨h, hne, (List.append_nil _).symm⟩
  | cons commit rest ih =>
      have hcons : groups.flatten ++ commit :: rest = groups.flatten ++ [commit] ++ rest := by simp
      rw [hcons] at hsorted
      obtain ⟨hapart, hne', hflat⟩ :=
        time_step_apart hwindow h hne (List.pairwise_append.mp hsorted).1
      rw [List.foldl_cons, hcons, ← hflat]
      exact ih hapart hne' (by rw [hflat]; exact hsorted)

/-! ### Pass 2 -/

/-- The next group is merged into the last one or set behind it. -/
theorem overlap_step_eq (hne : merged ≠ []) (g : List GitCommit) :
    (∃ init last, merged = init ++ [last] ∧ overlap_step merged g = init ++ [last ++ g])
      ∨ overlap_step merged g = merged ++ [g] := by
  obtain ⟨init, last, rfl⟩ := (List.eq_nil_or_concat' merged).resolve_left hne
  by_cases hover : 1 / 5 < jaccard (group_files last) (group_files g)
  · refine .inl ⟨init, last, rfl, ?_⟩
    simp only [overlap_step, List.getLast?_append, List.getLast?_singleton, Option.some_or, if_pos hover,
      List.dropLast_concat]
  · right
    simp only [overlap_step, List.getLast?_append, List.getLast?_singleton, Option.some_or, if_neg hover]

/-- Pass 2. What has been merged and what is left are apart all along. -/
theorem overlap_groups_apart (rest : List (List GitCommit)) (h : Apart GitCommit.date (merged ++ rest))
    (hne : merged ≠ []) :
    Apart GitCommit.date (rest.foldl overlap_step merged)
      ∧ rest.foldl overlap_step merged ≠ []
      ∧ (rest.foldl overlap_step merged).flatten = (merged ++ rest).flatten := by
  induction rest generalizing merged with
  | nil =>
      rw [List.append_nil] at h ⊢
      exact ⟨h, hne, rfl⟩
  | cons g rest ih =>
      rw [List.foldl_cons]
      rcases overlap_step_eq hne g with ⟨init, last, rfl, hstep⟩ | hstep
      · rw [hstep]
        rw [List.append_assoc, List.singleton_append] at h
        have hmerged : Apart GitCommit.date ((init ++ [last ++ g]) ++ rest) := by
          rw [List.append_assoc, List.singleton_append]
          exact (h.merge (.inl rfl)).1
        obtain ⟨hapart, hne', hflat⟩ := ih hmerged (by simp)
        refine ⟨hapart, hne', hflat.trans ?_⟩
        simp
      · rw [hstep]
        have hsame : merged ++ g :: rest = merged ++ [g] ++ rest := by simp
        rw [hsame] at h ⊢
        exact ih h (by simp)

/-! ### The cap -/

/-- There is a smallest group as long as there is one. -/
theorem smallest_idx_lt (hne : merged ≠ []) : smallest_idx merged < merged.length := by
  refine List.findIdx_lt_length_of_exists ?_
  -- a group of least length
  obtain ⟨least, hin, hleast⟩ : ∃ g ∈ merged, ∀ g' ∈ merged, g.length ≤ g'.length := by
    obtain ⟨n, hn⟩ : ∃ n, n ∈ merged.map List.length := by
      obtain ⟨g, hg⟩ := List.exists_mem_of_ne_nil merged hne
      exact ⟨g.length, List.mem_map_of_mem hg⟩
    have hex : ∃ n, n ∈ merged.map List.length := ⟨n, hn⟩
    obtain ⟨g, hg, hlen⟩ := List.mem_map.mp (Nat.find_spec hex)
    refine ⟨g, hg, fun g' hg' => ?_⟩
    rw [hlen]
    exact Nat.find_min' hex (List.mem_map_of_mem hg')
  refine ⟨least, hin, ?_⟩
  rw [List.all_eq_true]
  intro g' hg'
  exact decide_eq_true (hleast g' hg')

/-- A group moves into the one before it, and its place is closed. -/
theorem modify_eraseIdx (pre post : List (List GitCommit)) (g h : List GitCommit) :
    ((pre ++ g :: h :: post).modify pre.length (· ++ h)).eraseIdx (pre.length + 1)
      = pre ++ (g ++ h) :: post := by
  induction pre with
  | nil => rfl
  | cons first pre ih =>
      rw [List.length_cons, List.cons_append, List.modify_succ_cons, List.eraseIdx_cons_succ, ih,
        List.cons_append]

/-- One round merges two neighbours. -/
theorem merge_smallest_eq (htwo : 1 < merged.length) : ∃ pre g h post m,
    merged = pre ++ g :: h :: post ∧ (m = g ++ h ∨ m = h ++ g)
      ∧ merge_smallest merged = pre ++ m :: post := by
  have hne : merged ≠ [] := List.ne_nil_of_length_pos (by omega)
  have hlt := smallest_idx_lt hne
  rcases hidx : smallest_idx merged with _ | i
  · -- the first group is the smallest, and it goes behind the second
    rcases merged with _ | ⟨g, _ | ⟨h, post⟩⟩
    · exact absurd rfl hne
    · simp at htwo
    · refine ⟨[], g, h, post, h ++ g, rfl, .inr rfl, ?_⟩
      simp [merge_smallest, hidx]
  · rw [hidx] at hlt
    have hi : i < merged.length := by omega
    have hsplit : merged = merged.take i ++ merged[i] :: merged[i + 1] :: merged.drop (i + 2) := by
      rw [List.getElem_cons_drop, List.getElem_cons_drop, List.take_append_drop]
    have hlen : (merged.take i).length = i := by
      rw [List.length_take]
      omega
    refine ⟨merged.take i, merged[i], merged[i + 1], merged.drop (i + 2), _, hsplit, .inl rfl, ?_⟩
    have hround : merge_smallest merged = (merged.modify i (· ++ merged[i + 1])).eraseIdx (i + 1) := by
      rw [merge_smallest, hidx]
      simp [List.getD_eq_getElem?_getD, List.getElem?_eq_getElem hlt]
    rw [hround]
    have hmodify := modify_eraseIdx (merged.take i) (merged.drop (i + 2)) merged[i] merged[i + 1]
    rw [hlen, ← hsplit] at hmodify
    exact hmodify

/-- A round takes away one group, so the loop comes to its end. -/
theorem merge_smallest_length (htwo : 1 < merged.length) :
    (merge_smallest merged).length + 1 = merged.length := by
  obtain ⟨pre, g, h, post, m, rfl, -, hround⟩ := merge_smallest_eq htwo
  rw [hround]
  simp only [List.length_append, List.length_cons]
  omega

/-- **The loop of the cap ends**: after as many rounds as there are groups its condition is false,
and more rounds change nothing. -/
theorem cap_groups_ends {max_clusters rounds : ℕ} (hmax : 1 ≤ max_clusters) (hrounds : merged.length ≤ rounds) :
    (cap_groups max_clusters rounds merged).length ≤ max_clusters
      ∧ cap_groups max_clusters rounds merged = cap_groups max_clusters merged.length merged := by
  induction rounds generalizing merged with
  | zero =>
      have hzero : merged.length = 0 := by omega
      rw [hzero]
      exact ⟨by rw [cap_groups]; omega, rfl⟩
  | succ rounds ih =>
      rw [cap_groups]
      split
      · next hmore =>
          have htwo : 1 < merged.length := by omega
          have hshorter := merge_smallest_length htwo
          have hleft : (merge_smallest merged).length ≤ rounds := by omega
          obtain ⟨hle, hsame⟩ := ih hleft
          refine ⟨hle, hsame.trans ?_⟩
          rw [← hshorter, cap_groups, if_pos hmore]
      · next hfew =>
          refine ⟨by omega, ?_⟩
          rcases merged with _ | ⟨g, rest⟩
          · rfl
          · rw [List.length_cons, cap_groups, if_neg hfew]

/-- The cap, however many rounds it takes. -/
theorem cap_groups_apart {max_clusters : ℕ} (hmax : 1 ≤ max_clusters) (rounds : ℕ)
    (h : Apart GitCommit.date merged) (hne : merged ≠ []) :
    Apart GitCommit.date (cap_groups max_clusters rounds merged)
      ∧ cap_groups max_clusters rounds merged ≠ []
      ∧ sorted GitCommit.date (cap_groups max_clusters rounds merged) = sorted GitCommit.date merged := by
  induction rounds generalizing merged with
  | zero => exact ⟨h, hne, rfl⟩
  | succ rounds ih =>
      rw [cap_groups]
      split
      · next hmore =>
          have htwo : 1 < merged.length := by omega
          obtain ⟨pre, g, g', post, m, rfl, hm, hround⟩ := merge_smallest_eq htwo
          obtain ⟨hmerged, hsorted⟩ := h.merge hm
          rw [hround]
          obtain ⟨hapart, hne', hsorted'⟩ := ih hmerged (by simp)
          exact ⟨hapart, hne', hsorted'.trans hsorted⟩
      · exact ⟨h, hne, rfl⟩

end Invariant

/-! ## The whole function -/

section Clusters

variable {commits : List GitCommit} {time_window_hours : ℚ}

theorem overlapping_groups_apart (hwindow : 0 ≤ time_window_hours) (hne : commits ≠ []) :
    Apart GitCommit.date (overlapping_groups commits time_window_hours)
      ∧ overlapping_groups commits time_window_hours ≠ []
      ∧ (overlapping_groups commits time_window_hours).flatten = by_date commits := by
  have hsorted : (by_date commits).Pairwise fun a b => a.date ≤ b.date := by_key_sorted commits
  have hperm : (by_date commits).Perm commits := by_key_perm commits
  unfold overlapping_groups
  split
  · next hnil =>
      rw [hnil] at hperm
      exact absurd hperm.symm.eq_nil hne
  · next first rest hcons =>
      rw [hcons] at hsorted ⊢
      have hone : Apart GitCommit.date [[first]] := ⟨by simp, List.pairwise_singleton _ _⟩
      obtain ⟨htime, htime_ne, htime_flat⟩ :=
        time_groups_apart hwindow rest hone (by simp) (by simpa using hsorted)
      rcases hgroups : rest.foldl (time_step time_window_hours) [[first]] with _ | ⟨g, others⟩
      · exact absurd hgroups htime_ne
      · rw [hgroups] at htime htime_flat
        have hgroup : Apart GitCommit.date ([g] ++ others) := htime
        obtain ⟨hapart, hne', hflat⟩ := overlap_groups_apart others hgroup (by simp)
        refine ⟨hapart, hne', hflat.trans ?_⟩
        rw [List.singleton_append, htime_flat]
        rfl

/-- **`cluster_commits` partitions the history into ordered runs.** The clusters laid end to end are
the input, stably sorted by date; there are between one and `max(1, max_clusters)` of them, none
empty; and the loop of the cap ends for its condition, however many rounds it is given. -/
theorem cluster_commits_partitions (commits : List GitCommit) (max_clusters : ℤ) (time_window_hours : ℚ)
    (hwindow : 0 ≤ time_window_hours) :
    (cluster_commits commits max_clusters time_window_hours).flatMap (·.commits) = by_date commits
      ∧ (∀ cluster ∈ cluster_commits commits max_clusters time_window_hours, cluster.commits ≠ [])
      ∧ (commits ≠ [] → 1 ≤ (cluster_commits commits max_clusters time_window_hours).length)
      ∧ ((cluster_commits commits max_clusters time_window_hours).length : ℤ) ≤ max 1 max_clusters
      ∧ ∀ rounds, (overlapping_groups commits time_window_hours).length ≤ rounds →
        cluster_commits commits max_clusters time_window_hours
          = (cap_groups (max 1 max_clusters).toNat rounds
              (overlapping_groups commits time_window_hours)).map fun group => ⟨by_date group⟩ := by
  have hcap : 1 ≤ (max 1 max_clusters).toNat := by omega
  obtain ⟨hlength, -⟩ := cap_groups_ends hcap (Nat.le_refl (overlapping_groups commits time_window_hours).length)
  have hrounds : ∀ rounds, (overlapping_groups commits time_window_hours).length ≤ rounds →
      cluster_commits commits max_clusters time_window_hours
        = (cap_groups (max 1 max_clusters).toNat rounds
            (overlapping_groups commits time_window_hours)).map fun group => ⟨by_date group⟩ := by
    intro rounds hle
    rw [cluster_commits_eq, (cap_groups_ends hcap hle).2]
  have hbound : ((cluster_commits commits max_clusters time_window_hours).length : ℤ) ≤ max 1 max_clusters := by
    rw [cluster_commits_eq, List.length_map]
    omega
  -- no commit makes one empty group, and the empty group is dropped
  by_cases hne : commits = []
  · subst hne
    have hnil : cluster_commits [] max_clusters time_window_hours = [] := by
      simp [cluster_commits, by_date]
    refine ⟨?_, ?_, fun h => absurd rfl h, hbound, hrounds⟩
    · rw [hnil]
      simp [by_date]
    · rw [hnil]
      exact nofun
  -- the groups are apart in time, and merging neighbours keeps them so
  obtain ⟨hapart, hne', hflat⟩ := overlapping_groups_apart hwindow hne
  obtain ⟨hcapped, hcapped_ne, hsorted⟩ := cap_groups_apart hcap
    (overlapping_groups commits time_window_hours).length hapart hne'
  refine ⟨?_, ?_, ?_, hbound, hrounds⟩
  · rw [cluster_commits_eq, List.flatMap_map]
    refine hsorted.trans ((sorted_eq_flatten ?_).trans hflat)
    rw [hflat]
    exact by_key_sorted commits
  · intro cluster hin
    rw [cluster_commits_eq] at hin
    obtain ⟨group, hgroup, rfl⟩ := List.mem_map.mp hin
    intro hnil
    refine hcapped.filled group hgroup ?_
    have hperm : (by_date group).Perm group := by_key_perm group
    rw [show by_date group = [] from hnil] at hperm
    exact hperm.symm.eq_nil
  · intro _
    rw [cluster_commits_eq, List.length_map]
    exact List.length_pos_of_ne_nil hcapped_ne

/-- Two commits, the newer one first; a cap of nothing is a cap of one. -/
theorem cluster_commits_partitions_two :
    let commits : List GitCommit := [{ hash := "b", author := "", date := 2, subject := "" },
      { hash := "a", author := "", date := 1, subject := "" }]
    (cluster_commits commits 0 72).flatMap (·.commits) = by_date commits
      ∧ (cluster_commits commits 0 72).length = 1 := by
  intro commits
  obtain ⟨hconcat, -, hsome, hcap, -⟩ := cluster_commits_partitions commits 0 72 (by decide)
  have hone := hsome (by simp [commits])
  refine ⟨hconcat, ?_⟩
  omega

end Clusters

end OpenChronicle
