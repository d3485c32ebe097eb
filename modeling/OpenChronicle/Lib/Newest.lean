/-
The newest, by count and by day.

A cut of the newest keeps a burst and loses what is older; one element for each day keeps the days
and loses the burst. `kept` is the union of the two for the same number. What it keeps is said by how
many elements and how many days are newer (`mem_kept`), so it does not depend on how the lists are
computed. Choosing again from what was kept loses nothing, in whatever order it is listed then
(`Kept.again`): a tie of the cut is decided once.
-/
import Mathlib.Data.List.Dedup
import Mathlib.Data.List.Perm.Subperm
import OpenChronicle.Lib.Ranking

set_option autoImplicit false

namespace Ranking

variable {α T D : Type} [LinearOrder T] [LinearOrder D] [DecidableEq α]

/-! ## Two ways to choose -/

/-- The first element of each of the `k` latest days of a list. -/
def newest_per_day (day : α → D) (k : ℕ) (l : List α) : List α :=
  ((sortDesc id (l.map day).dedup).take k).filterMap fun d => l.find? fun a => day a = d

/-- The `k` newest, and the newest of each of the `k` latest days. -/
def kept (time : α → T) (day : α → D) (k : ℕ) (l : List α) : List α :=
  (sortDesc time l).take k ++ newest_per_day day k (sortDesc time l)

/-- Fewer than `k` elements are newer, or as new and earlier in the list. -/
def AmongNewest (time : α → T) (k : ℕ) (l : List α) (a : α) : Prop :=
  a ∈ l ∧ (l.countP fun b => Beats time l b a) < k

/-- No element of its day is newer, and fewer than `k` days are later. -/
def NewestOfDay (time : α → T) (day : α → D) (k : ℕ) (l : List α) (a : α) : Prop :=
  a ∈ l ∧ (∀ b ∈ l, day b = day a → ¬ Beats time l b a) ∧ ((l.map day).dedup.countP fun d => day a < d) < k

def Kept (time : α → T) (day : α → D) (k : ℕ) (l : List α) (a : α) : Prop :=
  AmongNewest time k l a ∨ NewestOfDay time day k l a

variable {time : α → T} {day : α → D} {k : ℕ} {l : List α} {a : α}

theorem Kept.mem (h : Kept time day k l a) : a ∈ l := by
  rcases h with h | h
  · exact h.1
  · exact h.1

/-- A larger window keeps more. -/
theorem Kept.mono {k' : ℕ} (hk : k ≤ k') (h : Kept time day k l a) : Kept time day k' l a := by
  rcases h with ⟨hmem, hlt⟩ | ⟨hmem, hfirst, hlt⟩
  · exact .inl ⟨hmem, by omega⟩
  · exact .inr ⟨hmem, hfirst, by omega⟩

/-- Only the times and days of the list matter. -/
theorem Kept.congr {time' : α → T} {day' : α → D} (htime : ∀ b ∈ l, time b = time' b)
    (hday : ∀ b ∈ l, day b = day' b) (h : Kept time day k l a) : Kept time' day' k l a := by
  have hbeats : ∀ b ∈ l, ∀ c ∈ l, Beats time l b c ↔ Beats time' l b c := by
    intro b hb c hc
    rw [Beats, Beats, htime b hb, htime c hc]
  rcases h with ⟨hmem, hlt⟩ | ⟨hmem, hfirst, hlt⟩
  · refine .inl ⟨hmem, ?_⟩
    have hcount : (l.countP fun b => Beats time l b a) = l.countP fun b => Beats time' l b a := by
      apply List.countP_congr
      intro b hb
      simp only [decide_eq_true_iff]
      exact hbeats b hb a hmem
    rw [← hcount]
    exact hlt
  · refine .inr ⟨hmem, ?_, ?_⟩
    · intro b hb hsame
      rw [← hbeats b hb a hmem]
      rw [← hday b hb, ← hday a hmem] at hsame
      exact hfirst b hb hsame
    · rw [← List.map_congr_left hday, ← hday a hmem]
      exact hlt

/-! ## What is chosen -/

/-- Of two elements one beats the other. -/
theorem eq_of_not_beats {b : α} (ha : a ∈ l) (hab : ¬ Beats time l a b) (hba : ¬ Beats time l b a) : a = b := by
  rcases lt_trichotomy (time a) (time b) with hlt | heq | hlt
  · exact absurd (.inl hlt) hba
  · rcases lt_trichotomy (l.idxOf a) (l.idxOf b) with hidx | hidx | hidx
    · exact absurd (.inr ⟨heq, hidx⟩) hab
    · exact (List.idxOf_inj ha).mp hidx
    · exact absurd (.inr ⟨heq.symm, hidx⟩) hba
  · exact absurd (.inl hlt) hab

theorem mem_take_sortDesc (hn : l.Nodup) : a ∈ (sortDesc time l).take k ↔ AmongNewest time k l a := by
  constructor
  · intro hmem
    obtain ⟨i, hi⟩ := List.mem_iff_getElem?.mp hmem
    have hik : i < k := by
      have hlt := (List.getElem?_eq_some_iff.mp hi).1
      rw [List.length_take] at hlt
      omega
    rw [List.getElem?_take_of_lt hik] at hi
    refine ⟨mem_sortDesc.mp (List.mem_of_mem_take hmem), ?_⟩
    rw [countP_of_getElem?_sortDesc hn hi]
    exact hik
  · rintro ⟨hmem, hlt⟩
    have hplace : (sortDesc time l)[l.countP fun y => Beats time l y a]? = some a :=
      getElem?_sortDesc hn hmem
    rw [← List.getElem?_take_of_lt hlt] at hplace
    exact List.mem_of_getElem? hplace

/-- The first of the elements with a property is the one that none of them beats. -/
theorem find?_sortDesc (hn : l.Nodup) (p : α → Bool) :
    (sortDesc time l).find? p = some a ↔ a ∈ l ∧ p a ∧ ∀ b ∈ l, p b → ¬ Beats time l b a := by
  have hsorted : (sortDesc time l).Pairwise (Beats time l) := sortDesc_beats hn
  have hunbeaten : ∀ c, (sortDesc time l).find? p = some c →
      c ∈ l ∧ p c ∧ ∀ b ∈ l, p b → ¬ Beats time l b c := by
    intro c hc
    obtain ⟨hp, before, after, hcut, hbefore⟩ := List.find?_eq_some_iff_append.mp hc
    rw [hcut] at hsorted
    obtain ⟨-, hafter, -⟩ := List.pairwise_append.mp hsorted
    refine ⟨mem_sortDesc.mp (by rw [hcut]; simp), hp, ?_⟩
    intro b hb hpb hbeats
    have hmem : b ∈ before ++ c :: after := hcut ▸ mem_sortDesc.mpr hb
    rcases List.mem_append.mp hmem with hin | hin
    · have := hbefore b hin
      simp [hpb] at this
    · rcases List.mem_cons.mp hin with rfl | hin
      · exact hbeats.asymm hbeats
      · exact hbeats.asymm ((List.pairwise_cons.mp hafter).1 b hin)
  refine ⟨hunbeaten a, ?_⟩
  rintro ⟨hmem, hp, hfirst⟩
  rcases hfind : (sortDesc time l).find? p with _ | c
  · have := List.find?_eq_none.mp hfind a (mem_sortDesc.mpr hmem)
    exact absurd hp this
  · obtain ⟨hcmem, hpc, hcfirst⟩ := hunbeaten c hfind
    rw [eq_of_not_beats hcmem (hfirst c hcmem hpc) (hcfirst a hmem hp)]

omit [DecidableEq α] in
/-- The latest days. -/
theorem mem_latest {ds : List D} {d : D} :
    d ∈ (sortDesc id ds.dedup).take k ↔ d ∈ ds ∧ (ds.dedup.countP fun e => d < e) < k := by
  have hbeats : ∀ e, Beats id ds.dedup e d ↔ d < e := by
    intro e
    constructor
    · rintro (hlt | ⟨heq, hlt⟩)
      · exact hlt
      · exact absurd (congrArg (ds.dedup.idxOf ·) heq) hlt.ne
    · exact .inl
  rw [mem_take_sortDesc (List.nodup_dedup ds), AmongNewest, List.mem_dedup]
  simp only [hbeats]

theorem mem_newest_per_day (hn : l.Nodup) :
    a ∈ newest_per_day day k (sortDesc time l) ↔ NewestOfDay time day k l a := by
  have hdays : ((sortDesc time l).map day).dedup.Perm (l.map day).dedup :=
    ((sortDesc_perm time l).map day).dedup
  rw [newest_per_day, List.mem_filterMap]
  constructor
  · rintro ⟨d, hd, hfind⟩
    obtain ⟨hmem, hday, hfirst⟩ := (find?_sortDesc hn _).mp hfind
    obtain rfl : day a = d := of_decide_eq_true hday
    refine ⟨hmem, fun b hb hday => hfirst b hb (decide_eq_true hday), ?_⟩
    rw [← hdays.countP_eq]
    exact (mem_latest.mp hd).2
  · rintro ⟨hmem, hfirst, hlt⟩
    rw [← hdays.countP_eq] at hlt
    refine ⟨day a, mem_latest.mpr ⟨List.mem_map_of_mem (mem_sortDesc.mpr hmem), hlt⟩, ?_⟩
    refine (find?_sortDesc hn _).mpr ⟨hmem, decide_eq_true rfl, ?_⟩
    intro b hb hday
    exact hfirst b hb (of_decide_eq_true hday)

/-- **What is kept.** -/
theorem mem_kept (hn : l.Nodup) : a ∈ kept time day k l ↔ Kept time day k l a := by
  rw [kept, List.mem_append, mem_take_sortDesc hn, mem_newest_per_day hn, Kept]

omit [LinearOrder T] [DecidableEq α] in
theorem newest_per_day_map {β : Type} (f : β → α) (k : ℕ) (l : List β) :
    newest_per_day day k (l.map f) = (newest_per_day (fun b => day (f b)) k l).map f := by
  rw [newest_per_day, newest_per_day, List.map_filterMap, List.map_map]
  apply List.filterMap_congr
  intro d _
  rw [List.find?_map]
  rfl

/-! ## How many are kept -/

omit [DecidableEq α] in
theorem length_newest_per_day (day : α → D) (k : ℕ) (l : List α) : (newest_per_day day k l).length ≤ k :=
  (List.length_filterMap_le _ _).trans (List.length_take_le k _)

omit [DecidableEq α] in
theorem length_kept (k : ℕ) (l : List α) : (kept time day k l).length ≤ 2 * k := by
  have hcount : ((sortDesc time l).take k).length ≤ k := List.length_take_le k _
  have hdays := length_newest_per_day day k (sortDesc time l)
  rw [kept, List.length_append]
  omega

/-- At most `2 * k` are kept. -/
theorem card_kept (hn : l.Nodup) {m : List α} (hm : m.Nodup) (h : ∀ a ∈ m, Kept time day k l a) :
    m.length ≤ 2 * k :=
  (hm.subperm fun a ha => (mem_kept hn).mpr (h a ha)).length_le.trans (length_kept k l)

/-- One of them is chosen both ways, where later days have later times. -/
theorem card_kept_lt (hn : l.Nodup) (hday : ∀ a ∈ l, ∀ b ∈ l, time a ≤ time b → day a ≤ day b) {m : List α}
    (hm : m.Nodup) (h : ∀ a ∈ m, Kept time day k l a) : m.length ≤ 2 * k - 1 := by
  rcases hsort : sortDesc time l with _ | ⟨newest, older⟩
  · have hempty : m = [] := by
      refine List.eq_nil_iff_forall_not_mem.mpr fun a ha => ?_
      have hin : a ∈ sortDesc time l := mem_sortDesc.mpr (h a ha).mem
      rw [hsort] at hin
      cases hin
    rw [hempty]
    exact Nat.zero_le _
  · -- the newest snapshot is in both keep sets, so it is counted once
    have hmem : newest ∈ l := mem_sortDesc.mp (hsort ▸ List.mem_cons_self)
    have hplace : (l.countP fun y => Beats time l y newest) = 0 :=
      countP_of_getElem?_sortDesc hn (by rw [hsort]; rfl)
    have hunbeaten := List.countP_eq_zero.mp hplace
    have hlatest : ∀ b ∈ l, day b ≤ day newest := by
      intro b hb
      refine hday b hb newest hmem (not_lt.mp fun hlt => hunbeaten b hb ?_)
      exact decide_eq_true (.inl hlt)
    by_cases hk : k = 0
    · have := card_kept hn hm h
      omega
    · have hboth : newest ∈ newest_per_day day k (sortDesc time l) := by
        refine (mem_newest_per_day hn).mpr ⟨hmem, fun b hb _ hbeats => hunbeaten b hb (decide_eq_true hbeats), ?_⟩
        rw [List.countP_eq_zero.mpr]
        · omega
        · intro d hd
          obtain ⟨b, hb, rfl⟩ := List.mem_map.mp (List.mem_dedup.mp hd)
          simpa using hlatest b hb
      have hcut : newest ∈ (sortDesc time l).take k := by
        refine (mem_take_sortDesc hn).mpr ⟨hmem, ?_⟩
        rw [hplace]
        omega
      -- what is kept is in the first set, or in the second without the newest
      have hsub : m ⊆ (sortDesc time l).take k ++ (newest_per_day day k (sortDesc time l)).erase newest := by
        intro a ha
        by_cases heq : a = newest
        · rw [heq]
          exact List.mem_append_left _ hcut
        · have hin := (mem_kept hn).mpr (h a ha)
          rcases List.mem_append.mp hin with hin | hin
          · exact List.mem_append_left _ hin
          · exact List.mem_append_right _ ((List.mem_erase_of_ne heq).mpr hin)
      have hlen := (hm.subperm hsub).length_le
      have hcount : ((sortDesc time l).take k).length ≤ k := List.length_take_le k _
      have hdays := length_newest_per_day day k (sortDesc time l)
      rw [List.length_append, List.length_erase_of_mem hboth] at hlen
      omega

/-- Fewer are kept only if there are fewer. -/
theorem le_card_kept (hn : l.Nodup) {m : List α} (h : ∀ a, Kept time day k l a → a ∈ m) :
    min k l.length ≤ m.length := by
  have hcut : ((sortDesc time l).take k).Nodup :=
    ((sortDesc_perm time l).nodup_iff.mpr hn).sublist (List.take_sublist _ _)
  have hsub : (sortDesc time l).take k ⊆ m := fun a ha => h a (.inl ((mem_take_sortDesc hn).mp ha))
  have hlen := (hcut.subperm hsub).length_le
  rw [List.length_take, length_sortDesc] at hlen
  exact hlen

/-! ## Another clock -/

/-- Without ties it does not matter how the times are given, nor how the list is ordered. -/
theorem Kept.transfer {β T' : Type} [LinearOrder T'] [DecidableEq β] {f : α → β} {time' : β → T'} {day' : β → D}
    {l' : List β} (hperm : l'.Perm (l.map f)) (hinj : ∀ a ∈ l, ∀ b ∈ l, time a = time b → a = b)
    (htime : ∀ a ∈ l, ∀ b ∈ l, time' (f a) ≤ time' (f b) ↔ time a ≤ time b) (hday : ∀ a ∈ l, day' (f a) = day a)
    (h : Kept time day k l a) : Kept time' day' k l' (f a) := by
  have ha := h.mem
  have hmem : f a ∈ l' := hperm.mem_iff.mpr (List.mem_map_of_mem ha)
  have hbeats : ∀ b ∈ l, Beats time' l' (f b) (f a) → Beats time l b a := by
    rintro b hb (hlt | ⟨heq, hidx⟩)
    · exact .inl (lt_of_not_ge fun hle => not_le.mpr hlt ((htime b hb a ha).mpr hle))
    · -- of the same time, so the same
      have hsame : b = a := hinj b hb a ha (le_antisymm ((htime b hb a ha).mp heq.le) ((htime a ha b hb).mp heq.ge))
      rw [hsame] at hidx
      exact absurd hidx (lt_irrefl _)
  rcases h with ⟨-, hlt⟩ | ⟨-, hfirst, hlt⟩
  · refine .inl ⟨hmem, lt_of_le_of_lt ?_ hlt⟩
    rw [hperm.countP_eq, List.countP_map]
    refine List.countP_mono_left fun b hb hbeaten => ?_
    exact decide_eq_true (hbeats b hb (of_decide_eq_true hbeaten))
  · have hdays : (l'.map day').Perm (l.map day) := by
      have hmap := hperm.map day'
      rw [List.map_map] at hmap
      rw [← List.map_congr_left hday]
      exact hmap
    refine .inr ⟨hmem, ?_, ?_⟩
    · intro b' hb' hsame hbeaten
      obtain ⟨b, hb, rfl⟩ := List.mem_map.mp (hperm.mem_iff.mp hb')
      rw [hday b hb, hday a ha] at hsame
      exact hfirst b hb hsame (hbeats b hb hbeaten)
    · rw [hday a ha, hdays.dedup.countP_eq]
      exact hlt

/-! ## Choosing again -/

/-- An element that is kept for its day alone is older than each of the cut. -/
theorem NewestOfDay.older (hn : l.Nodup) (hday : ∀ a b, time a = time b → day a = day b) {b : α}
    (h : NewestOfDay time day k l b) (hcut : ¬ AmongNewest time k l b) (ha : AmongNewest time k l a) :
    time b < time a := by
  have hle : time b ≤ time a :=
    score_le_of_cut ((mem_take_sortDesc hn).mpr ha) h.1 fun hin => hcut ((mem_take_sortDesc hn).mp hin)
  refine lt_of_le_of_ne hle fun heq => ?_
  -- as new as `a`, so of its day, but `a` beats it
  have hidx : l.idxOf a < l.idxOf b := by
    by_contra hnot
    have hlt : l.idxOf b < l.idxOf a := by
      refine lt_of_le_of_ne (not_lt.mp hnot) fun he => hcut ?_
      rw [(List.idxOf_inj h.1).mp he]
      exact ha
    refine hcut ⟨h.1, lt_of_le_of_lt ?_ ha.2⟩
    refine List.countP_mono_left fun c _ hc => decide_eq_true ?_
    rcases of_decide_eq_true hc with hc | ⟨hc, hci⟩
    · exact .inl (heq ▸ hc)
    · exact .inr ⟨hc.trans heq, hci.trans hlt⟩
  exact h.2.1 a ha.1 (hday a b heq.symm) (.inr ⟨heq.symm, hidx⟩)

/-- **Choosing again keeps everything.** `m` has what was kept, in any order. -/
theorem Kept.again (hn : l.Nodup) (hday : ∀ a b, time a = time b → day a = day b) {m : List α} (hm : m.Nodup)
    (hkept : ∀ a, a ∈ m ↔ Kept time day k l a) (ha : a ∈ m) : Kept time day k m a := by
  by_cases hcut : AmongNewest time k l a
  · -- all that beats it was in the cut
    refine .inl ⟨ha, ?_⟩
    rw [List.countP_eq_length_filter]
    have hsub : a :: m.filter (fun b => Beats time m b a) ⊆ (sortDesc time l).take k := by
      intro b hb
      rcases List.mem_cons.mp hb with rfl | hb
      · exact (mem_take_sortDesc hn).mpr hcut
      · obtain ⟨hbm, hbeats⟩ := List.mem_filter.mp hb
        by_contra hnot
        have hnot := mt (mem_take_sortDesc hn).mpr hnot
        have hlt := (((hkept b).mp hbm).resolve_left hnot).older hn hday hnot hcut
        rcases of_decide_eq_true hbeats with hgt | ⟨heq, -⟩
        · exact lt_asymm hlt hgt
        · exact hlt.ne heq
    have hnodup : (a :: m.filter (fun b => Beats time m b a)).Nodup := by
      refine List.nodup_cons.mpr ⟨fun hin => ?_, hm.filter _⟩
      have hself := of_decide_eq_true (List.mem_filter.mp hin).2
      exact Beats.asymm hself hself
    have hlen := (hnodup.subperm hsub).length_le.trans (List.length_take_le k _)
    rw [List.length_cons] at hlen
    omega
  · -- it is the only one of its day
    have hof := ((hkept a).mp ha).resolve_left hcut
    refine .inr ⟨ha, ?_, ?_⟩
    · intro b hb hsame hbeats
      rcases (hkept b).mp hb with hbcut | hbof
      · exact hof.2.1 b hbcut.1 hsame (.inl (hof.older hn hday hcut hbcut))
      · have hab : ¬ Beats time l a b := hbof.2.1 a hof.1 hsame.symm
        have hba : ¬ Beats time l b a := hof.2.1 b hbof.1 hsame
        rw [eq_of_not_beats hbof.1 hba hab] at hbeats
        exact hbeats.asymm hbeats
    · refine lt_of_le_of_lt ?_ hof.2.2
      have hsub : (m.map day).dedup.Subperm (l.map day).dedup := by
        refine (List.nodup_dedup _).subperm fun d hd => ?_
        obtain ⟨b, hb, rfl⟩ := List.mem_map.mp (List.mem_dedup.mp hd)
        exact List.mem_dedup.mpr (List.mem_map_of_mem ((hkept b).mp hb).mem)
      exact hsub.countP_le _

end Ranking
