/-
Which snapshots go offsite (`_published_snapshots`, `_select_for_push`).

The selection is written apart from retention's: it orders by the stamp in the file's name, oldest
first, where retention orders by modification time, newest first. With the same times both choose by the
same rule, the offsite window being the smaller one, so what is selected is never about to be deleted.

Both are instances of one rule of the ranking library, with another key, another day and another count.
The selection is brought to it by two remarks: reversing a list that is sorted oldest first sorts it
newest first (`reverse_eq`), and taking from the end is taking from the front of the reversed list.
Since the stamps of the list are distinct, there are no ties here, and the order of the directory plays
no part.

`SafeWindow` says what an offsite selection is for, in terms of the snapshots only. Its last field is
the one that speaks of the other function: it runs retention on a directory of these snapshots and asks
that what was selected is still there.
-/
import Mathlib.Data.Prod.Lex
import Mathlib.Data.String.Basic
import OpenChronicle.Backup.Retention
import OpenChronicle.Lib.Delimited

set_option autoImplicit false

namespace OpenChronicle.Backup

open Program Prog Calendar

/-! ## The selection -/

/-- `_BACKUP_RETENTION`. -/
def BACKUP_RETENTION : ℕ := 7

/-- `_CLOUD_WINDOW`. -/
def CLOUD_WINDOW : ℕ := 3

/-- `path.name` of a database. -/
def file_name : Stem → String
  | .catalog name => "openchronicle-" ++ name ++ ".db"
  | .other text => text ++ ".db"

section Stamps

-- `datetime.strptime(_, _STAMP_FORMAT)`; `none` is its `ValueError`
variable (strptime : String → Option DateTime)

/-- `_snapshot_stamp`. -/
def snapshot_stamp (s : Stem) : Option DateTime :=
  let name := match s with
    | .catalog name => name
    | .other text => text
  strptime (String.ofList ((PyStr.split_max ['-'] 1 name.toList).headD []))

/-- The loop of `_published_snapshots`. -/
def stamped (k : Kind) : List Stem → Catalog (List (DateTime × Stem))
  | [] => pure []
  | s :: rest =>
      match snapshot_stamp strptime s with
      | none => stamped k rest
      | some stamp => do
          let node ← act (.look (.file k s .manifest))
          let others ← stamped k rest
          pure (if s.has_suffix && is_file node then (stamp, s) :: others else others)

end Stamps

/-- What `sorted` compares: the stamp, then the path. -/
def sort_key (x : DateTime × Stem) : ℕ ×ₗ String := toLex (x.1.micros, file_name x.2)

/-- `sorted(found)`. -/
def sorted (found : List (DateTime × Stem)) : List (DateTime × Stem) :=
  found.mergeSort fun a b => decide (sort_key a ≤ sort_key b)

/-- `_published_snapshots`. -/
def published_snapshots (strptime : String → Option DateTime) (k : Kind) : Catalog (List (DateTime × Stem)) := do
  let stems : List Stem ← act (.glob k .db)
  let found ← stamped strptime k stems
  pure (sorted found)

/-- `_select_for_push`. -/
def select_for_push (published : List (DateTime × Stem)) : List Stem :=
  let newest := published.drop (published.length - CLOUD_WINDOW)
  let per_day := Ranking.newest_per_day (fun x => x.1.day_text) CLOUD_WINDOW published.reverse
  let chosen := (newest ++ per_day).map Prod.snd
  (published.map Prod.snd).filter (· ∈ chosen)

/-! ## The list it is given -/

section Sorted

variable {found : List (DateTime × Stem)}

/-- Sorting neither drops nor repeats a snapshot. -/
theorem sorted_perm (found : List (DateTime × Stem)) : (sorted found).Perm found := List.mergeSort_perm _ _

/-- Oldest first. -/
theorem sorted_pairwise (h : (found.map Prod.fst).Nodup) :
    (sorted found).Pairwise fun a b => a.1.micros < b.1.micros := by
  have hsorted : (sorted found).Pairwise fun a b => sort_key a ≤ sort_key b := by
    refine (List.pairwise_mergeSort ?_ ?_ found).imp fun h => of_decide_eq_true h
    · intro a b c hab hbc
      exact decide_eq_true (le_trans (of_decide_eq_true hab) (of_decide_eq_true hbc))
    · intro a b
      rcases le_total (sort_key a) (sort_key b) with hle | hle
      · simp [hle]
      · simp [hle]
  have hdistinct : (sorted found).Pairwise fun a b => a.1 ≠ b.1 := by
    rw [← List.pairwise_map (f := Prod.fst) (R := (· ≠ ·))]
    exact ((sorted_perm found).map Prod.fst).nodup_iff.mpr h
  refine (hsorted.and hdistinct).imp ?_
  rintro a b ⟨hle, hne⟩
  rcases Prod.Lex.le_iff.mp hle with hlt | ⟨heq, -⟩
  · exact hlt
  · exact absurd (DateTime.micros_inj heq) hne

/-- `_published_snapshots`, when no step fails: the published snapshots with a stamp. -/
theorem published_snapshots_ends (strptime : String → Option DateTime) (env : Env) {w : World} (k : Kind)
    (hzero : w.faults = 0) (choices : ℕ → Choice) :
    ∃ n, (published_snapshots strptime k).run_until (exec env) ((List.range n).map choices) w
      = (some (.ok (sorted ((listing w k (choices 0)).filterMap fun s =>
          (snapshot_stamp strptime s).map fun stamp => (stamp, s)))), w) := by
  have hstamped : ∀ stems, (stamped strptime k stems).wp (exec env) (fun _ => True)
      (fun r w' => r = .ok ((stems.filter (is_published w k)).filterMap fun s =>
          (snapshot_stamp strptime s).map fun stamp => (stamp, s)) ∧ w' = w) w := by
    intro stems
    induction stems with
    | nil => exact ⟨rfl, rfl⟩
    | cons s rest ih =>
        rw [stamped]
        -- a stem without a stamp is skipped before the disk is asked
        rcases hstamp : snapshot_stamp strptime s with _ | stamp
        · refine wp_mono ih (fun _ h => h) ?_
          rintro _ _ ⟨rfl, rfl⟩
          refine ⟨?_, rfl⟩
          rw [List.filter_cons]
          split
          · rw [List.filterMap_cons_none (by rw [hstamp]; rfl)]
          · rfl
        · refine wp_bind.mpr (wp_op.mpr ⟨trivial, fun c => ?_⟩)
          rw [exec_quiet hzero]
          refine wp_bind.mpr (wp_mono ih (fun _ h => h) ?_)
          rintro _ w' ⟨rfl, rfl⟩
          refine ⟨congrArg Except.ok ?_, rfl⟩
          rw [List.filter_cons]
          show (if is_published w' k s then _ else _) = _
          split
          · rw [List.filterMap_cons_some (by rw [hstamp]; rfl)]
          · rfl
  have hrest : ((stamped strptime k ((choices 0).order.apply (databases w k))).bind fun found =>
      (Prog.ret (sorted found) : Catalog _)).wp (exec env) (fun _ => True)
      (fun r w' => r = .ok (sorted ((listing w k (choices 0)).filterMap fun s =>
          (snapshot_stamp strptime s).map fun stamp => (stamp, s))) ∧ w' = w) w := by
    refine wp_bind.mpr (wp_mono (hstamped _) (fun _ h => h) ?_)
    rintro _ _ ⟨rfl, rfl⟩
    exact ⟨rfl, rfl⟩
  -- the listing is the first call, and the choice for it decides the order
  obtain ⟨n, r, w', hrun, hr, hw⟩ := wp_ends hrest fun i => choices (i + 1)
  refine ⟨n + 1, ?_⟩
  rw [hr, hw] at hrun
  rw [map_range_succ, ← hrun, published_snapshots]
  show (_ : Catalog _).run_until (exec env) _ (exec env (.glob k .db) (choices 0) w).2 = _
  rw [exec_quiet hzero]
  rfl

end Sorted

/-! ## The window -/

section Window

/-- What orders the snapshots, and their days, as the ranking library asks for them. -/
abbrev stamp_micros (x : DateTime × Stem) : ℕ := x.1.micros

abbrev stamp_day (x : DateTime × Stem) : List Char := x.1.day_text

variable {published : List (DateTime × Stem)} (h : published.Pairwise fun a b => a.1.micros < b.1.micros)

include h

/-- Distinct stamps: a snapshot is known by its time. -/
theorem eq_of_micros {a b : DateTime × Stem} (ha : a ∈ published) (hb : b ∈ published)
    (heq : a.1.micros = b.1.micros) : a = b := by
  have hforall := List.Pairwise.forall_of_forall_of_flip (R := fun a b => a.1.micros = b.1.micros → a = b)
    (fun _ _ _ => rfl) (h.imp fun hlt heq => absurd heq hlt.ne) (h.imp fun hlt heq => absurd heq hlt.ne')
  exact hforall ha hb heq

theorem reverse_eq : published.reverse = Ranking.sortDesc stamp_micros published := by
  have hperm := (List.reverse_perm published).trans (Ranking.sortDesc_perm stamp_micros published).symm
  have hreverse : published.reverse.Pairwise fun a b => b.1.micros ≤ a.1.micros :=
    List.pairwise_reverse.mpr (h.imp le_of_lt)
  refine hperm.eq_of_pairwise (fun a b ha hb hab hba => ?_) hreverse (Ranking.sortDesc_pairwise _ _)
  exact eq_of_micros h (List.mem_reverse.mp ha) (Ranking.mem_sortDesc.mp hb) (le_antisymm hba hab)

/-- A list without equal stamps has no snapshot twice. -/
theorem nodup_of_ordered : published.Nodup := h.imp fun hlt heq => absurd hlt (by rw [heq]; exact lt_irrefl _)

/-- The selection is what the general rule keeps, oldest first. -/
theorem select_eq (hpaths : (published.map Prod.snd).Nodup) : select_for_push published
    = (published.filter fun x => x ∈ Ranking.kept stamp_micros stamp_day CLOUD_WINDOW published).map Prod.snd := by
  have hnewest : ∀ x, x ∈ published.drop (published.length - CLOUD_WINDOW)
      ↔ x ∈ (Ranking.sortDesc stamp_micros published).take CLOUD_WINDOW := by
    intro x
    rw [← reverse_eq h, List.take_reverse, List.mem_reverse]
  have hmem : ∀ x, x ∈ published.drop (published.length - CLOUD_WINDOW)
        ++ Ranking.newest_per_day stamp_day CLOUD_WINDOW published.reverse
      ↔ x ∈ Ranking.kept stamp_micros stamp_day CLOUD_WINDOW published := by
    intro x
    rw [Ranking.kept, List.mem_append, List.mem_append, hnewest, reverse_eq h]
  rw [select_for_push, List.filter_map]
  congr 1
  apply List.filter_congr
  intro x hx
  rw [Function.comp_apply, decide_eq_decide, ← hmem, List.mem_map]
  constructor
  · rintro ⟨y, hy, hsame⟩
    have hin : y ∈ published :=
      ((Ranking.mem_kept (nodup_of_ordered h)).mp ((hmem y).mp hy)).mem
    rw [← List.inj_on_of_nodup_map hpaths hin hx hsame]
    exact hy
  · exact fun hin => ⟨x, hin, rfl⟩

/-- The rule, for one file: it is among the newest, or the newest of a late day. -/
theorem mem_select (hpaths : (published.map Prod.snd).Nodup) {s : Stem} : s ∈ select_for_push published
    ↔ ∃ x ∈ published, Ranking.Kept stamp_micros stamp_day CLOUD_WINDOW published x ∧ x.2 = s := by
  rw [select_eq h hpaths, List.mem_map]
  constructor
  · rintro ⟨x, hx, rfl⟩
    obtain ⟨hin, hkept⟩ := List.mem_filter.mp hx
    exact ⟨x, hin, (Ranking.mem_kept (nodup_of_ordered h)).mp (of_decide_eq_true hkept), rfl⟩
  · rintro ⟨x, hin, hkept, rfl⟩
    exact ⟨x, List.mem_filter.mpr ⟨hin, decide_eq_true ((Ranking.mem_kept (nodup_of_ordered h)).mpr hkept)⟩, rfl⟩

/-- The last is beaten by none. -/
theorem kept_last {x : DateTime × Stem} (hx : published.getLast? = some x) :
    Ranking.Kept stamp_micros stamp_day CLOUD_WINDOW published x := by
  obtain ⟨older, rfl⟩ := List.getLast?_eq_some_iff.mp hx
  refine .inl ⟨List.mem_append_right _ List.mem_cons_self, ?_⟩
  rw [List.countP_eq_zero.mpr]
  · decide
  · intro y hy hbeats
    have hle : y.1.micros ≤ x.1.micros := by
      rcases List.mem_append.mp hy with hin | hin
      · exact ((List.pairwise_append.mp h).2.2 y hin x List.mem_cons_self).le
      · rw [List.mem_singleton.mp hin]
    rcases of_decide_eq_true hbeats with hlt | ⟨heq, hidx⟩
    · exact absurd hle (not_le.mpr hlt)
    · rw [eq_of_micros h hy (List.mem_append_right _ List.mem_cons_self) heq] at hidx
      exact absurd hidx (lt_irrefl _)

end Window

/-! ## The window is safe -/

/-- What an offsite selection has to be. -/
structure SafeWindow (published : List (DateTime × Stem)) (selected : List Stem) : Prop where
  oldest_first : selected.Sublist (published.map Prod.snd)
  nodup : selected.Nodup
  newest : ∀ x ∈ published, (published.countP fun y => x.1.micros < y.1.micros) < 3 → x.2 ∈ selected
  newest_of_day : ∀ x ∈ published, (∀ y ∈ published, y.1.day_text = x.1.day_text → y.1.micros ≤ x.1.micros) →
    ((published.map (·.1.day_text)).dedup.countP fun d => x.1.day_text < d) < 3 → x.2 ∈ selected
  at_most : selected.length ≤ 5
  at_least : min 3 published.length ≤ selected.length
  last : ∀ x, published.getLast? = some x → selected.getLast? = some x.2
  /-- Of a directory of these snapshots, changed when their names say, retention deletes none of them. -/
  retained : ∀ env k w, Registered w → w.faults = 0 → (∀ s, Snapshot w k s ↔ s ∈ published.map Prod.snd) →
    (∀ x ∈ published, mtime w k x.2 = x.1.timestamp) → ∀ choices : ℕ → Choice, ∃ n w',
      (retention_prune k BACKUP_RETENTION).run_until (exec env) ((List.range n).map choices) w = (some (.ok ()), w')
        ∧ ∀ s ∈ selected, Snapshot w' k s

/-- Retention keeps what is selected: its own window is wider. -/
theorem selected_retained {published : List (DateTime × Stem)}
    (h : published.Pairwise fun a b => a.1.micros < b.1.micros)
    (hpaths : (published.map Prod.snd).Nodup) (env : Env) {k : Kind} {w : World} (hw : Registered w)
    (hzero : w.faults = 0) (hsnapshots : ∀ s, Snapshot w k s ↔ s ∈ published.map Prod.snd)
    (hmtimes : ∀ x ∈ published, mtime w k x.2 = x.1.timestamp) (choices : ℕ → Choice) :
    ∃ n w', (retention_prune k BACKUP_RETENTION).run_until (exec env) ((List.range n).map choices) w
        = (some (.ok ()), w')
      ∧ ∀ s ∈ select_for_push published, Snapshot w' k s := by
  have hday : ∀ x ∈ published, day (mtime w k x.2) = some x.1.day_text := by
    intro x hx
    rw [hmtimes x hx, day, DateTime.fromtimestamp_timestamp]
    rfl
  have hdated : ∀ s, Snapshot w k s → Dated w k s := by
    intro s hs
    obtain ⟨x, hx, rfl⟩ := List.mem_map.mp ((hsnapshots s).mp hs)
    rw [Dated, hday x hx]
    rfl
  obtain ⟨n, r, w', hrun, hends, -⟩ := retention_ends env hw hzero BACKUP_RETENTION choices (k := k)
  obtain ⟨rfl, hcleared⟩ := hends fun s hs => hdated s ((mem_listing hw _).mp hs)
  refine ⟨n, w', hrun, ?_⟩
  intro s hs
  obtain ⟨x, hx, hk, rfl⟩ := (mem_select h hpaths).mp hs
  refine hcleared.snapshot_iff.mpr ⟨(hsnapshots _).mpr (List.mem_map_of_mem hx), fun hgone => hgone.2 ?_⟩
  -- the listing has the same snapshots, in another order and on another clock
  have hperm : (listing w k (choices 0)).Perm (published.map Prod.snd) := by
    refine (List.perm_ext_iff_of_nodup (nodup_listing hw _) hpaths).mpr fun s => ?_
    rw [mem_listing hw, hsnapshots]
  have hkept' : Ranking.Kept (mtime w k) (utc_day w k) CLOUD_WINDOW (listing w k (choices 0)) x.2 := by
    refine hk.transfer hperm (fun a ha b hb heq => eq_of_micros h ha hb heq) ?_ ?_
    · intro a ha b hb
      rw [hmtimes a ha, hmtimes b hb, DateTime.timestamp_le_iff]
    · intro a ha
      rw [utc_day, hday a ha]
      rfl
  exact hkept'.mono (by decide)

/-- **The offsite selection is a safe window.** -/
theorem select_for_push_safe {found : List (DateTime × Stem)} (hstamps : (found.map Prod.fst).Nodup)
    (hpaths : (found.map Prod.snd).Nodup) :
    (sorted found).Perm found ∧ ((sorted found).Pairwise fun a b => a.1.micros < b.1.micros)
      ∧ SafeWindow (sorted found) (select_for_push (sorted found)) := by
  have h := sorted_pairwise hstamps
  have hpaths' : ((sorted found).map Prod.snd).Nodup := ((sorted_perm found).map Prod.snd).nodup_iff.mpr hpaths
  refine ⟨sorted_perm found, h, ?_⟩
  generalize sorted found = published at h hpaths'
  have hn := nodup_of_ordered h
  -- stamps are distinct, so of two snapshots the one with the larger stamp comes first
  have hbeats : ∀ x ∈ published, ∀ y ∈ published,
      Ranking.Beats stamp_micros published y x ↔ x.1.micros < y.1.micros := by
    intro x hx y hy
    refine ⟨?_, .inl⟩
    rintro (hlt | ⟨heq, hidx⟩)
    · exact hlt
    · rw [eq_of_micros h hy hx heq] at hidx
      exact absurd hidx (lt_irrefl _)
  have hselect := select_eq h hpaths'
  have hkept : ∀ x ∈ published, Ranking.Kept stamp_micros stamp_day CLOUD_WINDOW published x →
      x.2 ∈ select_for_push published := fun x hx hk => (mem_select h hpaths').mpr ⟨x, hx, hk, rfl⟩
  -- as many are pushed as are kept
  have hlength : (select_for_push published).length = (published.filter fun x =>
      x ∈ Ranking.kept stamp_micros stamp_day CLOUD_WINDOW published).length := by
    rw [hselect, List.length_map]
  have hmem : ∀ x, x ∈ published.filter (fun x => x ∈ Ranking.kept stamp_micros stamp_day CLOUD_WINDOW published)
      ↔ Ranking.Kept stamp_micros stamp_day CLOUD_WINDOW published x := by
    intro x
    rw [List.mem_filter, decide_eq_true_iff, Ranking.mem_kept hn]
    exact ⟨fun hx => hx.2, fun hx => ⟨hx.mem, hx⟩⟩
  refine ⟨?_, ?_, ?_, ?_, ?_, ?_, ?_, ?_⟩
  · exact List.filter_sublist
  · exact hpaths'.filter _
  · -- among the newest five
    intro x hx hlt
    refine hkept x hx (.inl ⟨hx, lt_of_eq_of_lt ?_ hlt⟩)
    apply List.countP_congr
    intro y hy
    simp only [decide_eq_true_iff]
    exact hbeats x hx y hy
  · -- the newest of its day, of one of the last three days
    intro x hx hfirst hlt
    refine hkept x hx (.inr ⟨hx, ?_, show _ < 3 from ?_⟩)
    · intro y hy hsame hbeaten
      exact absurd (hfirst y hy hsame) (not_le.mpr ((hbeats x hx y hy).mp hbeaten))
    · -- the order of texts decides equality in its own way
      convert hlt
  · rw [hlength]
    refine Ranking.card_kept_lt hn (fun a _ b _ hab => DateTime.day_text_le hab) (hn.filter _)
      fun x hx => (hmem x).mp hx
  · rw [hlength]
    exact Ranking.le_card_kept hn fun x hx => (hmem x).mpr hx
  · -- the newest snapshot is kept and stays last
    intro x hx
    have hlast := (hmem x).mpr (kept_last h hx)
    obtain ⟨older, rfl⟩ := List.getLast?_eq_some_iff.mp hx
    have hin := (List.mem_filter.mp hlast).2
    rw [hselect, List.filter_append, List.map_append, List.filter_singleton, hin, cond_true]
    exact List.getLast?_concat
  · exact fun env _ _ hw hzero hsnapshots hmtimes choices =>
      selected_retained h hpaths' env hw hzero hsnapshots hmtimes choices

/-- The last day of the calendar, at the last minute of an hour. -/
def last_day (hour : ℕ) (h : hour < 24) : DateTime := { DateTime.last with hour, hour_lt := h }

/-- Six snapshots of one day, the newest first. -/
def hourly : List (DateTime × Stem) :=
  [(.last, .catalog "f"), (last_day 22 (by decide), .catalog "e"), (last_day 21 (by decide), .catalog "d"),
   (last_day 20 (by decide), .catalog "c"), (last_day 19 (by decide), .catalog "b"),
   (last_day 18 (by decide), .catalog "a")]

/-- More than a selection may have, so that something is left out. -/
theorem select_for_push_safe_two :
    SafeWindow (sorted hourly) (select_for_push (sorted hourly))
      ∧ (select_for_push (sorted hourly)).length < hourly.length := by
  obtain ⟨-, -, hsafe⟩ := @select_for_push_safe hourly (by decide +kernel) (by decide +kernel)
  exact ⟨hsafe, Nat.lt_of_le_of_lt hsafe.at_most (by decide)⟩

end OpenChronicle.Backup
