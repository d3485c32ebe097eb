/-
What `_retention_prune` leaves, when none of its steps fails.

The world model lets any step of retention raise and any point be its last; here all go well, so what is
deleted is decided by the two keep sets alone. They are computed by two keys from one listing, and ties
are resolved by it. A second run keeps everything, whatever the listing is then.

The work is in three layers. The functions that retention applies to its lists are those of the general
ranking (`newest_candidates_map`, `newest_per_day_days`), where both keep sets are known as sets of
elements and not as the result of two loops. The steps are decided one by one (`wp_published_all`,
`wp_mtimes_all`, `wp_prune_all`), each of them ending in exactly one way as no step fails. A run is then
the composition of the two, and what is left on the disk is read off `Cleared`.

One thing can stop it: a modification time past the year 9999 has no day, and the conversion raises
before anything has been deleted. That is why being `Dated` is a condition of the theorem, and the run
that shows that it is needed stands at the end of the file.
-/
import OpenChronicle.Backup.Calls

set_option autoImplicit false

namespace OpenChronicle.Backup

open Program Prog

/-! ## The published snapshots of a directory -/

section Directory

variable (w : World) (k : Kind)

/-- What `directory.glob("*.db")` finds. -/
def databases : List Stem := (w.stems k).filter fun s => (w.files (.file k s .db)).isSome

/-- `_is_published`, of a database. -/
def is_published (s : Stem) : Bool := s.has_suffix && is_file (w.files (.file k s .manifest))

/-- The published snapshots in the order in which the directory is listed. -/
def listing (c : Choice) : List Stem := (c.order.apply (databases w k)).filter (is_published w k)

/-- The time by which retention orders. -/
def mtime (s : Stem) : Mtime := ((w.files (.file k s .db)).getD .dir).mtime

/-- The text of its UTC day. -/
def utc_day (s : Stem) : List Char := (day (mtime w k s)).getD []

/-- A published snapshot. -/
structure Snapshot (s : Stem) : Prop where
  db : (w.files (.file k s .db)).isSome
  published : is_published w k s = true

/-- Its time is one that the calendar has. -/
def Dated (s : Stem) : Prop := (day (mtime w k s)).isSome

instance (s : Stem) : Decidable (Dated w k s) := inferInstanceAs (Decidable (_ = true))

variable {w k}

/-- The databases of a directory are found by the names it has had. -/
theorem mem_databases (hw : Registered w) {s : Stem} : s ∈ databases w k ↔ (w.files (.file k s .db)).isSome := by
  rw [databases, List.mem_filter]
  constructor
  · exact fun h => h.2
  · intro h
    exact ⟨hw.stem k s .db (Option.isSome_iff_ne_none.mp h), h⟩

/-- The order of the directory does not matter for what is listed, only for how ties are broken. -/
theorem mem_listing (hw : Registered w) (c : Choice) {s : Stem} : s ∈ listing w k c ↔ Snapshot w k s := by
  rw [listing, List.mem_filter, (c.order.perm _).mem_iff, mem_databases hw]
  exact ⟨fun h => ⟨h.1, h.2⟩, fun h => ⟨h.db, h.published⟩⟩

/-- A directory lists a name once. -/
theorem nodup_listing (hw : Registered w) (c : Choice) : (listing w k c).Nodup := by
  have hdb : (databases w k).Nodup := (hw.nodup k).filter _
  exact (((c.order.perm _).nodup_iff).mpr hdb).filter _

end Directory

/-! ## Its functions, on what they are given -/

section Pure

variable {time : Stem → Mtime} {l : List Stem}

/-- `sorted(..., reverse=True)` keeps the order of equal times, and so does the sort of the library. -/
theorem newest_candidates_map (hn : l.Nodup) :
    newest_candidates (l.map fun s => (s, time s)) = Ranking.sortDesc time l := by
  rw [newest_candidates, ← List.map_mergeSort (r := fun a b => decide (time b ≤ time a)), List.map_map]
  · rw [Ranking.mergeSort_eq_sortDesc hn]
    exact List.map_id _
  · intro a _ b _
    rfl

/-- Where every snapshot has a day, so has the list: `days` fails on a time past the calendar only. -/
theorem days_map (h : ∀ s ∈ l, (day (time s)).isSome) :
    days (l.map fun s => (s, time s)) = some (l.map fun s => (s, (day (time s)).getD [])) := by
  induction l with
  | nil => rfl
  | cons s rest ih =>
      obtain ⟨d, hd⟩ := Option.isSome_iff_exists.mp (h s List.mem_cons_self)
      have hrest := ih fun s hs => h s (List.mem_cons_of_mem _ hs)
      rw [days] at hrest
      rw [days, List.map_cons, List.mapM_cons, hrest, List.map_cons, hd]
      rfl

/-- A single snapshot without a day stops the whole of retention. -/
theorem days_map_none {s : Stem} (hs : s ∈ l) (hday : (day (time s)).isSome = false) :
    days (l.map fun s => (s, time s)) = none := by
  induction l with
  | nil => cases hs
  | cons s' rest ih =>
      rw [days, List.map_cons, List.mapM_cons]
      rcases List.mem_cons.mp hs with rfl | hin
      · rw [Option.isSome_eq_false_iff, Option.isNone_iff_eq_none] at hday
        rw [hday]
        rfl
      · have hrest := ih hin
        rw [days] at hrest
        rw [hrest]
        rcases day (time s') with _ | d
        · rfl
        · rfl

/-- The dictionary that is filled newest first is the first element of each day. -/
theorem newest_per_day_days (d : Stem → List Char) (keep : ℕ) :
    newest_per_day (l.map fun s => (s, d s)) keep = Ranking.newest_per_day d keep l := by
  rw [newest_per_day, Ranking.newest_per_day_map, List.map_map]
  exact List.map_id _

end Pure

/-! ## Its steps -/

section Steps

variable {env : Env} {w w' : World} {k : Kind}

/-- The pairs of some stems are gone, and nothing else. -/
structure Cleared (k : Kind) (gone : Stem → Prop) (w w' : World) : Prop where
  /-- Both files of the pair, so that no manifest is left behind alone. -/
  removed : ∀ s, gone s → w'.files (.file k s .db) = none ∧ w'.files (.file k s .manifest) = none
  rest : ∀ p, (∀ s, gone s → p ≠ .file k s .db ∧ p ≠ .file k s .manifest) → w'.files p = w.files p
  stems : w'.stems = w.stems
  faults : w'.faults = w.faults

theorem Cleared.refl (k : Kind) (w : World) : Cleared k (fun _ => False) w w :=
  ⟨nofun, fun _ _ => rfl, rfl, rfl⟩

/-- Two rounds of the loop are one clearing. -/
theorem Cleared.cons {s : Stem} {gone : Stem → Prop} {w₁ : World} (h : Cleared k (· = s) w w₁)
    (h' : Cleared k gone w₁ w') : Cleared k (fun s' => s' = s ∨ gone s') w w' where
  removed := by
    intro s' hs'
    by_cases hin : gone s'
    · exact h'.removed s' hin
    · obtain rfl := hs'.resolve_right hin
      have hother : ∀ r, ∀ t, gone t → (Path.file k s' r) ≠ .file k t .db ∧ (Path.file k s' r) ≠ .file k t .manifest := by
        intro r t ht
        have hne : s' ≠ t := fun heq => hin (heq ▸ ht)
        exact ⟨by simp [hne], by simp [hne]⟩
      rw [h'.rest _ (hother .db), h'.rest _ (hother .manifest)]
      exact h.removed s' rfl
  rest p hp := by
    rw [h'.rest p fun t ht => hp t (.inr ht), h.rest p fun t ht => hp t (.inl ht)]
  stems := h'.stems.trans h.stems
  faults := h'.faults.trans h.faults

/-- Both files of a pair. -/
theorem cleared_pair (k : Kind) (s : Stem) (w : World) :
    Cleared k (· = s) w ((w.remove (.file k s .db)).remove (.file k s .manifest)) where
  removed := by
    rintro _ rfl
    refine ⟨?_, remove_files_self _ _⟩
    rw [remove_files_of_ne _ (by simp)]
    exact remove_files_self _ _
  rest p hp := by
    rw [remove_files_of_ne _ (hp s rfl).2, remove_files_of_ne _ (hp s rfl).1]
  stems := rfl
  faults := rfl

/-- With no fault left a step has one way to go. -/
theorem exec_quiet (hzero : w.faults = 0) (o : FileOp) (c : Choice) : exec env o c w = o.done env c w := by
  rw [exec, if_neg]
  rintro ⟨-, -, hpos⟩
  omega

/-- Nothing is removed while the candidates are gathered, so that the three loops see one directory. -/
theorem wp_published_all (hzero : w.faults = 0) (stems : List Stem) :
    (published k stems).wp (exec env) (fun _ => True)
      (fun r w' => r = .ok (stems.filter (is_published w k)) ∧ w' = w) w := by
  induction stems with
  | nil => exact ⟨rfl, rfl⟩
  | cons s rest ih =>
      refine wp_bind.mpr (wp_op.mpr ⟨trivial, fun c => ?_⟩)
      rw [exec_quiet hzero]
      refine wp_bind.mpr (wp_mono ih (fun _ h => h) ?_)
      rintro _ _ ⟨rfl, rfl⟩
      refine ⟨?_, rfl⟩
      rw [List.filter_cons]
      rfl

/-- Reading the times of files that are there raises nothing. -/
theorem wp_mtimes_all (hzero : w.faults = 0) {stems : List Stem}
    (h : ∀ s ∈ stems, (w.files (.file k s .db)).isSome) :
    (mtimes k stems).wp (exec env) (fun _ => True)
      (fun r w' => r = .ok (stems.map fun s => (s, mtime w k s)) ∧ w' = w) w := by
  induction stems with
  | nil => exact ⟨rfl, rfl⟩
  | cons s rest ih =>
      obtain ⟨node, hnode⟩ := Option.isSome_iff_exists.mp (h s List.mem_cons_self)
      refine wp_bind.mpr (wp_op.mpr ⟨trivial, fun c => ?_⟩)
      have hdone : (FileOp.stat (.file k s .db)).done env c w = (.ok node, w) := by
        simp [FileOp.done, hnode]
      rw [exec_quiet hzero, hdone]
      refine wp_bind.mpr (wp_mono (ih fun s hs => h s (List.mem_cons_of_mem _ hs)) (fun _ h => h) ?_)
      rintro _ _ ⟨rfl, rfl⟩
      refine ⟨?_, rfl⟩
      rw [List.map_cons, mtime, hnode]
      rfl

/-- The deletions: what is not to be kept, as a pair. -/
theorem wp_prune_all (hzero : w.faults = 0) (keep_set : List Stem) {stems : List Stem} (hn : stems.Nodup)
    (h : ∀ s ∈ stems, (w.files (.file k s .db)).isSome) :
    (prune k keep_set stems).wp (exec env) (fun _ => True)
      (fun r w' => r = .ok () ∧ Cleared k (fun s => s ∈ stems ∧ s ∉ keep_set) w w') w := by
  induction stems generalizing w with
  | nil =>
      refine ⟨rfl, ?_⟩
      simpa using Cleared.refl k w
  | cons s rest ih =>
      obtain ⟨hnot, hrest⟩ := List.nodup_cons.mp hn
      have hthere := h s List.mem_cons_self
      have hothers := fun s hs => h s (List.mem_cons_of_mem _ hs)
      rw [prune]
      split
      · next hkeep =>
          refine wp_mono (ih hzero hrest hothers) (fun _ h => h) ?_
          rintro r w' ⟨rfl, hcleared⟩
          refine ⟨rfl, ?_⟩
          -- a stem that is kept is not among those to clear
          have hsame : (fun s' => s' ∈ s :: rest ∧ s' ∉ keep_set) = fun s' => s' ∈ rest ∧ s' ∉ keep_set := by
            funext s'
            rw [List.mem_cons, eq_iff_iff]
            constructor
            · rintro ⟨rfl | hin, hout⟩
              · exact absurd hkeep hout
              · exact ⟨hin, hout⟩
            · exact fun hin => ⟨.inr hin.1, hin.2⟩
          rw [hsame]
          exact hcleared
      next hout =>
        have hpair := cleared_pair k s w
        obtain ⟨node, hnode⟩ := Option.isSome_iff_exists.mp hthere
        refine wp_bind.mpr (wp_bind.mpr (wp_attempt.mpr (wp_bind.mpr (wp_op.mpr ⟨trivial, fun c => ?_⟩))))
        -- the database goes first, then the manifest, which may be missing
        have hdb : (FileOp.unlink (.file k s .db) false).done env c w = (.ok (), w.remove (.file k s .db)) := by
          simp [FileOp.done, hnode]
        rw [exec_quiet hzero, hdb]
        refine wp_op.mpr ⟨trivial, fun c' => ?_⟩
        have hzero' : (w.remove (.file k s .db)).faults = 0 := hzero
        have hmanifest : ∃ w₁, (FileOp.unlink (.file k s .manifest) true).done env c' (w.remove (.file k s .db))
            = (.ok (), w₁) ∧ Cleared k (· = s) w w₁ := by
          rcases hm : (w.remove (.file k s .db)).files (.file k s .manifest) with _ | node'
          · refine ⟨w.remove (.file k s .db), by simp [FileOp.done, hm], ?_, ?_, rfl, rfl⟩
            · rintro _ rfl
              exact ⟨remove_files_self _ _, hm⟩
            · intro p hp
              exact remove_files_of_ne _ (hp s rfl).1
          · exact ⟨_, by simp [FileOp.done, hm], hpair⟩
        obtain ⟨w₁, hdone, hcleared⟩ := hmanifest
        rw [exec_quiet hzero', hdone]
        -- no later stem is this one, so its database is still there
        have hothers' : ∀ s' ∈ rest, (w₁.files (.file k s' .db)).isSome := by
          intro s' hs'
          have hne : s' ≠ s := fun heq => hnot (heq ▸ hs')
          rw [hcleared.rest _ (by rintro _ rfl; exact ⟨by simp [hne], by simp⟩)]
          exact hothers s' hs'
        show (prune k keep_set rest).wp (exec env) (fun _ => True) _ w₁
        refine wp_mono (ih (hcleared.faults.trans hzero) hrest hothers') (fun _ h => h) ?_
        rintro r w' ⟨rfl, hlater⟩
        refine ⟨rfl, ?_⟩
        have hsame : (fun s' => s' ∈ s :: rest ∧ s' ∉ keep_set)
            = fun s' => s' = s ∨ (s' ∈ rest ∧ s' ∉ keep_set) := by
          funext s'
          rw [List.mem_cons, eq_iff_iff]
          constructor
          · rintro ⟨rfl | hin, hout⟩
            · exact .inl rfl
            · exact .inr ⟨hin, hout⟩
          · rintro (rfl | hin)
            · exact ⟨.inl rfl, hout⟩
            · exact ⟨.inr hin.1, hin.2⟩
        rw [hsame]
        exact hcleared.cons hlater

end Steps

/-! ## A run of retention -/

/-- `_retention_prune` from its listing on. -/
def prune_listed (k : Kind) (keep : ℕ) (stems : List Stem) : Catalog Unit := do
  let stems ← published k stems
  let stats ← mtimes k stems
  let candidates := newest_candidates stats
  let stats ← mtimes k candidates
  match days stats with
  | none => .raise .ValueError
  | some days => prune k (candidates.take keep ++ newest_per_day days keep) candidates

/-- What is chosen is chosen from one listing, so a run is followed from there on. -/
theorem retention_prune_eq (k : Kind) (keep : ℕ) :
    retention_prune k keep = act (.glob k .db) >>= prune_listed k keep := rfl

section Run

variable {env : Env} {w w' : World} {k : Kind}

/-- How retention ends: with the two keep sets, or before it deletes anything. -/
def RetentionEnds (k : Kind) (keep : ℕ) (l : List Stem) (w : World) (r : Except Fault Unit) (w' : World) : Prop :=
  ((∀ s ∈ l, Dated w k s) → r = .ok ()
      ∧ Cleared k (fun s => s ∈ l ∧ ¬ Ranking.Kept (mtime w k) (utc_day w k) keep l s) w w')
    ∧ ((∃ s ∈ l, ¬ Dated w k s) → r = .error .ValueError ∧ w' = w)

/-- A run without a fault ends, and in one of the two ways. -/
theorem retention_ends (env : Env) (hw : Registered w) (hzero : w.faults = 0) (keep : ℕ) (choices : ℕ → Choice) :
    ∃ n r w', (retention_prune k keep).run_until (exec env) ((List.range n).map choices) w = (some r, w')
      ∧ RetentionEnds k keep (listing w k (choices 0)) w r w' := by
  -- from the listing on
  have hrest : (prune_listed k keep ((choices 0).order.apply (databases w k))).wp (exec env) (fun _ => True)
      (RetentionEnds k keep (listing w k (choices 0)) w) w := by
    have hn := nodup_listing hw (k := k) (choices 0)
    have hthere : ∀ s ∈ listing w k (choices 0), (w.files (.file k s .db)).isSome :=
      fun s hs => ((mem_listing hw (choices 0)).mp hs).db
    refine wp_bind.mpr (wp_mono (wp_published_all hzero _) (fun _ h => h) ?_)
    rintro _ _ ⟨rfl, rfl⟩
    refine wp_bind.mpr (wp_mono (wp_mtimes_all hzero hthere) (fun _ h => h) ?_)
    rintro _ w ⟨rfl, rfl⟩
    have hsorted : newest_candidates ((listing w k (choices 0)).map fun s => (s, mtime w k s))
        = Ranking.sortDesc (mtime w k) (listing w k (choices 0)) := newest_candidates_map hn
    generalize hl : listing w k (choices 0) = l at hn hthere hsorted ⊢
    have hsort : ∀ s, s ∈ Ranking.sortDesc (mtime w k) l ↔ s ∈ l := fun s => Ranking.mem_sortDesc
    have hthere' : ∀ s ∈ Ranking.sortDesc (mtime w k) l, (w.files (.file k s .db)).isSome :=
      fun s hs => hthere s ((hsort s).mp hs)
    dsimp only
    rw [show ((choices 0).order.apply (databases w k)).filter (is_published w k) = l from hl, hsorted]
    refine wp_bind.mpr (wp_mono (wp_mtimes_all hzero hthere') (fun _ h => h) ?_)
    rintro _ w' ⟨rfl, rfl⟩
    dsimp only
    by_cases hdated : ∀ s ∈ l, Dated w' k s
    · rw [days_map fun s hs => hdated s ((hsort s).mp hs)]
      dsimp only
      rw [newest_per_day_days]
      refine wp_mono (wp_prune_all hzero _ ((Ranking.sortDesc_perm _ l).nodup_iff.mpr hn) hthere') (fun _ h => h) ?_
      rintro _ w'' ⟨rfl, hcleared⟩
      refine ⟨fun _ => ⟨rfl, ?_⟩, ?_⟩
      swap
      · rintro ⟨s, hs, hnot⟩
        exact absurd (hdated s hs) hnot
      have hsame : (fun s => s ∈ Ranking.sortDesc (mtime w' k) l
            ∧ s ∉ Ranking.kept (mtime w' k) (utc_day w' k) keep l)
          = fun s => s ∈ l ∧ ¬ Ranking.Kept (mtime w' k) (utc_day w' k) keep l s := by
        funext s
        rw [hsort, Ranking.mem_kept hn]
      rw [← hsame]
      exact hcleared
    · obtain ⟨s, hs⟩ := not_forall.mp hdated
      obtain ⟨hin, hnot⟩ := Classical.not_imp.mp hs
      rw [days_map_none ((hsort s).mpr hin) (Bool.eq_false_iff.mpr hnot)]
      exact ⟨fun h => absurd (h s hin) hnot, fun _ => ⟨rfl, rfl⟩⟩
  obtain ⟨n, r, w', hrun, hends⟩ := wp_ends hrest fun i => choices (i + 1)
  refine ⟨n + 1, r, w', ?_, hends⟩
  rw [map_range_succ, ← hrun, retention_prune_eq]
  show (_ : Catalog Unit).run_until (exec env) _ (exec env (.glob k .db) (choices 0) w).2 = _
  rw [exec_quiet hzero]
  rfl

end Run

/-! ## What is left -/

/-- What retention has to leave: of the snapshots those of the two keep sets, the other pairs gone, and
the rest as it was. -/
structure Retained (env : Env) (k : Kind) (keep : ℕ) (l : List Stem) (w w' : World) : Prop where
  snapshots : ∀ s, Snapshot w' k s ↔ Ranking.Kept (mtime w k) (utc_day w k) keep l s
  at_most : ∀ m : List Stem, m.Nodup → (∀ s ∈ m, Snapshot w' k s) → m.length ≤ 2 * keep
  pairs : ∀ s, Snapshot w k s → ¬ Snapshot w' k s →
    w'.files (.file k s .db) = none ∧ w'.files (.file k s .manifest) = none
  untouched : ∀ p, (∀ s, Snapshot w k s → ¬ Snapshot w' k s → p ≠ .file k s .db ∧ p ≠ .file k s .manifest) →
    w'.files p = w.files p
  /-- Pruning is done once: what is kept is kept again, under any other listing. -/
  again : ∀ choices : ℕ → Choice, ∃ n w'', (retention_prune k keep).run_until (exec env)
    ((List.range n).map choices) w' = (some (.ok ()), w'') ∧ w''.files = w'.files

section Left

variable {env : Env} {w w' : World} {k : Kind} {gone : Stem → Prop}

/-- The files of a stem that is not gone. -/
theorem Cleared.file_of_not (h : Cleared k gone w w') {s : Stem} (hs : ¬ gone s) (r : Role) :
    w'.files (.file k s r) = w.files (.file k s r) := by
  apply h.rest
  intro t ht
  have hne : s ≠ t := fun heq => hs (heq ▸ ht)
  exact ⟨by simp [hne], by simp [hne]⟩

/-- The snapshots after a clearing are those before it that are not gone, which is what makes the second
run find the same keep sets. -/
theorem Cleared.snapshot_iff (h : Cleared k gone w w') {s : Stem} :
    Snapshot w' k s ↔ Snapshot w k s ∧ ¬ gone s := by
  by_cases hs : gone s
  · refine ⟨fun hsnap => ?_, fun hsnap => absurd hs hsnap.2⟩
    have hdb := hsnap.db
    rw [(h.removed s hs).1] at hdb
    cases hdb
  · have hdb := h.file_of_not hs .db
    have hmanifest := h.file_of_not hs .manifest
    constructor
    · rintro ⟨hthere, hpub⟩
      rw [hdb] at hthere
      rw [is_published, hmanifest] at hpub
      exact ⟨⟨hthere, hpub⟩, hs⟩
    · rintro ⟨⟨hthere, hpub⟩, -⟩
      rw [← hdb] at hthere
      rw [is_published, ← hmanifest] at hpub
      exact ⟨hthere, hpub⟩

/-- What is left keeps its time. -/
theorem Cleared.mtime_eq (h : Cleared k gone w w') {s : Stem} (hs : ¬ gone s) : mtime w' k s = mtime w k s := by
  rw [mtime, mtime, h.file_of_not hs .db]

theorem Cleared.registered (h : Cleared k gone w w') (hw : Registered w) : Registered w' := by
  have hfile : ∀ k' s r, w'.files (.file k' s r) ≠ none → w.files (.file k' s r) ≠ none := by
    intro k' s r hne
    by_cases hmine : ∃ t, gone t ∧ (Path.file k' s r = .file k t .db ∨ Path.file k' s r = .file k t .manifest)
    · obtain ⟨t, ht, hp | hp⟩ := hmine
      · rw [hp, (h.removed t ht).1] at hne
        exact absurd rfl hne
      · rw [hp, (h.removed t ht).2] at hne
        exact absurd rfl hne
    · rw [← h.rest _ fun t ht => ⟨fun hp => hmine ⟨t, ht, .inl hp⟩, fun hp => hmine ⟨t, ht, .inr hp⟩⟩]
      exact hne
  have hdir : ∀ k', w'.files (.dir k') = w.files (.dir k') := fun k' => h.rest _ fun t _ => ⟨by simp, by simp⟩
  refine ⟨?_, ?_, ?_⟩
  · intro k' s r hne
    rw [h.stems]
    exact hw.stem k' s r (hfile k' s r hne)
  · intro k' s r hne
    rw [hdir]
    exact hw.dir k' s r (hfile k' s r hne)
  · rw [h.stems]
    exact hw.nodup

end Left

/-- **Retention keeps the two sets.** If no deletion fails and every snapshot has a UTC day, what is left
of the snapshots is the union of the `keep` newest and the newest of each of the `keep` latest days, with
ties as the directory was listed; the others are gone with their manifests, nothing else has changed, and
retention finds nothing more to delete, in whatever order the directory is listed next. -/
theorem retention_keeps_both_sets (env : Env) (k : Kind) (keep : ℕ) {w : World} (hw : Registered w)
    (hzero : w.faults = 0) (hdated : ∀ s, Snapshot w k s → Dated w k s) (choices : ℕ → Choice) :
    ∃ n w', (retention_prune k keep).run_until (exec env) ((List.range n).map choices) w = (some (.ok ()), w')
      ∧ Retained env k keep (listing w k (choices 0)) w w' := by
  obtain ⟨n, r, w', hrun, hends, -⟩ := retention_ends env hw hzero keep choices (k := k)
  obtain ⟨rfl, hcleared⟩ := hends fun s hs => hdated s ((mem_listing hw _).mp hs)
  refine ⟨n, w', hrun, ?_⟩
  -- what is chosen depends on the listing only through its order
  have hn := nodup_listing hw (k := k) (choices 0)
  have hmem := fun s => mem_listing hw (k := k) (choices 0) (s := s)
  generalize listing w k (choices 0) = l at hcleared hn hmem
  -- what is left is what is kept
  have hleft : ∀ s, Snapshot w' k s ↔ Ranking.Kept (mtime w k) (utc_day w k) keep l s := by
    intro s
    rw [hcleared.snapshot_iff, ← hmem]
    constructor
    · rintro ⟨hin, hnot⟩
      exact not_not.mp fun hk => hnot ⟨hin, hk⟩
    · exact fun hk => ⟨hk.mem, fun hgone => hgone.2 hk⟩
  have hgone : ∀ s, Snapshot w k s ∧ ¬ Snapshot w' k s
      ↔ s ∈ l ∧ ¬ Ranking.Kept (mtime w k) (utc_day w k) keep l s := by
    intro s
    rw [hleft, hmem]
  refine ⟨hleft, ?_, ?_, ?_, ?_⟩
  · intro m hm hsnap
    exact Ranking.card_kept hn hm fun s hs => (hleft s).mp (hsnap s hs)
  · intro s hs hnot
    exact hcleared.removed s ((hgone s).mp ⟨hs, hnot⟩)
  · intro p hp
    refine hcleared.rest p fun s hs => ?_
    obtain ⟨hs, hnot⟩ := (hgone s).mpr hs
    exact hp s hs hnot
  · -- the same times, in another order
    intro choices'
    have hw' := hcleared.registered hw
    have hmtime : ∀ s, Snapshot w' k s → mtime w' k s = mtime w k s :=
      fun s hs => hcleared.mtime_eq (hcleared.snapshot_iff.mp hs).2
    obtain ⟨n', r', w'', hrun', hends', -⟩ := retention_ends env hw' (hcleared.faults.trans hzero) keep choices' (k := k)
    have hmem' := fun s => mem_listing hw' (k := k) (choices' 0) (s := s)
    obtain ⟨rfl, hcleared'⟩ := hends' fun s hs => by
      have hsnap := (hmem' s).mp hs
      rw [Dated, hmtime s hsnap]
      exact hdated s (hcleared.snapshot_iff.mp hsnap).1
    refine ⟨n', w'', hrun', ?_⟩
    have hn' := nodup_listing hw' (k := k) (choices' 0)
    generalize listing w' k (choices' 0) = l' at hcleared' hn' hmem'
    funext p
    refine hcleared'.rest p fun s hs => absurd ?_ hs.2
    have hday : ∀ a b, mtime w k a = mtime w k b → utc_day w k a = utc_day w k b := by
      intro a b hab
      rw [utc_day, utc_day, hab]
    have hagain := Ranking.Kept.again hn hday hn' (fun s => (hmem' s).trans (hleft s)) hs.1
    refine hagain.congr ?_ ?_
    · intro b hb
      exact (hmtime b ((hmem' b).mp hb)).symm
    · intro b hb
      rw [utc_day, utc_day, hmtime b ((hmem' b).mp hb)]

/-- A directory of published snapshots. -/
def world_of (files : List (String × Mtime)) : World where
  files
    | .root => some .dir
    | .dir _ => some .dir
    | .file .auto (.catalog name) .db => (files.lookup name).map (.file [] ·)
    | .file .auto (.catalog name) .manifest => (files.lookup name).map (.file [] ·)
    | _ => none
  stems
    | .auto => files.map fun x => .catalog x.1
    | .manual => []

theorem registered_world_of {files : List (String × Mtime)} (h : (files.map Prod.fst).Nodup) :
    Registered (world_of files) where
  stem := by
    have hlookup : ∀ name, (files.lookup name).map (Node.file [] ·) ≠ none → name ∈ files.map Prod.fst := by
      intro name hne
      by_contra hnot
      refine hne ?_
      rw [List.lookup_eq_none_iff.mpr, Option.map_none]
      intro x hx
      simp only [bne_iff_ne]
      rintro rfl
      exact hnot (List.mem_map_of_mem hx)
    have hstem : ∀ name, name ∈ files.map Prod.fst → Stem.catalog name ∈ (world_of files).stems .auto := by
      intro name hname
      obtain ⟨x, hx, rfl⟩ := List.mem_map.mp hname
      exact List.mem_map_of_mem hx
    intro k s r hne
    rcases k with _ | _
    · rcases s with name | text
      · cases r with
        | db => exact hstem name (hlookup name hne)
        | manifest => exact hstem name (hlookup name hne)
        | _ => exact absurd rfl hne
      · exact absurd rfl hne
    · exact absurd rfl hne
  dir _ _ _ _ := nofun
  nodup
    | .auto => by
        show (files.map fun x => Stem.catalog x.1).Nodup
        rw [show (files.map fun x => Stem.catalog x.1) = (files.map Prod.fst).map Stem.catalog by rw [List.map_map]; rfl]
        exact h.map fun a b hab => by injection hab
    | .manual => List.nodup_nil

/-- Retention asks nothing of it. -/
def no_answers : Env where
  require_existing_root := false
  root_is_absolute := true
  quick_check _ := none
  report _ := ⟨none, none, none⟩
  sha256 _ := ""

/-- The third is from the first moment of the year 10000. -/
def late_world : World := world_of [("a", 0), ("b", 1), ("c", 253402300800)]

/-- A snapshot of the year 10000 stops retention before it deletes anything. -/
theorem late_snapshot_stops_retention :
    ∃ n, (retention_prune .auto 1).run_until (exec no_answers) ((List.range n).map fun _ => {}) late_world
        = (some (.error .ValueError), late_world)
      ∧ ∃ m : List Stem, m.Nodup ∧ (∀ s ∈ m, Snapshot late_world .auto s) ∧ ¬ m.length ≤ 2 * 1 := by
  have hw : Registered late_world := registered_world_of (by decide)
  have hall : ∀ s ∈ [Stem.catalog "a", .catalog "b", .catalog "c"], Snapshot late_world .auto s := by
    intro s hs
    simp only [List.mem_cons, List.not_mem_nil, or_false] at hs
    rcases hs with rfl | rfl | rfl
    · exact ⟨rfl, rfl⟩
    · exact ⟨rfl, rfl⟩
    · exact ⟨rfl, rfl⟩
  obtain ⟨n, r, w', hrun, -, hlate⟩ := retention_ends no_answers hw rfl 1 (fun _ => {}) (k := .auto)
  obtain ⟨rfl, rfl⟩ := hlate ⟨.catalog "c", (mem_listing hw _).mpr (hall _ (by simp)), by decide +kernel⟩
  exact ⟨n, hrun, _, by decide, hall, by decide⟩

/-- Two of one second, one of the second before, one of the day before. -/
def tied_world : World := world_of [("a", 0), ("b", 86400), ("c", 86401), ("d", 86401)]

theorem retention_keeps_both_sets_tied :
    ∃ n w', (retention_prune .auto 2).run_until (exec no_answers) ((List.range n).map fun _ => {}) tied_world
        = (some (.ok ()), w')
      ∧ Retained no_answers .auto 2 (listing tied_world .auto {}) tied_world w' := by
  have hw : Registered tied_world := registered_world_of (by decide)
  refine retention_keeps_both_sets no_answers .auto 2 hw rfl ?_ fun _ => {}
  intro s hs
  have hin : s ∈ [Stem.catalog "a", .catalog "b", .catalog "c", .catalog "d"] :=
    hw.stem .auto s .db (Option.isSome_iff_ne_none.mp hs.db)
  have hdated : ∀ s ∈ [Stem.catalog "a", .catalog "b", .catalog "c", .catalog "d"], Dated tied_world .auto s := by
    decide +kernel
  exact hdated s hin

end OpenChronicle.Backup
