/-
What `list` and `verify` answer, and what retention takes away.

`list` leaves out a manifest that it cannot read, so that an error of its own hides an artifact from
this one answer. Nothing else does: what it answers is what stands on the disk.

The statements come in pairs. One half holds of every way in which a call can end: what is answered is
offered, what retention removes was published, and a manifest never goes before its database. The other
half, that nothing is left out, needs a call in which no step fails, and there `w.faults = 0` stands as
its condition. So each of the definitions `ManifestEnds`, `ManifestsEnd`, `CompletedEnd` and `ListEnds`
says at once how a loop ends when it returns, how it ends when it raises, and what more is known when
nothing went wrong; each loop is then one induction over what it runs through.

Retention is followed by three relations between the world before and the world now: the frame, that
files only disappear, and the order in which the two files of a pair do.
-/
import Mathlib.Data.List.Nodup
import OpenChronicle.Backup.Catalog

set_option autoImplicit false

namespace OpenChronicle.Backup

open Program Prog

/-! ## `list` -/

/-- Nothing on the disk has changed. -/
structure Same (w w' : World) : Prop where
  files : w'.files = w.files
  stems : w'.stems = w.stems
  faults : w'.faults ≤ w.faults

section Listing

variable {env : Env} {w w' w'' : World} {id : ArtifactId} {m : Manifest}

/-- Reading changes nothing, but a step that raised may have spent a fault; so `Same` is no equality. -/
theorem Same.refl (w : World) : Same w w := ⟨rfl, rfl, Nat.le_refl _⟩

theorem Same.trans (h : Same w w') (h' : Same w' w'') : Same w w'' :=
  ⟨h'.files.trans h.files, h'.stems.trans h.stems, Nat.le_trans h'.faults h.faults⟩

theorem same_spend (w : World) : Same w { w with faults := w.faults - 1 } := ⟨rfl, rfl, Nat.sub_le _ _⟩

/-- What is listed or offered depends on the disk only. -/
theorem Same.listed (h : Same w w') : Listed w' m ↔ Listed w m := by
  constructor
  · rintro ⟨hname, hdb, hlink, hmanifest⟩
    rw [h.files] at hdb hlink hmanifest
    exact ⟨hname, hdb, hlink, hmanifest⟩
  · rintro ⟨hname, hdb, hlink, hmanifest⟩
    rw [← h.files] at hdb hlink hmanifest
    exact ⟨hname, hdb, hlink, hmanifest⟩

theorem Same.offered (h : Same w w') : Offered w' m ↔ Offered w m := by
  constructor
  · intro ho
    exact ho.keep (by rw [h.files]) (by rw [h.files]) (by rw [h.files])
  · intro ho
    exact ho.keep (by rw [h.files]) (by rw [h.files]) (by rw [h.files])

theorem Same.registered (h : Same w w') (hw : Registered w) : Registered w' := by
  refine ⟨?_, ?_, ?_⟩
  · rw [h.files, h.stems]
    exact hw.stem
  · rw [h.files]
    exact hw.dir
  · rw [h.stems]
    exact hw.nodup

/-- A listed manifest is the one in its file. -/
theorem Listed.eq_of_file (h : Listed w m) {data : Manifest} {time : Mtime}
    (hfile : w.files (m.artifact_id.path .manifest) = some (.json data time)) : data = m := by
  obtain ⟨time', hmanifest⟩ := h.manifest
  rw [hmanifest] at hfile
  injection hfile with hjson
  injection hjson with hdata
  exact hdata.symm

/-- One artifact has one manifest. -/
theorem Listed.eq_of_id (h : Listed w m) {m' : Manifest} (h' : Listed w m')
    (hid : m'.artifact_id = m.artifact_id) : m' = m := by
  obtain ⟨time, hmanifest⟩ := h'.manifest
  rw [hid] at hmanifest
  exact h.eq_of_file hmanifest

/-- How `_manifest` ends. -/
def ManifestEnds (id : ArtifactId) (w : World) : Except Fault Manifest → World → Prop
  | .ok m, w' => w' = w ∧ m.artifact_id = id ∧ Listed w m
  | .error e, w' => Same w w' ∧ (∃ message, e = .BackupCatalogError message)
      ∧ (w.faults = 0 → ∀ m, m.artifact_id = id → ¬ Listed w m)

/-- `_manifest`: what it returns is listed, and without a fault it refuses only what is not. -/
theorem wp_manifest : (manifest id).wp (exec env) (fun _ => True) (ManifestEnds id w) w := by
  unfold manifest
  split
  · -- each of the refusals is one that nothing on the list can meet
    next hname =>
      refine ⟨.refl w, ⟨_, rfl⟩, ?_⟩
      rintro - m rfl hlisted
      simp [hlisted.name] at hname
  next hname =>
    refine wp_bind.mpr (wp_any_of [(is_symlink, id.path .db), (is_symlink, id.path .manifest),
      (fun n => !is_file n, id.path .db), (fun n => !is_file n, id.path .manifest)] trivial ?_)
    simp only [List.any_cons, List.any_nil, Bool.or_false]
    split
    · -- a listed pair is two regular files
      next hincomplete =>
        refine ⟨.refl w, ⟨_, rfl⟩, ?_⟩
        rintro - m rfl hlisted
        obtain ⟨time, hmanifest⟩ := hlisted.manifest
        have hlink : is_symlink (w.files (m.artifact_id.path .manifest)) = false := by
          rw [hmanifest]
          rfl
        have hfile : is_file (w.files (m.artifact_id.path .manifest)) = true := by
          rw [hmanifest]
          rfl
        simp [hlisted.db, hlisted.db_no_link, hlink, hfile] at hincomplete
    next hcomplete =>
      simp only [Bool.or_eq_true, Bool.not_eq_true', not_or, Bool.not_eq_true, Bool.not_eq_false] at hcomplete
      obtain ⟨hdb_link, hmanifest_link, hdb, hfile⟩ := hcomplete
      refine wp_bind.mpr (wp_attempt.mpr (wp_act trivial ?_ ?_))
      · intro c
        rcases hnode : w.files (id.path .manifest) with _ | (_ | ⟨data, time⟩ | _ | _)
        · rw [hnode] at hfile
          cases hfile
        · -- a file that holds no manifest
          have hdone : (FileOp.read_manifest (id.path .manifest)).done env c w = (.ok none, w) := by
            simp [FileOp.done, hnode]
          rw [hdone]
          refine ⟨.refl w, ⟨_, rfl⟩, ?_⟩
          rintro - m rfl hlisted
          obtain ⟨time, hmanifest⟩ := hlisted.manifest
          rw [hnode] at hmanifest
          cases hmanifest
        · have hdone : (FileOp.read_manifest (id.path .manifest)).done env c w = (.ok (some data), w) := by
            simp [FileOp.done, hnode]
          rw [hdone]
          show Prog.wp _ _ (if data.artifact_id ≠ id then _ else _) _ w
          split
          · -- a manifest that speaks of another artifact is not in its place
            next hother =>
              refine ⟨.refl w, ⟨_, rfl⟩, ?_⟩
              rintro - m rfl hlisted
              rw [hlisted.eq_of_file hnode] at hother
              exact hother rfl
          · next hsame =>
              have hsame : data.artifact_id = id := not_not.mp hsame
              refine ⟨rfl, hsame, ?_, ?_, ?_, time, ?_⟩
              · rw [hsame]
                simpa using hname
              · rw [hsame]
                exact hdb
              · rw [hsame]
                exact hdb_link
              · rw [hsame]
                exact hnode
        · rw [hnode] at hfile
          cases hfile
        · rw [hnode] at hmanifest_link
          cases hmanifest_link
      · -- the read may fail; with no failures left it does not
        intro hone c
        refine ⟨same_spend w, ⟨_, rfl⟩, ?_⟩
        intro hzero
        omega

/-- How the inner loop of `list` ends; it does not raise. -/
def ManifestsEnd (k : Kind) (stems : List Stem) (w : World) : Except Fault (List Manifest) → World → Prop
  | .ok l, w' => Same w w' ∧ (l.map fun m => m.artifact_id.stem).Sublist stems
      ∧ (∀ m ∈ l, Listed w m ∧ m.artifact_id.kind = k)
      ∧ (w.faults = 0 → ∀ m, Listed w m → m.artifact_id.kind = k → m.artifact_id.stem ∈ stems → m ∈ l)
  | .error _, _ => False

/-- The error of one manifest is caught inside the loop; that is why the loop itself does not raise. -/
theorem wp_manifests (k : Kind) (stems : List Stem) :
    (manifests k stems).wp (exec env) (fun _ => True) (ManifestsEnd k stems w) w := by
  induction stems generalizing w with
  | nil => exact ⟨.refl w, .slnil, nofun, nofun⟩
  | cons s rest ih =>
      cases s with
      | other text =>
          refine wp_mono ih (fun _ h => h) ?_
          rintro (e | l) w' h
          · exact h
          · refine ⟨h.1, h.2.1.cons _, h.2.2.1, fun hzero m hlisted hk hs => h.2.2.2 hzero m hlisted hk ?_⟩
            rcases List.mem_cons.mp hs with hother | hin
            · cases hother
            · exact hin
      | catalog name =>
          refine wp_bind.mpr (wp_attempt.mpr (wp_mono wp_manifest (fun _ h => h) ?_))
          rintro (e | data) w₁ hends
          · -- this one is left out
            obtain ⟨hsame, ⟨message, rfl⟩, hnone⟩ := hends
            refine wp_mono (ih (w := w₁)) (fun _ h => h) ?_
            rintro (e | l) w' h
            · exact h
            · obtain ⟨hsame', hstems, hsound, hcomplete⟩ := h
              refine ⟨hsame.trans hsame', hstems.cons _, ?_, ?_⟩
              · intro m hm
                exact ⟨hsame.listed.mp (hsound m hm).1, (hsound m hm).2⟩
              · intro hzero m hlisted hk hs
                have hfaults := hsame.faults
                refine hcomplete (by omega) m (hsame.listed.mpr hlisted) hk ?_
                rcases List.mem_cons.mp hs with hself | hin
                · refine absurd hlisted (hnone hzero m ?_)
                  rw [ArtifactId.stem] at hself
                  injection hself with hname
                  rw [← hk, ← hname]
                · exact hin
          · -- this one is read, and the others follow
            obtain ⟨rfl, hid, hdata⟩ := hends
            refine wp_bind.mpr (wp_mono (ih (w := w₁)) (fun _ h => h) ?_)
            rintro (e | l) w' h
            · exact h
            · obtain ⟨hsame', hstems, hsound, hcomplete⟩ := h
              refine ⟨hsame', ?_, ?_, ?_⟩
              · rw [List.map_cons, hid]
                exact hstems.cons_cons _
              · intro m hm
                rcases List.mem_cons.mp hm with rfl | hin
                · exact ⟨hdata, by rw [hid]⟩
                · exact hsound m hin
              · intro hzero m hlisted hk hs
                rcases List.mem_cons.mp hs with hself | hin
                · -- the manifest of this name
                  rw [ArtifactId.stem] at hself
                  injection hself with hname
                  have hsame_id : m.artifact_id = data.artifact_id := by
                    rw [hid, ← hk, ← hname]
                  rw [hdata.eq_of_id hlisted hsame_id]
                  exact List.mem_cons_self
                · exact List.mem_cons_of_mem data (hcomplete hzero m hlisted hk hin)

/-- How the outer loop of `list` ends. -/
def CompletedEnd (kinds : List Kind) (w : World) : Except Fault (List Manifest) → World → Prop
  | .ok l, w' => Same w w' ∧ (kinds.Nodup → l.Nodup) ∧ (∀ m ∈ l, Offered w m ∧ m.artifact_id.kind ∈ kinds)
      ∧ (w.faults = 0 → ∀ m, Offered w m → m.artifact_id.kind ∈ kinds → m ∈ l)
  | .error _, _ => 0 < w.faults

/-- The two kinds are listed one after the other; a fault while a directory is looked at ends the call. -/
theorem wp_completed (hregistered : Registered w) (kinds : List Kind) :
    (completed kinds).wp (exec env) (fun _ => True) (CompletedEnd kinds w) w := by
  induction kinds generalizing w with
  | nil => 
      refine ⟨.refl w, fun _ => .nil, ?_, ?_⟩
      · intro m hm
        cases hm
      · intro _ m _ hk
        cases hk
  | cons k rest ih =>
      refine wp_bind.mpr (wp_any_of [(fun n => !is_dir n, .dir k), (is_symlink, .dir k)] trivial ?_)
      simp only [List.any_cons, List.any_nil, Bool.or_false]
      split
      · -- a directory that is not used has nothing on offer, so what is left out is none of it
        next hunusable =>
          refine wp_mono (ih hregistered) (fun _ h => h) ?_
          rintro (e | l) w' h
          · exact h
          · obtain ⟨hsame, hnodup, hsound, hcomplete⟩ := h
            refine ⟨hsame, fun hk => hnodup hk.of_cons, ?_, fun hzero m hoffered hk => hcomplete hzero m hoffered ?_⟩
            · intro m hm
              exact ⟨(hsound m hm).1, List.mem_cons_of_mem k (hsound m hm).2⟩
            rcases List.mem_cons.mp hk with hself | hin
            · have hdir := hoffered.dir
              have hlink := hoffered.no_link
              rw [hself] at hdir hlink
              simp [hdir, hlink] at hunusable
            · exact hin
      next husable =>
        simp only [Bool.or_eq_true, Bool.not_eq_true', not_or, Bool.not_eq_true, Bool.not_eq_false] at husable
        refine wp_bind.mpr (wp_act trivial ?_ ?_)
        · -- the order of the listing is chosen, the names are not
          intro c
          have hstems : ∀ s, s ∈ c.order.apply ((w.stems k).filter fun s => (w.files (.file k s .manifest)).isSome)
              ↔ s ∈ w.stems k ∧ (w.files (.file k s .manifest)).isSome = true := by
            intro s
            rw [(c.order.perm _).mem_iff, List.mem_filter]
          refine wp_bind.mpr (wp_mono (wp_manifests k _) (fun _ h => h) ?_)
          rintro (e | here) w₁ hhere
          · exact hhere.elim
          · obtain ⟨hsame, hsublist, hsound, hcomplete⟩ := hhere
            have hregistered₁ : Registered w₁ := hsame.registered hregistered
            refine wp_bind.mpr (wp_mono (ih hregistered₁) (fun _ h => h) ?_)
            rintro (e | others) w' hothers
            · exact Nat.lt_of_lt_of_le hothers hsame.faults
            · obtain ⟨hsame', hnodup', hsound', hcomplete'⟩ := hothers
              refine ⟨hsame.trans hsame', ?_, ?_, ?_⟩
              · intro hkinds
                refine List.nodup_append.mpr ⟨?_, hnodup' hkinds.of_cons, ?_⟩
                · -- of one directory, the stems are distinct
                  refine List.Nodup.of_map _ (hsublist.nodup ?_)
                  exact (c.order.perm _).nodup_iff.mpr ((hregistered.nodup k).filter _)
                · -- the other directories are of other kinds
                  rintro m hm m' hm' rfl
                  refine (List.nodup_cons.mp hkinds).1 ?_
                  rw [← (hsound m hm).2]
                  exact (hsound' m hm').2
              · intro m hm
                rcases List.mem_append.mp hm with hin | hin
                · obtain ⟨hlisted, hk⟩ := hsound m hin
                  refine ⟨⟨hlisted, ?_, ?_⟩, ?_⟩
                  · rw [hk]
                    exact husable.1
                  · rw [hk]
                    exact husable.2
                  · rw [hk]
                    exact List.mem_cons_self
                · exact ⟨hsame.offered.mp (hsound' m hin).1, List.mem_cons_of_mem k (hsound' m hin).2⟩
              · intro hzero m hoffered hk
                have hfaults : w₁.faults ≤ w.faults := hsame.faults
                -- what is on offer lies in this directory or in one of the others
                by_cases hself : m.artifact_id.kind = k
                · refine List.mem_append_left _ (hcomplete hzero m hoffered.toListed hself ?_)
                  obtain ⟨time, hmanifest⟩ := hoffered.manifest
                  rw [ArtifactId.path, hself] at hmanifest
                  refine (hstems _).mpr ⟨?_, ?_⟩
                  · exact hregistered.stem k _ .manifest (by rw [hmanifest]; exact Option.some_ne_none _)
                  · rw [hmanifest]
                    rfl
                · refine List.mem_append_right _ (hcomplete' (by omega) m (hsame.offered.mpr hoffered) ?_)
                  exact (List.mem_cons.mp hk).resolve_left hself
        · intro hone c
          exact hone

/-- How `list` ends. -/
def ListEnds (limit : ℤ) (w : World) : Except Fault (List Manifest) → World → Prop
  | .ok l, w' => Same w w' ∧ (∀ m ∈ l, Offered w m)
      ∧ (w.faults = 0 → ∃ all : List Manifest, l = (newest_first all).take limit.toNat
        ∧ all.Nodup ∧ ∀ m, m ∈ all ↔ Offered w m)
  | .error _, _ => (limit < 1 ∨ 500 < limit) ∨ 0 < w.faults

/-- **`list`**: what it answers is on the disk, and if none of its steps fails, nothing is left out
but for the limit. -/
theorem wp_list (hregistered : Registered w) (limit : ℤ) :
    (list limit).wp (exec env) (fun _ => True) (ListEnds limit w) w := by
  unfold list
  split
  · next hlimit => exact .inl hlimit
  · refine wp_bind.mpr (wp_mono (wp_completed hregistered [.auto, .manual]) (fun _ h => h) ?_)
    rintro (e | all) w' h
    · exact .inr h
    · obtain ⟨hsame, hnodup, hsound, hcomplete⟩ := h
      refine ⟨hsame, ?_, ?_⟩
      · intro m hm
        exact (hsound m ((List.mergeSort_perm _ _).mem_iff.mp (List.mem_of_mem_take hm))).1
      · intro hzero
        refine ⟨all, rfl, hnodup (by decide), fun m => ⟨fun hm => (hsound m hm).1, fun hoffered => ?_⟩⟩
        refine hcomplete hzero m hoffered ?_
        rcases m.artifact_id.kind with _ | _
        · simp
        · simp

end Listing

/-! ## `verify` -/

section Verify

variable {env : Env} {w : World} {m : Manifest} {b : Bytes}

/-- A question that is not answered amiss. -/
theorem wp_quiet {o : FileOp} {Q : Except Fault o.Resp → World → Prop} {I : World → Prop} (hzero : w.faults = 0)
    (hI : I w) (hdone : ∀ c, Q (o.done env c w).1 (o.done env c w).2) : (act o).wp (exec env) I Q w := by
  refine wp_act hI hdone ?_
  intro hone
  omega

/-- The file has not changed since it passed, so it passes again, with the same values. -/
theorem wp_inspect_complete (hzero : w.faults = 0) (hc : Complete env w m b) :
    (inspect env m.artifact_id).wp (exec env) (fun _ => True) (fun r _ => r = .ok m.inspected) w := by
  obtain ⟨time, hdb⟩ := hc.db
  obtain ⟨content, hchecked, hinspected⟩ := hc.vouches
  refine wp_bind.mpr (wp_any_of [(is_symlink, m.artifact_id.path .db),
    (fun n => !is_file n, m.artifact_id.path .db)] trivial ?_)
  have hregular : ([(is_symlink, m.artifact_id.path .db), (fun n => !is_file n, m.artifact_id.path .db)].any
      fun x => x.1 (w.files x.2)) = false := by
    simp [hdb, is_symlink, is_file]
  rw [hregular]
  refine wp_bind.mpr (wp_any_of [(found, m.artifact_id.path .wal), (found, m.artifact_id.path .shm)] trivial ?_)
  have halone : ([(found, m.artifact_id.path .wal), (found, m.artifact_id.path .shm)].any
      fun x => x.1 (w.files x.2)) = false := by
    simp [hc.no_wal, hc.no_shm, found]
  rw [halone]
  refine wp_bind.mpr (wp_bind.mpr (wp_attempt.mpr (wp_quiet hzero trivial ?_)))
  intro c
  have hreport : (FileOp.report (m.artifact_id.path .db)).done env c w = (.ok (env.report b), w) := by
    simp [FileOp.done, hdb]
  rw [hreport]
  dsimp only
  rw [hchecked]
  refine wp_bind.mpr (wp_quiet hzero trivial ?_)
  intro c₁
  have hstat : (FileOp.stat (m.artifact_id.path .db)).done env c₁ w = (.ok (.file b time), w) := by
    simp [FileOp.done, hdb]
  rw [hstat]
  refine wp_bind.mpr (wp_quiet hzero trivial ?_)
  intro c₂
  have hread : (FileOp.read (m.artifact_id.path .db)).done env c₂ w
      = (.ok b, { w with passed := (m.artifact_id.path .db, b) :: w.passed }) := by
    simp [FileOp.done, hdb]
  rw [hread, hinspected]
  rfl

/-- **What is offered and complete passes `verify`.** -/
theorem wp_verify (hzero : w.faults = 0) (hoffered : Offered w m) (hc : Complete env w m b) :
    (verify env m.artifact_id).wp (exec env) (fun _ => True) (fun r _ => r = .ok m) w := by
  refine wp_bind.mpr (wp_mono wp_manifest (fun _ h => h) ?_)
  rintro (e | data) w₁ hends
  · exact absurd hoffered.toListed (hends.2.2 hzero m rfl)
  · obtain ⟨rfl, hid, hdata⟩ := hends
    have hsame : data = m := hoffered.eq_of_id hdata hid
    subst hsame
    refine wp_bind.mpr (wp_mono (wp_inspect_complete hzero hc) (fun _ h => h) ?_)
    rintro (e | actual) w₂ hr
    · cases hr
    · obtain rfl := Except.ok.inj hr
      show Prog.wp _ _ (if data.inspected ≠ data.inspected then _ else _) _ w₂
      rw [if_neg (not_not.mpr rfl)]
      rfl

end Verify

/-! ## Retention -/

/-- A step that takes files away, or changes nothing. -/
def FileOp.Drops (o : FileOp) : Prop := o.writes = [] ∨ ∃ p missing_ok, o = .unlink p missing_ok

/-- Every file is as it was, or gone. -/
def Shrinks (w w' : World) : Prop :=
  ∀ k s r, w'.files (.file k s r) = w.files (.file k s r) ∨ w'.files (.file k s r) = none

/-- A manifest goes after its database. -/
def DatabaseFirst (w w' : World) : Prop :=
  ∀ k s, w'.files (.file k s .manifest) = w.files (.file k s .manifest) ∨ w'.files (.file k s .db) = none

/-- The pairs of published databases. -/
def published_pairs (w : World) (k : Kind) : Touched :=
  fun k' s r => k' = k ∧ (r = .db ∨ r = .manifest) ∧ is_file (w.files (.file k s .manifest)) = true

section Retention

variable {env : Env} {w w' : World} {k : Kind}

/-- Taking a file away is all that such a step can do, also when it raises. -/
theorem exec_shrinks (o : FileOp) (ho : o.Drops) (c : Choice) (w : World) : Shrinks w (exec env o c w).2 := by
  rcases ho with hidle | ⟨p, missing_ok, rfl⟩
  · intro k s r
    refine .inl ((exec_frame (t := fun _ _ _ => False) o ?_ c w).file k s r id)
    intro p hp
    rw [hidle] at hp
    cases hp
  · intro k s r
    rcases exec_cases env (.unlink p missing_ok) c w with heq | ⟨-, -, heq⟩
    · rw [heq]
      simp only [FileOp.done]
      split
      · by_cases hp : Path.file k s r = p
        · rw [hp]
          exact .inr (remove_files_self w p)
        · exact .inl (remove_files_of_ne w hp)
      · split
        · exact .inl rfl
        · exact .inl rfl
    · rw [heq]
      exact .inl rfl

theorem prune_drops (keep_set stems : List Stem) :
    (prune k keep_set stems).Makes FileOp.Drops := by
  induction stems with
  | nil => trivial
  | cons s rest ih =>
      rw [prune]
      split
      · exact ih
      · refine Makes.bind (Makes.bind (Makes.attempt ?_) ?_) fun _ => ih
        · exact Makes.bind (makes_op (S := fileSig) (.inr ⟨_, _, rfl⟩)) fun _ =>
            makes_op (S := fileSig) (.inr ⟨_, _, rfl⟩)
        · intro r
          split
          · trivial
          · trivial
          · trivial

theorem Shrinks.trans {w'' : World} (h : Shrinks w w') (h' : Shrinks w' w'') : Shrinks w w'' := by
  intro k s r
  rcases h' k s r with hsame | hgone
  · rw [hsame]
    exact h k s r
  · exact .inr hgone

/-- What the loop has found to be published was so when the run began: up to here nothing was removed. -/
theorem leads_published (stems : List Stem) : (published k stems).Leads (exec env) (Same w)
    (fun l w' => w' = w ∧ ∀ s ∈ l, is_file (w.files (.file k s .manifest)) = true) w := by
  induction stems with
  | nil => exact ⟨rfl, nofun⟩
  | cons s rest ih =>
      refine leads_bind.mpr (wp_op.mpr ⟨.refl w, ?_⟩)
      intro c
      rw [exec_look]
      refine leads_bind.mpr (leads_mono ih ?_)
      rintro others w' ⟨rfl, hothers⟩
      refine ⟨rfl, ?_⟩
      intro s' hs'
      split at hs'
      · next hfile =>
          rcases List.mem_cons.mp hs' with rfl | hin
          · exact (Bool.and_eq_true_iff.mp hfile).2
          · exact hothers s' hin
      · exact hothers s' hs'

theorem leads_mtimes (stems : List Stem) : (mtimes k stems).Leads (exec env) (Same w)
    (fun l w' => w' = w ∧ l.map Prod.fst = stems) w := by
  induction stems with
  | nil => exact ⟨rfl, rfl⟩
  | cons s rest ih =>
      refine leads_bind.mpr (wp_act (.refl w) ?_ ?_)
      · intro c
        simp only [FileOp.done]
        split
        · refine leads_bind.mpr (leads_mono ih ?_)
          rintro others w' ⟨rfl, hothers⟩
          refine ⟨rfl, ?_⟩
          rw [List.map_cons, hothers]
        · exact .refl w
      · intro _ c
        exact same_spend w

/-- Sorting loses no candidate. -/
theorem mem_newest_candidates {stats : List (Stem × Mtime)} {s : Stem} :
    s ∈ newest_candidates stats ↔ s ∈ stats.map Prod.fst := by
  rw [newest_candidates]
  exact ((List.mergeSort_perm _ _).map Prod.fst).mem_iff

/-- What retention has done so far. -/
structure Pruned (k : Kind) (w w' : World) : Prop where
  frame : Frame (published_pairs w k) w w'
  shrinks : Shrinks w w'
  database_first : DatabaseFirst w w'

/-- The order inside a pair: the database may go at any time. -/
theorem databaseFirst_remove_db {w₁ : World} (h : DatabaseFirst w w₁) (k : Kind) (s : Stem) :
    DatabaseFirst w (w₁.remove (.file k s .db)) := by
  intro k' s'
  by_cases hself : Path.file k' s' .db = .file k s .db
  · rw [hself]
    exact .inr (remove_files_self w₁ _)
  · rw [remove_files_of_ne w₁ hself, remove_files_of_ne w₁ (by simp)]
    exact h k' s'

/-- The manifest may go once its database is gone. A manifest alone is read as "no artifact", while a
database without a manifest would stay on the disk for good. -/
theorem databaseFirst_remove_manifest {w₁ : World} (h : DatabaseFirst w w₁) {k : Kind} {s : Stem}
    (hgone : w₁.files (.file k s .db) = none) : DatabaseFirst w (w₁.remove (.file k s .manifest)) := by
  intro k' s'
  rw [remove_files_of_ne w₁ (p := .file k s .manifest) (q := .file k' s' .db) (by simp)]
  by_cases hself : Path.file k' s' .manifest = .file k s .manifest
  · injection hself with hk hs
    rw [hk, hs]
    exact .inr hgone
  · rw [remove_files_of_ne w₁ hself]
    exact h k' s'

/-- `suppress` catches an `OSError` of either step of a pair. If the first one raised, the second is not
tried, which is what keeps the order. -/
theorem wp_prune_order {w₁ : World} (h : DatabaseFirst w w₁) (k : Kind) (keep_set stems : List Stem) :
    (prune k keep_set stems).wp (exec env) (DatabaseFirst w) (fun _ => DatabaseFirst w) w₁ := by
  induction stems generalizing w₁ with
  | nil => exact h
  | cons s rest ih =>
      rw [prune]
      split
      · exact ih h
      -- the two steps of one pair, and what `suppress` makes of how they end
      have hpair : (do
          act (.unlink (.file k s .db) false)
          act (.unlink (.file k s .manifest) true) : Catalog Unit).wp (exec env) (DatabaseFirst w)
            (fun _ => DatabaseFirst w) w₁ := by
        refine wp_bind.mpr (wp_act h ?_ ?_)
        · intro c
          rcases hdb : w₁.files (.file k s .db) with _ | node
          · have hdone : (FileOp.unlink (.file k s .db) false).done env c w₁ = (.error .OSError, w₁) := by
              simp [FileOp.done, hdb]
            rw [hdone]
            exact h
          · have hdone : (FileOp.unlink (.file k s .db) false).done env c w₁
                = (.ok (), w₁.remove (.file k s .db)) := by
              simp [FileOp.done, hdb]
            rw [hdone]
            have hgone : (w₁.remove (.file k s .db)).files (.file k s .db) = none := remove_files_self w₁ _
            refine wp_act (databaseFirst_remove_db h k s) ?_ ?_
            · intro c'
              obtain ⟨w₂, hdone, hw₂, -⟩ := unlink_gone env (.file k s .manifest) c' (w₁.remove (.file k s .db))
              rw [hdone]
              rcases hw₂ with rfl | rfl
              · exact databaseFirst_remove_db h k s
              · exact databaseFirst_remove_manifest (databaseFirst_remove_db h k s) hgone
            · intro _ c'
              exact databaseFirst_remove_db h k s
        · intro _ c
          exact h
      refine wp_bind.mpr (wp_bind.mpr (wp_attempt.mpr (wp_mono hpair (fun _ h => h) ?_)))
      rintro ((_ | _ | _ | _ | _) | u) w₂ hw₂
      · exact hw₂
      · exact hw₂
      · exact hw₂
      · exact ih hw₂
      · exact hw₂
      · exact ih hw₂

/-- **Retention takes away published pairs, and nothing else.** -/
theorem wp_retention (k : Kind) (keep : ℕ) :
    (retention_prune k keep).wp (exec env) (Pruned k w) (fun _ => Pruned k w) w := by
  have hstill : ∀ {w'}, Frame (fun _ _ _ => False) w w' → Same w w' → Pruned k w w' := by
    intro w' hframe hsame
    refine ⟨hframe.mono nofun, fun k s r => .inl ?_, fun k s => .inl ?_⟩
    · rw [hsame.files]
    · rw [hsame.files]
  have hidle : ∀ {α : Type} {p : Catalog α} {R : α → World → Prop}, Within (fun _ _ _ => False) p →
      p.Leads (exec env) (Same w) (fun a w' => w' = w ∧ R a w') w →
      p.Leads (exec env) (Pruned k w) (fun a w' => w' = w ∧ R a w') w := by
    intro α p R hp h
    refine wp_mono (wp_and (within_wp hp w) h) ?_ ?_
    · rintro w' ⟨hframe, hsame⟩
      exact hstill hframe hsame
    · rintro (e | a) w' ⟨hframe, hends⟩
      · exact hstill hframe hends
      · exact hends
  have hleads : (retention_prune k keep).Leads (exec env) (Pruned k w) (fun _ => Pruned k w) w := by
    refine leads_bind.mpr (leads_mono (hidle (R := fun _ _ => True) (within_idle rfl) ?_) ?_)
    · exact wp_act (.refl w) (fun c => ⟨rfl, trivial⟩) fun _ c => same_spend w
    rintro stems w₁ ⟨rfl, -⟩
    refine leads_bind.mpr (leads_mono (hidle (R := fun l _ => ∀ s ∈ l,
      is_file (w₁.files (.file k s .manifest)) = true) (within_published k stems) (leads_published stems)) ?_)
    rintro found w₂ ⟨rfl, hfound⟩
    refine leads_bind.mpr (leads_mono (hidle (R := fun l _ => l.map Prod.fst = found)
      (within_mtimes k found) (leads_mtimes found)) ?_)
    rintro stats w₃ ⟨rfl, hstats⟩
    refine leads_bind.mpr (leads_mono (hidle (R := fun l _ => l.map Prod.fst = newest_candidates stats)
      (within_mtimes k _) (leads_mtimes _)) ?_)
    rintro stats₂ w₄ ⟨rfl, -⟩
    rcases days stats₂ with _ | found_days
    · exact hstill (Frame.refl _ _) (.refl _)
    -- only now something goes
    have hcandidates : ∀ k' s r, pairs k (newest_candidates stats) k' s r → published_pairs w₄ k k' s r := by
      rintro k' s r ⟨rfl, hs, hr⟩
      refine ⟨rfl, hr, hfound s ?_⟩
      rw [← hstats]
      exact mem_newest_candidates.mp hs
    have hwithin := within_mono (within_prune k
      ((newest_candidates stats).take keep ++ newest_per_day found_days keep) (newest_candidates stats)) hcandidates
    have hdrops := (prune_drops (k := k)
      ((newest_candidates stats).take keep ++ newest_per_day found_days keep) (newest_candidates stats)).mono
      fun o ho c w => @exec_shrinks env o ho c w
    have hshrinks := wp_of_makes (R := Shrinks) (w := w₄) (fun _ _ _ _ => .inl rfl)
      (fun _ _ _ => Shrinks.trans) hdrops
    refine wp_mono (wp_and (within_wp hwithin w₄) (wp_and hshrinks (wp_prune_order (w := w₄) ?_ k _ _))) ?_ ?_
    · intro k' s
      exact .inl rfl
    · rintro w' ⟨hframe, hshrinks, horder⟩
      exact ⟨hframe, hshrinks, horder⟩
    · rintro (e | u) w' ⟨hframe, hshrinks, horder⟩
      · exact ⟨hframe, hshrinks, horder⟩
      · exact ⟨hframe, hshrinks, horder⟩
  refine wp_mono hleads (fun _ h => h) ?_
  rintro (e | u) w' h
  · exact h
  · exact h

end Retention

end OpenChronicle.Backup
