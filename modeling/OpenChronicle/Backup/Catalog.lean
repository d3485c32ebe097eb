/-
The catalog offers only complete, verified snapshots.

A manifest is there only beside a database that has passed `_inspect` with the values that the manifest
records, or beside none (`Sound`). The call that could break this is `create`, and it is followed for
one artifact, whose name is new: up to the manifest it writes nothing that the catalog reads, and once
the manifest is renamed, a step that raises is the last one that may, so that the database is taken away
again.

The proof of `create` follows its text. Each part has a definition that says how it ends: `Snapped` for
what comes before the manifest, `Writing` for the temporary file, `PublishEnds` and `CleanEnds` for the
rename and for what is done after it. The step that matters is the rename. Before it there is no
manifest, so the pair is sound whatever else went wrong; after it the manifest is the new one, and the
database it speaks of is the one that was inspected, since nothing between the two writes to it
(`Fresh.frame`).

A call may raise once: `w.faults ≤ 1`. With a second fault, in the removal of the database after the
first, a call could raise and leave a complete artifact behind, which would be sound too but not what
its caller was told.
-/
import OpenChronicle.Backup.Frame

set_option autoImplicit false

namespace OpenChronicle.Backup

open Program Prog

/-! ## The invariant -/

/-- The manifest records what `_inspect` finds in the file. -/
def Vouches (env : Env) (m : Manifest) (b : Bytes) : Prop :=
  ∃ content, (env.report b).checked = .inr content
    ∧ m.inspected = content.inspected b.length (env.sha256 b)

/-- The database of a manifest is as it was when it passed. -/
structure Complete (env : Env) (w : World) (m : Manifest) (b : Bytes) : Prop where
  db : ∃ time, w.files (m.artifact_id.path .db) = some (.file b time)
  manifest : ∃ time, w.files (m.artifact_id.path .manifest) = some (.json m time)
  passed : (m.artifact_id.path .db, b) ∈ w.passed
  vouches : Vouches env m b
  no_wal : w.files (m.artifact_id.path .wal) = none
  no_shm : w.files (m.artifact_id.path .shm) = none

/-- There is no manifest for the stem, or one that is right. -/
def PairSound (env : Env) (w : World) (k : Kind) (s : Stem) : Prop :=
  w.files (.file k s .manifest) = none
    ∨ ∃ m time, k = m.artifact_id.kind ∧ s = m.artifact_id.stem
      ∧ is_name m.artifact_id.name = true ∧ w.files (.file k s .manifest) = some (.json m time)
      ∧ (w.files (.file k s .db) = none ∨ ∃ b, Complete env w m b)

/-- The invariant of the catalog. `Registered` is in it since a pair is found through its stem. -/
structure Sound (env : Env) (w : World) : Prop where
  registered : Registered w
  pair : ∀ k s, PairSound env w k s

/-- What `_manifest` asks for. -/
structure Listed (w : World) (m : Manifest) : Prop where
  name : is_name m.artifact_id.name = true
  db : is_file (w.files (m.artifact_id.path .db)) = true
  db_no_link : is_symlink (w.files (m.artifact_id.path .db)) = false
  manifest : ∃ time, w.files (m.artifact_id.path .manifest) = some (.json m time)

/-- What `list` finds of an artifact. -/
structure Offered (w : World) (m : Manifest) : Prop extends Listed w m where
  dir : is_dir (w.files (.dir m.artifact_id.kind)) = true
  no_link : is_symlink (w.files (.dir m.artifact_id.kind)) = false

section Invariant

variable {env : Env} {w w' : World} {m : Manifest} {k : Kind} {s : Stem}

/-- **What is offered is complete.** -/
theorem Sound.complete (h : Sound env w) (ho : Offered w m) : ∃ b, Complete env w m b := by
  obtain ⟨time, hmanifest⟩ := ho.manifest
  rcases h.pair m.artifact_id.kind m.artifact_id.stem with hnone | ⟨m', time', -, -, -, hm', hrest⟩
  · rw [ArtifactId.path, hnone] at hmanifest
    cases hmanifest
  · rw [ArtifactId.path, hm'] at hmanifest
    injection hmanifest with hnode
    injection hnode with hsame
    subst hsame
    rcases hrest with hgone | hcomplete
    · have hdb := ho.db
      rw [ArtifactId.path, hgone] at hdb
      cases hdb
    · exact hcomplete

/-- A pair is sound as long as its files stay, and its inspections are not forgotten. -/
theorem PairSound.keep (h : PairSound env w k s)
    (hfiles : ∀ r, w'.files (.file k s r) = w.files (.file k s r))
    (hpassed : ∀ x ∈ w.passed, x ∈ w'.passed) : PairSound env w' k s := by
  rcases h with hnone | ⟨m, time, rfl, rfl, hname, hmanifest, hrest⟩
  · exact .inl ((hfiles _).trans hnone)
  · refine .inr ⟨m, time, rfl, rfl, hname, (hfiles _).trans hmanifest, ?_⟩
    rcases hrest with hgone | ⟨b, hc⟩
    · exact .inl ((hfiles _).trans hgone)
    · refine .inr ⟨b, ⟨?_, ?_, hpassed _ hc.passed, hc.vouches, ?_, ?_⟩⟩
      · obtain ⟨time', hdb⟩ := hc.db
        exact ⟨time', (hfiles _).trans hdb⟩
      · obtain ⟨time', hm⟩ := hc.manifest
        exact ⟨time', (hfiles _).trans hm⟩
      · exact (hfiles _).trans hc.no_wal
      · exact (hfiles _).trans hc.no_shm

/-- An offer depends on three entries of the disk. -/
theorem Offered.keep (h : Offered w m) (hdir : w'.files (.dir m.artifact_id.kind) = w.files (.dir m.artifact_id.kind))
    (hdb : w'.files (m.artifact_id.path .db) = w.files (m.artifact_id.path .db))
    (hmanifest : w'.files (m.artifact_id.path .manifest) = w.files (m.artifact_id.path .manifest)) :
    Offered w' m := by
  refine ⟨⟨h.name, ?_, ?_, ?_⟩, ?_, ?_⟩
  · rw [hdb]
    exact h.db
  · rw [hdb]
    exact h.db_no_link
  · rw [hmanifest]
    exact h.manifest
  · rw [hdir]
    exact h.dir
  · rw [hdir]
    exact h.no_link

end Invariant

/-! ## Single steps -/

section Steps

variable {env : Env} {w : World} {I : World → Prop}

@[simp] theorem write_faults (w : World) (p : Path) (node : Node) : (w.write p node).faults = w.faults := by
  rw [World.write]
  split
  · rfl
  · rfl

/-- A question cannot raise, and answers what is there. -/
theorem exec_look (env : Env) (p : Path) (c : Choice) (w : World) :
    exec env (.look p) c w = (.ok (w.files p), w) := by
  simp [exec, FileOp.raises, FileOp.done]

/-- A step that goes its way, and one that raises. -/
theorem wp_act {o : FileOp} {Q : Except Fault o.Resp → World → Prop} (hI : I w)
    (hdone : ∀ c, Q (o.done env c w).1 (o.done env c w).2)
    (hfailed : 0 < w.faults → ∀ c, Q (o.failed c { w with faults := w.faults - 1 }).1
      (o.failed c { w with faults := w.faults - 1 }).2) :
    (act o).wp (exec env) I Q w := by
  refine wp_op.mpr ⟨hI, ?_⟩
  intro c
  rcases exec_cases env o c w with heq | ⟨hfaults, -, heq⟩
  · rw [heq]
    exact hdone c
  · rw [heq]
    exact hfailed hfaults c

/-- How a program goes on after a question. -/
theorem wp_asked {question : Option Node → Bool} {p : Path} {Q : Except Fault Bool → World → Prop}
    (hI : I w) (hQ : Q (.ok (question (w.files p))) w) : (asked question p).wp (exec env) I Q w := by
  refine wp_bind.mpr (wp_op.mpr ⟨hI, ?_⟩)
  intro c
  rw [exec_look]
  exact hQ

/-- A chain of questions answers what they would. -/
theorem wp_any_of (questions : List ((Option Node → Bool) × Path)) {Q : Except Fault Bool → World → Prop}
    (hI : I w) (hQ : Q (.ok (questions.any fun x => x.1 (w.files x.2))) w) :
    (any_of (questions.map fun x => asked x.1 x.2)).wp (exec env) I Q w := by
  induction questions with
  | nil => exact hQ
  | cons x rest ih =>
      refine wp_bind.mpr (wp_asked hI ?_)
      rw [List.any_cons] at hQ
      by_cases hyes : x.1 (w.files x.2) = true
      · simp only [hyes, Bool.true_or, if_true] at hQ ⊢
        exact hQ
      · simp only [hyes, Bool.false_or] at hQ ⊢
        exact ih hQ

end Steps

/-! ## `_inspect` -/

section Inspect

variable {env : Env} {w : World} {id : ArtifactId}

/-- What `_inspect` has seen of a file that it lets pass. -/
structure Passed (env : Env) (id : ArtifactId) (inspected : Inspected) (w : World) : Prop where
  file : ∃ b time, w.files (id.path .db) = some (.file b time) ∧ (id.path .db, b) ∈ w.passed
    ∧ ∃ content, (env.report b).checked = .inr content
      ∧ inspected = content.inspected b.length (env.sha256 b)

/-- The checks of SQLite have been answered well, by the very file that is read afterwards. -/
theorem leads_query : (query id).Leads (exec env) (fun _ => True)
    (fun content w' => ∃ b time, w'.files (id.path .db) = some (.file b time)
      ∧ (env.report b).checked = .inr content) w := by
  refine leads_bind.mpr (wp_attempt.mpr ?_)
  refine wp_act trivial ?_ ?_
  · intro c
    simp only [FileOp.done]
    split
    · next b time hfile =>
        dsimp only [Ends]
        split
        · trivial
        · next content hchecked => exact ⟨b, time, hfile, hchecked⟩
    · trivial
  · intro _ c
    trivial

/-- What `_inspect` returns are the values of the file that stands there when it returns. -/
theorem leads_inspect : (inspect env id).Leads (exec env) (fun _ => True) (Passed env id) w := by
  refine leads_bind.mpr ?_
  refine wp_any_of [(is_symlink, id.path .db), (fun n => !is_file n, id.path .db)] trivial ?_
  show Leads _ _ (if _ then _ else _) _ w
  split
  · trivial
  refine leads_bind.mpr ?_
  refine wp_any_of [(found, id.path .wal), (found, id.path .shm)] trivial ?_
  show Leads _ _ (if _ then _ else _) _ w
  split
  · trivial
  refine leads_bind.mpr (leads_mono leads_query ?_)
  rintro content w₁ ⟨b, time, hfile, hchecked⟩
  refine leads_bind.mpr (wp_act trivial ?_ ?_)
  · intro c
    simp only [FileOp.done, hfile]
    refine leads_bind.mpr (wp_act trivial ?_ ?_)
    · intro c'
      simp only [FileOp.done, hfile]
      exact ⟨b, time, hfile, by simp, content, hchecked, rfl⟩
    · intro _ c'
      trivial
  · intro _ c
    trivial

end Inspect

/-! ## `create` -/

section Create

variable {env : Env} {w : World} {id : ArtifactId} {m : Manifest}

/-- A directory stays. -/
theorem leads_dir {α : Type} {t : Touched} {p : Catalog α} {k : Kind} (hp : Within t p)
    (hdir : w.files (.dir k) = some .dir) : p.Leads (exec env) (fun _ => True)
      (fun _ w' => w'.files (.dir k) = some .dir) w := by
  refine wp_mono (within_wp hp w) (fun _ _ => trivial) ?_
  rintro (e | a) w' hframe
  · trivial
  · show w'.files (.dir k) = some .dir
    rw [hframe.dir k (by rw [hdir]; nofun)]
    exact hdir

/-- The directory is there, and it is one: a link or a file in its place is refused. -/
theorem leads_prepare (k : Kind) : (prepare env k).Leads (exec env) (fun _ => True)
    (fun _ w' => w'.files (.dir k) = some .dir) w := by
  refine leads_bind.mpr (leads_mono (leads_trivial (check_root env) w) ?_)
  intro _ w₁ _
  refine leads_bind.mpr (wp_act trivial ?_ fun _ _ => trivial)
  intro c
  -- whatever `mkdir` finds or makes is a directory, or a link to one
  have hmade : ∀ u w₂, (FileOp.mkdir k).done env c w₁ = (.ok u, w₂) → is_dir (w₂.files (.dir k)) = true := by
    intro u w₂ hdone
    simp only [FileOp.done] at hdone
    split at hdone
    · obtain ⟨-, rfl⟩ := Prod.mk.inj hdone
      simp [is_dir]
    · next hdir =>
        obtain ⟨-, rfl⟩ := Prod.mk.inj hdone
        rw [hdir]
        rfl
    · next hdir =>
        obtain ⟨-, rfl⟩ := Prod.mk.inj hdone
        rw [hdir]
        rfl
    · cases hdone
  rcases hdone : (FileOp.mkdir k).done env c w₁ with ⟨_ | u, w₂⟩
  · trivial
  · have hdir := hmade u w₂ hdone
    refine leads_bind.mpr (wp_asked trivial ?_)
    show Leads _ _ (if _ then _ else _) _ w₂
    split
    · trivial
    next hlink =>
      have hthere : w₂.files (.dir k) = some .dir := by
        rcases hnode : w₂.files (.dir k) with _ | (_ | _ | _ | target)
        · rw [hnode] at hdir
          cases hdir
        · rw [hnode] at hdir
          cases hdir
        · rw [hnode] at hdir
          cases hdir
        · rfl
        · rw [hnode] at hlink
          exact absurd rfl hlink
      refine leads_dir (t := fun _ _ _ => False) ?_ hthere
      refine within_bind (within_idle rfl) fun _ => within_bind (within_idle rfl) fun _ => ?_
      exact within_ite (within_refuse _) (within_pure _)

/-- What a program keeps, beside what it leads to. -/
theorem within_leads {α : Type} {t : Touched} {p : Catalog α} {R : α → World → Prop} (hp : Within t p)
    (h : p.Leads (exec env) (fun _ => True) R w) :
    p.Leads (exec env) (Frame t w) (fun a w' => Frame t w w' ∧ R a w') w := by
  refine wp_mono (wp_and (within_wp hp w) h) (fun _ h => h.1) ?_
  rintro (e | a) w' ⟨hframe, hr⟩
  · exact hframe
  · exact ⟨hframe, hr⟩

/-- What stands when the manifest is to be written. -/
structure Snapped (env : Env) (id : ArtifactId) (inspected : Inspected) (w : World) : Prop where
  dir : w.files (.dir id.kind) = some .dir
  name : is_name id.name = true
  passed : Passed env id inspected w

/-- Everything up to the manifest, for a name that no file has yet. -/
theorem leads_snapshot : (snapshot env id).Leads (exec env) (fun _ => True) (Snapped env id) w := by
  refine leads_bind.mpr (leads_mono (leads_prepare id.kind) ?_)
  intro _ w₁ hdir
  show Leads _ _ (if _ then _ else _) _ w₁
  split
  · trivial
  next hname =>
    refine leads_bind.mpr (leads_mono (leads_dir within_backup hdir) ?_)
    intro _ w₂ hdir₂
    refine leads_bind.mpr (leads_mono (leads_dir (t := fun _ _ _ => False) (within_idle rfl) hdir₂) ?_)
    intro _ w₃ hdir₃
    refine leads_bind.mpr (leads_mono (leads_dir (t := fun _ _ _ => False) (within_idle rfl) hdir₃) ?_)
    intro _ w₄ hdir₄
    refine leads_bind.mpr (wp_attempt.mpr ?_)
    refine wp_mono (wp_and (leads_dir (t := fun _ _ _ => False) within_inspect hdir₄) leads_inspect)
      (fun _ _ => trivial) ?_
    rintro (e | inspected) w₅ ⟨hdir₅, hpassed⟩
    · rcases e with message | _ | _ | _ | _
      · refine leads_bind.mpr (leads_mono (leads_trivial _ w₅) fun _ w₆ _ => ?_)
        exact leads_bind.mpr (leads_mono (leads_trivial _ w₆) fun _ _ _ => trivial)
      · trivial
      · trivial
      · trivial
      · trivial
    · exact ⟨hdir₅, by simpa using hname, hpassed⟩

/-- The manifest is not there yet, or it is the new one. -/
def Published (id : ArtifactId) (m : Manifest) (w : World) : Prop :=
  ∃ time, w.files (id.path .manifest) = some (.json m time)

/-- How `_publish_manifest` ends: if it raises, nothing after it does. -/
def PublishEnds (id : ArtifactId) (m : Manifest) : Except Fault Unit → World → Prop
  | .ok _, w => Published id m w
  | .error _, w => w.faults = 0 ∧ (w.files (id.path .manifest) = none ∨ Published id m w)

/-- What stands while the temporary file is written. -/
structure Writing (id : ArtifactId) (w : World) : Prop where
  faults : w.faults ≤ 1
  dir : w.files (.dir id.kind) = some .dir
  manifest : w.files (id.path .manifest) = none

theorem Writing.housed (h : Writing id w) (r : Role) : w.housed (id.path r) = true := by
  simp [World.housed, ArtifactId.path, h.dir]

/-- The temporary file has a name of its own, so that the manifest is still missing. -/
theorem Writing.write (h : Writing id w) (node : Node) :
    Writing id (w.write (id.path .manifest_temp) node)
      ∧ (w.write (id.path .manifest_temp) node).files (id.path .manifest_temp) = some node := by
  rw [World.write, if_pos (h.housed _)]
  refine ⟨⟨h.faults, (put_file_dir _ _ _ _ _ _).trans h.dir, ?_⟩, put_files_self _ _ _⟩
  exact (put_files_of_ne w (by simp [ArtifactId.path]) node).trans h.manifest

/-- The one fault that is left is spent by the step that raises. -/
theorem Writing.spend (h : Writing id w) (hfaults : 0 < w.faults) :
    Writing id { w with faults := w.faults - 1 } ∧ w.faults - 1 = 0 := by
  have hone := h.faults
  exact ⟨⟨by show w.faults - 1 ≤ 1; omega, h.dir, h.manifest⟩, by omega⟩

/-- What is unlinked if it is there is gone. -/
theorem unlink_gone (env : Env) (p : Path) (c : Choice) (w : World) :
    ∃ w', (FileOp.unlink p true).done env c w = (.ok (), w') ∧ (w' = w ∨ w' = w.remove p)
      ∧ w'.files p = none := by
  rcases hp : w.files p with _ | node
  · exact ⟨w, by simp [FileOp.done, hp], .inl rfl, hp⟩
  · exact ⟨w.remove p, by simp [FileOp.done, hp], .inr rfl, remove_files_self w p⟩

/-- How it ends, if its body has ended with `r`. -/
def CleanEnds (id : ArtifactId) (m : Manifest) (r : Except Fault Unit) : Except Fault Unit → World → Prop
  | .ok _, w => PublishEnds id m r w
  | .error e, w => PublishEnds id m (.error e) w

/-- The last part of `_publish_manifest` takes the temporary file away. -/
theorem wp_clean {r : Except Fault Unit} (hfaults : w.faults ≤ 1) (h : PublishEnds id m r w) :
    (act (.unlink (id.path .manifest_temp) true)).wp (exec env)
      (fun w' => w'.files (id.path .manifest) = none ∨ Published id m w')
      (CleanEnds id m r) w := by
  have hstands : w.files (id.path .manifest) = none ∨ Published id m w := by
    rcases r with e | u
    · exact h.2
    · exact .inr h
  refine wp_act hstands ?_ ?_
  · intro c
    obtain ⟨w', hdone, hw', -⟩ := unlink_gone env (id.path .manifest_temp) c w
    rw [hdone]
    have hsame : w'.files (id.path .manifest) = w.files (id.path .manifest) ∧ w'.faults = w.faults := by
      rcases hw' with rfl | rfl
      · exact ⟨rfl, rfl⟩
      · exact ⟨remove_files_of_ne w (by simp [ArtifactId.path]), rfl⟩
    rcases r with e | u
    · show w'.faults = 0 ∧ _
      rw [Published, hsame.1, hsame.2]
      exact h
    · show Published id m w'
      rw [Published, hsame.1]
      exact h
  · intro hone c
    refine ⟨?_, hstands⟩
    show w.faults - 1 = 0
    omega

section Temp

variable {I : World → Prop} {Q : Except Fault Unit → World → Prop}

/-- The file is opened anew. It cannot be there already, as the name of the artifact is new. -/
theorem wp_open_temp (hw : Writing id w) (htemp : w.files (id.path .manifest_temp) = none) (hI : I w)
    (hok : ∀ w₁, Writing id w₁ → Q (.ok ()) w₁)
    (herror : ∀ e w₁, Writing id w₁ → w₁.faults = 0 → Q (.error e) w₁) :
    (act (.open_new (id.path .manifest_temp))).wp (exec env) I Q w := by
  refine wp_act hI ?_ ?_
  · intro c
    have hdone : (FileOp.open_new (id.path .manifest_temp)).done env c w
        = (.ok (), w.write (id.path .manifest_temp) (.file [] c.now)) := by
      simp [FileOp.done, htemp, World.written, hw.housed]
    rw [hdone]
    exact hok _ (hw.write _).1
  · intro hone c
    obtain ⟨hspent, hzero⟩ := hw.spend hone
    exact herror _ _ hspent hzero

/-- Part of the text may be written when the step raises. -/
theorem wp_write_temp (hw : Writing id w) (hI : I w) (hok : ∀ w₁, Writing id w₁ → Q (.ok ()) w₁)
    (herror : ∀ e w₁, Writing id w₁ → w₁.faults = 0 → Q (.error e) w₁) :
    (act (.write_some (id.path .manifest_temp))).wp (exec env) I Q w := by
  refine wp_act hI ?_ ?_
  · intro c
    have hdone : (FileOp.write_some (id.path .manifest_temp)).done env c w
        = (.ok (), w.write (id.path .manifest_temp) (.file c.bytes c.now)) := by
      simp [FileOp.done, World.written, hw.housed]
    rw [hdone]
    exact hok _ (hw.write _).1
  · intro hone c
    obtain ⟨hspent, hzero⟩ := hw.spend hone
    exact herror _ _ (hspent.write _).1 ((write_faults _ _ _).trans hzero)

/-- The whole of it. -/
theorem wp_write_payload (hw : Writing id w) (hI : I w)
    (hok : ∀ w₁ time, Writing id w₁ → w₁.files (id.path .manifest_temp) = some (.json m time) → Q (.ok ()) w₁)
    (herror : ∀ e w₁, Writing id w₁ → w₁.faults = 0 → Q (.error e) w₁) :
    (act (.write_manifest (id.path .manifest_temp) m)).wp (exec env) I Q w := by
  refine wp_act hI ?_ ?_
  · intro c
    have hdone : (FileOp.write_manifest (id.path .manifest_temp) m).done env c w
        = (.ok (), w.write (id.path .manifest_temp) (.json m c.now)) := by
      simp [FileOp.done, World.written, hw.housed]
    rw [hdone]
    exact hok _ c.now (hw.write _).1 (hw.write _).2
  · intro hone c
    obtain ⟨hspent, hzero⟩ := hw.spend hone
    exact herror _ _ (hspent.write _).1 ((write_faults _ _ _).trans hzero)

/-- A flush that raises leaves the file as it is. -/
theorem wp_fsync (hI : I w) (hok : Q (.ok ()) w)
    (herror : ∀ e, 0 < w.faults → Q (.error e) { w with faults := w.faults - 1 }) :
    (act .fsync).wp (exec env) I Q w := by
  refine wp_act hI ?_ ?_
  · intro c
    exact hok
  · intro hone c
    exact herror _ hone

/-- The step that publishes. A rename that raises has not renamed. -/
theorem wp_rename {time : Mtime} (hw : Writing id w)
    (htemp : w.files (id.path .manifest_temp) = some (.json m time)) (hI : I w)
    (hok : ∀ w₁, w₁.faults ≤ 1 → Published id m w₁ → Q (.ok ()) w₁)
    (herror : ∀ e w₁, Writing id w₁ → w₁.faults = 0 → Q (.error e) w₁) :
    (act (.replace (id.path .manifest_temp) (id.path .manifest))).wp (exec env) I Q w := by
  refine wp_act hI ?_ ?_
  · intro c
    have hdone : (FileOp.replace (id.path .manifest_temp) (id.path .manifest)).done env c w
        = (.ok (), (w.remove (id.path .manifest_temp)).put (id.path .manifest) (.json m time)) := by
      simp [FileOp.done, htemp, hw.housed]
    rw [hdone]
    exact hok _ hw.faults ⟨time, put_files_self _ _ _⟩
  · intro hone c
    obtain ⟨hspent, hzero⟩ := hw.spend hone
    exact herror _ _ hspent hzero

end Temp

/-- **`_publish_manifest`**: the manifest is whole or not there, and a step that raises is the
last one that may. -/
theorem wp_publish (hw : Writing id w) (htemp : w.files (id.path .manifest_temp) = none) :
    (publish_manifest id m).wp (exec env)
      (fun w' => w'.files (id.path .manifest) = none ∨ Published id m w') (PublishEnds id m) w := by
  have hearly : ∀ (e : Fault) (w₁ : World), Writing id w₁ → w₁.faults = 0 →
      w₁.faults ≤ 1 ∧ PublishEnds id m (.error e) w₁ :=
    fun _ _ hw₁ hzero => ⟨by omega, hzero, .inl hw₁.manifest⟩
  refine wp_tryFinally (wp_mono (Q := fun r w' => w'.faults ≤ 1 ∧ PublishEnds id m r w') ?_
    (fun _ h => h) ?_)
  swap
  · intro r w₁ h
    refine wp_mono (wp_clean h.1 h.2) (fun _ h => h) ?_
    rintro (e | u) w₂ hends
    · exact hends
    · exact hends
  refine wp_bind.mpr (wp_open_temp hw htemp (.inl hw.manifest) ?_ hearly)
  intro w₁ hw₁
  refine wp_bind.mpr (wp_write_temp hw₁ (.inl hw₁.manifest) ?_ hearly)
  intro w₂ hw₂
  refine wp_bind.mpr (wp_write_payload hw₂ (.inl hw₂.manifest) ?_ hearly)
  intro w₃ time hw₃ hjson
  refine wp_bind.mpr (wp_fsync (.inl hw₃.manifest) ?_ ?_)
  · refine wp_bind.mpr (wp_rename hw₃ hjson (.inl hw₃.manifest) ?_ hearly)
    intro w₄ hfaults hpublished
    refine wp_fsync (.inr hpublished) ⟨hfaults, hpublished⟩ ?_
    intro e hone
    refine ⟨?_, ?_, .inr hpublished⟩
    · show w₄.faults - 1 ≤ 1
      omega
    · show w₄.faults - 1 = 0
      omega
  · intro e hone
    obtain ⟨hspent, hzero⟩ := hw₃.spend hone
    exact hearly e _ hspent hzero

/-- All that `create` writes. -/
def create_roles : List Role := snapshot_roles ++ [.manifest_temp, .manifest]

/-- No file has the name yet. -/
structure Fresh (w : World) (id : ArtifactId) : Prop where
  registered : Registered w
  unused : id.stem ∉ w.stems id.kind

/-- None of the files of the artifact is there, in particular no `-wal` or `-shm` beside its database. -/
theorem Fresh.absent (h : Fresh w id) (r : Role) : w.files (id.path r) = none := by
  by_contra hsome
  exact h.unused (h.registered.stem id.kind id.stem r hsome)

/-- A file that the program does not write is not there, if it was not. -/
theorem Fresh.frame {w' : World} {roles : List Role} (h : Fresh w id) (hframe : Frame (own id roles) w w')
    (r : Role) (hr : r ∉ roles) : w'.files (id.path r) = none :=
  (hframe.file id.kind id.stem r fun ⟨_, _, hin⟩ => hr hin).trans (h.absent r)

/-- How `create` ends. -/
def CreateEnds (env : Env) (id : ArtifactId) (w : World) : Except Fault Manifest → World → Prop
  | .ok m, w' => Frame (own id create_roles) w w' ∧ PairSound env w' id.kind id.stem
      ∧ m.artifact_id = id ∧ Offered w' m
  | .error _, w' => Frame (own id create_roles) w w' ∧ PairSound env w' id.kind id.stem
      ∧ ∀ m, m.artifact_id = id → ¬ Offered w' m

/-- The manifest stands beside a database that has passed. -/
theorem Snapped.complete {w₁ w' : World} {inspected : Inspected} {created_at : String}
    (h : Snapped env id inspected w₁) (hframe : Frame (own id [.manifest_temp, .manifest]) w₁ w')
    (hwal : w₁.files (id.path .wal) = none) (hshm : w₁.files (id.path .shm) = none)
    (hpublished : Published id ⟨id, created_at, inspected⟩ w') :
    ∃ b, Complete env w' ⟨id, created_at, inspected⟩ b := by
  have hkept : ∀ {r}, r ∉ [Role.manifest_temp, .manifest] → w'.files (id.path r) = w₁.files (id.path r) :=
    fun hr => hframe.file id.kind id.stem _ fun ⟨_, _, hin⟩ => hr hin
  obtain ⟨b, time, hdb, hpassed, hvouches⟩ := h.passed.file
  refine ⟨b, ⟨time, ?_⟩, hpublished, hframe.passed _ hpassed, hvouches, ?_, ?_⟩
  · exact (hkept (by simp)).trans hdb
  · exact (hkept (by simp)).trans hwal
  · exact (hkept (by simp)).trans hshm

/-- The pair is sound at each step of the publication. -/
theorem pairSound_of_published {w' : World} (hid : m.artifact_id = id) (hname : is_name id.name = true)
    (hpublished : Published id m w')
    (hdb : w'.files (id.path .db) = none ∨ ∃ b, Complete env w' m b) :
    PairSound env w' id.kind id.stem := by
  obtain ⟨time, hmanifest⟩ := hpublished
  subst hid
  exact .inr ⟨m, time, rfl, rfl, hname, hmanifest, hdb⟩

/-- **`create`, at each of its steps and at its end.** -/
theorem wp_create (hfresh : Fresh w id) (hfaults : w.faults ≤ 1) (created_at : String) :
    (create env id created_at).wp (exec env)
      (fun w' => Frame (own id create_roles) w w' ∧ PairSound env w' id.kind id.stem)
      (CreateEnds env id w) w := by
  have hsnapshot : ∀ {w₁}, Frame (own id snapshot_roles) w w₁ → Frame (own id create_roles) w w₁ :=
    fun h => h.mono (own_mono (by simp [create_roles]))
  refine wp_bind.mpr (wp_mono (within_leads within_snapshot leads_snapshot) ?_ ?_)
  · intro w₁ hframe
    exact ⟨hsnapshot hframe, .inl (hfresh.frame hframe .manifest (by decide))⟩
  rintro (e | inspected) w₁ hends
  · have hframe : Frame (own id snapshot_roles) w w₁ := hends
    have hnone : w₁.files (id.path .manifest) = none := hfresh.frame hframe .manifest (by decide)
    refine ⟨hsnapshot hframe, .inl hnone, ?_⟩
    rintro m rfl hoffered
    obtain ⟨time, hmanifest⟩ := hoffered.manifest
    rw [hnone] at hmanifest
    cases hmanifest
  -- the manifest is written
  obtain ⟨hframe, hsnapped⟩ : Frame (own id snapshot_roles) w w₁ ∧ Snapped env id inspected w₁ := hends
  have hwriting : Writing id w₁ :=
    ⟨Nat.le_trans hframe.faults hfaults, hsnapped.dir, hfresh.frame hframe .manifest (by decide)⟩
  have htrans : ∀ {w₂}, Frame (own id [.manifest_temp, .manifest]) w₁ w₂ →
      Frame (own id create_roles) w w₂ :=
    fun h => (hsnapshot hframe).trans (h.mono (own_mono (by simp [create_roles])))
  have hcomplete : ∀ {w₂}, Frame (own id [.manifest_temp, .manifest]) w₁ w₂ →
      Published id ⟨id, created_at, inspected⟩ w₂ → ∃ b, Complete env w₂ ⟨id, created_at, inspected⟩ b :=
    fun h hpublished => hsnapped.complete h (hfresh.frame hframe .wal (by decide))
      (hfresh.frame hframe .shm (by decide)) hpublished
  have hpair : ∀ {w₂}, Frame (own id [.manifest_temp, .manifest]) w₁ w₂ →
      w₂.files (id.path .manifest) = none ∨ Published id ⟨id, created_at, inspected⟩ w₂ →
      PairSound env w₂ id.kind id.stem := by
    rintro w₂ h (hnone | hpublished)
    · exact .inl hnone
    · exact pairSound_of_published (m := ⟨id, created_at, inspected⟩) rfl hsnapped.name hpublished
        (.inr (hcomplete h hpublished))
  refine wp_bind.mpr (wp_attempt.mpr (wp_mono (wp_and (within_wp (within_publish _) w₁)
    (wp_publish (m := ⟨id, created_at, inspected⟩) hwriting (hfresh.frame hframe .manifest_temp (by decide)))) ?_ ?_))
  · rintro w₂ ⟨hframe₂, hstands⟩
    exact ⟨htrans hframe₂, hpair hframe₂ hstands⟩
  rintro (e | u) w₂ ⟨hframe₂, hends₂⟩
  · -- the database goes, and this step cannot fail
    obtain ⟨hzero, hstands⟩ := hends₂
    refine wp_bind.mpr (wp_act ⟨htrans hframe₂, hpair hframe₂ hstands⟩ ?_ ?_)
    · intro c
      obtain ⟨w₃, hdone, hw₃, hgone⟩ := unlink_gone env (id.path .db) c w₂
      rw [hdone]
      have hframe₃ : Frame (own id create_roles) w₂ w₃ := by
        rcases hw₃ with rfl | rfl
        · exact .refl _ _
        · exact frame_remove ⟨rfl, rfl, by decide⟩ w₂
      refine ⟨(htrans hframe₂).trans hframe₃, ?_, ?_⟩
      · have hmanifest : w₃.files (id.path .manifest) = w₂.files (id.path .manifest) := by
          rcases hw₃ with rfl | rfl
          · rfl
          · exact remove_files_of_ne w₂ (by simp [ArtifactId.path])
        rcases hstands with hnone | ⟨time, hjson⟩
        · exact .inl (hmanifest.trans hnone)
        · exact pairSound_of_published (m := ⟨id, created_at, inspected⟩) rfl hsnapped.name
            ⟨time, hmanifest.trans hjson⟩ (.inl hgone)
      · rintro m rfl hoffered
        have hdb := hoffered.db
        rw [hgone] at hdb
        cases hdb
    · intro hone
      omega
  · have hpublished : Published id ⟨id, created_at, inspected⟩ w₂ := hends₂
    obtain ⟨b, hc⟩ := hcomplete hframe₂ hpublished
    obtain ⟨time, hdb⟩ := hc.db
    have hdir : w₂.files (.dir id.kind) = some .dir := by
      rw [hframe₂.dir id.kind (by rw [hsnapped.dir]; nofun)]
      exact hsnapped.dir
    refine ⟨htrans hframe₂, hpair hframe₂ (.inr hpublished), rfl, ?_⟩
    refine ⟨⟨hsnapped.name, ?_, ?_, hpublished⟩, ?_, ?_⟩
    · rw [hdb]
      rfl
    · rw [hdb]
      rfl
    · simp [hdir, is_dir]
    · simp [hdir, is_symlink]

end Create

end OpenChronicle.Backup
