/-
What a run of `cloud_backup` holds: the child it has started and the directory it works in.

A cancellation or a timeout reaches the handler at the call it is awaiting, also while a child runs and while a
killed child is drained. Wherever it comes, the child is known to have ended or has been killed before another
call is made that is not about it, and the removal of the directory is called once, last, with no child left to
write to it.

What is held is read off the answers. A child is held from the moment it was started until its return code was
read or it was told to die; a directory from the moment it was made until its removal returned. A removal that
raises removes nothing here: the directory it leaves is the one thing that a run can leave, and then that
removal was its last call. The proofs follow the program text, one for each function, with what is held before
and after as the invariant; it is known only as long as the return code of each child could be read.
-/
import OpenChronicle.Maintenance.CloudPush

set_option autoImplicit false

namespace OpenChronicle.CloudBackup

open Program PyStr Calendar Backup
open Config (Environ CloudBackupConfig read_cloud_backup_config)

/-! ## What is held -/

/-- The children that may still run, and the directories that have not been removed. -/
structure Held where
  children : List Proc := []
  dirs : List Text := []
  deriving DecidableEq

/-- What an answer changes. A child asked to be killed is gone: if it had ended, the call raised. A directory
is gone when its removal has returned. -/
def Held.note (held : Held) : JobCall → Held
  | ⟨.spawn _ _, .ok proc⟩ => { held with children := proc :: held.children }
  | ⟨.returncode proc, .ok (some _)⟩ => { held with children := held.children.erase proc }
  | ⟨.kill proc, _⟩ => { held with children := held.children.erase proc }
  | ⟨.mkdtemp _, .ok dir⟩ => { held with dirs := dir :: held.dirs }
  | ⟨.rmtree dir, .ok _⟩ => { held with dirs := held.dirs.erase dir }
  | _ => held

def held : JobHistory → Held
  | [] => {}
  | c :: h => (held h).note c

/-- The attribute `returncode` of a child can be read. -/
def Readable : JobCall → Prop
  | ⟨.returncode _, .error _⟩ => False
  | _ => True

def Reads (h : JobHistory) : Prop := ∀ c ∈ h, Readable c

/-- The last call was this one. -/
def Just (h : JobHistory) (c : JobCall) : Prop := h.head? = some c

/-- The removal of the directory was the last call, and raised. -/
def Undeleted (h : JobHistory) : Prop :=
  ∃ dir e, Just h ⟨.rmtree dir, .error e⟩ ∧ held h = { dirs := [dir] }

/-- What is held when a call is made. -/
def Orderly (h : JobHistory) : JobOp → Prop
  | .communicate proc => (held h).children = [proc]
  | .returncode _ => True
  | .kill proc => (∀ p ∈ (held h).children, p = proc) ∧ Just h ⟨.returncode proc, .ok none⟩
  | .drain proc => (held h).children = [] ∧ Just h ⟨.kill proc, .ok ()⟩
  | .mkdir _ => ∃ dir, held h = { dirs := [dir] }
  | .spawn _ _ => ∃ dir, held h = { dirs := [dir] }
  | .rmtree dir => held h = { dirs := [dir] }
  | _ => held h = {}

/-- The same, in a run whose children can be read. -/
def OrderlyIfRead (h : JobHistory) (c : JobCall) : Prop := Reads h → Orderly h c.op

/-- What is held in such a run. -/
def Holds (h : JobHistory) (held' : Held) : Prop := Reads h → held h = held'

/-- A run that ends with a value holds nothing, and one that raises nothing but what could not be removed. -/
def Left {α : Type} (h : JobHistory) (r : Except JobExc α) : Prop :=
  Reads h → held h = {} ∨ ((∃ e, r = .error e) ∧ Undeleted h)

section Holding

variable {h : JobHistory}

/-- What is held after one more call. -/
theorem Holds.cons {before after : Held} {c : JobCall} (hholds : Holds h before)
    (hnote : Readable c → before.note c = after) : Holds (c :: h) after := by
  intro hreads
  obtain ⟨hc, hh⟩ := List.forall_mem_cons.mp hreads
  rw [held, hholds hh, hnote hc]

/-- Nothing held, so nothing left. -/
theorem Holds.left {α : Type} (hholds : Holds h {}) (r : Except JobExc α) : Left h r :=
  fun hreads => .inl (hholds hreads)

/-- A value is returned only behind a removal that worked. -/
theorem Left.holds {α : Type} {a : α} (hleft : Left h (.ok a)) : Holds h {} := by
  intro hreads
  rcases hleft hreads with hnone | ⟨⟨e, he⟩, -⟩
  · exact hnone
  · cases he

/-- The `finally` of `_run_captured` leaves no child. It may be entered with the exit code already read. -/
theorem kill_unless_exited_holds {proc : Proc} {children : List Proc} {dirs : List Text}
    (hone : children = [] ∨ children = [proc]) (hholds : Holds h ⟨children, dirs⟩) :
    (kill_unless_exited proc).Sat OrderlyIfRead (fun h' _ => Holds h' ⟨[], dirs⟩) h := by
  have herase : children.erase proc = [] := by
    rcases hone with rfl | rfl
    · rfl
    · simp
  have hother : ∀ p ∈ children, p = proc := by
    rcases hone with rfl | rfl
    · exact fun p hp => absurd hp List.not_mem_nil
    · exact fun p hp => List.mem_singleton.mp hp
  refine Prog.sat_op_bind (fun r _ => trivial) (fun e => hholds.cons fun hread => False.elim hread) fun returncode => ?_
  cases returncode with
  -- the child has ended by itself
  | some rc => exact hholds.cons fun _ => by rw [Held.note, herase]
  | none =>
      -- it may still run: it is killed, and only then drained
      have hasked : Holds (⟨.returncode proc, .ok none⟩ :: h) ⟨children, dirs⟩ := hholds.cons fun _ => rfl
      have hkilled : ∀ r, Holds (⟨.kill proc, r⟩ :: ⟨.returncode proc, .ok none⟩ :: h) ⟨[], dirs⟩ :=
        fun r => hasked.cons fun _ => by rw [Held.note, herase]
      refine Prog.sat_op_bind (fun r hreads => ⟨by rw [hasked hreads]; exact hother, rfl⟩) (fun e => hkilled _)
        fun _ => ?_
      refine Prog.Sat.bind (Prog.Sat.attempt (Prog.sat_op fun r =>
        ⟨fun hreads => ⟨by rw [hkilled _ hreads], rfl⟩, ?_⟩))
      have hdrained : Holds (⟨.drain proc, r⟩ :: ⟨.kill proc, .ok ()⟩ :: ⟨.returncode proc, .ok none⟩ :: h)
          ⟨[], dirs⟩ := (hkilled _).cons fun _ => rfl
      rcases r with e | _
      · cases e <;> exact hdrained
      · exact hdrained

/-- A child that is run holds nothing when it is over, however it is over. -/
theorem run_captured_holds {dir : Text} (hholds : Holds h { dirs := [dir] }) (argv : List Text) (env : Environ) :
    (run_captured argv env).Sat OrderlyIfRead (fun h' _ => Holds h' { dirs := [dir] }) h := by
  refine Prog.sat_op_bind (fun r hreads => ⟨dir, hholds hreads⟩) (fun e => hholds.cons fun _ => rfl) fun proc => ?_
  have hspawned : Holds (⟨.spawn argv env, .ok proc⟩ :: h) ⟨[proc], [dir]⟩ := hholds.cons fun _ => rfl
  have hcommunicated : ∀ r, Holds (⟨.communicate proc, r⟩ :: ⟨.spawn argv env, .ok proc⟩ :: h) ⟨[proc], [dir]⟩ :=
    fun r => hspawned.cons fun _ => rfl
  refine Prog.sat_finally ?_
  -- three ways into the `finally`: the wait was cut short, the code could not be read, or it was
  refine Prog.sat_op_bind (fun r hreads => by rw [Orderly, hspawned hreads]) (fun e => ?_) fun stderr => ?_
  · exact kill_unless_exited_holds (.inr rfl) (hcommunicated _)
  · refine Prog.sat_op_bind (fun r _ => trivial) (fun e => ?_) fun returncode => ?_
    · exact kill_unless_exited_holds (.inr rfl) ((hcommunicated _).cons fun hread => False.elim hread)
    · refine Prog.sat_pure ?_
      cases returncode with
      | none => exact kill_unless_exited_holds (.inr rfl) ((hcommunicated _).cons fun _ => rfl)
      | some rc => exact kill_unless_exited_holds (.inl rfl) ((hcommunicated _).cons fun _ => by simp [Held.note])

/-- By induction over the files; each child is gone before the next. -/
theorem encrypt_all_holds (X : Site) {dir : Text} (hholds : Holds h { dirs := [dir] }) (recipients : List Text)
    (out : Text) (names : List Text) :
    (encrypt_all X recipients out names).Sat OrderlyIfRead (fun h' _ => Holds h' { dirs := [dir] }) h := by
  induction names generalizing h with
  | nil => exact hholds
  | cons name rest ih =>
      refine Prog.Sat.bind ((run_captured_holds hholds _ _).mono fun h' r _ hq => ?_)
      rcases r with e | ⟨rc, stderr⟩
      · exact hq
      · by_cases hrc : rc ≠ 0
        · dsimp only
          rw [if_pos hrc]
          exact hq
        · dsimp only
          rw [if_neg hrc]
          exact ih hq

/-- The directory is there all along, and no child at the end. -/
theorem encrypt_and_push_holds (X : Site) {tmp : Text} (hholds : Holds h { dirs := [tmp] })
    (config : CloudBackupConfig) (selected : List Stem) :
    (encrypt_and_push X config selected tmp).Sat OrderlyIfRead (fun h' _ => Holds h' { dirs := [tmp] }) h := by
  have hmade : ∀ path r {h' : JobHistory}, Holds h' { dirs := [tmp] } →
      Holds (⟨.mkdir path, r⟩ :: h') { dirs := [tmp] } := fun path r h' hh => hh.cons fun _ => rfl
  refine Prog.sat_op_bind (fun r hreads => ⟨tmp, hholds hreads⟩) (fun e => hmade _ _ hholds) fun _ => ?_
  refine Prog.sat_op_bind (fun r hreads => ⟨tmp, hmade _ _ hholds hreads⟩) (fun e => hmade _ _ (hmade _ _ hholds))
    fun _ => ?_
  refine Prog.Sat.bind ((encrypt_all_holds X (hmade _ _ (hmade _ _ hholds)) config.recipients _
    (sources selected)).mono fun h₁ r _ hq => ?_)
  cases r with
  | error e => exact hq
  | ok u =>
      refine Prog.Sat.bind ((run_captured_holds hq _ _).mono fun h₂ r _ hq => ?_)
      rcases r with e | ⟨rc, stderr⟩
      · exact hq
      · by_cases hrc : rc ≠ 0
        · dsimp only
          rw [if_pos hrc]
          exact hq
        · dsimp only
          rw [if_neg hrc]
          exact hq

/-- No child and no directory yet. -/
theorem verify_all_holds (hholds : Holds h {}) (selected : List Stem) :
    (verify_all selected).Sat OrderlyIfRead (fun h' _ => Holds h' {}) h := by
  induction selected generalizing h with
  | nil => exact hholds
  | cons s rest ih =>
      exact Prog.sat_op_bind (fun r => hholds) (fun e => hholds.cons fun _ => rfl) fun _ => ih (hholds.cons fun _ => rfl)

/-- Nor any longer. -/
theorem log_manifests_holds (X : Site) (hholds : Holds h {}) (selected : List Stem) :
    (log_manifests X selected).Sat OrderlyIfRead (fun h' _ => Holds h' {}) h := by
  induction selected generalizing h with
  | nil => exact hholds
  | cons s rest ih =>
      exact Prog.sat_op_bind (fun r => hholds) (fun e => hholds.cons fun _ => rfl) fun _ => ih (hholds.cons fun _ => rfl)

/-- The directory is there for the files and the children between, and for nothing else. -/
theorem push_holds (X : Site) (hholds : Holds h {}) (config : CloudBackupConfig) :
    (push X config).Sat OrderlyIfRead Left h := by
  have hkept : ∀ {h' : JobHistory} {c : JobCall} {r : Except JobExc (List Stem)}, Holds h' {} →
      (Readable c → Held.note {} c = {}) → Left (c :: h') r := fun hh hc => (hh.cons hc).left _
  refine Prog.sat_op_bind (fun r => hholds) (fun e => hkept hholds fun _ => rfl) fun _ => ?_
  have hswept : Holds (⟨.sweep_stale_push_dirs X.backup_dir, .ok ()⟩ :: h) {} := hholds.cons fun _ => rfl
  refine Prog.sat_op_bind (fun r => hswept) (fun e => hkept hswept fun _ => rfl) fun published => ?_
  have hlisted := hswept.cons (c := ⟨.published_snapshots X.auto_dir, .ok published⟩) fun _ => rfl
  cases List.getLast? published with
  | none => exact hlisted.left _
  | some newest =>
      refine Prog.sat_op_bind (fun r => hlisted) (fun e => hkept hlisted fun _ => rfl) fun now => ?_
      have hasked := hlisted.cons (c := ⟨.utc_now, .ok now⟩) fun _ => rfl
      cases check_fresh X newest.1 now with
      | error e => exact hasked.left _
      | ok u =>
          refine Prog.Sat.bind ((verify_all_holds hasked (select_for_push published)).mono fun h₁ r _ hq => ?_)
          cases r with
          | error e => exact hq.left _
          | ok u =>
              refine Prog.sat_op_bind (fun r => hq) (fun e => hkept hq fun _ => rfl) fun tmp => ?_
              have hmade : Holds (⟨.mkdtemp X.backup_dir, .ok tmp⟩ :: h₁) { dirs := [tmp] } := hq.cons fun _ => rfl
              refine Prog.Sat.bind (Prog.sat_finally
                ((encrypt_and_push_holds X hmade config (select_for_push published)).mono fun h₂ r _ hq => ?_))
              refine Prog.sat_op (S := jobSig) (o := JobOp.rmtree tmp) fun fr => ⟨fun hreads => hq hreads, ?_⟩
              -- the directory was held alone, whatever became of the files
              rcases fr with e | _
              · have hstuck : Holds (⟨.rmtree tmp, .error e⟩ :: h₂) { dirs := [tmp] } := hq.cons fun _ => rfl
                exact fun hreads => .inr ⟨⟨e, rfl⟩, tmp, e, rfl, hstuck hreads⟩
              · have hremoved : Holds (⟨.rmtree tmp, .ok ()⟩ :: h₂) {} := hq.cons fun _ => by simp [Held.note]
                rcases r with e | _ <;> exact hremoved.left _

/-- The whole handler. -/
theorem cloud_backup_holds (X : Site) : (cloud_backup X).Sat OrderlyIfRead Left [] := by
  have hstart : Holds [] {} := fun _ => rfl
  unfold cloud_backup
  dsimp only
  split
  · exact hstart.left _
  · split
    · exact hstart.left _
    · refine Prog.sat_op_bind (fun r => hstart) (fun e => (hstart.cons fun _ => rfl).left _) fun euid => ?_
      have hasked : Holds [⟨.geteuid, .ok euid⟩] {} := hstart.cons fun _ => rfl
      by_cases hroot : euid = some 0
      · rw [if_pos hroot]
        exact hasked.left _
      · rw [if_neg hroot]
        refine Prog.sat_op_bind (fun r => hasked) (fun e => (hasked.cons fun _ => rfl).left _) fun configured => ?_
        have hread := hasked.cons (c := ⟨.is_file X.rclone_config, .ok configured⟩) fun _ => rfl
        cases configured with
        | false => exact hread.left _
        | true =>
            refine Prog.Sat.bind ((push_holds X hread _).mono fun h₁ r _ hq => ?_)
            cases r with
            | error e =>
                -- the error that ends the push ends the run, with no call behind it
                intro hreads
                exact (hq hreads).imp_right fun hstuck => ⟨⟨e, rfl⟩, hstuck.2⟩
            | ok pushed =>
                refine Prog.Sat.bind ((log_manifests_holds X hq.holds pushed).mono fun h₂ r _ hq => ?_)
                cases r with
                | error e => exact hq.left _
                | ok u => exact hq.left _

end Holding

/-- **Nothing is left over.** However a run ends, no child may still run, and the directory is gone unless
its removal was the last call and raised; the directory is removed when no child runs, and while one does
nothing is called that is not about it. -/
theorem no_child_outlives_the_push {X : Site} {t : JobTrace} {res : Except JobExc Pushed}
    (hreads : Reads (Prog.told t)) (hrun : (cloud_backup X).Trace t res) :
    (held (Prog.told t) = {} ∨ Undeleted (Prog.told t))
      ∧ ∀ before o r after, t = before ++ (⟨o, r⟩ : JobEvent) :: after → Orderly (Prog.told before) o := by
  obtain ⟨hend, hcalls⟩ := (cloud_backup_holds X).of_trace hrun
  rw [List.append_nil] at hend
  refine ⟨(hend hreads).imp_right And.right, ?_⟩
  intro before o r after ht
  have hguard := hcalls before ⟨o, r⟩ after ht
  rw [List.append_nil] at hguard
  refine hguard fun c hc => hreads c ?_
  obtain ⟨e, he, rfl⟩ := List.mem_map.mp (List.mem_reverse.mp hc)
  exact List.mem_reverse.mpr (List.mem_map.mpr ⟨e, by rw [ht]; exact List.mem_append_left _ he, rfl⟩)

theorem sample_reads (rc : Option ℤ) : Reads (Prog.told (sample_run rc).1) := by
  intro c hc
  obtain ⟨e, he, rfl⟩ := List.mem_map.mp (List.mem_reverse.mp hc)
  rw [Prog.mem_transcript (S := jobSig) he]
  cases e.1 <;> trivial

/-- A child that has not ended when its pipes close is killed. -/
theorem no_child_outlives_the_push_killed :
    (held (Prog.told (sample_run none).1) = {} ∨ Undeleted (Prog.told (sample_run none).1))
      ∧ ∀ before o r after, (sample_run none).1 = before ++ (⟨o, r⟩ : JobEvent) :: after →
        Orderly (Prog.told before) o :=
  no_child_outlives_the_push (sample_reads none)
    (Prog.trace_transcript (S := jobSig) (answers none) (cloud_backup site))

end OpenChronicle.CloudBackup
