/-
What a run of `cloud_backup` sends offsite, whatever each call answers and wherever it is cancelled.

A child is started only after the configuration, the user and the newest snapshot have been checked and
every snapshot to push has been verified. `rclone` is started only after `age` has ended with 0 for each
database and each manifest. A child that was started has ended or been killed before the next one is,
and before the directory with what it wrote is removed.

The handler is a program of calls, and a call may answer anything its type allows: the clock may go
back, a directory may vanish, a child may end with any code or be killed. So the result is about what
stands in the history of the run when a child is started. `Guard` is asked of each call with the history
before it, and is proved over the program text, function by function (the lemmas that end in `sat`);
`Checked` and `Encrypted` are what the functions hand on to each other. A history only grows, and what
was said in it stays said (the lemmas that end in `mono`).

For the command line of `rclone` nothing is assumed of how `rclone` reads it. What is shown is the
shape: the two texts that do not come from the source stand behind `--`.
-/
import OpenChronicle.Lib.Argv
import OpenChronicle.Lib.Traces
import OpenChronicle.Maintenance.CloudBackup

set_option autoImplicit false

namespace OpenChronicle.CloudBackup

open Program PyStr Calendar Backup
open Config (Environ CloudBackupConfig read_cloud_backup_config REMOTE_RE)

/-- A call with its answer. -/
abbrev JobEvent : Type := Prog.Answered jobSig JobExc

/-- A run, the first call first. -/
abbrev JobTrace : Type := List JobEvent

/-- A call that was answered, as a history has it. -/
abbrev JobCall : Type := Call jobSig JobExc

/-- The calls made so far, the newest first. -/
abbrev JobHistory : Type := List JobCall

/-- The call was made and answered so. -/
def Said (h : JobHistory) (o : JobOp) (r : o.Resp) : Prop := (⟨o, .ok r⟩ : JobCall) ∈ h

/-- What was said stays said. -/
theorem Said.mono {h h' : JobHistory} {o : JobOp} {r : o.Resp} (hsaid : Said h o r) (hext : h <:+ h') :
    Said h' o r := hext.subset hsaid

/-- The call made last. -/
theorem said_last {h : JobHistory} {o : JobOp} {r : o.Resp} : Said (⟨o, .ok r⟩ :: h) o r := List.mem_cons_self

/-! ## The arguments of rclone -/

/-- The character that options start with. -/
def dash : CodePoint := .scalar '-'

/-- The options rclone is given. None of them deletes, and `--ignore-existing` keeps what is there. -/
def rclone_options : List Text :=
  ["--ignore-existing", "--transfers", "--contimeout", "--stats", "--ask-password=false", "--log-level", "--"].map
    Text.ofString

/-- **A copy of one directory to one remote**, whatever the two texts are: they stand behind `--`, and the
arguments before it that begin with a dash are the options. -/
theorem rclone_argv_guarded (source remote : Text) :
    Argv.Guarded dash rclone_options [] (rclone_argv source remote) := by
  have hend : Argv.CommandLine dash rclone_options []
      (Text.ofString "--" :: [source, remote.rdropWhile (· = .scalar '/') ++ Text.ofString "/"]) :=
    .operands (by decide +kernel) _
  -- no value of an option begins with a dash, so each is a word like the others
  refine Argv.CommandLine.guarded ?_
  simp only [rclone_argv, List.map_cons, List.map_nil, List.cons_append, List.nil_append]
  exact .word (by decide +kernel) (.word (by decide +kernel) (.option (by decide +kernel)
    (.option (by decide +kernel) (.word (by decide +kernel) (.option (by decide +kernel)
    (.word (by decide +kernel) (.option (by decide +kernel) (.word (by decide +kernel)
    (.option (by decide +kernel) (.option (by decide +kernel) (.word (by decide +kernel) hend)))))))))))

/-! ## What is checked before -/

section Checks

variable (X : Site)

/-- The configuration is read once, at the start. -/
abbrev Site.config : CloudBackupConfig := read_cloud_backup_config X.environ

/-- A configuration the handler goes on with. -/
structure Usable (config : CloudBackupConfig) : Prop where
  remote : REMOTE_RE.fullmatch config.remote = true
  undashed : config.remote.head? ≠ some dash
  recipients : config.recipients ≠ []

/-- What `problem` answers `none` for. The shape of a remote lets it begin with no dash. -/
theorem usable_of_no_problem (henabled : X.config.enabled = true) (hproblem : X.config.problem = none) :
    Usable X.config := by
  unfold Site.config read_cloud_backup_config at henabled hproblem ⊢
  cases hremote : Config.stripped (X.environ "OC_CLOUD_REMOTE") with
  | none =>
      rw [hremote] at henabled
      cases henabled
  | some remote =>
      rw [hremote] at hproblem
      dsimp only at hproblem ⊢
      -- a configuration without a problem has passed each of the reader's checks
      by_cases hbad : (remote.head? = some (.scalar '-') || !REMOTE_RE.fullmatch remote) = true
      · rw [if_pos hbad] at hproblem
        cases hproblem
      · rw [if_neg hbad] at hproblem ⊢
        by_cases hnone : Config.csv ((X.environ "OC_CLOUD_AGE_RECIPIENTS").getD []) = []
        · rw [if_pos hnone] at hproblem
          cases hproblem
        · rw [if_neg hnone]
          simp only [Bool.or_eq_true, decide_eq_true_eq, Bool.not_eq_true', not_or, Bool.not_eq_false] at hbad
          exact ⟨hbad.2, hbad.1, hnone⟩

/-- The newest snapshot is neither older than the bound nor from the future. -/
structure Fresh (newest now : DateTime) : Prop where
  past : newest.micros ≤ now.micros + CLOUD_CLOCK_SKEW
  recent : now.micros ≤ newest.micros + CLOUD_SOURCE_MAX_AGE

/-- The two comparisons of the source, the second of which is about a clock that was set back. -/
theorem fresh_of_check {newest now : DateTime} (h : check_fresh X newest now = .ok ()) : Fresh newest now := by
  unfold check_fresh at h
  by_cases hfuture : now.micros + CLOUD_CLOCK_SKEW < newest.micros
  · rw [if_pos hfuture] at h
    cases h
  · rw [if_neg hfuture] at h
    by_cases hstale : newest.micros + CLOUD_SOURCE_MAX_AGE < now.micros
    · rw [if_pos hstale] at h
      cases h
    · exact ⟨Nat.le_of_not_lt hfuture, Nat.le_of_not_lt hstale⟩

/-- What the handler has asked before it starts a child, and what it was told. -/
structure Checked (h : JobHistory) (published : List (DateTime × Stem)) : Prop where
  usable : Usable X.config
  user : ∃ euid, Said h .geteuid euid ∧ euid ≠ some 0
  configured : Said h (.is_file X.rclone_config) true
  listed : Said h (.published_snapshots X.auto_dir) published
  fresh : ∃ newest now, published.getLast? = some newest ∧ Said h .utc_now now ∧ Fresh newest.1 now
  verified : ∀ s ∈ select_for_push published, Said h (.verify (artifact_id s)) ()

/-- None of the facts is about the end of the history. -/
theorem Checked.mono {h h' : JobHistory} {published : List (DateTime × Stem)} (c : Checked X h published)
    (hext : h <:+ h') : Checked X h' published where
  usable := c.usable
  user := by
    obtain ⟨euid, hsaid, hne⟩ := c.user
    exact ⟨euid, hsaid.mono hext, hne⟩
  configured := c.configured.mono hext
  listed := c.listed.mono hext
  fresh := by
    obtain ⟨newest, now, hlast, hsaid, hfresh⟩ := c.fresh
    exact ⟨newest, now, hlast, hsaid.mono hext, hfresh⟩
  verified := fun s hs => (c.verified s hs).mono hext

/-- A child was started and ended with 0. -/
def Succeeded (h : JobHistory) (argv : List Text) (env : Environ) : Prop :=
  ∃ proc, Said h (.spawn argv env) proc ∧ Said h (.returncode proc) (some 0)

/-- A child that ended with 0 has done so for good. -/
theorem Succeeded.mono {h h' : JobHistory} {argv : List Text} {env : Environ} (hs : Succeeded h argv env)
    (hext : h <:+ h') : Succeeded h' argv env := by
  obtain ⟨proc, hspawn, hcode⟩ := hs
  exact ⟨proc, hspawn.mono hext, hcode.mono hext⟩

/-- The child that encrypts a file. -/
def Site.age (tmp name : Text) : List Text :=
  age_argv X.config.recipients X.auto_dir (join tmp (Text.ofString "out")) name

/-- The one child that copies. -/
def Site.rclone (tmp : Text) : List Text := rclone_argv (join tmp (Text.ofString "out")) X.config.remote

/-- Everything that is to be pushed has been encrypted. -/
def Encrypted (h : JobHistory) (tmp : Text) (names : List Text) : Prop :=
  ∀ name ∈ names, Succeeded h (X.age tmp name) X.environ

/-- When a child may be started, and which. -/
def MayStart (h : JobHistory) (argv : List Text) (env : Environ) : Prop :=
  ∃ published tmp, Checked X h published ∧ Said h (.mkdtemp X.backup_dir) tmp
    ∧ ((∃ name ∈ sources (select_for_push published), argv = X.age tmp name ∧ env = X.environ)
      ∨ (argv = X.rclone tmp ∧ env = rclone_env X (join tmp (Text.ofString "cache"))
        ∧ Encrypted X h tmp (sources (select_for_push published))))

/-- What may be called after what was answered. -/
def Guard (h : JobHistory) (c : JobCall) : Prop :=
  match c.op with
  | .spawn argv env => MayStart X h argv env
  | _ => True

/-- What a normal answer is worth. -/
def Landed (h : JobHistory) (pushed : List Stem) : Prop :=
  ∃ published tmp, Checked X h published ∧ pushed = select_for_push published
    ∧ Encrypted X h tmp (sources pushed)
    ∧ Succeeded h (X.rclone tmp) (rclone_env X (join tmp (Text.ofString "cache")))

end Checks

/-! ## The run -/

section Runs

variable {X : Site} {h : JobHistory}

/-- On the way out of a wait no child is started. -/
theorem kill_unless_exited_sat (proc : Proc) : (kill_unless_exited proc).Sat (Guard X) (fun _ _ => True) h := by
  refine Prog.sat_op_bind (fun r => trivial) (fun e => trivial) fun returncode => ?_
  by_cases hrunning : returncode = none
  · rw [if_pos hrunning]
    refine Prog.sat_op_bind (fun r => trivial) (fun e => trivial) fun _ => ?_
    refine Prog.Sat.bind (Prog.Sat.attempt (Prog.sat_op fun r => ⟨trivial, ?_⟩))
    rcases r with e | _
    · cases e <;> trivial
    · trivial
  · rw [if_neg hrunning]
    trivial

/-- `run_captured` starts its child and nothing else; the answer 0 is the child's own. -/
theorem run_captured_sat {argv : List Text} {env : Environ} (hstart : MayStart X h argv env) :
    (run_captured argv env).Sat (Guard X) (fun h' r => ∀ stderr, r = .ok (0, stderr) → Succeeded h' argv env) h := by
  refine Prog.sat_op_bind (fun r => hstart) (fun e stderr heq => by cases heq) fun proc => ?_
  refine Prog.sat_finally ?_
  refine Prog.sat_op_bind (fun r => trivial) (fun e => ?_) fun stderr => ?_
  · refine (kill_unless_exited_sat proc).mono fun h' fr hext _ => ?_
    cases fr <;> exact fun stderr heq => by cases heq
  · refine Prog.sat_op_bind (fun r => trivial) (fun e => ?_) fun returncode => ?_
    · refine (kill_unless_exited_sat proc).mono fun h' fr hext _ => ?_
      cases fr <;> exact fun stderr heq => by cases heq
    · refine Prog.sat_pure ((kill_unless_exited_sat proc).mono fun h' fr hext _ => ?_)
      cases fr with
      | error e => exact fun stderr heq => by cases heq
      | ok u =>
          intro stderr' heq
          obtain ⟨hcode, -⟩ := Prod.mk.inj (Except.ok.inj heq)
          -- a code that is missing is reported as -1, so the 0 was read
          have hzero : returncode = some 0 := by
            cases returncode with
            | none => cases hcode
            | some rc => exact congrArg some hcode
          refine ⟨proc, ?_, ?_⟩
          · exact said_last.mono ((List.suffix_cons _ _).trans ((List.suffix_cons _ _).trans hext))
          · rw [← hzero]
            exact said_last.mono hext

/-- Nothing is started here, and a normal end means that each of the snapshots was verified. -/
theorem verify_all_sat (selected : List Stem) :
    (verify_all selected).Sat (Guard X)
      (fun h' r => r = .ok () → ∀ s ∈ selected, Said h' (.verify (artifact_id s)) ()) h := by
  induction selected generalizing h with
  | nil => exact fun _ s hs => absurd hs List.not_mem_nil
  | cons s rest ih =>
      refine Prog.sat_op_bind (fun r => trivial) (fun e heq => by cases heq) fun _ => ?_
      refine ih.mono fun h' r hext hq hok s' hs' => ?_
      rcases List.mem_cons.mp hs' with rfl | hin
      · exact said_last.mono hext
      · exact hq hok s' hin

/-- By induction over the files: each is encrypted while those before it have been. -/
theorem encrypt_all_sat {published : List (DateTime × Stem)} {tmp : Text} (hchecked : Checked X h published)
    (hdir : Said h (.mkdtemp X.backup_dir) tmp) {names : List Text}
    (hnames : names ⊆ sources (select_for_push published)) :
    (encrypt_all X X.config.recipients (join tmp (Text.ofString "out")) names).Sat (Guard X)
      (fun h' r => r = .ok () → Encrypted X h' tmp names) h := by
  induction names generalizing h with
  | nil => exact fun _ name hname => absurd hname List.not_mem_nil
  | cons name rest ih =>
      -- `age` may start: everything was checked before the loops
      have hstart : MayStart X h (X.age tmp name) X.environ :=
        ⟨published, tmp, hchecked, hdir, .inl ⟨name, hnames List.mem_cons_self, rfl, rfl⟩⟩
      refine Prog.Sat.bind ((run_captured_sat hstart).mono fun h' r hext hsucceeded => ?_)
      rcases r with e | ⟨rc, stderr⟩
      · exact fun heq => by cases heq
      · by_cases hrc : rc ≠ 0
        · dsimp only
          rw [if_pos hrc]
          exact fun heq => by cases heq
        · dsimp only
          rw [if_neg hrc]
          obtain rfl := not_not.mp hrc
          have hrest := ih (hchecked.mono X hext) (hdir.mono hext) fun n hn => hnames (List.mem_cons_of_mem _ hn)
          refine hrest.mono fun h'' r hext' hq hok n hn => ?_
          rcases List.mem_cons.mp hn with rfl | hin
          · exact (hsucceeded stderr rfl).mono hext'
          · exact hq hok n hin

/-- `rclone` is started last, once every file is encrypted. -/
theorem encrypt_and_push_sat {published : List (DateTime × Stem)} {tmp : Text} (hchecked : Checked X h published)
    (hdir : Said h (.mkdtemp X.backup_dir) tmp) :
    (encrypt_and_push X X.config (select_for_push published) tmp).Sat (Guard X)
      (fun h' r => r = .ok () → Encrypted X h' tmp (sources (select_for_push published))
        ∧ Succeeded h' (X.rclone tmp) (rclone_env X (join tmp (Text.ofString "cache")))) h := by
  refine Prog.sat_op_bind (fun r => trivial) (fun e heq => by cases heq) fun _ => ?_
  refine Prog.sat_op_bind (fun r => trivial) (fun e heq => by cases heq) fun _ => ?_
  have hmade : ∀ a b : JobCall, h <:+ a :: b :: h := fun a b => (List.suffix_cons b h).trans (List.suffix_cons a _)
  refine Prog.Sat.bind ((encrypt_all_sat (hchecked.mono X (hmade _ _)) (hdir.mono (hmade _ _))
    (List.Subset.refl _)).mono fun h₁ r hext hq => ?_)
  cases r with
  | error e => exact fun heq => by cases heq
  | ok u =>
      have hencrypted := hq rfl
      have hext₁ := (hmade _ _).trans hext
      -- `rclone` may start: the loops have ended without an error
      have hstart : MayStart X h₁ (X.rclone tmp) (rclone_env X (join tmp (Text.ofString "cache"))) :=
        ⟨published, tmp, hchecked.mono X hext₁, hdir.mono hext₁, .inr ⟨rfl, rfl, hencrypted⟩⟩
      refine Prog.Sat.bind ((run_captured_sat hstart).mono fun h₂ r hext₂ hq => ?_)
      rcases r with e | ⟨rc, stderr⟩
      · exact fun heq => by cases heq
      · by_cases hrc : rc ≠ 0
        · dsimp only
          rw [if_pos hrc]
          exact fun heq => by cases heq
        · dsimp only
          rw [if_neg hrc]
          obtain rfl := not_not.mp hrc
          exact fun _ => ⟨fun name hname => (hencrypted name hname).mono hext₂, hq stderr rfl⟩

/-- What the handler has checked before it lists the snapshots. -/
structure Entered (X : Site) (h : JobHistory) : Prop where
  usable : Usable X.config
  user : ∃ euid, Said h .geteuid euid ∧ euid ≠ some 0
  configured : Said h (.is_file X.rclone_config) true

/-- The order of the source: the snapshots are listed, the newest is looked at, all are verified, a
directory is made. -/
theorem push_sat (hentered : Entered X h) :
    (push X X.config).Sat (Guard X) (fun h' r => ∀ pushed, r = .ok pushed → Landed X h' pushed) h := by
  refine Prog.sat_op_bind (fun r => trivial) (fun e pushed heq => by cases heq) fun _ => ?_
  refine Prog.sat_op_bind (fun r => trivial) (fun e pushed heq => by cases heq) fun published => ?_
  cases hlast : List.getLast? published with
  | none => exact fun pushed heq => by cases heq
  | some newest =>
      refine Prog.sat_op_bind (fun r => trivial) (fun e pushed heq => by cases heq) fun now => ?_
      cases hfresh : check_fresh X newest.1 now with
      | error e => exact fun pushed heq => by cases heq
      | ok u =>
          refine Prog.Sat.bind ((verify_all_sat (select_for_push published)).mono fun h₄ r hext hverified => ?_)
          cases r with
          | error e => exact fun pushed heq => by cases heq
          | ok u =>
              have hentry : h <:+ h₄ :=
                (((List.suffix_cons _ h).trans (List.suffix_cons _ _)).trans (List.suffix_cons _ _)).trans hext
              -- all checks are behind, and what they were told stays told
              have hchecked : Checked X h₄ published :=
                { usable := hentered.usable
                  user := by
                    obtain ⟨euid, hsaid, hne⟩ := hentered.user
                    exact ⟨euid, hsaid.mono hentry, hne⟩
                  configured := hentered.configured.mono hentry
                  listed := said_last.mono ((List.suffix_cons _ _).trans hext)
                  fresh := ⟨newest, now, hlast, said_last.mono hext, fresh_of_check X hfresh⟩
                  verified := hverified rfl }
              refine Prog.sat_op_bind (fun r => trivial) (fun e pushed heq => by cases heq) fun tmp => ?_
              -- a removal that raises makes the run one that failed, although the copy landed
              refine Prog.Sat.bind (Prog.sat_finally ((encrypt_and_push_sat
                (hchecked.mono X (List.suffix_cons _ _)) said_last).mono fun h₅ r hext₅ hq => ?_))
              refine Prog.sat_op (S := jobSig) (o := JobOp.rmtree tmp) fun fr => ⟨(trivial : Guard X h₅ ⟨.rmtree tmp, fr⟩), ?_⟩
              rcases fr with e | _
              · exact fun pushed heq => by cases heq
              · rcases r with e | _
                · exact fun pushed heq => by cases heq
                · intro pushed heq
                  obtain rfl := Except.ok.inj heq
                  have hext₆ : h₅ <:+ ⟨.rmtree tmp, .ok ()⟩ :: h₅ := List.suffix_cons _ _
                  obtain ⟨hencrypted, hcopied⟩ := hq rfl
                  exact ⟨published, tmp, hchecked.mono X (((List.suffix_cons _ _).trans hext₅).trans hext₆), rfl,
                    fun name hname => (hencrypted name hname).mono hext₆, hcopied.mono hext₆⟩

/-- What is logged starts no child. -/
theorem log_manifests_sat (selected : List Stem) :
    (log_manifests X selected).Sat (Guard X) (fun _ _ => True) h := by
  induction selected generalizing h with
  | nil => trivial
  | cons s rest ih => exact Prog.sat_op_bind (fun r => trivial) (fun e => trivial) fun _ => ih

/-- Nor is what a push has done undone by the calls behind it. -/
theorem Landed.mono {h h' : JobHistory} {pushed : List Stem} (hl : Landed X h pushed) (hext : h <:+ h') :
    Landed X h' pushed := by
  obtain ⟨published, tmp, hchecked, rfl, hencrypted, hcopied⟩ := hl
  exact ⟨published, tmp, hchecked.mono X hext, rfl, fun name hname => (hencrypted name hname).mono hext,
    hcopied.mono hext⟩

/-- What the end of a run says about its calls. -/
structure Ended (X : Site) (h : JobHistory) (res : Except JobExc Pushed) : Prop where
  landed : ∀ n, res = .ok (.selected n) → ∃ pushed, Landed X h pushed ∧ n = pushed.length
  skipped : res = .ok .skipped ↔ X.config.enabled = false
  silent : X.config.enabled = false → h = []

/-- An exception is no report of a push, and only a run without a remote is skipped. -/
theorem ended_of_error (henabled : X.config.enabled = true) (h : JobHistory) (e : JobExc) :
    Ended X h (.error e) where
  landed := fun n heq => by cases heq
  skipped := ⟨fun heq => (by cases heq), fun hoff => by cases henabled.symm.trans hoff⟩
  silent := fun hoff => by cases henabled.symm.trans hoff

/-- The whole handler. -/
theorem cloud_backup_sat (X : Site) : (cloud_backup X).Sat (Guard X) (Ended X) [] := by
  unfold cloud_backup
  dsimp only
  by_cases henabled : X.config.enabled = true
  · have hraise := ended_of_error henabled
    have hon : ¬ (!(read_cloud_backup_config X.environ).enabled) = true := by
      rw [show (read_cloud_backup_config X.environ).enabled = true from henabled]
      exact Bool.false_ne_true
    rw [if_neg hon]
    cases hproblem : (read_cloud_backup_config X.environ).problem with
    | some problem => exact hraise _ _
    | none =>
        -- the checks in the order of the source, each of which ends the run with an exception
        refine Prog.sat_op_bind (fun r => trivial) (fun e => hraise _ e) fun euid => ?_
        by_cases hroot : euid = some 0
        · rw [if_pos hroot]
          exact hraise _ _
        · rw [if_neg hroot]
          refine Prog.sat_op_bind (fun r => trivial) (fun e => hraise _ e) fun configured => ?_
          cases configured with
          | false => exact hraise _ _
          | true =>
              -- what the checks have established
              have hentered : Entered X [⟨.is_file X.rclone_config, .ok true⟩, ⟨.geteuid, .ok euid⟩] :=
                { usable := usable_of_no_problem X henabled hproblem
                  user := ⟨euid, said_last.mono (List.suffix_cons _ _), hroot⟩
                  configured := said_last }
              refine Prog.Sat.bind ((push_sat hentered).mono fun h r _ hlanded => ?_)
              cases r with
              | error e => exact hraise _ e
              | ok pushed =>
                  refine Prog.Sat.bind ((log_manifests_sat pushed).mono fun h' r hext _ => ?_)
                  cases r with
                  | error e => exact hraise _ e
                  | ok u =>
                      have habsurd : X.config.enabled ≠ false := fun hoff => by cases henabled.symm.trans hoff
                      refine ⟨fun n heq => ⟨pushed, (hlanded pushed rfl).mono hext, ?_⟩, ?_, fun hoff => absurd hoff habsurd⟩
                      · cases heq
                        rfl
                      · exact ⟨fun heq => (by cases heq), fun hoff => absurd hoff habsurd⟩
  · have hoff : X.config.enabled = false := Bool.not_eq_true _ ▸ henabled
    have hskip : (!(read_cloud_backup_config X.environ).enabled) = true := by
      rw [show (read_cloud_backup_config X.environ).enabled = false from hoff]
      rfl
    rw [if_pos hskip]
    exact ⟨fun n heq => (by cases heq), ⟨fun _ => hoff, fun _ => rfl⟩, fun _ => rfl⟩

end Runs

/-- **What goes offsite.** In every run a child is started only when the configuration, the user and the
newest snapshot have passed their checks and every snapshot to push has been verified: it is `age` for one of
their files, or `rclone` on what `age` wrote, after `age` has ended with 0 for each of them, and no argument
of `rclone` but the fixed options can be taken for one. A run that reports a push has made that copy with the exit
code 0; a run is reported as skipped exactly when no remote is configured, and then nothing was called. -/
theorem only_checked_snapshots_go_offsite {X : Site} {t : JobTrace} {res : Except JobExc Pushed}
    (hrun : (cloud_backup X).Trace t res) :
    (∀ (before : JobTrace) argv env r after, t = before ++ (⟨.spawn argv env, r⟩ : JobEvent) :: after →
      MayStart X (Prog.told before) argv env)
      ∧ (∀ tmp, Argv.Guarded dash rclone_options [] (X.rclone tmp))
      ∧ Ended X (Prog.told t) res := by
  obtain ⟨hend, hcalls⟩ := (cloud_backup_sat X).of_trace hrun
  rw [List.append_nil] at hend
  refine ⟨fun before argv env r after ht => ?_, fun tmp => rclone_argv_guarded _ _, hend⟩
  have hguard := hcalls before ⟨.spawn argv env, r⟩ after ht
  rw [List.append_nil] at hguard
  exact hguard

/-- A host on which everything goes well, on the last day of the calendar. -/
def site : Site where
  environ := fun name =>
    if name = "OC_CLOUD_REMOTE" then some (Text.ofString "drop:nas")
    else if name = "OC_CLOUD_AGE_RECIPIENTS" then some (Text.ofString "age1x") else none
  backup_dir := Text.ofString "/backups"
  config_dir := Text.ofString "/config"
  stderr_tail := id
  isoformat := fun _ => []
  decimal := fun _ => []

/-- The calls of `cloud_backup` there, when the children end with `rc`. No two commands are of one length, so
each child has an id of its own. -/
def answers (rc : Option ℤ) : (o : JobOp) → Except JobExc o.Resp
  | .geteuid => .ok (some 1000)
  | .is_file _ => .ok true
  | .published_snapshots _ => .ok [(.last, .catalog "a")]
  | .utc_now => .ok .last
  | .mkdtemp _ => .ok (Text.ofString "/backups/cloud-push-1")
  | .spawn argv _ => .ok argv.flatten.length
  | .communicate _ => .ok []
  | .returncode _ => .ok rc
  | .read_text _ => .ok []
  | .sweep_stale_push_dirs _ => .ok ()
  | .verify _ => .ok ()
  | .mkdir _ => .ok ()
  | .kill _ => .ok ()
  | .drain _ => .error .TimeoutError
  | .rmtree _ => .ok ()

def sample_run (rc : Option ℤ) : JobTrace × Except JobExc Pushed :=
  Prog.transcript (S := jobSig) (answers rc) (cloud_backup site)

example : (sample_run (some 0)).1.length = 23 ∧ (sample_run (some 1)).1.length = 14 := by decide +kernel

theorem only_checked_snapshots_go_offsite_sample :
    (∀ (before : JobTrace) argv env r after,
      (sample_run (some 0)).1 = before ++ (⟨.spawn argv env, r⟩ : JobEvent) :: after →
        MayStart site (Prog.told before) argv env)
      ∧ (∀ tmp, Argv.Guarded dash rclone_options [] (site.rclone tmp))
      ∧ Ended site (Prog.told (sample_run (some 0)).1) (sample_run (some 0)).2 :=
  only_checked_snapshots_go_offsite (Prog.trace_transcript (S := jobSig) (answers (some 0)) (cloud_backup site))

end OpenChronicle.CloudBackup
