/-
`cloud_backup` (`maintenance/jobs.py`) as a program over the calls it awaits.

Each call may answer anything and may raise anything: a timeout or a cancellation reaches the handler at
the call it is awaiting. What the handler reads and never awaits is answered by the same means, except
for the settings, which are read at once. The log lines are left out.

Whatever stands in a `finally` or an `except` of the source is in the program too, because it is there
that the questions are: what becomes of a child whose handler is cancelled, and of the directory with
what the child wrote. A cancellation is an exception like any other for the program: on its way out it
runs what stands behind each `try` it passes.

The checks before the push are in the order of the source, each with the text of its error. A text of an
error is made of what the source puts in it.
-/
import OpenChronicle.Backup.Push
import OpenChronicle.Config.Environment
import OpenChronicle.Lib.Program

set_option autoImplicit false

namespace OpenChronicle.CloudBackup

open Program PyStr Calendar Backup
open Config (Environ CloudBackupConfig read_cloud_backup_config stripped)

/-! ## Calls -/

/-- A running child. -/
abbrev Proc := ℕ

/-- The calls, in the order in which the handler comes to them. -/
inductive JobOp where
  | geteuid
  | is_file (path : Text)
  | sweep_stale_push_dirs (root : Text)
  | published_snapshots (directory : Text)
  | utc_now
  | verify (artifact_id : Text)
  | mkdtemp (dir : Text)
  | mkdir (path : Text)
  /-- `asyncio.create_subprocess_exec` with captured pipes. -/
  | spawn (argv : List Text) (env : Environ)
  | communicate (proc : Proc)
  | returncode (proc : Proc)
  | kill (proc : Proc)
  /-- `communicate` once more, for at most `_CHILD_DRAIN_SECONDS`. -/
  | drain (proc : Proc)
  | rmtree (path : Text)
  | read_text (path : Text)

@[reducible] def JobOp.Resp : JobOp → Type
  | geteuid => Option ℕ
  | is_file _ => Bool
  | published_snapshots _ => List (DateTime × Stem)
  | utc_now => DateTime
  | mkdtemp _ => Text
  | spawn _ _ => Proc
  | communicate _ => Text
  | returncode _ => Option ℤ
  | read_text _ => Text
  | _ => Unit

inductive JobExc where
  | ValueError (message : Text)
  | PermissionError (message : Text)
  | FileNotFoundError (message : Text)
  | RuntimeError (message : Text)
  | TimeoutError
  | CancelledError
  | Other

/-- The calls with their answers. -/
abbrev jobSig : Sig := ⟨JobOp, JobOp.Resp⟩

abbrev JobProg := Prog jobSig JobExc

/-- A single call. -/
def job (o : JobOp) : JobProg o.Resp := Prog.op (S := jobSig) o

/-! ## Paths and texts -/

/-- `str(directory / name)`. -/
def join (directory name : Text) : Text := directory ++ Text.ofString "/" ++ name

/-- `path.stem` of a snapshot. -/
def stem : Stem → String
  | .catalog name => "openchronicle-" ++ name
  | .other text => text

/-- The two files of a snapshot. -/
def db_name (s : Stem) : Text := Text.ofString (stem s ++ ".db")

/-- `path.with_suffix(".json").name`. -/
def manifest_name (s : Stem) : Text := Text.ofString (stem s ++ ".json")

/-- `"auto:" + path.stem.removeprefix("openchronicle-")`. -/
def artifact_id : Stem → Text
  | .catalog name => Text.ofString ("auto:" ++ name)
  | .other text => Text.ofString ("auto:" ++ text)

/-- What the handler is given: the container's directories, and how texts are made of what is not text. -/
structure Site where
  environ : Environ
  backup_dir : Text
  config_dir : Text
  /-- `_stderr_tail`, of the decoded text. -/
  stderr_tail : Text → Text
  isoformat : DateTime → Text
  decimal : ℤ → Text

def Site.auto_dir (X : Site) : Text := join X.backup_dir (Text.ofString "auto")

/-- `os.environ.get("RCLONE_CONFIG", "").strip() or str(container.paths.config_dir / "rclone.conf")`. -/
def Site.rclone_config (X : Site) : Text :=
  (stripped (X.environ "RCLONE_CONFIG")).getD (join X.config_dir (Text.ofString "rclone.conf"))

/-! ## Children -/

/-- `_rclone_argv`. -/
def rclone_argv (source remote : Text) : List Text :=
  ["rclone", "copy", "--ignore-existing", "--transfers", "1", "--contimeout", "30s", "--stats", "0",
    "--ask-password=false", "--log-level", "INFO", "--"].map Text.ofString
    ++ [source, remote.rdropWhile (· = .scalar '/') ++ Text.ofString "/"]

/-- The command that encrypts one file into `out`. -/
def age_argv (recipients : List Text) (directory out name : Text) : List Text :=
  Text.ofString "age" :: recipients.flatMap (fun key => [Text.ofString "-r", key])
    ++ [Text.ofString "-o", join out (name ++ Text.ofString ".age"), join directory name]

/-- The `finally` of `_run_captured`. -/
def kill_unless_exited (proc : Proc) : JobProg Unit := do
  let returncode : Option ℤ ← job (.returncode proc)
  -- the wait was cut short by a cancellation or the timeout
  if returncode = none then do
    job (.kill proc)
    match ← (job (.drain proc)).attempt with
    -- a grandchild may hold a pipe open; the source logs it and goes on
    | .error .TimeoutError => pure ()
    | .error e => .raise e
    | .ok _ => pure ()
  else pure ()

/-- `_run_captured`. -/
def run_captured (argv : List Text) (env : Environ) : JobProg (ℤ × Text) := do
  let proc : Proc ← job (.spawn argv env)
  Prog.tryFinally (do
      let stderr : Text ← job (.communicate proc)
      let returncode : Option ℤ ← job (.returncode proc)
      pure (returncode.getD (-1), stderr))
    (kill_unless_exited proc)

/-! ## The handler -/

/-- `timedelta(hours=26)` and `timedelta(minutes=5)`, in microseconds. -/
def CLOUD_SOURCE_MAX_AGE : ℕ := 26 * 3600 * 1000000

def CLOUD_CLOCK_SKEW : ℕ := 5 * 60 * 1000000

/-- The files of the snapshots to push, in the order they are encrypted in. -/
def sources (selected : List Stem) : List Text := selected.flatMap fun s => [db_name s, manifest_name s]

inductive Pushed where
  | skipped
  | selected (n : ℕ)
  deriving DecidableEq, Repr

section Handler

variable (X : Site)

/-- The loop over `verify`. -/
def verify_all : List Stem → JobProg Unit
  | [] => pure ()
  | s :: rest => do
      job (.verify (artifact_id s))
      verify_all rest

/-- The loops over `age`. -/
def encrypt_all (recipients : List Text) (out : Text) : List Text → JobProg Unit
  | [] => pure ()
  | name :: rest => do
      let (rc, stderr) ← run_captured (age_argv recipients X.auto_dir out name) X.environ
      if rc ≠ 0 then
        .raise (.RuntimeError (Text.ofString "cloud_backup: age exited " ++ X.decimal rc ++ Text.ofString " for "
          ++ name ++ Text.ofString ": " ++ X.stderr_tail stderr))
      else encrypt_all recipients out rest

/-- `{**os.environ, "RCLONE_CONFIG": …, "RCLONE_CACHE_DIR": …, "XDG_CACHE_HOME": …}`. -/
def rclone_env (cache : Text) : Environ :=
  Function.update (Function.update (Function.update X.environ "RCLONE_CONFIG" (some X.rclone_config))
    "RCLONE_CACHE_DIR" (some cache)) "XDG_CACHE_HOME" (some cache)

/-- The body of the inner `with`. -/
def encrypt_and_push (config : CloudBackupConfig) (selected : List Stem) (tmp : Text) : JobProg Unit := do
  let out := join tmp (Text.ofString "out")
  let cache := join tmp (Text.ofString "cache")
  job (.mkdir out)
  job (.mkdir cache)
  encrypt_all X config.recipients out (sources selected)
  let (rc, stderr) ← run_captured (rclone_argv out config.remote) (rclone_env X cache)
  if rc ≠ 0 then
    .raise (.RuntimeError (Text.ofString "cloud_backup: rclone exited " ++ X.decimal rc ++ Text.ofString ": "
      ++ X.stderr_tail stderr))
  else pure ()

/-- The checks of the newest snapshot. -/
def check_fresh (newest now : DateTime) : Except JobExc Unit :=
  if now.micros + CLOUD_CLOCK_SKEW < newest.micros then
    .error (.RuntimeError (Text.ofString "cloud_backup: newest snapshot is stamped in the future ("
      ++ X.isoformat newest ++ Text.ofString ")"))
  else if newest.micros + CLOUD_SOURCE_MAX_AGE < now.micros then
    .error (.RuntimeError (Text.ofString "cloud_backup: newest published snapshot is from " ++ X.isoformat newest
      ++ Text.ofString "; db_backup has stopped producing, so nothing fresh would go offsite"))
  else .ok ()

/-- The body of the `asyncio.timeout`; the answer is what was pushed. -/
def push (config : CloudBackupConfig) : JobProg (List Stem) := do
  job (.sweep_stale_push_dirs X.backup_dir)
  -- the oldest first
  let published : List (DateTime × Stem) ← job (.published_snapshots X.auto_dir)
  match published.getLast? with
  | none => .raise (.RuntimeError (Text.ofString "cloud_backup: no published snapshot in " ++ X.auto_dir))
  | some newest => do
      let now : DateTime ← job .utc_now
      match check_fresh X newest.1 now with
      | .error e => .raise e
      | .ok () => do
          let selected := select_for_push published
          verify_all selected
          let tmp : Text ← job (.mkdtemp X.backup_dir)
          Prog.tryFinally (encrypt_and_push X config selected tmp) (job (.rmtree tmp))
          pure selected

/-- The manifests are read again for the log. -/
def log_manifests : List Stem → JobProg Unit
  | [] => pure ()
  | s :: rest => do
      let _ ← job (.read_text (join X.auto_dir (manifest_name s)))
      log_manifests rest

/-- `cloud_backup`. -/
def cloud_backup : JobProg Pushed := do
  let config := read_cloud_backup_config X.environ
  -- skipped, not a success
  if !config.enabled then pure .skipped
  else
    match config.problem with
    | some problem => .raise (.ValueError (Text.ofString "cloud_backup: " ++ problem))
    | none => do
        let euid : Option ℕ ← job .geteuid
        -- where `os.geteuid` is missing the answer is `none`, and no check is made
        if euid = some 0 then
          .raise (.PermissionError (Text.ofString ("cloud_backup: refusing to run as root; use `docker exec --user "
            ++ "1000:1000` or the Portainer console as user oc")))
        else do
          let configured : Bool ← job (.is_file X.rclone_config)
          if !configured then
            .raise (.FileNotFoundError (Text.ofString "cloud_backup: rclone config not found at " ++ X.rclone_config
              ++ Text.ofString "; install it as uid 1000 (see the runbook)"))
          else do
            let selected ← push X config
            log_manifests X selected
            pure (.selected selected.length)

end Handler

end OpenChronicle.CloudBackup
