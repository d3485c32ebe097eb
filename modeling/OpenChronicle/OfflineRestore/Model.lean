/-
`scripts/offline_restore.py`: the volume, and `activate`, `rollback`, `probe` and `retire_stage` as
programs over single file steps.

A step is one directory entry changed, one block written or one file read; a rename is one step. `fsync`
is left out: a step that has returned is durable. What SQLite and the operating system decide (results
of the checks, free space, permissions, errors) is chosen anew in each call, so nothing below relies on
it.

The helper works on one database, `/data/openchronicle.db`, as its command line demands.

Each command is a program of its own, with its checks in the order of the source, so that what a command
has done when it refuses can be read off the program. The state that the helper keeps in a file of its
own is a value here, since it is written and read by the helper alone; every other file is its bytes.

A path is one of those the commands touch, and the volume says what is there: a file, a directory, a
link that leads somewhere or not, or nothing. The checks of the source tell these apart, so the model
does.
-/
import OpenChronicle.Lib.Crash
import OpenChronicle.Lib.PyStr
import OpenChronicle.Lib.Windows

set_option autoImplicit false

namespace OpenChronicle.OfflineRestore

open Program

/-! ## The volume -/

/-- What is in a file that is not the helper's state. -/
abbrev Bytes := List UInt8

/-- A hex digest. -/
abbrev Digest := String

/-- The database and its sidecars. -/
inductive Member where
  | main
  | wal
  | shm
  deriving DecidableEq, Repr

/-- The three files of a database in WAL mode, as SQLite names them. -/
def Member.name : Member → String
  | main => "openchronicle.db"
  | wal => "openchronicle.db-wal"
  | shm => "openchronicle.db-shm"

/-- The paths under `/data` that the helper names. -/
inductive Path where
  | data
  | live (m : Member)
  | incoming (op : String)
  | rollback (op : String)
  | stage_dir
  | staged (name : String)
  | recovery_root
  | recovery (op : String)
  | state (op : String)
  | state_temp (op : String)
  | raw_old (op : String)
  | raw (op : String) (m : Member)
  | scratch_dir (op : String)
  | scratch (op : String) (m : Member)
  | old_consistent (op : String)
  | displaced (op : String) (m : Member)
  | forward_state (op : String)
  | forward (op : String) (m : Member)
  | forward_displaced (op : String) (m : Member)
  deriving DecidableEq, Repr

/-- The names under `/data` as the source builds them; only messages need them. -/
def Path.text : Path → String
  | data => "/data"
  | live m => "/data/" ++ m.name
  | incoming op => "/data/.incoming-" ++ op ++ ".db"
  | rollback op => "/data/.rollback-" ++ op ++ ".db"
  | stage_dir => "/data/.restore-stage"
  | staged name => "/data/.restore-stage/" ++ name
  | recovery_root => "/data/.recovery"
  | recovery op => "/data/.recovery/" ++ op
  | state op => "/data/.recovery/" ++ op ++ "/state.json"
  | state_temp op => "/data/.recovery/" ++ op ++ "/state-.tmp"
  | raw_old op => "/data/.recovery/" ++ op ++ "/raw-old"
  | raw op m => "/data/.recovery/" ++ op ++ "/raw-old/" ++ m.name
  | scratch_dir op => "/data/.recovery/" ++ op ++ "/consolidate-source"
  | scratch op m => "/data/.recovery/" ++ op ++ "/consolidate-source/" ++ m.name
  | old_consistent op => "/data/.recovery/" ++ op ++ "/old-consistent.db"
  | displaced op m => "/data/.recovery/" ++ op ++ "/displaced-" ++ m.name
  | forward_state op => "/data/.recovery/" ++ op ++ "/forward-state"
  | forward op m => "/data/.recovery/" ++ op ++ "/forward-state/" ++ m.name
  | forward_displaced op m => "/data/.recovery/" ++ op ++ "/forward-state/displaced-" ++ m.name

/-! ## The recovery state -/

/-- How far an operation has come, as its state file says. -/
inductive Phase where
  | archiving
  | prepared
  | activated
  | abandoned
  | rolling_back
  | rolled_back
  deriving DecidableEq, Repr

/-- The names in the state file. -/
def Phase.text : Phase → String
  | archiving => "archiving"
  | prepared => "prepared"
  | activated => "activated"
  | abandoned => "abandoned"
  | rolling_back => "rolling_back"
  | rolled_back => "rolled_back"

/-- What the state keeps of the snapshot that is installed. -/
structure BackupInfo where
  sha256 : Digest
  schema_version : ℤ
  project_identity_sha256 : Digest
  project_count : ℕ
  memory_count : ℕ
  embedding_count : ℕ
  deriving DecidableEq, Repr

/-- What the queries of `_inspect` and `_describe` find. -/
structure Identity where
  schema_version : ℤ
  project_identity_sha256 : Digest
  project_count : ℕ
  memory_count : ℕ
  embedding_count : ℕ
  deriving DecidableEq, Repr

/-- The answer of `_describe`; `identity` holds the text of `identity_error` if there is one. -/
structure Description where
  sha256 : Digest
  size_bytes : ℕ
  integrity : String
  foreign_keys : String
  identity : String ⊕ Identity
  deriving DecidableEq, Repr

def Description.rollback_available (d : Description) : Bool :=
  match d.identity with
  | .inl _ => false
  | .inr identity => 0 < identity.schema_version

def Description.verified (d : Description) : Bool :=
  d.rollback_available && d.integrity = "ok" && d.foreign_keys = "ok"

/-- The answer of `_assess_old_state`. -/
inductive OldState where
  | unreadable (error : String)
  | readable (d : Description)
  deriving DecidableEq, Repr

def OldState.rollback_available : OldState → Bool
  | unreadable _ => false
  | readable d => d.rollback_available

/-- `old_state.get("sha256", "")`. -/
def OldState.sha256 : OldState → Digest
  | unreadable _ => ""
  | readable d => d.sha256

/-- What has become of the staged candidate. -/
inductive Retirement where
  | in_progress
  | done
  deriving DecidableEq, Repr

/-- `state.json`, less `created_at`. -/
structure State where
  operation_id : String
  phase : Phase
  db : String
  candidate : String
  candidate_info : BackupInfo
  raw_files : List (Member × Digest) := []
  old_state : Option OldState := none
  write_probe : Option String := none
  forward_files : Option (List (Member × Digest)) := none
  stage_retirement : Option Retirement := none
  deriving DecidableEq, Repr

/-- A directory entry. A state file is kept as the record it holds. -/
inductive Node where
  | file (b : Bytes)
  | json (s : State)
  | dir
  | symlink (resolves : Bool)
  deriving DecidableEq, Repr

/-- The whole of what the helper can see: what is at each path. -/
abbrev Volume := Path → Option Node

/-- `path.exists()` of what is at a path. -/
def found : Option Node → Bool
  | none => false
  | some (.symlink resolves) => resolves
  | some _ => true

def is_symlink : Option Node → Bool
  | some (.symlink _) => true
  | _ => false

/-- `not path.is_symlink() and path.is_file()`; it is never asked of a state file. -/
def is_regular : Option Node → Bool
  | some (.file _) => true
  | _ => false

/-- `path.stat().st_size`; what is not a file never has size 0. -/
def size : Option Node → ℕ
  | some (.file b) => b.length
  | _ => 1

/-! ## File steps -/

/-- What ends a command: a refusal with its message, or an error of a step. -/
inductive Fault where
  | RestoreError (message : String)
  | OSError
  | DatabaseError (code : Option ℕ) (text : String)
  deriving DecidableEq, Repr

/-- `sqlite_errorname` and the text of an `sqlite3.Error`. -/
structure SqlError where
  name : String
  text : String
  deriving DecidableEq, Repr

/-- What SQLite says of a file; each part may raise. -/
structure Report where
  integrity : Except SqlError String := .ok "ok"
  no_violation : Except SqlError Bool := .ok true
  identity : Except SqlError Identity

/-- What the operating system is asked. -/
inductive Question where
  | is_root
  | parent_is_symlink
  | other_device
  | unwritable (m : Member)
  deriving DecidableEq, Repr

/-- The steps. A question is one that the operating system answers. -/
inductive FileOp where
  | look (p : Path)
  | read (p : Path)
  | mkdir (p : Path) (exist_ok : Bool)
  | create (p : Path)
  | append (p : Path) (block : Bytes)
  | write_state (p : Path) (s : State)
  | replace (source target : Path)
  | unlink (p : Path) (missing_ok : Bool)
  | ask (q : Question)
  | disk_free
  | sqlite_report (p : Path)
  | backup (op : String)
  | sqlite_open
  | sqlite_close

@[reducible] def FileOp.Resp : FileOp → Type
  | look _ => Option Node
  | read _ => Bytes
  | ask _ => Bool
  | disk_free => ℕ
  | sqlite_report _ => Report
  | sqlite_open => Except SqlError Unit
  | _ => Unit

/-- The steps with their answers. -/
abbrev fileSig : Sig := ⟨FileOp, FileOp.Resp⟩

/-- A command, or a part of one. -/
abbrev Helper := Prog fileSig Fault

def act (o : FileOp) : Helper o.Resp := Prog.op (S := fileSig) o

/-- What a write transaction leaves beside the database. -/
inductive Sidecars where
  | untouched
  | removed
  | left (shm : Bytes)

/-- What decides a step. The defaults are those of a call that goes well. -/
structure Choice where
  fails : Bool := false
  yes : Question → Bool := fun _ => false
  free : ℕ := 2 ^ 62
  report : Report := { identity := .ok ⟨5, "", 0, 0, 0⟩ }
  copied : Option Bytes := some []
  backup_outcome : Except Fault Unit := .ok ()
  session : Except SqlError Unit := .ok ()
  sidecars : Sidecars := .removed
  checkpointed : Bytes := []

/-- A file step may raise instead, with nothing changed. -/
def Choice.or_fails {α : Type} (c : Choice) (w : Volume) (r : Except Fault α × Volume) :
    Except Fault α × Volume :=
  if c.fails then (.error .OSError, w) else r

/-- Whether a `-wal` beside the database has something to check point. -/
def has_frames : Option Node → Bool
  | some (.file (_ :: _)) => true
  | _ => false

/-- The family with these three entries. -/
def with_family (w : Volume) (main wal shm : Option Node) : Volume :=
  Function.update (Function.update (Function.update w (.live .main) main) (.live .wal) wal)
    (.live .shm) shm

/-- The main file once SQLite has had it open. -/
def main_after (c : Choice) (w : Volume) : Option Node :=
  if has_frames (w (.live .wal)) then some (.file c.checkpointed) else w (.live .main)

/-- A connection opens the database, or closes it. A `-wal` with frames is check pointed;
otherwise the database keeps its bytes, and what SQLite leaves beside it is an empty `-wal`
and a `-shm`. -/
def sqlite_touch (c : Choice) (w : Volume) : Volume :=
  match c.sidecars with
  | .untouched => w
  | .removed => with_family w (main_after c w) none none
  | .left shm => with_family w (main_after c w) (some (.file [])) (some (.file shm))

def exec : (o : FileOp) → Choice → Volume → Except Fault o.Resp × Volume
  | .look p, c, w => c.or_fails w (.ok (w p), w)
  | .read p, c, w => c.or_fails w <|
      match w p with
      | some (.file b) => (.ok b, w)
      | _ => (.error .OSError, w)
  | .mkdir p exist_ok, c, w => c.or_fails w <|
      match w p with
      | none => (.ok (), Function.update w p (some .dir))
      | some .dir => if exist_ok then (.ok (), w) else (.error .OSError, w)
      | some _ => (.error .OSError, w)
  | .create p, c, w => c.or_fails w <|
      match w p with
      | none => (.ok (), Function.update w p (some (.file [])))
      | some _ => (.error .OSError, w)
  | .append p block, c, w => c.or_fails w <|
      match w p with
      | some (.file b) => (.ok (), Function.update w p (some (.file (b ++ block))))
      | _ => (.error .OSError, w)
  | .write_state p s, c, w => c.or_fails w (.ok (), Function.update w p (some (.json s)))
  | .replace source target, c, w => c.or_fails w <|
      match w source with
      | some node => (.ok (), Function.update (Function.update w source none) target (some node))
      | none => (.error .OSError, w)
  | .unlink p missing_ok, c, w => c.or_fails w <|
      match w p with
      | some _ => (.ok (), Function.update w p none)
      | none => if missing_ok then (.ok (), w) else (.error .OSError, w)
  | .ask q, c, w => (.ok (c.yes q), w)
  | .disk_free, c, w => (.ok c.free, w)
  | .sqlite_report _, c, w => (.ok c.report, w)
  | .backup op, c, w =>
      (c.backup_outcome, Function.update w (.old_consistent op) (c.copied.map .file))
  | .sqlite_open, c, w => (.ok c.session, sqlite_touch c w)
  | .sqlite_close, c, w => (.ok (), sqlite_touch c w)

/-! ## Names -/

/-- `_ID`. -/
def is_id (operation_id : String) : Bool :=
  let alnum (c : Char) := ('a' ≤ c && c ≤ 'z') || ('0' ≤ c && c ≤ '9')
  match operation_id.toList with
  | [] => false
  | c :: cs => alnum c && 3 ≤ cs.length && cs.length ≤ 63 && cs.all fun d => alnum d || d = '-'

/-- `_CANDIDATE`. -/
def is_candidate_name (name : List Char) : Bool :=
  let hex (c : Char) := ('a' ≤ c && c ≤ 'f') || ('0' ≤ c && c ≤ '9')
  "candidate-".toList.isPrefixOf name && ((name.drop 10).take 24).all hex
    && (name.drop 34) = ".db".toList

/-- What follows the stage directory in a path, if the path is in it. -/
def in_stage (candidate : String) : Option (List Char) :=
  if "/data/.restore-stage/".toList.isPrefixOf candidate.toList then some (candidate.toList.drop 21)
  else none

/-- The name of a generated candidate in the stage directory. -/
def staged_name (candidate : String) : Option String :=
  match in_stage candidate with
  | some name => if is_candidate_name name then some (String.ofList name) else none
  | none => none

def DB : String := "/data/openchronicle.db"

def MARGIN : ℕ := 16 * 1024 * 1024

/-- The block size of `shutil.copyfileobj`. -/
def BLOCK : ℕ := 1024 * 1024

/-- The blocks in which `shutil.copyfileobj` copies, each of them a step. -/
def blocks (b : Bytes) : List Bytes :=
  (List.range ((b.length + BLOCK - 1) / BLOCK)).map fun i => Ranking.slice b (i * BLOCK) BLOCK

/-! ## Helpers -/

/-- A command that refuses names the reason and goes no further. -/
def refuse {α : Type} (message : String) : Helper α := .raise (.RestoreError message)

/-- `path.exists()`. -/
def path_exists (p : Path) : Helper Bool := do
  let node ← act (.look p)
  pure (found node)

/-- `_regular`. -/
def regular (p : Path) : Helper Unit := do
  let node ← act (.look p)
  if is_regular node then pure () else refuse ("Missing or non-regular file: " ++ p.text)

def append_blocks (target : Path) : List Bytes → Helper Unit
  | [] => pure ()
  | block :: rest => do
      act (.append target block)
      append_blocks target rest

/-- `_copy_durable`. -/
def copy_durable (source target : Path) : Helper Unit := do
  regular source
  let b : Bytes ← act (.read source)
  act (.create target)
  append_blocks target (blocks b)

/-- `_save_state`. Its temporary file has a name of its own and is never read. -/
def save_state (op : String) (s : State) : Helper Unit :=
  Prog.tryFinally (do
      act (.write_state (.state_temp op) s)
      act (.replace (.state_temp op) (.state op)))
    (act (.unlink (.state_temp op) true))

/-- `_load_state`. -/
def load_state (op : String) : Helper State := do
  let node ← act (.look (.state op))
  match node with
  | some (.json s) => pure s
  | _ => refuse "Recovery state is missing or unreadable"

/-- The members that are there, by `exists()` or as a symlink. -/
def present (place : Member → Path) : List Member → Helper (List Member)
  | [] => pure []
  | m :: rest => do
      let node : Option Node ← act (.look (place m))
      let others ← present place rest
      pure (if node.isSome then m :: others else others)

/-- A loop over members. -/
def each (round : Member → Helper Unit) : List Member → Helper Unit
  | [] => pure ()
  | m :: rest => do
      round m
      each round rest

/-- `_family`. -/
def family : Helper (List Member) := present .live [.main, .wal, .shm]

/-- Each member is looked at in a step of its own. -/
def all_regular : List Member → Helper Bool
  | [] => pure true
  | m :: rest => do
      let node ← act (.look (.live m))
      let others ← all_regular rest
      pure (is_regular node && others)

/-- `sum(path.stat().st_size …)`, over members that were found a step before. -/
def total_size : List Member → Helper ℕ
  | [] => pure 0
  | m :: rest => do
      let node ← act (.look (.live m))
      let others ← total_size rest
      pure (size node + others)

/-- `_recovery_dir`. -/
def recovery_dir (operation_id : String) : Helper Unit := do
  if is_id operation_id then
    let root ← act (.look .recovery_root)
    if is_symlink root then refuse "Recovery root cannot be a symlink" else pure ()
  else refuse "Invalid operation ID"

/-- `_refuse_root`. -/
def refuse_root : Helper Unit := do
  let root ← act (.ask .is_root)
  if root then refuse "Run the helper as the service user (--user 1000:1000), not root" else pure ()

/-- The state of an operation, as every function but `activate` takes it up. -/
def load_own_state (operation_id : String) : Helper State := do
  recovery_dir operation_id
  let s ← load_state operation_id
  if s.db ≠ DB ∨ s.operation_id ≠ operation_id then
    refuse "Recovery state belongs to a different database or operation"
  else pure s

section Hashing

variable (sha256 : Bytes → Digest)

/-- `_sha256`. -/
def sha256_of (p : Path) : Helper Digest := do
  let b : Bytes ← act (.read p)
  pure (sha256 b)

/-- The checks of `_inspect`: a text to refuse with, or what the queries found. -/
def Report.inspected (r : Report) : String ⊕ Identity :=
  match r.integrity with
  | .error _ => .inl "Cannot inspect OpenChronicle database: "
  | .ok row =>
      if row ≠ "ok" then .inl "SQLite integrity_check failed: "
      else match r.no_violation with
        | .error _ => .inl "Cannot inspect OpenChronicle database: "
        | .ok false => .inl "SQLite foreign_key_check failed: "
        | .ok true => match r.identity with
            | .error _ => .inl "Cannot inspect OpenChronicle database: "
            | .ok identity => .inr identity

def has_sidecars (name : String) : Helper Bool := do
  let wal ← path_exists (.staged (name ++ "-wal"))
  if wal then pure true else path_exists (.staged (name ++ "-shm"))

/-- `_inspect`, of a staged file. -/
def inspect (name : String) : Helper BackupInfo := do
  regular (.staged name)
  let sidecars ← has_sidecars name
  if sidecars then
    refuse ("Expected a standalone SQLite file without sidecars: " ++ (Path.staged name).text)
  else
    let report : Report ← act (.sqlite_report (.staged name))
    match report.inspected with
    | .inl message => refuse (message ++ (Path.staged name).text)
    | .inr identity => do
        let digest ← sha256_of sha256 (.staged name)
        pure { sha256 := digest, schema_version := identity.schema_version
               project_identity_sha256 := identity.project_identity_sha256
               project_count := identity.project_count, memory_count := identity.memory_count
               embedding_count := identity.embedding_count }

structure Expected where
  sha256 : Digest
  schema_version : ℤ
  project_identity_sha256 : Digest

/-- `candidate.parent.is_symlink()`. -/
def parent_is_symlink (candidate : String) : Helper Bool :=
  match in_stage candidate with
  | some _ => do
      let parent ← act (.look .stage_dir)
      pure (is_symlink parent)
  | none => act (.ask .parent_is_symlink)

/-- `_preflight`; it answers the candidate's name as well. -/
def preflight (candidate : String) (expected : Expected) : Helper (String × BackupInfo) := do
  if !("/".toList.isPrefixOf candidate.toList) then
    refuse "Use absolute paths and the expected openchronicle.db name"
  else
    regular (.live .main)
    let parent ← act (.look .data)
    let stage ← parent_is_symlink candidate
    if is_symlink parent || stage then refuse "Database and stage directories cannot be symlinks"
    else match staged_name candidate with
      | none =>
          refuse "Candidate must be a generated file in the database's .restore-stage directory"
      | some name => do
          regular (.staged name)
          let other ← act (.ask .other_device)
          if other then refuse "Candidate must be on the database filesystem"
          else
            let sidecars ← has_sidecars name
            if sidecars then refuse "Candidate has SQLite sidecars; stage a standalone snapshot"
            else
              let actual ← inspect sha256 name
              if actual.sha256 ≠ expected.sha256 ∨ actual.schema_version ≠ expected.schema_version
                  ∨ actual.project_identity_sha256 ≠ expected.project_identity_sha256 then
                refuse "Candidate hash, schema or project identity differs from expected"
              else pure (name, actual)

/-! ### The old state -/

/-- The checks of `_describe`, each recorded apart. -/
def Report.described (r : Report) (digest : Digest) (size_bytes : ℕ) : Description where
  sha256 := digest
  size_bytes := size_bytes
  integrity := match r.integrity with
    | .ok row => row
    | .error e => "raised " ++ e.name
  foreign_keys := match r.no_violation with
    | .ok true => "ok"
    | .ok false => "violations"
    | .error e => "raised " ++ e.name
  identity := match r.identity with
    | .ok identity => .inr identity
    | .error e => .inl (e.name ++ ": " ++ e.text)

/-- `_describe`, of `old-consistent.db`. -/
def describe (op : String) : Helper Description := do
  let digest ← sha256_of sha256 (.old_consistent op)
  let node ← act (.look (.old_consistent op))
  let report : Report ← act (.sqlite_report (.old_consistent op))
  pure (report.described digest (size node))

/-- `_consolidate`. SQLite reads a copy of the archive and fills `old-consistent.db`. -/
def consolidate (op : String) : Helper Unit := do
  regular (.scratch op .main)
  act (.backup op)

/-- The primary result codes `SQLITE_CORRUPT` and `SQLITE_NOTADB`. -/
def is_corrupt : Option ℕ → Bool
  | none => false
  | some code => code % 256 = 11 || code % 256 = 26

/-- `shutil.rmtree(scratch, ignore_errors=True)`. -/
def remove_scratch (op : String) : Helper Unit := do
  let _ ← (act (.unlink (.scratch op .main) true)).attempt
  let _ ← (act (.unlink (.scratch op .wal) true)).attempt
  let _ ← (act (.unlink (.scratch op .shm) true)).attempt
  let _ ← (act (.unlink (.scratch_dir op) true)).attempt
  pure ()

/-- The body of the `try` in `_assess_old_state`: the error text if the copy is unreadable. -/
def consolidate_archive (op : String) : Helper (Option String) := do
  let members ← present (.raw op) [.main, .wal, .shm]
  each (fun m => copy_durable (.raw op m) (.scratch op m)) members
  let done ← (consolidate op).attempt
  match done with
  | .ok _ => pure none
  | .error (.DatabaseError code text) =>
      if is_corrupt code then do
        act (.unlink (.old_consistent op) true)
        pure (some text)
      else .raise (.DatabaseError code text)
  | .error e => .raise e

/-- `_assess_old_state`. -/
def assess_old_state (op : String) : Helper OldState := do
  act (.mkdir (.scratch_dir op) false)
  let unreadable ← (consolidate_archive op).tryFinally (remove_scratch op)
  match unreadable with
  | some error => pure (.unreadable error)
  | none => do
      let d ← describe sha256 op
      pure (.readable d)

/-! ### The write probe -/

def PROBE_PENDING : String :=
  "pending: the installed file has not been probed; run `probe` after checking why the helper stopped"

def PROBE_STALE : String :=
  "stale: the installed file was written since the swap; this result does not describe it"

/-- The first member that the process may not write. -/
def first_unwritable : List Member → Helper (Option Member)
  | [] => pure none
  | m :: rest => do
      let unwritable ← act (.ask (.unwritable m))
      if unwritable then pure (some m) else first_unwritable rest

/-- `_probe_writable`. -/
def probe_writable : Helper String := do
  let members ← family
  let unwritable ← first_unwritable members
  match unwritable with
  | some m => pure ("failed: EACCES: " ++ m.name ++ " is not writable by this user")
  | none => do
      let session : Except SqlError Unit ← act .sqlite_open
      act .sqlite_close
      match session with
      | .ok _ => pure "ok"
      | .error e => pure ("failed: " ++ e.name ++ ": " ++ e.text)

def is_held (probe : String) : Bool :=
  PyStr.contains "SQLITE_BUSY".toList probe.toList || PyStr.contains "SQLITE_LOCKED".toList probe.toList

/-- `_require_writable`; it answers the state with the result recorded. -/
def require_writable (op : String) (s : State) (next : String) : Helper State := do
  let probe ← probe_writable
  let s := { s with write_probe := some probe }
  save_state op s
  if probe = "ok" then pure s
  else if is_held probe then
    refuse ("Another process holds the installed database (" ++ probe ++ "). Keep the service "
      ++ "stopped; find what still has /data open and stop it, then run `probe --operation-id "
      ++ op ++ "`; " ++ next)
  else
    refuse ("The installed database is not writable by this user (" ++ probe ++ "). Keep the "
      ++ "service stopped; make openchronicle.db, any openchronicle.db-wal or -shm, and /data "
      ++ "writable for uid 1000, then run `probe --operation-id " ++ op ++ "`; " ++ next)

/-- `_foreign_sidecar`. -/
def foreign_sidecar : Helper (Option Member) := do
  let wal : Option Node ← act (.look (.live .wal))
  let shm : Option Node ← act (.look (.live .shm))
  if is_symlink shm then pure (some .shm)
  else if is_symlink wal then pure (some .wal)
  else if shm.isSome && wal.isNone then pure (some .shm)
  else pure none

/-- `_unchanged_since_swap`. -/
def unchanged_since_swap (expected_sha : Digest) : Helper Bool := do
  if expected_sha = "" then pure false
  else
    let wal ← act (.look (.live .wal))
    if found wal && size wal ≠ 0 then pure false
    else
      let digest ← sha256_of sha256 (.live .main)
      pure (digest = expected_sha)

/-- `_remove_incoming`. -/
def remove_incoming (op : String) (candidate_sha256 : Digest) : Helper (Option String) := do
  let node : Option Node ← act (.look (.incoming op))
  match node with
  | none => pure none
  | some (.file _) => do
      let digest ← sha256_of sha256 (.incoming op)
      if digest ≠ candidate_sha256 then
        pure (some ("left .incoming-" ++ op ++ ".db: it does not match the staged candidate"))
      else do
        act (.unlink (.incoming op) false)
        pure (some ("removed .incoming-" ++ op ++ ".db"))
  | some _ => pure (some ("left .incoming-" ++ op ++ ".db: it does not match the staged candidate"))

end Hashing

/-! ## The operations -/

/-- What a call answers. -/
inductive Result where
  | activation_planned (candidate : BackupInfo)
  | activated (s : State)
  | nothing_to_roll_back (applied : Bool) (cleanup : Option String)
  | rollback_planned (old : OldState)
  | rolled_back (s : State) (cleanup : Option String)
  | probed (phase : Phase) (write_probe : Option String)
  | already_retired
  | retirement_planned (candidate : String)
  | retired (cleanup : Option String)

/-- What is left of a call: its answer, or the write probe and then its answer. -/
inductive Plan where
  | answer (r : Result)
  | probe (s : State) (next : String) (answer : State → Result)

/-- The end of a call. -/
def finish (op : String) : Plan → Helper Result
  | .answer r => pure r
  | .probe s next answer => do
      let s ← require_writable op s next
      pure (answer s)

section Operations

variable (sha256 : Bytes → Digest)

/-- A loop over members that records a digest for each of them. -/
def record_each (round : Member → Helper Digest) : List Member → Helper (List (Member × Digest))
  | [] => pure []
  | m :: rest => do
      let digest ← round m
      let others ← record_each round rest
      pure ((m, digest) :: others)

/-- One round of the loop of `activate` that fills `raw-old`. -/
def archive_raw (op : String) (m : Member) : Helper Digest := do
  let before ← sha256_of sha256 (.live m)
  copy_durable (.live m) (.raw op m)
  let copied ← sha256_of sha256 (.raw op m)
  let after ← sha256_of sha256 (.live m)
  if copied ≠ before ∨ after ≠ before then
    refuse "Live database changed while archiving; keep the service stopped"
  else pure before

/-- A sidecar out of the way, into the recovery directory. -/
def displace (op : String) (m : Member) : Helper Unit := do
  let there ← path_exists (.live m)
  if there then act (.replace (.live m) (.displaced op m)) else pure ()

/-- `activate` from the moment it changes the volume: the old family is archived and assessed. -/
def archive_old (op : String) (s : State) (live_files : List Member) : Helper State := do
  act (.mkdir .recovery_root true)
  act (.mkdir (.recovery op) false)
  save_state op s
  act (.mkdir (.raw_old op) false)
  let raw_files ← record_each (archive_raw sha256 op) live_files
  let s := { s with raw_files }
  save_state op s
  let old_state ← assess_old_state sha256 op
  let s := { s with old_state := some old_state }
  save_state op s
  pure s

/-- The candidate beside the database. -/
def bring_in (op name : String) (s : State) : Helper State := do
  copy_durable (.staged name) (.incoming op)
  let digest ← sha256_of sha256 (.incoming op)
  if digest ≠ s.candidate_info.sha256 then refuse "Incoming copy differs from the staged candidate"
  else
    let s := { s with phase := .prepared, write_probe := some PROBE_PENDING }
    save_state op s
    pure s

/-- The swap of `activate`. -/
def install_candidate (op : String) (s : State) : Helper State := do
  each (displace op) [.wal, .shm]
  act (.replace (.incoming op) (.live .main))
  let s := { s with phase := .activated }
  save_state op s
  pure s

/-- `activate` up to its write probe. -/
def activate_steps (candidate operation_id : String) (expected : Expected) (apply : Bool) :
    Helper Plan := do
  refuse_root
  let (name, info) ← preflight sha256 candidate expected
  recovery_dir operation_id
  let used ← path_exists (.recovery operation_id)
  if used then refuse "Operation ID already has recovery state; inspect or rollback it"
  else
    let live_files ← family
    let fine ← all_regular live_files
    if !fine then refuse "Live database family contains a non-regular file"
    else
      let old_size ← total_size live_files
      let node ← act (.look (.staged name))
      let free : ℕ ← act .disk_free
      if free < 4 * old_size + 2 * size node + MARGIN then
        refuse "Insufficient space for raw and consolidated rollback copies plus incoming candidate"
      else if !apply then pure (.answer (.activation_planned info))
      else
        let s ← archive_old sha256 operation_id
          { operation_id, phase := .archiving, db := DB, candidate, candidate_info := info } live_files
        let s ← bring_in sha256 operation_id name s
        let s ← install_candidate operation_id s
        pure (.probe s ("then start the service, or roll back " ++ operation_id ++ ".") .activated)

/-- `activate`. -/
def activate (candidate operation_id : String) (expected : Expected) (apply : Bool) :
    Helper Result := do
  let plan ← activate_steps sha256 candidate operation_id expected apply
  finish operation_id plan

/-- One round of the loop of `rollback` that fills `forward-state`. -/
def archive_forward (op : String) (m : Member) : Helper Digest := do
  copy_durable (.live m) (.forward op m)
  let digest ← sha256_of sha256 (.live m)
  let copied ← sha256_of sha256 (.forward op m)
  if copied ≠ digest then refuse "Forward archive differs from current database" else pure digest

/-- A first attempt: the current family is archived, and the phase recorded. -/
def begin_rollback (op : String) (s : State) : Helper State := do
  let forward ← path_exists (.forward_state op)
  if forward then refuse "Incomplete forward archive exists; inspect it before retrying rollback"
  else
    let live_files ← family
    let fine ← all_regular live_files
    if !fine then refuse "Current database family contains a non-regular file"
    else
      let live_size ← total_size live_files
      let node ← act (.look (.old_consistent op))
      let free : ℕ ← act .disk_free
      if free < live_size + size node + MARGIN then
        refuse "Insufficient space to retain forward state and install rollback copy"
      else
        act (.mkdir (.forward_state op) false)
        let forward_files ← record_each (archive_forward sha256 op) live_files
        let s := { s with forward_files := some forward_files, phase := .rolling_back
                          write_probe := some PROBE_PENDING }
        save_state op s
        pure s

def check_archived (op : String) : List (Member × Digest) → Helper Unit
  | [] => pure ()
  | (m, digest) :: rest => do
      regular (.forward op m)
      let archived ← sha256_of sha256 (.forward op m)
      if archived ≠ digest then refuse "Forward archive differs from recorded checksum"
      else check_archived op rest

/-- One round of the loop over the sidecars when a rollback is resumed. -/
def check_sidecar (op : String) (recorded : List (Member × Digest)) (m : Member) : Helper Unit := do
  let sidecar ← act (.look (.live m))
  let displaced ← act (.look (.forward_displaced op m))
  if is_symlink sidecar || is_symlink displaced then refuse "Rollback sidecar path cannot be a symlink"
  else match recorded.lookup m with
    | none =>
        if found sidecar || found displaced then refuse "Unexpected sidecar appeared during rollback"
        else pure ()
    | some expected =>
        if found sidecar then
          if found displaced then
            refuse "Current sidecar changed during rollback; keep the service stopped"
          else do
            let digest ← sha256_of sha256 (.live m)
            if digest ≠ expected then
              refuse "Current sidecar changed during rollback; keep the service stopped"
            else pure ()
        else if !is_regular displaced then
          refuse "Displaced sidecar is missing or changed; keep the service stopped"
        else do
          let digest ← sha256_of sha256 (.forward_displaced op m)
          if digest ≠ expected then
            refuse "Displaced sidecar is missing or changed; keep the service stopped"
          else pure ()

/-- A repeated attempt: the archive and the family have to be as they were left. -/
def resume_rollback (op : String) (s : State) (old_digest : Digest) : Helper State := do
  let forward ← act (.look (.forward_state op))
  match forward with
  | some .dir => do
      match s.forward_files with
      | none => refuse "Forward archive has no recorded checksums"
      | some [] => refuse "Forward archive has no recorded checksums"
      | some recorded => do
          check_archived sha256 op recorded
          let current_digest ← sha256_of sha256 (.live .main)
          if recorded.lookup .main ≠ some current_digest ∧ current_digest ≠ old_digest then
            refuse "Current database changed during rollback; keep the service stopped"
          else
            each (check_sidecar sha256 op recorded) [.wal, .shm]
            pure s
  | _ => refuse "Verified forward archive is missing"

/-- A sidecar out of the way, into `forward-state`. -/
def displace_forward (op : String) (m : Member) : Helper Unit := do
  let there ← path_exists (.live m)
  if there then
    let displaced ← path_exists (.forward_displaced op m)
    if displaced then
      refuse "A sidecar reappeared after being displaced; keep the service stopped"
    else act (.replace (.live m) (.forward_displaced op m))
  else pure ()

/-- The swap of `rollback`; it answers the state, and what became of the incoming copy. -/
def install_old (op : String) (s : State) (old_digest : Digest) :
    Helper (State × Option String) := do
  act (.unlink (.rollback op) true)
  copy_durable (.old_consistent op) (.rollback op)
  let digest ← sha256_of sha256 (.rollback op)
  if digest ≠ old_digest then refuse "Rollback copy differs from archived old state"
  else
    each (displace_forward op) [.wal, .shm]
    act (.replace (.rollback op) (.live .main))
    let s := { s with phase := .rolled_back }
    save_state op s
    let cleanup ← remove_incoming sha256 op s.candidate_info.sha256
    pure (s, cleanup)

/-- `rollback` of an operation that stopped before its swap could begin. -/
def abandon (op : String) (s : State) (apply : Bool) : Helper Result :=
  if !apply then pure (.nothing_to_roll_back false none)
  else do
    let cleanup ← remove_incoming sha256 op s.candidate_info.sha256
    save_state op { s with phase := .abandoned }
    pure (.nothing_to_roll_back true cleanup)

def NO_TARGET : String :=
  "The old state was not a readable OpenChronicle database, so there is no automated rollback "
    ++ "target. It is preserved byte-exact in raw-old. To leave this state, activate another "
    ++ "verified artifact under a new operation ID."

/-- `rollback` of an operation whose swap may have begun. -/
def restore_old (op : String) (s : State) (apply : Bool) : Helper Plan :=
  match s.old_state with
  | none => refuse NO_TARGET
  | some old_state =>
      if !old_state.rollback_available then refuse NO_TARGET
      else do
        regular (.old_consistent op)
        let digest ← sha256_of sha256 (.old_consistent op)
        if digest ≠ old_state.sha256 then
          refuse "Consolidated rollback snapshot differs from its recorded identity"
        else if !apply then pure (.answer (.rollback_planned old_state))
        else
          let s ← if s.phase = .rolling_back then resume_rollback sha256 op s old_state.sha256
            else begin_rollback sha256 op s
          let (s, cleanup) ← install_old sha256 op s old_state.sha256
          pure (.probe s "then start the service." fun s => .rolled_back s cleanup)

/-- `rollback` up to its write probe. -/
def rollback_steps (operation_id : String) (apply : Bool) : Helper Plan := do
  refuse_root
  regular (.live .main)
  let s ← load_own_state operation_id
  match s.phase with
  | .archiving => do
      let r ← abandon sha256 operation_id s apply
      pure (.answer r)
  | .abandoned | .rolled_back => refuse ("Nothing to roll back in phase '" ++ s.phase.text ++ "'")
  | .prepared | .activated | .rolling_back => restore_old sha256 operation_id s apply

/-- `rollback`. -/
def rollback (operation_id : String) (apply : Bool) : Helper Result := do
  let plan ← rollback_steps sha256 operation_id apply
  finish operation_id plan

/-- `probe` up to its write probe, given the digest of what was installed. -/
def probe_installed (op : String) (s : State) (expected_sha : Digest) : Helper Plan := do
  let foreign ← foreign_sidecar
  match foreign with
  | some m =>
      refuse (m.name ++ " is not something SQLite leaves (a symlink, or a -shm without its -wal). "
        ++ "Keep the service stopped; remove it, then run `probe --operation-id " ++ op ++ "`.")
  | none => do
      let unchanged ← unchanged_since_swap sha256 expected_sha
      if !unchanged then
        save_state op { s with write_probe := some PROBE_STALE }
        refuse ("The installed database was written since the swap, so this operation's result no "
          ++ "longer describes it. Keep the service stopped; "
          ++ (if s.phase = .activated then "roll back " ++ op ++ ", or " else "")
          ++ "activate a verified artifact again under a new operation ID.")
      else pure (.probe s (if s.phase = .rolled_back then "start the service"
          else "start the service, or roll back " ++ op) fun s => .probed s.phase s.write_probe)

/-- `probe` up to its write probe. -/
def probe_steps (operation_id : String) : Helper Plan := do
  refuse_root
  regular (.live .main)
  let s ← load_own_state operation_id
  match s.phase with
  | .activated => probe_installed sha256 operation_id s s.candidate_info.sha256
  | .rolled_back => probe_installed sha256 operation_id s (s.old_state.elim "" OldState.sha256)
  | phase => refuse ("Nothing installed to probe in phase '" ++ phase.text ++ "'")

/-- `probe`. -/
def probe (operation_id : String) : Helper Result := do
  let plan ← probe_steps sha256 operation_id
  finish operation_id plan

/-- The check of the candidate before its file is released. -/
def check_staged (name : String) (s : State) : Helper Unit := do
  let there ← path_exists (.staged name)
  if there then
    let actual ← inspect sha256 name
    if actual ≠ s.candidate_info then refuse "Staged candidate changed before retirement" else pure ()
  else if s.stage_retirement ≠ some .in_progress then
    refuse "Staged candidate is missing without a recorded retirement"
  else pure ()

/-- `retire_stage`. -/
def retire_stage (operation_id : String) (apply : Bool) : Helper Result := do
  let s ← load_own_state operation_id
  if s.phase ≠ .activated ∧ s.phase ≠ .rolled_back ∧ s.phase ≠ .abandoned then
    refuse "Cannot retire a stage before activation or rollback completes"
  else
    let stage ← act (.look .stage_dir)
    match staged_name s.candidate with
    | none => refuse "Recorded staged path is invalid"
    | some name =>
        if is_symlink stage then refuse "Recorded staged path is invalid"
        else if s.stage_retirement = some .done then
          let there ← path_exists (.staged name)
          if there then refuse "Retired staged file unexpectedly reappeared" else pure .already_retired
        else
          check_staged sha256 name s
          if !apply then pure (.retirement_planned s.candidate)
          else
            let s := { s with stage_retirement := some .in_progress }
            save_state operation_id s
            act (.unlink (.staged name) true)
            let s := { s with stage_retirement := some .done }
            save_state operation_id s
            let cleanup ← remove_incoming sha256 operation_id s.candidate_info.sha256
            pure (.retired cleanup)

/-! ## Calls -/

/-- The four commands with their arguments. -/
inductive Task where
  | activate (candidate operation_id : String) (expected : Expected) (apply : Bool)
  | rollback (operation_id : String) (apply : Bool)
  | probe (operation_id : String)
  | retire_stage (operation_id : String) (apply : Bool)

def helper : Task → Helper Result
  | .activate candidate operation_id expected apply =>
      OfflineRestore.activate sha256 candidate operation_id expected apply
  | .rollback operation_id apply => OfflineRestore.rollback sha256 operation_id apply
  | .probe operation_id => OfflineRestore.probe sha256 operation_id
  | .retire_stage operation_id apply => OfflineRestore.retire_stage sha256 operation_id apply

end Operations

end OpenChronicle.OfflineRestore
