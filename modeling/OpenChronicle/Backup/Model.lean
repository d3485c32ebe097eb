/-
The backup catalog (`persistence/backup_catalog.py`, `persistence/backup.py`) and the retention
of `maintenance/jobs.py`, as programs over single file steps.

A file step is one call of the operating system or of SQLite. It may raise, once in a call of
the catalog, and the process may be killed before any of them; `fsync` is a step with no effect
of its own. Only `exists`, `is_file` and the like never raise.

What SQLite answers about a file is a function of what is in the file. What a backup has copied,
when a file was changed and in which order a directory is listed is chosen anew each time.
-/
import Mathlib.Data.List.Basic
import OpenChronicle.Domain
import OpenChronicle.Lib.Clock
import OpenChronicle.Lib.Crash
import OpenChronicle.Lib.Newest

set_option autoImplicit false

namespace OpenChronicle.Backup

open Program

/-! ## The directory -/

abbrev Bytes := List UInt8

inductive Kind where
  | auto
  | manual
  deriving DecidableEq, Repr

/-- The name of a database or manifest without its suffix: `openchronicle-` and a name, or a text
that does not begin so. -/
inductive Stem where
  | catalog (name : String)
  | other (text : String)
  deriving DecidableEq, Repr

/-- `kind:name`. A text that has no such form is refused like a malformed name. -/
structure ArtifactId where
  kind : Kind
  name : String
  deriving DecidableEq, Repr

def ArtifactId.stem (id : ArtifactId) : Stem := .catalog id.name

/-- What stands behind `_ID_RE`, for the name. -/
def is_name (name : String) : Bool :=
  let digit (c : Char) := '0' ≤ c && c ≤ '9'
  let hex (c : Char) := digit c || ('a' ≤ c && c ≤ 'f')
  let cs := name.toList
  cs.length = 35 && (cs.take 8).all digit && (cs.drop 8).take 1 = ['T']
    && ((cs.drop 9).take 12).all digit && (cs.drop 21).take 2 = ['Z', '-'] && (cs.drop 23).all hex

/-- `path.suffix == ".db"`, for a path that ends so: leading dots are no suffix's. -/
def Stem.has_suffix : Stem → Bool
  | .catalog _ => true
  | .other text => text.toList.any (· ≠ '.')

inductive Role where
  | db
  | wal
  | shm
  | manifest
  /-- `.db.tmp`. -/
  | staged
  | failed_quick_check
  | failed_verify
  /-- `.json.tmp`. -/
  | manifest_temp
  deriving DecidableEq, Repr

inductive Path where
  | root
  | dir (k : Kind)
  | file (k : Kind) (s : Stem) (r : Role)
  deriving DecidableEq, Repr

def ArtifactId.path (id : ArtifactId) (r : Role) : Path := .file id.kind id.stem r

/-- The values of `_inspect`. -/
structure Inspected where
  schema_version : ℤ
  project_count : ℕ
  project_identity_sha256 : String
  memory_count : ℕ
  embedding_count : ℕ
  size_bytes : ℕ
  sha256 : String
  deriving DecidableEq, Repr

structure Manifest where
  artifact_id : ArtifactId
  created_at : String
  inspected : Inspected
  deriving DecidableEq, Repr

/-- Where a symlink leads. -/
inductive Target where
  | missing
  | file
  | dir
  deriving DecidableEq, Repr

/-- `st_mtime`, in seconds. -/
abbrev Mtime := ℚ

/-- A directory entry. A file that holds a manifest is kept as the manifest. -/
inductive Node where
  | file (b : Bytes) (mtime : Mtime)
  | json (m : Manifest) (mtime : Mtime)
  | dir
  | symlink (target : Target)
  deriving DecidableEq, Repr

def is_symlink : Option Node → Bool
  | some (.symlink _) => true
  | _ => false

def is_file : Option Node → Bool
  | some (.file _ _) => true
  | some (.json _ _) => true
  | some (.symlink .file) => true
  | _ => false

def is_dir : Option Node → Bool
  | some .dir => true
  | some (.symlink .dir) => true
  | _ => false

/-- `path.exists()`. -/
def found : Option Node → Bool
  | none => false
  | some (.symlink .missing) => false
  | some _ => true

/-- `st_size`. It is read of a database only, and only after the check that the name is a regular file. -/
def Node.size : Node → ℕ
  | .file b _ => b.length
  | _ => 0

/-- `st_mtime`. A directory that has the name of a database has a time of its own, and so has what a link of that
name points to; these times are not kept, and are taken to be 0. Retention then reads such a name as that of its
oldest snapshot. -/
def Node.mtime : Node → Mtime
  | .file _ t => t
  | .json _ t => t
  | _ => 0

/-- `stems` are those that the directories have had so far. `passed` is what `_inspect` read last of
the files that passed it, and not part of the code. `faults` more steps of this call may raise. -/
structure World where
  files : Path → Option Node
  stems : Kind → List Stem
  passed : List (Path × Bytes) := []
  faults : ℕ := 0

def World.put (w : World) (p : Path) (node : Node) : World :=
  { w with
    files := Function.update w.files p (some node)
    stems := match p with
      | .file k s _ => if s ∈ w.stems k then w.stems else Function.update w.stems k (s :: w.stems k)
      | _ => w.stems }

/-- The directory of a file is there. -/
def World.housed (w : World) : Path → Bool
  | .file k _ _ => (w.files (.dir k)).isSome
  | _ => true

/-- What is written to a path, if its directory is there. -/
def World.write (w : World) (p : Path) (node : Node) : World := if w.housed p then w.put p node else w

def World.remove (w : World) (p : Path) : World := { w with files := Function.update w.files p none }

/-! ## File steps -/

inductive Fault where
  | BackupCatalogError (message : String)
  | BackupValidationError
  | ValueError
  | OSError
  | DatabaseError
  deriving DecidableEq, Repr

/-- What the queries of `_inspect` count. -/
structure Content where
  schema_version : ℤ
  project_count : ℕ
  project_identity_sha256 : String
  memory_count : ℕ
  embedding_count : ℕ
  deriving DecidableEq, Repr

/-- What SQLite says of a file; `none` is an `sqlite3.Error`. The checks answer their first row. -/
structure Report where
  integrity_check : Option (Option String)
  foreign_key_check : Option Bool
  content : Option Content
  deriving DecidableEq, Repr

/-- What does not change: the configuration, SQLite and the hash. -/
structure Env where
  require_existing_root : Bool
  root_is_absolute : Bool
  quick_check : Bytes → Option (Option String)
  report : Bytes → Report
  sha256 : Bytes → String

inductive FileOp where
  | look (p : Path)
  | stat (p : Path)
  | mkdir (k : Kind)
  | db_size
  | disk_free
  | unlink (p : Path) (missing_ok : Bool)
  | replace (source target : Path)
  | fsync
  /-- `sqlite3.connect`, `Connection.backup`, `PRAGMA journal_mode` and `close`, for the staged file. -/
  | sqlite_write (p : Path)
  | sqlite_read (p : Path)
  | quick_check (p : Path)
  | report (p : Path)
  | read (p : Path)
  | open_new (p : Path)
  | write_some (p : Path)
  | write_manifest (p : Path) (m : Manifest)
  | read_manifest (p : Path)
  /-- The stems of the files in a directory with this role. -/
  | glob (k : Kind) (r : Role)
  deriving DecidableEq

@[reducible] def FileOp.Resp : FileOp → Type
  | look _ => Option Node
  | stat _ => Node
  | db_size => ℕ
  | disk_free => ℕ
  | quick_check _ => Option (Option String)
  | report _ => Report
  | read _ => Bytes
  | read_manifest _ => Option Manifest
  | glob _ _ => List Stem
  | _ => Unit

abbrev fileSig : Sig := ⟨FileOp, FileOp.Resp⟩

abbrev Catalog := Prog fileSig Fault

def act (o : FileOp) : Catalog o.Resp := Prog.op (S := fileSig) o

/-- The order in which a directory is listed. -/
structure Order where
  apply : List Stem → List Stem
  perm : ∀ l, (apply l).Perm l

/-- What decides a step. -/
structure Choice where
  fails : Bool := false
  now : Mtime := 0
  size : ℕ := 0
  free : ℕ := 2 ^ 62
  bytes : Bytes := []
  order : Order := ⟨id, fun _ => .refl _⟩

/-- Questions about a path do not raise. -/
def FileOp.raises : FileOp → Bool
  | .look _ => false
  | _ => true

/-- What a step leaves that raises. An interrupted write may have changed the file. -/
def FileOp.failed (c : Choice) (w : World) : (o : FileOp) → Except Fault o.Resp × World
  | .sqlite_write p => (.error .DatabaseError, w.write p (.file c.bytes c.now))
  | .sqlite_read _ => (.error .DatabaseError, w)
  | .quick_check _ => (.error .DatabaseError, w)
  | .report _ => (.error .DatabaseError, w)
  | .write_some p => (.error .OSError, w.write p (.file c.bytes c.now))
  | .write_manifest p _ => (.error .OSError, w.write p (.file c.bytes c.now))
  | _ => (.error .OSError, w)

/-- A write, which fails if there is no directory to write to. -/
def World.written (w : World) (p : Path) (node : Node) (e : Fault) : Except Fault Unit × World :=
  (if w.housed p then .ok () else .error e, w.write p node)

/-- A step that does not fail by itself. -/
def FileOp.done (env : Env) (c : Choice) (w : World) : (o : FileOp) → Except Fault o.Resp × World
  | .look p => (.ok (w.files p), w)
  | .stat p =>
      match w.files p with
      | some node => (.ok node, w)
      | none => (.error .OSError, w)
  | .mkdir k =>
      match w.files (.dir k) with
      | none => (.ok (), (if w.files .root = none then w.put .root .dir else w).put (.dir k) .dir)
      | some .dir => (.ok (), w)
      | some (.symlink .dir) => (.ok (), w)
      | some _ => (.error .OSError, w)
  | .db_size => (.ok c.size, w)
  | .disk_free => (.ok c.free, w)
  | .unlink p missing_ok =>
      match w.files p with
      | some _ => (.ok (), w.remove p)
      | none => if missing_ok then (.ok (), w) else (.error .OSError, w)
  | .replace source target =>
      match w.files source with
      | some node =>
          if w.housed target then (.ok (), (w.remove source).put target node) else (.error .OSError, w)
      | none => (.error .OSError, w)
  | .fsync => (.ok (), w)
  | .sqlite_write p => w.written p (.file c.bytes c.now) .DatabaseError
  | .sqlite_read p => if found (w.files p) then (.ok (), w) else (.error .DatabaseError, w)
  | .quick_check p =>
      match w.files p with
      | some (.file b _) => (.ok (env.quick_check b), w)
      | _ => (.error .DatabaseError, w)
  | .report p =>
      match w.files p with
      | some (.file b _) => (.ok (env.report b), w)
      | _ => (.error .DatabaseError, w)
  | .read p =>
      match w.files p with
      | some (.file b _) => (.ok b, { w with passed := (p, b) :: w.passed })
      | _ => (.error .OSError, w)
  | .open_new p =>
      match w.files p with
      | none => w.written p (.file [] c.now) .OSError
      | some _ => (.error .OSError, w)
  | .write_some p => w.written p (.file c.bytes c.now) .OSError
  | .write_manifest p m => w.written p (.json m c.now) .OSError
  | .read_manifest p =>
      match w.files p with
      | some (.json m _) => (.ok (some m), w)
      | _ => (.ok none, w)
  | .glob k r => (.ok (c.order.apply ((w.stems k).filter fun s => (w.files (.file k s r)).isSome)), w)

def exec (env : Env) (o : FileOp) (c : Choice) (w : World) : Except Fault o.Resp × World :=
  if c.fails ∧ o.raises ∧ 0 < w.faults then o.failed c { w with faults := w.faults - 1 }
  else o.done env c w

/-! ## `backup.py` -/

def refuse {α : Type} (message : String) : Catalog α := .raise (.BackupCatalogError message)

/-- `contextlib.suppress(OSError)`. -/
def suppress (p : Catalog Unit) : Catalog Unit := do
  match ← p.attempt with
  | .error .OSError => pure ()
  | .error e => .raise e
  | .ok u => pure u

/-- What a question about a path says of its node. -/
def asked (question : Option Node → Bool) (p : Path) : Catalog Bool := do
  let node ← act (.look p)
  pure (question node)

def path_exists (p : Path) : Catalog Bool := asked found p

/-- A chain of `or`. -/
def any_of : List (Catalog Bool) → Catalog Bool
  | [] => pure false
  | p :: rest => do
      let yes ← p
      if yes then pure true else any_of rest

/-- `_validate_staged`. -/
def validate_staged (id : ArtifactId) : Catalog Unit := do
  act (.sqlite_read (id.path .staged))
  match ← (act (.quick_check (id.path .staged))).attempt with
  | .ok (some (some "ok")) => pure ()
  | _ => .raise .BackupValidationError

/-- `sqlite3.connect`, `conn.backup`, the journal mode and `close`. Only the journal mode may fail. -/
def copy_pages (id : ArtifactId) : Catalog Unit := do
  act (.sqlite_write (id.path .staged))
  Prog.tryFinally (do
      act (.sqlite_write (id.path .staged))
      match ← (act (.sqlite_write (id.path .staged))).attempt with
      | .error .DatabaseError => pure ()
      | .error e => .raise e
      | .ok _ => pure ())
    (act (.sqlite_write (id.path .staged)))

/-- The body of the `try` in `backup_from_connection`. -/
def stage_backup (id : ArtifactId) : Catalog Unit := do
  copy_pages id
  match ← (validate_staged id).attempt with
  | .error .BackupValidationError => do
      suppress (act (.replace (id.path .staged) (id.path .failed_quick_check)))
      .raise .BackupValidationError
  | .error e => .raise e
  | .ok _ => act (.replace (id.path .staged) (id.path .db))

/-- `if tmp.exists():`, and what is done then. -/
def if_staged (id : ArtifactId) (p : Catalog Unit) : Catalog Unit := do
  let there ← path_exists (id.path .staged)
  if there then p else pure ()

/-- `backup_from_connection`. -/
def backup_from_connection (id : ArtifactId) : Catalog Unit := do
  act (.mkdir id.kind)
  if_staged id (act (.unlink (id.path .staged) false))
  match ← (stage_backup id).attempt with
  | .error e => do
      if_staged id (suppress (act (.unlink (id.path .staged) false)))
      .raise e
  | .ok _ => do
      -- the size for the log line
      let _ ← act (.stat (id.path .db))
      pure ()

/-! ## `backup_catalog.py` -/

def MIN_FREE_MARGIN : ℕ := 1024 * 1024

/-- The checks of `_inspect`: a text to refuse with, or what the queries found. -/
def Report.checked (r : Report) : String ⊕ Content :=
  match r.integrity_check with
  | none => .inl "Backup artifact is not a valid OpenChronicle database"
  | some row =>
      if row ≠ some "ok" then .inl "Backup artifact failed SQLite integrity_check"
      else match r.foreign_key_check with
        | none => .inl "Backup artifact is not a valid OpenChronicle database"
        | some false => .inl "Backup artifact failed SQLite foreign_key_check"
        | some true => match r.content with
            | none => .inl "Backup artifact is not a valid OpenChronicle database"
            | some content => .inr content

def Content.inspected (content : Content) (size_bytes : ℕ) (sha256 : String) : Inspected where
  schema_version := content.schema_version
  project_count := content.project_count
  project_identity_sha256 := content.project_identity_sha256
  memory_count := content.memory_count
  embedding_count := content.embedding_count
  size_bytes := size_bytes
  sha256 := sha256

/-- The connection of `_inspect` and its queries. -/
def query (id : ArtifactId) : Catalog Content := do
  match ← (act (.report (id.path .db))).attempt with
  | .error .DatabaseError => refuse "Backup artifact is not a valid OpenChronicle database"
  | .error e => .raise e
  | .ok report =>
      match report.checked with
      | .inl message => refuse message
      | .inr content => pure content

section Env

variable (env : Env)

/-- `_inspect`. -/
def inspect (id : ArtifactId) : Catalog Inspected := do
  let irregular ← any_of [asked is_symlink (id.path .db), asked (!is_file ·) (id.path .db)]
  if irregular then refuse "Backup artifact is not a regular file"
  else
    let sidecars ← any_of [path_exists (id.path .wal), path_exists (id.path .shm)]
    if sidecars then refuse "Backup artifact must be a standalone SQLite file"
    else
      let content ← query id
      let node ← act (.stat (id.path .db))
      let b : Bytes ← act (.read (id.path .db))
      pure (content.inspected node.size (env.sha256 b))

/-- `_publish_manifest`. -/
def publish_manifest (id : ArtifactId) (payload : Manifest) : Catalog Unit :=
  Prog.tryFinally (do
      act (.open_new (id.path .manifest_temp))
      act (.write_some (id.path .manifest_temp))
      act (.write_manifest (id.path .manifest_temp) payload)
      act .fsync
      act (.replace (id.path .manifest_temp) (id.path .manifest))
      act .fsync)
    (act (.unlink (id.path .manifest_temp) true))

/-- `_check_root`. -/
def check_root : Catalog Unit := do
  if env.require_existing_root then
    let unusable ← any_of [pure !env.root_is_absolute, asked is_symlink .root, asked (!is_dir ·) .root]
    if unusable then
      refuse "Configured backup directory is missing or not a directory; nothing was written and there is no fallback location"
    else pure ()
  else pure ()

/-- Whether there is too little space for a snapshot of a database of this size. -/
def short_of_space (size free : ℕ) : Bool := free < max size MIN_FREE_MARGIN + MIN_FREE_MARGIN

/-- `create` up to the choice of a name. -/
def prepare (kind : Kind) : Catalog Unit := do
  check_root env
  act (.mkdir kind)
  let link ← asked is_symlink (.dir kind)
  if link then refuse "Backup directory must not be a symlink"
  else
    let size : ℕ ← act .db_size
    let free : ℕ ← act .disk_free
    if short_of_space size free then
      refuse "Insufficient free space for a backup snapshot"
    else pure ()

/-- What becomes of a snapshot that `_inspect` refuses. -/
def quarantine (id : ArtifactId) (message : String) : Catalog Inspected := do
  act (.replace (id.path .db) (id.path .failed_verify))
  act .fsync
  refuse (message ++ "; snapshot preserved as openchronicle-" ++ id.name ++ ".db.failed-verify")

/-- `create` up to the manifest. -/
def snapshot (id : ArtifactId) : Catalog Inspected := do
  prepare env id.kind
  if !is_name id.name then refuse "Invalid backup artifact ID"
  else
    backup_from_connection id
    act .fsync
    act .fsync
    match ← (inspect env id).attempt with
    | .error (.BackupCatalogError message) => quarantine id message
    | .error e => .raise e
    | .ok inspected => pure inspected

/-- `create`, whose name is `id` and whose second reading of the clock is `created_at`. -/
def create (id : ArtifactId) (created_at : String) : Catalog Manifest := do
  let inspected ← snapshot env id
  let metadata : Manifest := ⟨id, created_at, inspected⟩
  match ← (publish_manifest id metadata).attempt with
  | .error e => do
      act (.unlink (id.path .db) true)
      .raise e
  | .ok _ => pure metadata

/-- `_manifest`. -/
def manifest (id : ArtifactId) : Catalog Manifest := do
  if !is_name id.name then refuse "Invalid backup artifact ID"
  else
    let incomplete ← any_of [asked is_symlink (id.path .db), asked is_symlink (id.path .manifest),
      asked (!is_file ·) (id.path .db), asked (!is_file ·) (id.path .manifest)]
    if incomplete then
      refuse "Completed backup artifact not found"
    else
      match ← (act (.read_manifest (id.path .manifest))).attempt with
      | .error _ => refuse "Backup manifest is unreadable"
      | .ok none => refuse "Backup manifest is unreadable"
      | .ok (some data) =>
          if data.artifact_id ≠ id then refuse "Backup manifest ID mismatch" else pure data

/-- The inner loop of `list`; a stem that is not the catalog's does not match its pattern. -/
def manifests (kind : Kind) : List Stem → Catalog (List Manifest)
  | [] => pure []
  | .other _ :: rest => manifests kind rest
  | .catalog name :: rest => do
      match ← (manifest ⟨kind, name⟩).attempt with
      | .error (.BackupCatalogError _) => manifests kind rest
      | .error e => .raise e
      | .ok data => do
          let others ← manifests kind rest
          pure (data :: others)

/-- The outer loop of `list`. -/
def completed : List Kind → Catalog (List Manifest)
  | [] => pure []
  | kind :: rest => do
      let unusable ← any_of [asked (!is_dir ·) (.dir kind), asked is_symlink (.dir kind)]
      if unusable then completed rest
      else
        let stems : List Stem ← act (.glob kind .manifest)
        let here ← manifests kind stems
        let others ← completed rest
        pure (here ++ others)

/-- `found.sort(key=..., reverse=True)`, which keeps the order of equals. -/
def newest_first (found : List Manifest) : List Manifest :=
  found.mergeSort fun a b => decide (b.created_at ≤ a.created_at)

/-- `list`. -/
def list (limit : ℤ) : Catalog (List Manifest) := do
  if limit < 1 ∨ 500 < limit then refuse "limit must be between 1 and 500"
  else
    let found ← completed [.auto, .manual]
    pure ((newest_first found).take limit.toNat)

/-- `verify`. -/
def verify (id : ArtifactId) : Catalog Manifest := do
  let expected ← manifest id
  let actual ← inspect env id
  if expected.inspected ≠ actual then refuse "Backup artifact differs from its manifest"
  else pure expected

end Env

/-! ## Retention -/

/-- `_is_published`, for each stem of a list. -/
def published (k : Kind) : List Stem → Catalog (List Stem)
  | [] => pure []
  | s :: rest => do
      let node ← act (.look (.file k s .manifest))
      let others ← published k rest
      pure (if s.has_suffix && is_file node then s :: others else others)

/-- `path.stat().st_mtime`, for each stem of a list. -/
def mtimes (k : Kind) : List Stem → Catalog (List (Stem × Mtime))
  | [] => pure []
  | s :: rest => do
      let node : Node ← act (.stat (.file k s .db))
      let others ← mtimes k rest
      pure ((s, node.mtime) :: others)

/-- The UTC day of a time, if the calendar has it. -/
def day (mtime : Mtime) : Option (List Char) := (Calendar.DateTime.fromtimestamp mtime).map (·.day_text)

/-- `candidates`, newest first. -/
def newest_candidates (stats : List (Stem × Mtime)) : List Stem :=
  (stats.mergeSort fun a b => decide (b.2 ≤ a.2)).map Prod.fst

/-- The day of each candidate; `none` is the `ValueError` of the first that has none. -/
def days (stats : List (Stem × Mtime)) : Option (List (Stem × List Char)) :=
  stats.mapM fun x => (day x.2).map fun d => (x.1, d)

/-- The newest candidate of each of the most recent days; `days` are of the newest first. -/
def newest_per_day (days : List (Stem × List Char)) (keep : ℕ) : List Stem :=
  (Ranking.newest_per_day Prod.snd keep days).map Prod.fst

/-- The last loop of `_retention_prune`. -/
def prune (k : Kind) (keep_set : List Stem) : List Stem → Catalog Unit
  | [] => pure ()
  | s :: rest => do
      if s ∈ keep_set then prune k keep_set rest
      else
        suppress (do
          act (.unlink (.file k s .db) false)
          act (.unlink (.file k s .manifest) true))
        prune k keep_set rest

/-- `_retention_prune`. -/
def retention_prune (k : Kind) (keep : ℕ) : Catalog Unit := do
  let stems : List Stem ← act (.glob k .db)
  let stems ← published k stems
  let stats ← mtimes k stems
  let candidates := newest_candidates stats
  let stats ← mtimes k candidates
  match days stats with
  | none => .raise .ValueError
  | some days => prune k (candidates.take keep ++ newest_per_day days keep) candidates

/-! ## Calls -/

inductive Call where
  | create (id : ArtifactId) (created_at : String)
  | retention_prune (k : Kind) (keep : ℕ)
  | list (limit : ℤ)
  | verify (id : ArtifactId)
  deriving DecidableEq, Repr

/-- The world after a call, ended or killed; one of its steps may fail. -/
def Call.after (env : Env) (call : Call) (cs : List Choice) (w : World) : World :=
  let w := { w with faults := 1 }
  match call with
  | .create id created_at => ((Backup.create env id created_at).run_until (exec env) cs w).2
  | .retention_prune k keep => ((Backup.retention_prune k keep).run_until (exec env) cs w).2
  | .list limit => ((Backup.list limit).run_until (exec env) cs w).2
  | .verify id => ((Backup.verify env id).run_until (exec env) cs w).2

end OpenChronicle.Backup
