/-
`restore_plan` and `restore_stage` of the backup catalog.

The catalog's own programs are run as they are, on the catalog's part of the world; what is new is the stage
directory beside the database. Each of its steps may raise and may be the last before the process is killed.

Calls come one after the other. For `restore_stage` the operation lock sees to that. `restore_plan` takes no lock
and may run beside a call that stages. It neither reads nor writes the stage, so the stage comes out the same when
the plan comes before or after that call; what it would read of the snapshots in the middle of the call is not
modelled. What happens to the snapshots and the store between two calls is left open. What is copied is chosen anew
in each step, since only the check of the copy says what it is.
-/
import OpenChronicle.Backup.Catalog
import OpenChronicle.Lib.Via

set_option autoImplicit false

namespace OpenChronicle.Backup

open Program

/-! ## The stage directory -/

/-- A file of `.restore-stage`. -/
inductive StageFile where
  /-- What `NamedTemporaryFile` makes: `candidate-`, a random name and `.tmp`. -/
  | temp (name : String)
  /-- Its `-wal` or `-shm`. -/
  | sidecar (name : String)
  /-- `candidate-{stage_id}.db`. -/
  | candidate (stage_id : String)
  | other_db (name : String)
  deriving DecidableEq, Repr

/-- The file matches `*.db`. -/
def StageFile.is_db : StageFile → Bool
  | candidate _ | other_db _ => true
  | _ => false

/-- What `_current_identity` says without the list of projects. -/
structure Identity where
  schema_version : ℤ
  project_count : ℕ
  project_identity_sha256 : String
  memory_count : ℕ
  deriving DecidableEq, Repr

/-- What the running store answers. -/
structure Store where
  schema_version : ℤ
  project_ids : List String
  memory_count : ℕ
  deriving DecidableEq, Repr

structure StageWorld where
  catalog : World
  store : Store
  stage_dir : Option Node := none
  files : List (StageFile × Node) := []

def StageWorld.get (w : StageWorld) (f : StageFile) : Option Node :=
  (w.files.find? fun entry => entry.1 = f).map Prod.snd

def StageWorld.remove (w : StageWorld) (f : StageFile) : StageWorld :=
  { w with files := w.files.filter fun entry => entry.1 ≠ f }

def StageWorld.put (w : StageWorld) (f : StageFile) (node : Node) : StageWorld :=
  { w with files := (f, node) :: (w.remove f).files }

/-! ## Steps -/

inductive StageOp where
  | catalog (o : FileOp)
  /-- The query of `_artifact_project_ids`. -/
  | project_ids (id : ArtifactId)
  /-- `list_projects`, `schema_version` and `count_memory`. -/
  | identity
  | mkdir
  | look_dir
  /-- `any(stage_dir.glob("*.db"))`. -/
  | any_db
  | disk_free
  | create_temp
  | open_source (id : ArtifactId)
  /-- A part of `copyfileobj`, or `flush`. -/
  | copy_some (f : StageFile)
  | fsync
  | close
  | look (f : StageFile)
  | report (f : StageFile)
  | stat (f : StageFile)
  | read (f : StageFile)
  | replace (source target : StageFile)
  | unlink (f : StageFile)

@[reducible] def StageOp.Resp : StageOp → Type
  | catalog o => o.Resp
  | project_ids _ => List String
  | identity => Store
  | look_dir => Option Node
  | any_db => Bool
  | disk_free => ℕ
  | create_temp => String
  | look _ => Option Node
  | report _ => Report
  | stat _ => Node
  | read _ => Bytes
  | _ => Unit

abbrev stageSig : Sig := ⟨StageOp, StageOp.Resp⟩

abbrev Stage := Prog stageSig Fault

def stage_act (o : StageOp) : Stage o.Resp := Prog.op (S := stageSig) o

/-- What decides a step; `name` is the random part of a new file's name. -/
structure StageChoice where
  catalog : Choice := {}
  fails : Bool := false
  name : String := ""
  bytes : Bytes := []
  now : Mtime := 0
  free : ℕ := 2 ^ 62

/-- Questions about a path do not raise. -/
def StageOp.raises : StageOp → Bool
  | .catalog _ | .look_dir | .look _ => false
  | _ => true

/-- What a step leaves that raises. An interrupted copy may have changed the file. -/
def StageOp.failed (c : StageChoice) (w : StageWorld) : (o : StageOp) → Except Fault o.Resp × StageWorld
  | .catalog _ => (.error .OSError, w)
  | .project_ids _ => (.error .DatabaseError, w)
  | .identity => (.error .DatabaseError, w)
  -- what was written before the error stays
  | .copy_some f => (.error .OSError, w.put f (.file c.bytes c.now))
  | .report _ => (.error .DatabaseError, w)
  | .look_dir => (.error .OSError, w)
  | .look _ => (.error .OSError, w)
  | .any_db => (.error .OSError, w)
  | .disk_free => (.error .OSError, w)
  | .create_temp => (.error .OSError, w)
  | .open_source _ => (.error .OSError, w)
  | .stat _ => (.error .OSError, w)
  | .read _ => (.error .OSError, w)
  | .mkdir => (.error .OSError, w)
  | .fsync => (.error .OSError, w)
  | .close => (.error .OSError, w)
  | .replace _ _ => (.error .OSError, w)
  | .unlink _ => (.error .OSError, w)

section Env

variable (env : Env) (projects : Bytes → List String)

/-- A step that does not fail by itself. -/
def StageOp.done (c : StageChoice) (w : StageWorld) : (o : StageOp) → Except Fault o.Resp × StageWorld
  | .catalog o => ((exec env o c.catalog w.catalog).1, { w with catalog := (exec env o c.catalog w.catalog).2 })
  | .project_ids id =>
      match w.catalog.files (id.path .db) with
      | some (.file b _) => (.ok (projects b), w)
      | _ => (.error .DatabaseError, w)
  | .identity => (.ok w.store, w)
  | .mkdir =>
      match w.stage_dir with
      | none => (.ok (), { w with stage_dir := some .dir })
      | some node => (if is_dir (some node) then .ok () else .error .OSError, w)
  | .look_dir => (.ok w.stage_dir, w)
  | .any_db => (.ok (w.files.any fun entry => entry.1.is_db), w)
  | .disk_free => (.ok c.free, w)
  | .create_temp =>
      match w.get (.temp c.name) with
      | none => (.ok c.name, w.put (.temp c.name) (.file [] c.now))
      | some _ => (.error .OSError, w)
  | .open_source id => (if is_file (w.catalog.files (id.path .db)) then .ok () else .error .OSError, w)
  | .copy_some f => (.ok (), w.put f (.file c.bytes c.now))
  | .fsync => (.ok (), w)
  | .close => (.ok (), w)
  | .look f => (.ok (w.get f), w)
  | .report f =>
      match w.get f with
      | some (.file b _) => (.ok (env.report b), w)
      | _ => (.error .DatabaseError, w)
  | .stat f =>
      match w.get f with
      | some node => (.ok node, w)
      | none => (.error .OSError, w)
  | .read f =>
      match w.get f with
      | some (.file b _) => (.ok b, w)
      | _ => (.error .OSError, w)
  | .replace source target =>
      match w.get source with
      | some node => (.ok (), (w.remove source).put target node)
      | none => (.error .OSError, w)
  -- `missing_ok`
  | .unlink f => (.ok (), w.remove f)

def stage_exec (o : StageOp) (c : StageChoice) (w : StageWorld) : Except Fault o.Resp × StageWorld :=
  if c.fails ∧ o.raises then o.failed c w else o.done env projects c w

/-! ## Programs -/

def stage_refuse {α : Type} (message : String) : Stage α := .raise (.BackupCatalogError message)

/-- A program of the catalog. -/
def in_catalog {α : Type} (p : Catalog α) : Stage α := p.via fun o => stage_act (.catalog o)

/-- What `_comparison` reports. -/
structure Comparison where
  stop_reasons : List String
  memory_delta : ℤ
  projects_only_in_snapshot : ℕ
  projects_only_in_current : ℕ
  deriving DecidableEq, Repr

/-- `_comparison`. -/
def comparison (candidate : Manifest) (candidate_ids : List String) (current : Store) : Comparison :=
  let candidate_ids := candidate_ids.dedup
  let current_ids := current.project_ids.dedup
  let newer := if current.schema_version < candidate.inspected.schema_version
    then ["backup schema is newer than this running version"] else []
  -- an empty store, or an empty snapshot, is no sign of another instance
  let disjoint := candidate_ids ≠ [] ∧ current_ids ≠ [] ∧ ∀ i ∈ candidate_ids, i ∉ current_ids
  let foreign := if disjoint
    then ["the snapshot shares no project with the running store: likely another instance"] else []
  { stop_reasons := newer ++ foreign
    memory_delta := (candidate.inspected.memory_count : ℤ) - current.memory_count
    projects_only_in_snapshot := (candidate_ids.filter (· ∉ current_ids)).length
    projects_only_in_current := (current_ids.filter (· ∉ candidate_ids)).length }

/-- `_current_identity`. -/
def current_identity (store : Store) : Identity where
  schema_version := store.schema_version
  project_count := store.project_ids.length
  project_identity_sha256 := env.sha256 (String.intercalate "\n" (store.project_ids.mergeSort (· ≤ ·))).toUTF8.toList
  memory_count := store.memory_count

/-- The answer of `restore_plan`; a plan restores nothing. -/
structure Plan where
  artifact : Manifest
  current : Identity
  comparison : Comparison
  deriving DecidableEq, Repr

/-- `restore_plan`. -/
def restore_plan (id : ArtifactId) : Stage Plan := do
  let candidate ← in_catalog (verify env id)
  let current : Store ← stage_act .identity
  let candidate_ids : List String ← stage_act (.project_ids id)
  pure ⟨candidate, current_identity env current, Backup.comparison candidate candidate_ids current⟩

def stage_asked (question : Option Node → Bool) (f : StageFile) : Stage Bool := do
  let node ← stage_act (.look f)
  pure (question node)

/-- `_inspect`, of a file in the stage directory. -/
def inspect_temp (name : String) : Stage Inspected := do
  let link ← stage_asked is_symlink (.temp name)
  let file ← stage_asked is_file (.temp name)
  if link || !file then stage_refuse "Backup artifact is not a regular file"
  else
    let sidecar ← stage_asked found (.sidecar name)
    if sidecar then stage_refuse "Backup artifact must be a standalone SQLite file"
    else
      match ← (stage_act (.report (.temp name))).attempt with
      | .error .DatabaseError => stage_refuse "Backup artifact is not a valid OpenChronicle database"
      | .error e => .raise e
      | .ok report =>
          match report.checked with
          | .inl message => stage_refuse message
          | .inr content => do
              let node : Node ← stage_act (.stat (.temp name))
              let b : Bytes ← stage_act (.read (.temp name))
              pure (content.inspected node.size (env.sha256 b))

/-- The checks of `restore_stage` before anything is written. -/
def admit_candidate (id : ArtifactId) : Stage Manifest := do
  let candidate ← in_catalog (verify env id)
  let candidate_ids : List String ← stage_act (.project_ids id)
  let current : Store ← stage_act .identity
  let reasons := (Backup.comparison candidate candidate_ids current).stop_reasons
  if reasons ≠ [] then stage_refuse ("Refusing to stage: " ++ String.intercalate "; " reasons)
  else pure candidate

/-- Whether there is too little space for a copy of this size. -/
def short_of_stage_space (size_bytes free : ℕ) : Bool := free < size_bytes + MIN_FREE_MARGIN

/-- The stage directory, made and checked. -/
def prepare_stage (candidate : Manifest) : Stage Unit := do
  stage_act .mkdir
  let node : Option Node ← stage_act .look_dir
  if is_symlink node then stage_refuse "A restore candidate is already staged"
  else
    -- any database counts; a copy under its first name is none
    let staged : Bool ← stage_act .any_db
    if staged then stage_refuse "A restore candidate is already staged"
    else
      let free : ℕ ← stage_act .disk_free
      if short_of_stage_space candidate.inspected.size_bytes free then
        stage_refuse "Insufficient free space to stage restore candidate"
      else pure ()

/-- The `with` statement that copies the artifact. -/
def copy_artifact (id : ArtifactId) : Stage String := do
  let name : String ← stage_act .create_temp
  match ← (do
      stage_act (.open_source id)
      -- the copy is not one step: it may stop anywhere between
      stage_act (.copy_some (.temp name))
      stage_act (.copy_some (.temp name))
      stage_act .fsync).attempt with
  | .error e => do
      stage_act (.unlink (.temp name))
      .raise e
  | .ok () => do
      stage_act .close
      pure name

/-- The last `try` of `restore_stage`. -/
def check_and_publish (candidate : Manifest) (stage_id name : String) : Stage Inspected :=
  Prog.tryFinally (do
      let actual ← inspect_temp env name
      if candidate.inspected ≠ actual then stage_refuse "Staged candidate differs from verified backup"
      else
        -- the only step that makes a candidate
        stage_act (.replace (.temp name) (.candidate stage_id))
        stage_act .fsync
        pure actual)
    (stage_act (.unlink (.temp name)))

/-- The answer of `restore_stage`; staging restores nothing. -/
structure Staged where
  stage_id : String
  artifact_id : ArtifactId
  sha256 : String
  deriving DecidableEq, Repr

/-- `restore_stage`, whose random name is `stage_id`. -/
def restore_stage (id : ArtifactId) (stage_id : String) : Stage Staged := do
  let candidate ← admit_candidate env id
  prepare_stage candidate
  let name ← copy_artifact id
  let actual ← check_and_publish env candidate stage_id name
  pure ⟨stage_id, id, actual.sha256⟩

end Env

end OpenChronicle.Backup
