/-
Writing embeddings: the rest of `EmbeddingService`, the revision half of
`OllamaEmbeddingAdapter`, and the use cases `add_memory`, `update_memory` and
`delete_memory`, as the tasks of one machine.

One operation is one store call (a method under the store lock), one HTTP
request, or one read or write of an attribute that another thread can see. The
code between two operations touches nothing shared. So any number of clients,
the refresher, the maintenance job and background backfills interleave exactly
where threads of the process do.

The Ollama server is a counter of re-pulls: `digest` is what `/api/tags` lists
after that many, `produce` the vector its weights make of a text. A request sees
one value of the counter, and may fail. Store calls may fail as well; waiting
for the probe lock may time out. `restart` ends the process and every thread.

Log lines, metrics and the warning schedule of the probe are left out: they
decide nothing. Two lines stand for a point of the code and do nothing:
`candidates`, where a backfill has chosen what to embed, and `refused`, where a
write raises because the revision is unknown.
-/
import OpenChronicle.Health
import OpenChronicle.Lib.Interleave
import OpenChronicle.Lib.Ranking
import OpenChronicle.Store.Query

set_option autoImplicit false

namespace OpenChronicle

open Program

/-! ## The deployment and the world -/

/-- A configured port and the server behind it. -/
structure Deployment (F : Type) where
  model_name : String
  provider_name : String
  settings_fingerprint : String
  hash_content : String → String
  digest : ℕ → Option String
  produce : ℕ → String → List F

/-- `_background_backfill`: no task, one created, one running, one done. -/
inductive Background where
  | idle
  | pending (force : Bool)
  | running
  | done
  deriving DecidableEq, Repr

structure EmbWorld (F : Type) where
  db : Db F
  /-- The monotonic clock, in milliseconds. -/
  now : ℕ := 0
  /-- How often the tag has been re-pulled. -/
  pulls : ℕ := 0
  revision : RevisionSnapshot := UNKNOWN_REVISION
  /-- The thread that holds `_probe_lock`. -/
  probe_lock : Option ℕ := none
  last_probe_failure : Option ℕ := none
  backfill_lock : Bool := false
  /-- `_reconciled_revision`; `none` is the sentinel `_NOT_RECONCILED`. -/
  reconciled_revision : Option (Option String) := none
  background : Background := .idle
  health : Health := {}

/-- `PROBE_COOLDOWN_SECONDS`, in milliseconds. -/
def PROBE_COOLDOWN : ℕ := 30000

/-- `_BACKFILL_CHUNK_SIZE`. -/
def BACKFILL_CHUNK_SIZE : ℕ := 32

/-- The arguments of `save_embedding`. -/
structure Publication (F : Type) where
  memory_id : String
  embedding : List F
  model : String
  provider : String
  content_hash : String
  model_revision : Option String
  settings_fingerprint : String
  status : EmbeddingStatus

/-- The row a publication writes. -/
def Publication.row {F : Type} (p : Publication F) : EmbeddingRow F :=
  Db.embedding_of p.memory_id p.embedding p.model p.provider p.content_hash p.model_revision
    p.settings_fingerprint p.status

/-! ## Operations -/

inductive EmbOp (F : Type) where
  | add_memory (item : MemoryItem)
  | update_memory (memory_id : String) (content : Option String) (tags : Option (List PyStr.Text))
  | delete_memory (memory_id : String)
  | list_memory (project_id : Option String)
  | get_embedding_identity (memory_id : String)
  | save_embedding (p : Publication F)
  | delete_embedding (memory_id : String)
  | read_revision
  | acquire_probe_lock
  | release_probe_lock
  | in_cooldown
  | http_get_tags
  | probe_failed
  | probe_succeeded (digest : Option String)
  | http_post_embed (texts : List String)
  | clear_probe_failure
  | try_backfill_lock
  | release_backfill_lock
  | read_reconciled
  | set_reconciled (revision : Option String)
  | backfill_running
  | create_background (force : Bool)
  | background_done
  | record_failure (op : String)
  | record_success
  | candidates (memory_ids : List String)
  | refused (memory_id : String)

@[reducible] def EmbOp.Resp {F : Type} : EmbOp F → Type
  | update_memory .. => MemoryItem
  | list_memory _ => List MemoryItem
  | get_embedding_identity _ => Option EmbeddingIdentity
  | save_embedding _ => Bool
  | read_revision => RevisionSnapshot
  | acquire_probe_lock => Bool
  | in_cooldown => Bool
  | http_get_tags => Option (Option String)
  | http_post_embed _ => List (List F)
  | try_backfill_lock => Bool
  | read_reconciled => Option (Option String)
  | backfill_running => Bool
  | _ => Unit

abbrev embSig (F : Type) : Sig := ⟨EmbOp F, EmbOp.Resp⟩

abbrev EmbProg (F : Type) := Prog (embSig F) Exc

/-- Perform one operation. -/
def act {F : Type} (o : EmbOp F) : EmbProg F o.Resp := Prog.op (S := embSig F) o

/-! ## The adapter -/

section Adapter

variable {F : Type}

/-- `_probe`, with `_probe_succeeded` and `_probe_failed`; each of them returns the
snapshot it leaves. -/
def probe : EmbProg F RevisionSnapshot := do
  match ← (act .http_get_tags : EmbProg F (Option (Option String))).attempt with
  | .ok (some digest) => do
      act (.probe_succeeded digest)
      act .read_revision
  | _ => do
      act .probe_failed
      act .read_revision

/-- `self._revision.known or self._in_cooldown()`. -/
def settled_or_cooling : EmbProg F Bool := do
  let snapshot : RevisionSnapshot ← act .read_revision
  if snapshot.known then pure true else act .in_cooldown

/-- The body of `refresh_revision` under the probe lock. -/
def refresh_locked (force : Bool) : EmbProg F RevisionSnapshot :=
  if force then probe
  else do
    if ← settled_or_cooling then act .read_revision else probe

/-- `refresh_revision`. -/
def refresh_revision (force : Bool) : EmbProg F RevisionSnapshot := do
  let acquired : Bool ← act .acquire_probe_lock
  if acquired then (refresh_locked force).tryFinally (act .release_probe_lock)
  else act .read_revision

/-- `embed_batch`: an empty batch makes no request; an answer also ends the
cooldown of a failed probe. -/
def embed_batch (texts : List String) : EmbProg F (List (List F)) :=
  if texts = [] then pure []
  else do
    let vectors : List (List F) ← act (.http_post_embed texts)
    act .clear_probe_failure
    pure vectors

/-- `embed`. -/
def embed (text : String) : EmbProg F (List F) := do
  match ← embed_batch [text] with
  | v :: _ => pure v
  | [] => .raise .Other

/-- `EmbeddingPort`: the two calls a backfill makes of it. -/
structure EmbeddingPort (F : Type) where
  embed : String → EmbProg F (List F)
  embed_batch : List String → EmbProg F (List (List F))

/-- The port of this machine. -/
@[reducible] def ollama : EmbeddingPort F where
  embed := embed
  embed_batch := embed_batch

end Adapter

/-! ## The service -/

section Service

variable {F : Type} (D : Deployment F)

/-- The comparison of `_is_current`: the stored identity against the active space,
the snapshot's revision and this content. -/
def identity_current (identity : EmbeddingIdentity) (content : String)
    (revision : Option String) : Bool :=
  identity.provider = D.provider_name && identity.model = D.model_name
    && identity.settings_fingerprint = D.settings_fingerprint
    && identity.model_revision = revision && identity.content_hash = D.hash_content content

/-- `_is_current`. -/
def is_current (memory_id content : String) (revision : Option String) : EmbProg F Bool := do
  let identity : Option EmbeddingIdentity ← act (.get_embedding_identity memory_id)
  pure (identity.any fun i => identity_current D i content revision)

/-- What `save_embedding` is called with for this content. -/
def publication (memory_id content : String) (embedding : List F) (revision : Option String)
    (status : EmbeddingStatus) : Publication F :=
  { memory_id, embedding, model := D.model_name, provider := D.provider_name
    content_hash := D.hash_content content, model_revision := revision
    settings_fingerprint := D.settings_fingerprint, status }

/-- `_write_tombstone`. -/
def write_tombstone (memory_id content : String) (revision : Option String) : EmbProg F Bool :=
  act (.save_embedding (publication D memory_id content [] revision .content_too_long))

/-- The first lines of `generate_for_memory`: the snapshot that serves the call. -/
def write_snapshot : EmbProg F RevisionSnapshot := do
  let snapshot : RevisionSnapshot ← act .read_revision
  if snapshot.known then pure snapshot else refresh_revision false

/-- `not force and self._is_current(...)`. -/
def may_skip (memory_id content : String) (revision : Option String) (force : Bool) :
    EmbProg F Bool :=
  if force then pure false else is_current D memory_id content revision

/-- The provider call of `generate_for_memory` and what follows it. -/
def embed_and_publish (memory_id content : String) (revision : Option String) : EmbProg F Unit := do
  match ← (embed content).attempt with
  | .error e =>
      if is_content_too_long e then do
        let _ ← write_tombstone D memory_id content revision
        pure ()
      else do
        act (.record_failure "save")
        .raise e
  | .ok vec => do
      let _published : Bool ← act (.save_embedding (publication D memory_id content vec revision .ok))
      act .record_success

def generate_for_memory (memory_id content : String) (force : Bool) : EmbProg F Unit := do
  let snapshot ← write_snapshot
  if snapshot.known then do
    let current ← may_skip D memory_id content snapshot.value force
    if current then pure () else embed_and_publish D memory_id content snapshot.value
  else do
    act (.refused memory_id)
    .raise .RevisionUnknownError

/-! ### Backfill -/

/-- `BackfillResult`, less the elapsed time. -/
structure BackfillResult where
  generated : ℕ := 0
  failed : ℕ := 0
  tombstoned : ℕ := 0
  skipped : Bool := false
  deriving DecidableEq, Repr

def BackfillResult.add (a b : BackfillResult) : BackfillResult :=
  ⟨a.generated + b.generated, a.failed + b.failed, a.tombstoned + b.tombstoned, a.skipped⟩

/-- The candidate loop of `_backfill`. -/
def select_candidates (revision : Option String) (force : Bool) :
    List MemoryItem → EmbProg F (List MemoryItem)
  | [] => pure []
  | item :: rest => do
      let current ← may_skip D item.id item.content revision force
      let chosen ← select_candidates revision force rest
      pure (if current then chosen else item :: chosen)

/-- `_embed_batch` of a chunk; `none` sends the chunk through one call for each item. -/
def chunk_vectors (chunk : List MemoryItem) (port : EmbeddingPort F := ollama) :
    EmbProg F (Option (List (List F))) := do
  match ← (port.embed_batch (chunk.map (·.content))).attempt with
  | .ok vectors => pure (if vectors.length = chunk.length then some vectors else none)
  | .error _ => pure none

/-- `vectors[i] if vectors is not None else self._embed_single(item.content)`. -/
def item_vector (item : MemoryItem) (vec : Option (List F)) (port : EmbeddingPort F := ollama) :
    EmbProg F (List F) :=
  match vec with
  | some v => pure v
  | none => port.embed item.content

/-- The `try` body of the item loop. -/
def embed_item_body (revision : Option String) (item : MemoryItem) (vec : Option (List F))
    (port : EmbeddingPort F := ollama) : EmbProg F Bool := do
  let v ← item_vector item vec port
  let published : Bool ← act (.save_embedding (publication D item.id item.content v revision .ok))
  act .record_success
  pure published

/-- A failed item. -/
def item_failed : EmbProg F BackfillResult := do
  act (.record_failure "backfill")
  pure { failed := 1 }

/-- One round of the item loop. -/
def embed_item (revision : Option String) (item : MemoryItem) (vec : Option (List F))
    (port : EmbeddingPort F := ollama) : EmbProg F BackfillResult := do
  match ← (embed_item_body D revision item vec port).attempt with
  | .ok published => pure { generated := if published then 1 else 0 }
  | .error e =>
      if is_content_too_long e then do
        match ← (write_tombstone D item.id item.content revision).attempt with
        | .ok published => pure { tombstoned := if published then 1 else 0 }
        | .error _ => item_failed
      else item_failed

def embed_items (revision : Option String) (work : List (MemoryItem × Option (List F)))
    (port : EmbeddingPort F := ollama) : EmbProg F BackfillResult :=
  match work with
  | [] => pure {}
  | (item, vec) :: rest => do
      let one ← embed_item D revision item vec port
      let others ← embed_items revision rest port
      pure (one.add others)

def embed_chunk (revision : Option String) (chunk : List MemoryItem)
    (port : EmbeddingPort F := ollama) : EmbProg F BackfillResult := do
  match ← chunk_vectors chunk port with
  | some vectors => embed_items D revision (chunk.zip (vectors.map some)) port
  | none => embed_items D revision (chunk.map fun item => (item, none)) port

/-- `candidates[start : start + size] for start in range(0, len(candidates), size)`. -/
def chunks (items : List MemoryItem) : List (List MemoryItem) :=
  (List.range ((items.length + BACKFILL_CHUNK_SIZE - 1) / BACKFILL_CHUNK_SIZE)).map fun i =>
    Ranking.slice items (i * BACKFILL_CHUNK_SIZE) BACKFILL_CHUNK_SIZE

def embed_chunks (revision : Option String) (work : List (List MemoryItem))
    (port : EmbeddingPort F := ollama) : EmbProg F BackfillResult :=
  match work with
  | [] => pure {}
  | chunk :: rest => do
      let one ← embed_chunk D revision chunk port
      let others ← embed_chunks revision rest port
      pure (one.add others)

/-- `_backfill`. -/
def backfill (revision : Option String) (project_id : Option String) (force : Bool)
    (port : EmbeddingPort F := ollama) : EmbProg F BackfillResult := do
  let items : List MemoryItem ← act (.list_memory project_id)
  let chosen ← select_candidates D revision force items
  act (.candidates (chosen.map (·.id)))
  embed_chunks D revision (chunks chosen) port

/-- The body of `generate_missing` under the backfill lock. -/
def backfill_verified (project_id : Option String) (force : Bool) : EmbProg F BackfillResult := do
  let snapshot ← refresh_revision true
  if snapshot.known then do
    let result ← backfill D snapshot.value project_id force
    if project_id = none then do
      act (.set_reconciled snapshot.value)
      pure result
    else pure result
  else .raise .RevisionUnknownError

/-- `generate_missing`. -/
def generate_missing (project_id : Option String) (force : Bool) : EmbProg F BackfillResult := do
  let acquired : Bool ← act .try_backfill_lock
  if acquired then (backfill_verified D project_id force).tryFinally (act .release_backfill_lock)
  else pure { skipped := true }

/-- `start_background_backfill`. -/
def start_background_backfill (force : Bool) : EmbProg F Bool := do
  let running : Bool ← act .backfill_running
  if running then pure false
  else do
    act (.create_background force)
    pure true

/-- `_reconcile`. -/
def reconcile (auto_backfill : Bool) (snapshot : RevisionSnapshot) : EmbProg F Unit :=
  if auto_backfill && snapshot.known then do
    let reconciled : Option (Option String) ← act .read_reconciled
    if reconciled = some snapshot.value then pure ()
    else do
      let running : Bool ← act .backfill_running
      if running then pure ()
      else do
        let _ ← start_background_backfill false
        pure ()
  else pure ()

/-- One round of `_refresh_revision_forever`. -/
def refresher_tick (auto_backfill : Bool) : EmbProg F Unit := do
  let snapshot ← refresh_revision true
  reconcile auto_backfill snapshot

/-- The task `start_background_backfill` creates. -/
def run_background_backfill (force : Bool) : EmbProg F Unit := do
  let _ ← (generate_missing D none force).attempt
  act .background_done

end Service

/-! ## The use cases -/

section UseCases

variable {F : Type} (D : Deployment F)

/-- The `try` around `generate_for_memory`: both `except` clauses only log. -/
def embed_after_write (embedding_service : Bool) (memory_id content : String) (force : Bool) :
    EmbProg F Unit :=
  if embedding_service then do
    let _ ← (generate_for_memory D memory_id content force).attempt
    pure ()
  else pure ()

/-- `add_memory.execute`. -/
def add_memory_execute (item : MemoryItem) (embedding_service : Bool) : EmbProg F Unit :=
  if item.project_id = none then .raise (.ValidationError .project_required)
  else if PyStr.isBlank item.content.toList then .raise (.ValidationError .blank_content)
  else if MAX_CONTENT_CHARS < item.content.length then
    .raise (.ValidationError (.content_too_long item.content.length))
  else do
    act (.add_memory item)
    embed_after_write D embedding_service item.id item.content false

/-- `update_memory.execute`. -/
def update_memory_execute (memory_id : String) (content : Option String)
    (tags : Option (List PyStr.Text)) (embedding_service : Bool) : EmbProg F Unit :=
  match content with
  | none =>
      if tags = none then .raise (.ValidationError .nothing_to_update)
      else do
        let _updated : MemoryItem ← act (.update_memory memory_id none tags)
        pure ()
  | some content =>
      if PyStr.isBlank content.toList then .raise (.ValidationError .blank_content)
      else if MAX_CONTENT_CHARS < content.length then
        .raise (.ValidationError (.content_too_long content.length))
      else do
        let updated : MemoryItem ← act (.update_memory memory_id (some content) tags)
        -- invalidate before regenerating, whether or not a provider is configured
        act (.delete_embedding memory_id)
        embed_after_write D embedding_service memory_id updated.content true

/-- `delete_memory.execute` with `confirm=True`; without it, it only reads. -/
def delete_memory_execute (memory_id : String) : EmbProg F Unit := act (.delete_memory memory_id)

end UseCases

/-! ## The machine -/

inductive EmbTask where
  | add_memory (item : MemoryItem) (embedding_service : Bool)
  | update_memory (memory_id : String) (content : Option String) (tags : Option (List PyStr.Text))
      (embedding_service : Bool)
  | delete_memory (memory_id : String)
  | generate_for_memory (memory_id content : String) (force : Bool)
  | generate_missing (project_id : Option String) (force : Bool)
  | background_backfill (force : Bool)
  | start_background_backfill (force : Bool)
  | refresher_tick (auto_backfill : Bool)
  | refresh_revision (force : Bool)

/-- How an operation goes: through, raising, timing out, or (for the listing of
models) through but without the configured one. -/
inductive Outcome where
  | goes
  | raises (e : Exc)
  | times_out
  | unlisted

inductive EmbEnv where
  | repull
  | pass (ms : ℕ)
  | restart
  deriving DecidableEq

section Machine

variable {F : Type}

/-- A call that goes through to `x`, or raises and changes nothing. -/
def EmbWorld.fallible {α : Type} (w : EmbWorld F) (outcome : Outcome)
    (x : Except Exc α × EmbWorld F) : Option (Except Exc α × EmbWorld F) :=
  match outcome with
  | .raises e => some (.error e, w)
  | _ => some x

/-- A store method that returns the new content or raises. -/
def EmbWorld.write (w : EmbWorld F) (x : Except Exc (Db F)) : Except Exc Unit × EmbWorld F :=
  match x with
  | .ok db => (.ok (), { w with db })
  | .error e => (.error e, w)

def EmbWorld.exec (D : Deployment F) (t : ℕ) (o : EmbOp F) (outcome : Outcome) (w : EmbWorld F) :
    Option (Except Exc o.Resp × EmbWorld F) :=
  match o with
  | .add_memory item => w.fallible outcome (w.write (w.db.add_memory item))
  | .update_memory memory_id content tags =>
      w.fallible outcome
        (match w.db.update_memory w.now memory_id content tags with
        | .ok db =>
            match db.get_memory memory_id with
            | some item => (.ok item, { w with db })
            | none => (.error (.MemoryNotFound memory_id), w)
        | .error e => (.error e, w))
  | .delete_memory memory_id => w.fallible outcome (w.write (w.db.delete_memory memory_id))
  | .list_memory project_id =>
      w.fallible outcome (.ok (w.db.list_memory none false 0 project_id none none false), w)
  | .get_embedding_identity memory_id =>
      w.fallible outcome (.ok (w.db.get_embedding_identity memory_id), w)
  | .save_embedding p =>
      let out := w.db.save_embedding D.hash_content p.memory_id p.embedding p.model p.provider
        p.content_hash p.model_revision p.settings_fingerprint p.status
      w.fallible outcome (.ok out.1, { w with db := out.2 })
  | .delete_embedding memory_id =>
      w.fallible outcome (.ok (), { w with db := w.db.delete_embedding memory_id })
  | .read_revision => some (.ok w.revision, w)
  | .acquire_probe_lock =>
      match w.probe_lock, outcome with
      | none, _ => some (.ok true, { w with probe_lock := some t })
      | some _, .times_out => some (.ok false, w)
      | some _, _ => none
  | .release_probe_lock => some (.ok (), { w with probe_lock := none })
  | .in_cooldown =>
      some (.ok (w.last_probe_failure.any fun f => w.now < f + PROBE_COOLDOWN), w)
  | .http_get_tags =>
      match outcome with
      | .unlisted => some (.ok none, w)
      | _ => w.fallible outcome (.ok (some (D.digest w.pulls)), w)
  | .probe_failed => some (.ok (), { w with last_probe_failure := some w.now })
  | .probe_succeeded digest =>
      some (.ok (), { w with revision := ⟨true, digest⟩, last_probe_failure := none })
  | .http_post_embed texts => w.fallible outcome (.ok (texts.map (D.produce w.pulls)), w)
  | .clear_probe_failure => some (.ok (), { w with last_probe_failure := none })
  | .try_backfill_lock => some (.ok !w.backfill_lock, { w with backfill_lock := true })
  | .release_backfill_lock => some (.ok (), { w with backfill_lock := false })
  | .read_reconciled => some (.ok w.reconciled_revision, w)
  | .set_reconciled revision => some (.ok (), { w with reconciled_revision := some revision })
  | .backfill_running =>
      some (.ok (w.backfill_lock || match w.background with
        | .pending _ => true
        | .running => true
        | _ => false), w)
  | .create_background force => some (.ok (), { w with background := .pending force })
  | .background_done => some (.ok (), { w with background := .done })
  | .record_failure op => some (.ok (), { w with health := w.health.record_failure w.now op })
  | .record_success => some (.ok (), { w with health := w.health.record_success })
  | .candidates _ => some (.ok (), w)
  | .refused _ => some (.ok (), w)

/-- The process's attributes as `__init__` leaves them. -/
def EmbWorld.booted (w : EmbWorld F) : EmbWorld F :=
  { db := w.db, now := w.now, pulls := w.pulls }

def task_program (D : Deployment F) : EmbTask → EmbProg F Unit
  | .add_memory item service => add_memory_execute D item service
  | .update_memory memory_id content tags service =>
      update_memory_execute D memory_id content tags service
  | .delete_memory memory_id => delete_memory_execute memory_id
  | .generate_for_memory memory_id content force => generate_for_memory D memory_id content force
  | .generate_missing project_id force => do
      let _ ← generate_missing D project_id force
      pure ()
  | .background_backfill force => run_background_backfill D force
  | .start_background_backfill force => do
      let _ ← start_background_backfill force
      pure ()
  | .refresher_tick auto_backfill => refresher_tick auto_backfill
  | .refresh_revision force => do
      let _ ← refresh_revision force
      pure ()

/-- A background backfill runs once it was created. -/
def task_admitted (task : EmbTask) (w : EmbWorld F) : Option (EmbWorld F) :=
  match task with
  | .background_backfill force =>
      if w.background = .pending force then some { w with background := .running } else none
  | _ => some w

/-- One process, its store, and the server. -/
@[reducible] def embedding (D : Deployment F) : Machine (embSig F) Exc where
  World := EmbWorld F
  Task := EmbTask
  Choice := Outcome
  Env := EmbEnv
  prog := task_program D
  launch := task_admitted
  exec := EmbWorld.exec D
  env
    | .repull, w => { w with pulls := w.pulls + 1 }
    | .pass ms, w => { w with now := w.now + ms }
    | .restart, w => w.booted
  kills e := e = .restart

end Machine

end OpenChronicle
