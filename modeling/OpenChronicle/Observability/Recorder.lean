/-
`PrometheusMetricsRecorder` and its scrape slot, as programs of many threads on one recorder.

A step is one call of the client library or one read or write of the recorder's own state; what stands under a lock
is one step. A library call may raise, before or after it has done its work, and a thread may be interrupted in it.
The numbers observed are left out: a sample is the fact that a label set of a family was touched. One label set
stands for several samples of the exposition, as a histogram has one for each bucket. `oc_build_info`,
`oc_metrics_recorder_healthy` and the process collector, which `__init__` sets up and no recording method touches,
have no label sets here; the health gauge is a field of its own. The rendering itself is `CachedPrefixExporter`'s.

Two things about a worker are left out. `create_task` makes the task or raises, so a call that raises has made
none, also where the library is said to raise when its work is done. And a task that was made begins sooner or
later, or not within the run: a thread that can never start, because its loop is closed or the pool refuses it,
keeps the slot for ever, and no theorem here says otherwise.
-/
import OpenChronicle.Lib.Interleave
import OpenChronicle.Lib.PyStr

set_option autoImplicit false

namespace OpenChronicle.Recorder

open Program PyStr

/-! ## Labels -/

def UNKNOWN : Text := Text.ofString "__unknown__"

def HTTP_METHODS : List Text := ["GET", "POST", "PUT", "DELETE", "PATCH", "OPTIONS", "HEAD"].map Text.ofString

def MCP_TOOLS : List Text :=
  ["health", "project_create", "project_get", "project_list", "project_update", "project_delete",
    "project_delete_bulk", "onboard_git", "memory_search", "memory_save", "memory_list", "memory_pin",
    "memory_update", "memory_get", "memory_delete", "memory_stats", "memory_embed", "context_recent",
    "db_backup_create", "db_backup_list", "db_backup_verify", "db_restore_plan", "db_restore_stage"].map Text.ofString

def PROVIDERS : List Text := ["none", "stub", "openai", "ollama"].map Text.ofString

def EMBEDDING_OPERATIONS : List Text := ["single", "batch"].map Text.ofString

def EMBEDDING_OUTCOMES : List Text :=
  ["success", "transient_failure", "permanent_rejection", "other_error"].map Text.ofString

def MCP_OUTCOMES : List Text := ["ok", "started", "partial", "rejected", "error", "cancelled"].map Text.ofString

def SEARCH_STAGES : List Text :=
  ["keyword_lookup", "vector_loading", "candidate_prep_scoring", "fusion_materialization"].map Text.ofString

def FALLBACK_REASONS : List Text := ["provider_failure", "over_length_query", "revision_churn"].map Text.ofString

def JOB_NAMES : List Text :=
  ["db_vacuum", "db_integrity_check", "embedding_backfill", "db_backup", "git_onboard_resync", "cloud_backup",
    "operator_backfill", "reconcile_backfill"].map Text.ofString

def JOB_OUTCOMES : List Text := ["success", "partial", "failure", "cancel", "overlap"].map Text.ofString

def BACKFILL_OUTCOMES : List Text := ["generated", "failed", "tombstoned"].map Text.ofString

def SURFACES : List Text := ["rest", "mcp"].map Text.ofString

def LOCK_KINDS : List Text := ["read", "write", "maintenance"].map Text.ofString

/-- `_bounded`. -/
def bounded (value : Text) (allowed : List Text) : Text := if value ∈ allowed then value else UNKNOWN

def EXCLUDED_PATHS : List Text :=
  ["/health", "/api/v1/health", "/docs", "/docs/", "/docs/oauth2-redirect", "/redoc", "/redoc/", "/openapi.json",
    "/metrics", "/metrics/"].map Text.ofString

def FIXED_PATHS : List Text :=
  ["/api/v1/memory", "/api/v1/memory/search", "/api/v1/memory/stats", "/api/v1/memory/embed",
    "/api/v1/project"].map Text.ofString

/-- `normalize_http_route`. -/
def normalize_http_route (path : Text) : Option Text :=
  if path ∈ EXCLUDED_PATHS then none
  else if path ∈ FIXED_PATHS then some path
  else if Text.ofString "/api/v1/memory/" <+: path then some (Text.ofString "/api/v1/memory/\x7bmemory_id\x7d")
  else if Text.ofString "/api/v1/project/" <+: path then some (Text.ofString "/api/v1/project/\x7bproject_id\x7d")
  else if path = Text.ofString "/mcp" ∨ path = Text.ofString "/mcp/" then some (Text.ofString "/mcp")
  else some UNKNOWN

/-- `_status_class`. -/
def status_class (status_code : ℤ) : Text :=
  if 100 ≤ status_code ∧ status_code ≤ 599 then Text.ofString (toString (status_code / 100) ++ "xx")
  else Text.ofString "other"

/-! ## Families and caches -/

inductive Family where
  | http_requests
  | http_duration
  | mcp_executions
  | mcp_duration
  | inflight
  | lock_wait
  | lock_hold
  | embedding_operations
  | embedding_duration
  | search_stage_duration
  | search_fallbacks
  | job_runs
  | job_duration
  | job_last_success
  | backfill_items
  | recorder_errors
  deriving DecidableEq, Repr

/-- The dicts of children that were resolved before. -/
inductive Cache where
  | inflight
  | lock
  | stage
  | http_request
  | http_duration
  | embedding_operation
  | embedding_duration
  deriving DecidableEq, Repr

/-- Label values, in the order of the label names. -/
abbrev Labels := List Text

/-! ## Calls -/

inductive RecOp where
  | lookup (cache : Cache) (key : Labels)
  | remember (cache : Cache) (key : Labels)
  /-- `family.labels(*key)`: the label set exists from then on. -/
  | labels (family : Family) (key : Labels)
  /-- `inc`, `dec`, `observe` or `set`. -/
  | touch (family : Family) (key : Labels)
  /-- What `_mark_success` does under the health lock. -/
  | publish_success
  /-- What `_mark_error` does under the health lock. -/
  | publish_zero
  /-- What `_mark_error` does under the warning lock. -/
  | warn_once
  | acquire_slot
  | create_worker
  | await_worker
  | generate_latest
  | release_slot

@[reducible] def RecOp.Resp : RecOp → Type
  | lookup _ _ => Bool
  | acquire_slot => Bool
  | _ => Unit

inductive RecExc where
  /-- An `Exception` of the library. -/
  | LibraryError
  /-- A `BaseException`, a cancellation for one. -/
  | Interrupt
  | MetricsScrapeBusyError
  | MetricsScrapeError
  deriving DecidableEq, Repr

abbrev recSig : Sig := ⟨RecOp, RecOp.Resp⟩

abbrev RecProg := Prog recSig RecExc

def act (o : RecOp) : RecProg o.Resp := Prog.op (S := recSig) o

/-! ## Recording -/

/-- `with suppress(Exception)`. -/
def suppress (p : RecProg Unit) : RecProg Unit := do
  match ← p.attempt with
  | .error .Interrupt => .raise .Interrupt
  -- `Exception` is suppressed, an interrupt is none
  | _ => pure ()

/-- `_mark_error`. -/
def mark_error (operation : String) : RecProg Unit := do
  act .publish_zero
  suppress do
    act (.labels .recorder_errors [Text.ofString operation])
    act (.touch .recorder_errors [Text.ofString operation])
  act .warn_once

/-- `_safe`. -/
def safe (operation : String) (callback : RecProg Unit) : RecProg Unit := do
  -- `_mark_success` is inside the `try`
  match ← (do callback; act .publish_success).attempt with
  | .ok () => pure ()
  | .error .Interrupt => .raise .Interrupt
  | .error _ => mark_error operation

/-- `labels(…)` of several families. -/
def labels_all (key : Labels) : List Family → RecProg Unit
  | [] => pure ()
  | family :: rest => do
      act (.labels family key)
      labels_all key rest

/-- A child, from the cache or the library. -/
def child (cache : Cache) (families : List Family) (key : Labels) : RecProg Unit := do
  let found : Bool ← act (.lookup cache key)
  if found then pure ()
  else do
    -- two threads may both miss; both resolve the same child and one entry is kept
    labels_all key families
    act (.remember cache key)

/-- `family.labels(…)`, and what is done with the child. -/
def sample (family : Family) (key : Labels) : RecProg Unit := do
  act (.labels family key)
  act (.touch family key)

/-- `inflight_inc` and `inflight_dec`. -/
def inflight (operation : String) (surface : Text) : RecProg Unit :=
  safe operation do
    let key := [bounded surface SURFACES]
    child .inflight [.inflight] key
    act (.touch .inflight key)

def observe_http (path method : Text) (status_code : ℤ) : RecProg Unit :=
  match normalize_http_route path with
  | none => pure ()
  | some route =>
      let method := bounded method HTTP_METHODS
      safe "http" do
        let counter_key := [route, method, status_class status_code]
        child .http_request [.http_requests] counter_key
        act (.touch .http_requests counter_key)
        let duration_key := [route, method]
        child .http_duration [.http_duration] duration_key
        act (.touch .http_duration duration_key)

def observe_mcp (tool outcome : Text) : RecProg Unit :=
  safe "mcp" do
    sample .mcp_executions [bounded tool MCP_TOOLS, bounded outcome MCP_OUTCOMES]
    sample .mcp_duration [bounded tool MCP_TOOLS]

def observe_store_lock (kind : Text) : RecProg Unit :=
  safe "store_lock" do
    let key := [bounded kind LOCK_KINDS]
    child .lock [.lock_wait, .lock_hold] key
    act (.touch .lock_wait key)
    act (.touch .lock_hold key)

def observe_embedding (provider operation outcome : Text) : RecProg Unit :=
  let provider := bounded provider PROVIDERS
  let operation := bounded operation EMBEDDING_OPERATIONS
  safe "embedding" do
    let counter_key := [provider, operation, bounded outcome EMBEDDING_OUTCOMES]
    child .embedding_operation [.embedding_operations] counter_key
    act (.touch .embedding_operations counter_key)
    let duration_key := [provider, operation]
    child .embedding_duration [.embedding_duration] duration_key
    act (.touch .embedding_duration duration_key)

def observe_search_stage (stage : Text) : RecProg Unit :=
  safe "search_stage" do
    let key := [bounded stage SEARCH_STAGES]
    child .stage [.search_stage_duration] key
    act (.touch .search_stage_duration key)

def observe_search_fallback (reason : Text) : RecProg Unit :=
  safe "search_fallback" (sample .search_fallbacks [bounded reason FALLBACK_REASONS])

/-- `timed`: a duration was given. -/
def observe_job (name outcome : Text) (timed : Bool) : RecProg Unit :=
  safe "job" do
    sample .job_runs [bounded name JOB_NAMES, bounded outcome JOB_OUTCOMES]
    if timed then sample .job_duration [bounded name JOB_NAMES] else pure ()

def set_job_last_success (name : Text) : RecProg Unit :=
  safe "job_last_success" (sample .job_last_success [bounded name JOB_NAMES])

def observe_backfill_item (outcome : Text) : RecProg Unit :=
  safe "backfill_item" (sample .backfill_items [bounded outcome BACKFILL_OUTCOMES])

/-! ## Scraping -/

/-- `render`: the coroutine of one scrape. -/
def render : RecProg Unit := do
  let acquired : Bool ← act .acquire_slot
  if acquired then do
    match ← (act .create_worker).attempt with
    -- no worker will release the slot, so the coroutine does
    | .error e => do
        act .release_slot
        .raise e
    | .ok () => act .await_worker
  else .raise .MetricsScrapeBusyError

/-- `_render_owned`, on its worker. -/
def render_owned : RecProg Unit :=
  Prog.tryFinally (do
      match ← (act .generate_latest).attempt with
      | .ok () => pure ()
      | .error .Interrupt => .raise .Interrupt
      | .error _ => do
          mark_error "scrape"
          .raise .MetricsScrapeError)
    (act .release_slot)

/-! ## The recorder -/

inductive RecTask where
  | inflight_inc (surface : Text)
  | inflight_dec (surface : Text)
  | observe_http (path method : Text) (status_code : ℤ)
  | observe_mcp (tool outcome : Text)
  | observe_store_lock (kind : Text)
  | observe_embedding (provider operation outcome : Text)
  | observe_search_stage (stage : Text)
  | observe_search_fallback (reason : Text)
  | observe_job (name outcome : Text) (timed : Bool)
  | set_job_last_success (name : Text)
  | observe_backfill_item (outcome : Text)
  | render
  | render_owned

def RecTask.program : RecTask → RecProg Unit
  | inflight_inc surface => inflight "inflight_inc" surface
  | inflight_dec surface => inflight "inflight_dec" surface
  | observe_http path method status_code => Recorder.observe_http path method status_code
  | observe_mcp tool outcome => Recorder.observe_mcp tool outcome
  | observe_store_lock kind => Recorder.observe_store_lock kind
  | observe_embedding provider operation outcome => Recorder.observe_embedding provider operation outcome
  | observe_search_stage stage => Recorder.observe_search_stage stage
  | observe_search_fallback reason => Recorder.observe_search_fallback reason
  | observe_job name outcome timed => Recorder.observe_job name outcome timed
  | set_job_last_success name => Recorder.set_job_last_success name
  | observe_backfill_item outcome => Recorder.observe_backfill_item outcome
  | render => Recorder.render
  | render_owned => Recorder.render_owned

/-- The recorder, as it is after `__init__`. -/
structure RecState where
  cached : Cache → List Labels := fun _ => []
  /-- The label sets of the recording families that were resolved. -/
  series : List (Family × Labels) := []
  healthy : Bool := true
  /-- `oc_metrics_recorder_healthy` shows 1. -/
  gauge : Bool := true
  warnings : ℕ := 0
  /-- `_scrape_slot` is taken. -/
  slot : Bool := false
  /-- Workers that were created and have not begun. -/
  pending : ℕ := 0

/-- How a library call goes. -/
inductive Luck where
  | works
  | raises (e : RecExc)
  /-- It raises when its work is done. -/
  | raises_late (e : RecExc)

/-- A library call with its effect. -/
def Luck.call (luck : Luck) (effect : RecState → RecState) (w : RecState) : Except RecExc Unit × RecState :=
  match luck with
  | works => (.ok (), effect w)
  | raises e => (.error e, w)
  | raises_late e => (.error e, effect w)

def insert {α : Type} [DecidableEq α] (a : α) (l : List α) : List α := if a ∈ l then l else l ++ [a]

def RecState.exec (luck : Luck) (w : RecState) : (o : RecOp) → Except RecExc o.Resp × RecState
  | .lookup cache key => (.ok (decide (key ∈ w.cached cache)), w)
  | .remember cache key => (.ok (), { w with cached := Function.update w.cached cache (insert key (w.cached cache)) })
  | .labels family key => luck.call (fun w => { w with series := insert (family, key) w.series }) w
  | .touch _ _ => luck.call id w
  | .publish_success =>
      if w.healthy then (.ok (), w)
      else
        -- `_healthy` follows the gauge, so it is not set if the gauge raises
        match luck with
        | .works => (.ok (), { w with gauge := true, healthy := true })
        | .raises e => (.error e, w)
        | .raises_late e => (.error e, { w with gauge := true })
  | .publish_zero =>
      match luck with
      | .works => (.ok (), { w with healthy := false, gauge := false })
      | .raises .Interrupt => (.error .Interrupt, { w with healthy := false })
      | .raises _ => (.ok (), { w with healthy := false })
      | .raises_late .Interrupt => (.error .Interrupt, { w with healthy := false, gauge := false })
      | .raises_late _ => (.ok (), { w with healthy := false, gauge := false })
  | .warn_once => (.ok (), { w with warnings := max 1 w.warnings })
  | .acquire_slot => (.ok (!w.slot), { w with slot := true })
  | .create_worker =>
      match luck with
      | .works => (.ok (), { w with pending := w.pending + 1 })
      -- there is no task if `create_task` raises
      | .raises e => (.error e, w)
      | .raises_late e => (.error e, w)
  | .await_worker => luck.call id w
  | .generate_latest => luck.call id w
  | .release_slot => if w.slot then (.ok (), { w with slot := false }) else (.error .LibraryError, w)

/-- Any number of recordings and scrapes; a worker begins once it was created. -/
@[reducible] def recorder : Machine recSig RecExc where
  World := RecState
  Task := RecTask
  Choice := Luck
  Env := Empty
  prog := RecTask.program
  launch task w :=
    match task with
    -- the thread of a worker begins once, when it was created
    | .render_owned => if 0 < w.pending then some { w with pending := w.pending - 1 } else none
    | _ => some w
  exec _ o luck w := some (w.exec luck o)
  env _ w := w
  kills _ := false

end OpenChronicle.Recorder
