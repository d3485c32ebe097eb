/-
`services/maintenance_loop.py`: the jobs, the tick and `_invoke`, and the state file.

A run of a job is a task of the event loop. Between two awaits nothing else runs, so a stretch of
`_invoke` from one await to the next is one step here; a handler is a single await, since what
it does inside does not concern the loop. Time is what `utc_now` answers, a new reading each time.

Log lines and metrics are left out, and so is a loop without a state file. Whatever the
operating system does to the writing of that file, `_persist_state` does not raise.
-/
import Mathlib.Logic.Function.Basic
import OpenChronicle.Domain
import OpenChronicle.Lib.AsyncLock

set_option autoImplicit false

namespace OpenChronicle.Maintenance

open PyStr AsyncLock

/-! ## Jobs -/

inductive Outcome where
  | ok
  | failed
  | skipped_overlap
  | skipped
  deriving DecidableEq, Repr

/-- The arguments with which `load_jobs` makes a `JobState`. -/
structure JobSpec where
  name : String
  interval_seconds : ℤ
  enabled : Bool
  deriving DecidableEq, Repr

structure JobState extends JobSpec where
  last_run_at : Option Instant := none
  last_success_at : Option Instant := none
  last_outcome : Option Outcome := none
  last_error : Option String := none
  runs_total : ℕ := 0
  runs_ok : ℕ := 0
  runs_failed : ℕ := 0
  runs_skipped_overlap : ℕ := 0
  lock : Lock ℕ := {}
  started_at : Option Instant := none
  queued_logged : Bool := false
  overlap_logged : Bool := false
  deriving DecidableEq, Repr

/-- `timedelta(seconds=n)` in microseconds. More than 999,999,999 days raise `OverflowError`. -/
def timedelta_seconds (n : ℤ) : Option ℤ :=
  if -999999999 ≤ n / 86400 ∧ n / 86400 ≤ 999999999 then some (n * 1000000) else none

/-- `_is_due`; `none` if it raises. -/
def is_due (job : JobState) (now : Instant) : Option Bool :=
  match job.last_run_at with
  | none => some true
  | some last_run_at => (timedelta_seconds job.interval_seconds).map fun d => d ≤ now - last_run_at

/-- `_note_in_flight`; `none` if it raises. -/
def note_in_flight (job : JobState) (now : Instant) : Option JobState :=
  match job.started_at with
  | none => some { job with queued_logged := true }
  | some started_at =>
      if job.overlap_logged then some job
      else
        (timedelta_seconds job.interval_seconds).map fun d =>
          if now - started_at < d then job
          else { job with overlap_logged := true
                          runs_skipped_overlap := job.runs_skipped_overlap + 1
                          last_outcome := some .skipped_overlap }

/-- How the await of a handler ends; a result is told by `_job_result_is_skipped`. -/
inductive Exit where
  | returned (skipped : Bool)
  | raised (error : String)
  | cancelled
  deriving DecidableEq, Repr

def Exit.succeeded : Exit → Bool
  | returned skipped => !skipped
  | _ => false

/-- `_invoke` from the end of the handler to the last line before it persists. -/
def JobState.end_run (job : JobState) (exit : Exit) (now : Instant) : JobState :=
  let job := match exit with
    | .returned true => { job with last_error := none, last_outcome := some .skipped }
    | .returned false =>
        { job with last_error := none, last_outcome := some .ok, runs_ok := job.runs_ok + 1 }
    | .raised error =>
        { job with last_outcome := some .failed, last_error := some error
                   runs_failed := job.runs_failed + 1 }
    | .cancelled => job
  let job := { job with runs_total := job.runs_total + 1, last_run_at := some now }
  if exit.succeeded then { job with last_success_at := some now } else job

/-- `_invoke` of a job without a handler. -/
def JobState.no_handler (job : JobState) (now : Instant) : JobState :=
  { job with last_outcome := some .failed, last_error := some "no handler registered"
             runs_failed := job.runs_failed + 1, runs_total := job.runs_total + 1
             last_run_at := some now }

/-! ## Configuration -/

def DEFAULT_JOBS : List JobSpec :=
  [⟨"db_vacuum", 7 * 24 * 3600, true⟩, ⟨"db_integrity_check", 7 * 24 * 3600, true⟩,
   ⟨"embedding_backfill", 6 * 3600, true⟩, ⟨"db_backup", 24 * 3600, true⟩,
   ⟨"git_onboard_resync", 3600, false⟩, ⟨"cloud_backup", 24 * 3600, true⟩]

/-- The names in `HANDLERS` of `maintenance/jobs.py`. -/
def HANDLERS : List String :=
  ["db_backup", "db_vacuum", "db_integrity_check", "embedding_backfill", "git_onboard_resync",
   "cloud_backup"]

/-- What `int` makes of a float. -/
inductive Truncated where
  | int (n : ℤ)
  | nan
  | infinite
  deriving DecidableEq, Repr

/-- `int(x)` of the double with these bits. -/
def truncate (bits : BitVec 64) : Truncated :=
  let exponent := bits.toNat / 2 ^ 52 % 2048
  let fraction := bits.toNat % 2 ^ 52
  if exponent = 2047 then (if fraction = 0 then .infinite else .nan)
  else
    let mantissa := if exponent = 0 then fraction else fraction + 2 ^ 52
    let exponent := max exponent 1
    let size : ℕ := if 1075 ≤ exponent then mantissa * 2 ^ (exponent - 1075)
      else mantissa / 2 ^ (1075 - exponent)
    .int (if 2 ^ 63 ≤ bits.toNat then -size else size)

section Config

-- `int` of a string; `none` is its `ValueError`.
variable (int_of_str : Text → Option ℤ)

/-- The interval of `load_jobs`. A value that is no positive integer becomes 3600; `none` is the
`OverflowError` of an infinite one, which nobody catches. -/
def interval_of (raw : Json) : Option ℤ :=
  let positive (n : ℤ) : ℤ := if n ≤ 0 then 3600 else n
  match raw with
  | .int n => some (positive n)
  | .str s => some (positive ((int_of_str s).getD 3600))
  | .float bits =>
      match truncate bits with
      | .int n => some (positive n)
      | .nan => some 3600
      | .infinite => none
  | _ => some 3600

/-- `file_config["maintenance"]["jobs"]`, if it is a list. -/
def config_entries (file_config : Json.Dict) : List Json :=
  match file_config.get (Text.ofString "maintenance") with
  | .dict fc =>
      match Json.Dict.get fc (Text.ofString "jobs") with
      | .list items => items
      | _ => []
  | _ => []

/-- The fields of the last entry for a job. -/
def override (entries : List Json) (name : String) : Json.Dict :=
  let named : Json → Option Json.Dict
    | .dict fields =>
        match Json.Dict.get fields (Text.ofString "name") with
        | .str s => if s = Text.ofString name then some fields else none
        | _ => none
    | _ => none
  ((entries.filterMap named).getLast?).getD []

/-- One round of the second loop of `load_jobs`. -/
def load_job (entry : Json.Dict) (default : JobSpec) : Option JobSpec :=
  let interval_raw := if entry.has (Text.ofString "interval_seconds")
    then entry.get (Text.ofString "interval_seconds") else .int default.interval_seconds
  let enabled := if entry.has (Text.ofString "enabled")
    then (entry.get (Text.ofString "enabled")).truthy else default.enabled
  (interval_of int_of_str interval_raw).map fun interval => ⟨default.name, interval, enabled⟩

/-- `load_jobs`; `none` if it raises. -/
def load_jobs (file_config : Json.Dict) : Option (List JobSpec) :=
  DEFAULT_JOBS.mapM fun default =>
    load_job int_of_str (override (config_entries file_config) default.name) default

end Config

/-! ## The loop -/

/-- Where `_invoke` awaits. `since` is when the run came into its slot. -/
inductive Pc where
  | created
  | wait_own
  | wait_global
  | handling (since : Instant)
  | persisting (since : Instant)
  | done
  deriving DecidableEq, Repr

/-- A call of `_invoke`, spawned by a tick or awaited by `run_once`. -/
structure Task where
  job : String
  pc : Pc := .created
  cancelling : Bool := false
  deriving DecidableEq, Repr

/-- `MaintenanceLoop`. The keys of `_jobs` are `names`, in order; `job` is not asked of others. -/
structure Loop where
  names : List String
  job : String → JobState
  handlers : List String
  global_lock : Lock ℕ := {}
  running_job : Option String := none
  task : ℕ → Option Task := fun _ => none
  count : ℕ := 0

namespace Loop

def start (handlers : List String) (specs : List JobSpec) : Loop where
  names := (specs.map JobSpec.name).eraseDups
  job name := { toJobSpec := (specs.reverse.find? (·.name = name)).getD ⟨name, 3600, false⟩ }
  handlers := handlers

def modify (l : Loop) (name : String) (f : JobState → JobState) : Loop :=
  { l with job := Function.update l.job name (f (l.job name)) }

def set_task (l : Loop) (t : ℕ) (task : Task) : Loop :=
  { l with task := Function.update l.task t (some task) }

/-- A new call of `_invoke`. -/
def spawn (l : Loop) (name : String) : Loop :=
  { l.set_task l.count { job := name } with count := l.count + 1 }

/-! ### `_run` -/

/-- The body of the loop over the jobs; `none` if it raises. -/
def visit (now : Instant) (l : Loop) (name : String) : Option Loop :=
  if !(l.job name).enabled then some l
  else
    match is_due (l.job name) now with
    | none => none
    | some false => some l
    | some true =>
        if (l.job name).lock.locked then
          (note_in_flight (l.job name) now).map fun job => l.modify name fun _ => job
        else some (l.spawn name)

/-- The loop over the jobs; an exception ends it. -/
def visit_all (now : Instant) : Loop → List String → Loop
  | l, [] => l
  | l, name :: rest =>
      match l.visit now name with
      | none => l
      | some l' => visit_all now l' rest

def tick (l : Loop) (now : Instant) : Loop := visit_all now l l.names

/-! ### `_invoke` -/

/-- `_run_slot` up to its `yield`, with both locks held. -/
def enter_slot (l : Loop) (name : String) (now : Instant) : Loop :=
  { l.modify name fun job => { job with started_at := some now, queued_logged := false } with
    running_job := some name }

/-- `_run_slot` from its `yield` on. -/
def leave_slot (l : Loop) (name : String) : Loop :=
  { l.modify name fun job => { job with started_at := none, overlap_logged := false
                                        lock := job.lock.release } with
    running_job := none
    global_lock := l.global_lock.release }

/-- Both locks are held. Without a handler the run ends here, at `ended`. -/
def begin_run (l : Loop) (t : ℕ) (task : Task) (now ended : Instant) : Loop :=
  let l := l.enter_slot task.job now
  if l.handlers.contains task.job then l.set_task t { task with pc := .handling now }
  else ((l.modify task.job (·.no_handler ended)).leave_slot task.job).set_task t { task with pc := .done }

/-- The lock of the job is held. -/
def take_global (l : Loop) (t : ℕ) (task : Task) (now ended : Instant) : Loop :=
  let l' := { l with global_lock := (l.global_lock.acquire t).2 }
  if (l.global_lock.acquire t).1 then l'.begin_run t task now ended
  else l'.set_task t { task with pc := .wait_global }

/-- The task has begun. -/
def take_own (l : Loop) (t : ℕ) (task : Task) (now ended : Instant) : Loop :=
  let acquired := (l.job task.job).lock.acquire t
  let l' := l.modify task.job fun job => { job with lock := acquired.2 }
  if acquired.1 then l'.take_global t task now ended
  else l'.set_task t { task with pc := .wait_own }

/-- What the future of a lock tells a task that runs again. -/
inductive Wake where
  | sleeps
  | claims
  | gives_up
  deriving DecidableEq

def wake (task : Task) : Option Fut → Wake
  | some .woken => if task.cancelling then .gives_up else .claims
  | some .cancelled => .gives_up
  | _ => .sleeps

/-- The event loop runs a task to its next await; `none` if the task is not ready. A task that is
cancelled before it has begun never begins. -/
def resume (l : Loop) (t : ℕ) (task : Task) (now ended : Instant) : Option Loop :=
  match task.pc with
  | .created =>
      if task.cancelling then some (l.set_task t { task with pc := .done })
      else some (l.take_own t task now ended)
  | .wait_own =>
      match wake task ((l.job task.job).lock.future t) with
      | .sleeps => none
      | .claims =>
          some ((l.modify task.job fun job => { job with lock := job.lock.claim t }).take_global
            t task now ended)
      | .gives_up =>
          some ((l.modify task.job fun job => { job with lock := job.lock.give_up t }).set_task
            t { task with pc := .done })
  | .wait_global =>
      match wake task (l.global_lock.future t) with
      | .sleeps => none
      | .claims => some ({ l with global_lock := l.global_lock.claim t }.begin_run t task now ended)
      | .gives_up =>
          some (({ l with global_lock := l.global_lock.give_up t }.modify task.job fun job =>
            { job with lock := job.lock.release }).set_task t { task with pc := .done })
  | _ => none

/-- The handler of a task returns or raises. -/
def handler_ends (l : Loop) (t : ℕ) (task : Task) (exit : Exit) (now : Instant) : Option Loop :=
  match task.pc with
  | .handling since =>
      some ((l.modify task.job (·.end_run exit now)).set_task t { task with pc := .persisting since })
  | _ => none

/-- `_persist_state` is done, or the task is cancelled while it waits for that. -/
def persisted (l : Loop) (t : ℕ) (task : Task) : Option Loop :=
  match task.pc with
  | .persisting _ => some ((l.leave_slot task.job).set_task t { task with pc := .done })
  | _ => none

/-- `task.cancel()`. A handler sees it as its own await raises, and ends as it likes. -/
def cancel (l : Loop) (t : ℕ) (task : Task) : Loop :=
  let l := match task.pc with
    | .wait_own => l.modify task.job fun job => { job with lock := job.lock.cancel t }
    | .wait_global => { l with global_lock := l.global_lock.cancel t }
    | _ => l
  l.set_task t { task with cancelling := true }

/-! ### Steps -/

inductive Act where
  | tick (now : Instant)
  | run_once (name : String)
  | resume (t : ℕ) (now ended : Instant)
  | handler_ends (t : ℕ) (exit : Exit) (now : Instant)
  | persisted (t : ℕ)
  | cancel (t : ℕ)
  deriving DecidableEq, Repr

/-- `none` if the step is not possible, or `run_once` raises `KeyError`. -/
def step (l : Loop) : Act → Option Loop
  | .tick now => some (l.tick now)
  | .run_once name => if l.names.contains name then some (l.spawn name) else none
  | .resume t now ended => (l.task t).bind fun task => l.resume t task now ended
  | .handler_ends t exit now => (l.task t).bind fun task => l.handler_ends t task exit now
  | .persisted t => (l.task t).bind fun task => l.persisted t task
  | .cancel t => (l.task t).map fun task => l.cancel t task

end Loop

/-! ## The state file -/

/-- ISO format. An instant is a datetime in UTC, and a text is read as a reading of the clock with
the offset of its time zone, if it names one. -/
structure Iso where
  isoformat : Instant → Text
  /-- `datetime.fromisoformat`; `none` is its `ValueError`. -/
  fromisoformat : Text → Option (Instant × Option ℤ)
  /-- The documented inverse. -/
  fromisoformat_isoformat : ∀ t, fromisoformat (isoformat t) = some (t, some 0)

/-- The first ten seconds of 1970 as `isoformat` writes them. -/
def epoch_second (k : ℕ) : Text :=
  Text.ofString "1970-01-01T00:00:0" ++ .scalar (Char.ofNat (48 + k)) :: Text.ofString "+00:00"

/-- A clock that is right at these seconds. -/
def epoch_clock : Iso where
  isoformat t :=
    if t % 1000000 = 0 ∧ 0 ≤ t ∧ t < 10000000 then epoch_second (t / 1000000).toNat
    else .scalar (if 0 ≤ t then '+' else '-') :: List.replicate t.natAbs (.scalar '|')
  fromisoformat
    | .scalar '+' :: rest => some (rest.length, some 0)
    | .scalar '-' :: rest => some (-rest.length, some 0)
    | s => ((List.range 10).find? (epoch_second · = s)).map fun k : ℕ => ((k : ℤ) * 1000000, some 0)
  fromisoformat_isoformat := by
    intro (t : ℤ)
    have hsecond : ∀ k < 10, (List.range 10).find? (epoch_second · = epoch_second k) = some k := by
      decide +kernel
    have hhead : ∀ k, epoch_second k = .scalar '1' :: (epoch_second k).tail := fun k => rfl
    by_cases hsoon : t % 1000000 = 0 ∧ 0 ≤ t ∧ t < 10000000
    · have hk : (t / 1000000).toNat < 10 := by omega
      have hback : ((t / 1000000).toNat : ℤ) * 1000000 = t := by omega
      rw [if_pos hsoon]
      have hfound := hsecond _ hk
      rw [hhead] at hfound ⊢
      show Option.map _ _ = _
      rw [hfound, Option.map_some, hback]
    · rw [if_neg hsoon]
      by_cases hpos : 0 ≤ t
      · rw [if_pos hpos]
        simp only [List.length_replicate, Int.natAbs_of_nonneg hpos]
      · have hneg : -(t.natAbs : ℤ) = t := by omega
        rw [if_neg hpos]
        simp only [List.length_replicate, hneg]

section StateFile

variable (iso : Iso)

/-- `parse_state_timestamp`. -/
def parse_state_timestamp : Json → Option Instant
  | .str value => (iso.fromisoformat value).map fun parsed => parsed.1 - parsed.2.getD 0
  | _ => none

/-- `_parse_timestamp_map(raw, key).get(name)`. -/
def persisted_stamp (raw : Json.Dict) (key name : String) : Option Instant :=
  match raw.get (Text.ofString key) with
  | .dict entries => parse_state_timestamp iso (Json.Dict.get entries (Text.ofString name))
  | _ => none

/-- `_load_state`. The file is what `json.loads` answers, or `none` if it is not there or unreadable. -/
def Loop.load_state (l : Loop) (file : Option Json) : Loop :=
  match file with
  | some (.dict raw) =>
      { l with job := fun name =>
        { l.job name with
          last_run_at := (persisted_stamp iso raw "last_run_at" name).or (l.job name).last_run_at
          last_success_at :=
            (persisted_stamp iso raw "last_success_at" name).or (l.job name).last_success_at } }
  | _ => l

/-- One block of the payload of `_persist_state`. -/
def stamps (l : Loop) (stamp : JobState → Option Instant) : Json.Dict :=
  l.names.filterMap fun name =>
    (stamp (l.job name)).map fun at_ => (Text.ofString name, .str (iso.isoformat at_))

/-- `_persist_state`. -/
def persist_state (l : Loop) : Json :=
  .dict [(Text.ofString "last_run_at", .dict (stamps iso l JobState.last_run_at)),
    (Text.ofString "last_success_at", .dict (stamps iso l JobState.last_success_at))]

/-- `raw.get(key, {})`; `none` if what it answers has no `get`. -/
def block (raw : Json.Dict) (key : String) : Option Json.Dict :=
  if raw.has (Text.ofString key) then
    match raw.get (Text.ofString key) with
    | .dict entries => some entries
    | _ => none
  else some []

/-- `_last_run_failed` of `diagnose_runtime.py`. -/
def last_run_failed (file : Option Json) (job : String) : Bool :=
  let raw := match file with
    | some (.dict raw) => raw
    | _ => []
  match block raw "last_run_at", block raw "last_success_at" with
  | some runs, some successes =>
      match parse_state_timestamp iso (runs.get (Text.ofString job)) with
      | none => false
      | some run =>
          match parse_state_timestamp iso (successes.get (Text.ofString job)) with
          | none => true
          | some success => success < run
  | _, _ => false

end StateFile

end OpenChronicle.Maintenance
