/-
The state file with the datetimes themselves (`_parse_timestamp_map`, `_load_state`, `_persist_state`).

The loop model keeps an instant where the program keeps a datetime; here it is the datetime, with
its offset, that is written and read back. A file may hold anything.

The entries are read one by one, but the text is read at once. `json.loads` refuses more than what is
not JSON: an integer of more digits than `int` converts is a `ValueError`, and containers nested too
deep are a `RecursionError`. Either one is met on the way to a value that the file has, and the
catch-all of `_load_state` then drops every entry. So there are two readings of a text here, the value
that it has (`JsonText.value`) and what `loads` makes of it, and the question is when the second will do.
-/
import OpenChronicle.Lib.Clock
import OpenChronicle.Lib.Json
import OpenChronicle.Lib.Keyed
import OpenChronicle.Maintenance.Model
import OpenChronicle.Store.Timestamps

set_option autoImplicit false

namespace OpenChronicle.Maintenance.StateFile

open PyStr

/-! ## What is taken from the standard library -/

/-- `datetime.fromisoformat`; `none` is its `ValueError`. -/
structure IsoReader where
  fromisoformat : Text → Option PyDatetime
  /-- The documented inverse. -/
  fromisoformat_isoformat : ∀ d : PyDatetime, fromisoformat (Text.ofString d.isoformat) = some d

/-- `sys.get_int_max_str_digits()`. -/
def INT_MAX_STR_DIGITS : ℕ := 4300

mutual

/-- The scanner gets through the value: `int` converts every integer, and no container is nested
deeper than `depth`. -/
def scans : (depth : ℕ) → Json → Bool
  | _, .int n => decide (n.natAbs < 10 ^ INT_MAX_STR_DIGITS)
  | depth, .list items => 0 < depth && scans_items (depth - 1) items
  | depth, .dict fields => 0 < depth && scans_fields (depth - 1) fields
  | _, _ => true

def scans_items : (depth : ℕ) → List Json → Bool
  | _, [] => true
  | depth, item :: rest => scans depth item && scans_items depth rest

def scans_fields : (depth : ℕ) → List (Text × Json) → Bool
  | _, [] => true
  | depth, (_, value) :: rest => scans depth value && scans_fields depth rest

end

/-- The `json` module. -/
structure JsonText where
  dumps : Json → String
  /-- The value of a text, in JSON with `NaN` and the infinities; `none` is a text that is not JSON. -/
  value : String → Option Json
  /-- How deep containers may nest before the scanner raises `RecursionError`. -/
  max_depth : ℕ
  /-- A dict has each key once. -/
  keys_once : ∀ text raw key entries, value text = some (.dict raw) → Json.Dict.get raw key = .dict entries →
    (entries.map Prod.fst).Nodup

/-- `json.loads`; `none` is an exception. -/
def JsonText.loads (json : JsonText) (text : String) : Option Json :=
  (json.value text).filter (scans json.max_depth)

/-! ## The jobs -/

/-- The timestamps of a `JobState`. -/
structure JobTimes where
  name : String
  last_run_at : Option PyDatetime := none
  last_success_at : Option PyDatetime := none

/-- `self._jobs`. -/
structure Jobs where
  jobs : List JobTimes
  names_once : (jobs.map JobTimes.name).Nodup

/-- Jobs that have not run. -/
def Jobs.fresh (jobs : Jobs) : Jobs where
  jobs := jobs.jobs.map fun job => { name := job.name }
  names_once := by
    rw [List.map_map]
    exact jobs.names_once

section Reading

variable (iso : IsoReader)

/-- `parsed if parsed.tzinfo is not None else parsed.replace(tzinfo=UTC)`. -/
def as_aware (parsed : PyDatetime) : PyDatetime :=
  if parsed.utcoffset.isSome then parsed else PyDatetime.utc parsed.reading

/-- `parse_state_timestamp`. -/
def parse_state_timestamp : Json → Option PyDatetime
  | .str value => (iso.fromisoformat value).map as_aware
  | _ => none

/-- `_parse_timestamp_map`. -/
def parse_timestamp_map (raw : Json.Dict) (key : String) : List (Text × PyDatetime) :=
  match raw.get (Text.ofString key) with
  | .dict entries => entries.filterMap fun entry => (parse_state_timestamp iso entry.2).map fun stamp => (entry.1, stamp)
  | _ => []

/-- `job.f = stamps[name]`, if `name in stamps`. -/
def restore (stamps : List (Text × PyDatetime)) (name : String) (f : Option PyDatetime) : Option PyDatetime :=
  match Keyed.lookup Prod.fst stamps (Text.ofString name) with
  | some entry => some entry.2
  | none => f

/-- `_load_state`, with what the file says; `none` is a file that is not there. -/
def load_state (json : JsonText) (file : Option String) (jobs : Jobs) : Jobs :=
  match file with
  | none => jobs
  | some text =>
      match json.loads text with
      | some (.dict raw) =>
          let run_at := parse_timestamp_map iso raw "last_run_at"
          let success_at := parse_timestamp_map iso raw "last_success_at"
          { jobs := jobs.jobs.map fun job =>
              { job with last_run_at := restore run_at job.name job.last_run_at
                         last_success_at := restore success_at job.name job.last_success_at }
            names_once := by
              rw [List.map_map]
              exact jobs.names_once }
      | _ => jobs

end Reading

/-! ## Writing -/

/-- One block of the payload. -/
def block (jobs : Jobs) (f : JobTimes → Option PyDatetime) : Json.Dict :=
  jobs.jobs.filterMap fun job => (f job).map fun stamp => (Text.ofString job.name, .str (Text.ofString stamp.isoformat))

/-- The payload of `_persist_state`. -/
def payload (jobs : Jobs) : Json :=
  .dict [(Text.ofString "last_run_at", .dict (block jobs JobTimes.last_run_at)),
    (Text.ofString "last_success_at", .dict (block jobs JobTimes.last_success_at))]

/-- What `_persist_state` writes. -/
def persist_state (json : JsonText) (jobs : Jobs) : String := json.dumps (payload jobs)

/-! ## One entry -/

/-- The entry of a job in a block of the file. -/
def entry (value : Option Json) (key name : String) : Json :=
  match value with
  | some (.dict raw) =>
      match Json.Dict.get raw (Text.ofString key) with
      | .dict entries => Json.Dict.get entries (Text.ofString name)
      | _ => .null
  | _ => .null

section Entries

variable {iso : IsoReader}

end Entries

/-! ## What was written -/

section RoundTrip

variable {iso : IsoReader}

/-- The list is all there is to compare; what else is in the structure are facts about it. -/
theorem Jobs.ext {a b : Jobs} (h : a.jobs = b.jobs) : a = b := by
  cases a
  cases b
  cases h
  rfl

end RoundTrip

/-! ## The loop's own state -/

theorem as_aware_datetime (d : PyDatetime) :
    (as_aware d).datetime = .aware (d.reading.micros - EPOCH - d.utcoffset.getD 0) := by
  rcases d with ⟨reading, _ | offset, hlt⟩
  · show Datetime.aware ((reading.micros : ℤ) - 0 - EPOCH) = .aware ((reading.micros : ℤ) - EPOCH - 0)
    congr 1
    ring
  · show Datetime.aware ((reading.micros : ℤ) - offset - EPOCH) = .aware ((reading.micros : ℤ) - EPOCH - offset)
    congr 1
    ring

/-- The instants that the loop model keeps are those of the datetimes read here. -/
theorem parse_state_timestamp_instant (iso : IsoReader) (iso' : Maintenance.Iso)
    (h : ∀ value, iso'.fromisoformat value
      = (iso.fromisoformat value).map fun d => (d.reading.micros - EPOCH, d.utcoffset)) (value : Json) :
    (Maintenance.parse_state_timestamp iso' value).map Datetime.aware
      = (parse_state_timestamp iso value).map PyDatetime.datetime := by
  cases value with
  | str value =>
      rw [Maintenance.parse_state_timestamp, parse_state_timestamp, h, Option.map_map, Option.map_map, Option.map_map]
      congr 1
      funext d
      exact (as_aware_datetime d).symm
  | _ => rfl

/-! ## A file -/

end OpenChronicle.Maintenance.StateFile
