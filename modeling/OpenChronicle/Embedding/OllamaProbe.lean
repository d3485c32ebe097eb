/-
`OllamaEmbeddingAdapter`: the revision probe, the embeds beside it, and the attributes both touch.

An operation is one read or write of an attribute that another thread can see, one reading of the clock,
one call on the probe lock, or half of an HTTP request: a probe is sent at one moment and answered at
another. What a server may answer is anything at all. Between two operations the adapter computes on its
own: it looks the model up in a listing, or checks and normalizes vectors.

Floating point is a parameter; a Python integer is not, since one that a float cannot hold raises. Left
out are the counters and the texts that only decide log lines.

A probe holds the lock from before it is sent until its answer has been written down. Who only reads the
snapshot takes no lock, and who waits for it too long goes on with a read, so the attributes are written
by one thread at a time and may be read between any two writes.
-/
import Mathlib.Algebra.Order.Ring.Rat
import Mathlib.Data.List.DropRight
import Mathlib.Data.List.Infix
import OpenChronicle.Domain
import OpenChronicle.Lib.Interleave
import OpenChronicle.Lib.Json

set_option autoImplicit false

namespace OpenChronicle.Ollama

open Program PyStr

/-! ## Python's floats -/

/-- The operations on a float; `of_int` is `float(n)`, `none` where it raises `OverflowError`. -/
structure Double (F : Type) where
  of_bits : BitVec 64 → F
  of_int : ℤ → Option F
  is_finite : F → Bool
  is_zero : F → Bool
  add : F → F → F
  mul : F → F → F
  div : F → F → F
  sqrt : F → F

/-- An `int` or a `float`. -/
inductive Number (F : Type) where
  | int (n : ℤ)
  | float (x : F)

/-- `float(x)`. -/
def Number.to_float {F : Type} (D : Double F) : Number F → Except Exc F
  | .int n =>
      match D.of_int n with
      | some x => .ok x
      | none => .error .Other
  | .float x => .ok x

/-- `a * b`. -/
def Number.mul {F : Type} (D : Double F) : Number F → Number F → Except Exc (Number F)
  | .int m, .int n => .ok (.int (m * n))
  | a, b => do return .float (D.mul (← a.to_float D) (← b.to_float D))

/-- `a + b`. -/
def Number.add {F : Type} (D : Double F) : Number F → Number F → Except Exc (Number F)
  | .int m, .int n => .ok (.int (m + n))
  | a, b => do return .float (D.add (← a.to_float D) (← b.to_float D))

/-! ## The adapter's parameters -/

/-- The configured adapter, with the case tables of the platform. -/
structure Adapter (F : Type) where
  model : Text
  requested_dimensions : Option ℤ := none
  casefold : Text → Text
  lower : Text → Text
  double : Double F

/-- `PROBE_COOLDOWN_SECONDS`. -/
def PROBE_COOLDOWN_SECONDS : ℚ := 30

/-- `_ERROR_BODY_LIMIT`. -/
def ERROR_BODY_LIMIT : ℕ := 300

/-- What a request comes to: an exception of the client, a status that `raise_for_status` refuses,
a body that is not JSON, or a body. -/
inductive Answer where
  | connect_error
  | timeout
  | transport_error
  | status_error (status : ℕ) (body : Option Json) (text : Text)
  | not_json
  | body (payload : Json)

/-! ## Looking the model up -/

section Names

/-- `s.strip()`. -/
def strip (s : Text) : Text :=
  let space : CodePoint → Bool
    | .scalar c => isspace c
    | .surrogate _ => false
  (s.dropWhile space).rdropWhile space

/-- `s.removeprefix(start)`. -/
def without_leading (start s : Text) : Text := if start <+: s then s.drop start.length else s

/-- `s.rsplit("/", 1)[-1]`. -/
def after_last_slash (s : Text) : Text := s.rtakeWhile (· ≠ .scalar '/')

/-- `_canonical_model_name`. -/
def canonical_model_name (casefold : Text → Text) (name : Text) : Text :=
  let name := casefold (strip name)
  let name := without_leading "library/" (without_leading "registry.ollama.ai/" name)
  if .scalar ':' ∈ after_last_slash name then name else name ++ Text.ofString ":latest"

/-- `value if isinstance(value, str) and value else None`. -/
def nonempty_str : Json → Option Text
  | .str s => if s = [] then none else some s
  | _ => none

/-- The names a listing gives one entry. -/
def entry_names (entry : Json.Dict) : List Text :=
  [Json.Dict.get entry "name", Json.Dict.get entry "model"].filterMap nonempty_str

/-- The loop of `_find_model`: whether the model is listed, its digest, and the names seen. -/
def find_entry (casefold : Text → Text) (wanted : Text) :
    List Json → List Text → Bool × Option Text × List Text
  | [], names => (false, none, names)
  | .dict entry :: rest, names =>
      let names := names ++ (entry_names entry).take 1
      if (entry_names entry).any fun n => canonical_model_name casefold n = wanted then
        (true, nonempty_str (Json.Dict.get entry "digest"), names)
      else find_entry casefold wanted rest names
  | _ :: rest, names => find_entry casefold wanted rest names

/-- `_find_model`; `none` for a body without a `models` list. -/
def find_model (casefold : Text → Text) (payload : Json) (model : Text) :
    Option (Bool × Option Text × List Text) :=
  match payload with
  | .dict fields =>
      match Json.Dict.get fields "models" with
      | .list models => some (find_entry casefold (canonical_model_name casefold model) models [])
      | _ => none
  | _ => none

end Names

/-! ## Checking and normalizing vectors -/

section Vectors

variable {F : Type} (A : Adapter F)

/-- The `ProviderError` of an invalid response. -/
def invalid : Exc := .ProviderError .PROVIDER_ERROR

/-- `isinstance(x, (int, float)) and math.isfinite(x)`, and the number. -/
def finite_number : Json → Except Exc (Number F)
  | .int n => do
      let x ← (Number.int n).to_float A.double
      if A.double.is_finite x then .ok (.int n) else .error invalid
  | .float bits =>
      if A.double.is_finite (A.double.of_bits bits) then .ok (.float (A.double.of_bits bits))
      else .error invalid
  | _ => .error invalid

/-- `isinstance(x, bool)`. -/
def is_bool : Json → Bool
  | .bool _ => true
  | _ => false

/-- The loop of `validate_embeddings`. -/
def validate_vectors : Option ℕ → List Json → Except Exc (Option ℕ × List (List (Number F)))
  | first_len, [] => .ok (first_len, [])
  | first_len, .list vec :: rest =>
      if vec.isEmpty then .error invalid
      else if first_len.any (· ≠ vec.length) then .error invalid
      else if vec.any is_bool then .error invalid
      else do
        let numbers ← vec.mapM (finite_number A)
        let (len, vectors) ← validate_vectors (some vec.length) rest
        return (len, numbers :: vectors)
  | _, _ :: _ => .error invalid

/-- `validate_embeddings`, and the vectors it lets through. -/
def validate_embeddings (embeddings : Json) (expected : ℕ) : Except Exc (List (List (Number F))) :=
  match embeddings with
  | .list items =>
      if items.length ≠ expected then .error invalid
      else do
        let (first_len, vectors) ← validate_vectors A none items
        if A.requested_dimensions.any fun d => first_len.map Int.ofNat ≠ some d then .error invalid
        else return vectors
  | _ => .error invalid

/-- `normalize_unit`. -/
def normalize_unit (vec : List (Number F)) : Except Exc (List (Number F)) := do
  let total ← vec.foldlM (fun (sum x : Number F) => do sum.add A.double (← x.mul A.double x)) (.int 0)
  let mag := A.double.sqrt (← total.to_float A.double)
  if A.double.is_zero mag then return vec
  else vec.mapM fun (x : Number F) => do return .float (A.double.div (← x.to_float A.double) mag)

/-- `_upstream_error`. -/
def upstream_error (body : Option Json) (text : Text) : Text :=
  let message :=
    match body with
    | some (.dict fields) => Json.Dict.get fields "error"
    | _ => .null
  let fallback : Text := if text = [] then "(no error body)" else text
  ((nonempty_str message).getD fallback).take ERROR_BODY_LIMIT

/-- `_is_context_length_rejection`. -/
def is_context_length_rejection (status : ℕ) (message : Text) : Bool :=
  status = 400 && contains (Text.ofString "context length") (A.lower message)

/-- The last `except` clauses of `embed_batch`: a `ProviderError` as it is, anything else as one. -/
def as_provider_error : Exc → Exc
  | .ProviderError code => .ProviderError code
  | _ => .ProviderError .PROVIDER_ERROR

/-- What `embed_batch` makes of an answer: the validated vectors, or what it raises. -/
def embeddings_of (expected : ℕ) : Answer → Except Exc (List (List (Number F)))
  | .body (.dict fields) => validate_embeddings A (Json.Dict.get fields "embeddings") expected
  | .body _ => .error .Other
  | .status_error status body text =>
      .error (.ProviderError
        (if is_context_length_rejection A status (upstream_error body text) then .CONTENT_TOO_LONG
        else .PROVIDER_ERROR))
  | .connect_error => .error (.ProviderError .CONNECTION_ERROR)
  | .timeout => .error (.ProviderError .TIMEOUT)
  | .transport_error => .error .Other
  | .not_json => .error .Other

end Vectors

/-! ## Operations -/

/-- A `RevisionSnapshot`, less `verified_at`; a digest comes from JSON. -/
structure Snapshot where
  known : Bool
  value : Option Text := none
  deriving DecidableEq, Repr

/-- `UNKNOWN_REVISION`. -/
def UNKNOWN_REVISION : Snapshot := { known := false }

/-- `embed_succeeded` stands for the `return` of an embed and does nothing. -/
inductive OllamaOp where
  | acquire_probe_lock
  | release_probe_lock
  | read_revision
  | read_last_probe_failure
  | monotonic
  | send_get_tags
  | receive_tags
  | set_revision (digest : Option Text)
  | set_last_probe_failure (failed_at : Option ℚ)
  | http_post_embed (texts : List Text)
  | embed_succeeded

@[reducible] def OllamaOp.Resp : OllamaOp → Type
  | acquire_probe_lock => Bool
  | read_revision => Snapshot
  | read_last_probe_failure => Option ℚ
  | monotonic => ℚ
  | receive_tags => Answer
  | http_post_embed _ => Answer
  | _ => Unit

abbrev ollamaSig : Sig := ⟨OllamaOp, OllamaOp.Resp⟩

abbrev OllamaProg := Prog ollamaSig Exc

/-- Perform one operation. -/
def act (o : OllamaOp) : OllamaProg o.Resp := Prog.op (S := ollamaSig) o

/-! ## The methods -/

section Methods

variable {F : Type} (A : Adapter F)

/-- `_probe_succeeded`. -/
def probe_succeeded (digest : Option Text) : OllamaProg Snapshot := do
  act (.set_revision digest)
  act (.set_last_probe_failure none)
  act .read_revision

/-- `_probe_failed`. -/
def probe_failed : OllamaProg Snapshot := do
  let now : ℚ ← act .monotonic
  act (.set_last_probe_failure (some now))
  act .read_revision

/-- The digest of an answer that lists the model. -/
def Answer.lists : Answer → Option (Option Text)
  | .body payload =>
      match find_model A.casefold payload A.model with
      | some (true, digest, _) => some digest
      | _ => none
  | _ => none

/-- `_probe`. -/
def probe : OllamaProg Snapshot := do
  act .send_get_tags
  match ← (act .receive_tags : OllamaProg Answer) with
  | .body payload =>
      match find_model A.casefold payload A.model with
      | some (true, digest, _) => probe_succeeded digest
      | some (false, _, _) => probe_failed
      | none => probe_failed
  | _ => probe_failed

/-- `_in_cooldown`. -/
def in_cooldown : OllamaProg Bool := do
  let failed_at : Option ℚ ← act .read_last_probe_failure
  match failed_at with
  | none => pure false
  | some failed_at => do
      let now : ℚ ← act .monotonic
      pure (decide (now - failed_at < PROBE_COOLDOWN_SECONDS))

/-- `self._revision.known or self._in_cooldown()`. -/
def settled_or_cooling : OllamaProg Bool := do
  let snapshot : Snapshot ← act .read_revision
  if snapshot.known then pure true else in_cooldown

/-- The body of `refresh_revision` under the probe lock. -/
def refresh_locked (force : Bool) : OllamaProg Snapshot :=
  if force then probe A
  else do
    if ← settled_or_cooling then act .read_revision else probe A

/-- `refresh_revision`. -/
def refresh_revision (force : Bool) : OllamaProg Snapshot := do
  let acquired : Bool ← act .acquire_probe_lock
  if acquired then (refresh_locked A force).tryFinally (act .release_probe_lock)
  else act .read_revision

/-- `embed_batch`. -/
def embed_batch (texts : List Text) : OllamaProg (List (List (Number F))) :=
  if texts = [] then pure []
  else do
    let answer : Answer ← act (.http_post_embed texts)
    match embeddings_of A texts.length answer with
    | .error e => .raise (as_provider_error e)
    | .ok embeddings => do
        -- the server has answered, so a failed probe's cooldown no longer applies
        act (.set_last_probe_failure none)
        match embeddings.mapM (normalize_unit A) with
        | .ok vectors => pure vectors
        | .error e => .raise (as_provider_error e)

end Methods

/-! ## The machine -/

inductive OllamaTask where
  | refresh_revision (force : Bool)
  | embed_batch (texts : List Text)
  | revision_snapshot

/-- How an operation goes that can go several ways. -/
inductive Outcome where
  | goes
  | times_out
  | answers (answer : Answer)

/-- The adapter's attributes, and the clock. -/
structure AdapterState where
  revision : Snapshot := UNKNOWN_REVISION
  /-- The thread that holds `_probe_lock`. -/
  probe_lock : Option ℕ := none
  last_probe_failure : Option ℚ := none
  clock : ℚ := 0

def AdapterState.exec (t : ℕ) (o : OllamaOp) (outcome : Outcome) (w : AdapterState) :
    Option (Except Exc o.Resp × AdapterState) :=
  match o with
  | .acquire_probe_lock =>
      match w.probe_lock, outcome with
      | none, _ => some (.ok true, { w with probe_lock := some t })
      | some _, .times_out => some (.ok false, w)
      | some _, _ => none
  | .release_probe_lock => some (.ok (), { w with probe_lock := none })
  | .read_revision => some (.ok w.revision, w)
  | .read_last_probe_failure => some (.ok w.last_probe_failure, w)
  | .monotonic => some (.ok w.clock, w)
  | .send_get_tags => some (.ok (), w)
  | .receive_tags =>
      match outcome with
      | .answers answer => some (.ok answer, w)
      | _ => none
  | .set_revision digest => some (.ok (), { w with revision := ⟨true, digest⟩ })
  | .set_last_probe_failure failed_at => some (.ok (), { w with last_probe_failure := failed_at })
  | .http_post_embed _ =>
      match outcome with
      | .answers answer => some (.ok answer, w)
      | _ => none
  | .embed_succeeded => some (.ok (), w)

def task_program {F : Type} (A : Adapter F) : OllamaTask → OllamaProg Unit
  | .refresh_revision force => do
      let _ ← refresh_revision A force
      pure ()
  | .embed_batch texts => do
      let _ ← embed_batch A texts
      act .embed_succeeded
  | .revision_snapshot => do
      let _snapshot : Snapshot ← act .read_revision
      pure ()

/-- Any number of threads on one adapter, while the clock runs. -/
@[reducible] def ollama {F : Type} (A : Adapter F) : Machine ollamaSig Exc where
  World := AdapterState
  Task := OllamaTask
  Choice := Outcome
  Env := ℚ≥0
  prog := task_program A
  launch _ w := some w
  exec := AdapterState.exec
  env elapsed w := { w with clock := w.clock + elapsed }
  kills _ := false

end OpenChronicle.Ollama
