/-
The settings read from the environment and from `core.json` (`application/config/`,
`interfaces/api/config.py`, `interfaces/mcp/config.py`).

A setting has layers: a variable, the file, a default. Blank variables come from compose files and
count as unset; a bad value never stops the service. Numbers in a file are as JSON has them, a number
in a variable is whatever `int` and `float` make of its text. Warnings are left out, and paths are the
texts they are made from.
-/
import Mathlib.Data.Option.Basic
import OpenChronicle.Lib.Delimited
import OpenChronicle.Lib.Json
import OpenChronicle.Lib.Regex
import OpenChronicle.Lib.Strip

set_option autoImplicit false

namespace OpenChronicle.Config

open PyStr

/-- `os.environ.get`. -/
abbrev Environ := String → Option Text

/-- The builtins applied to settings: `int(s)`, `float(s)`, `float(n)`, `str(value)` and `s.lower()`.
`none` is their `ValueError`, for `float(n)` its `OverflowError`; a float is its bits. -/
structure Builtins where
  int_of_str : Text → Option ℤ
  float_of_str : Text → Option (BitVec 64)
  float_of_int : ℤ → Option (BitVec 64)
  str : Json → Text
  lower : Text → Text

/-! ## `env_helpers.py` -/

/-- `raw is not None and raw.strip()`, and then `raw`. -/
def given (raw : Option Text) : Option Text := raw.filter (!·.blank)

/-- `os.environ.get(name, "").strip()`, if anything is left. -/
def stripped (raw : Option Text) : Option Text := (given raw).map Text.strip

/-- `env_override`. -/
def env_override (environ : Environ) (env_name : String) (file_value : Json) : Json :=
  match given (environ env_name) with
  | some raw => .str raw
  | none => file_value

section Helpers

variable (B : Builtins)

/-- `parse_int`. -/
def parse_int (value : Json) (default : ℤ) : ℤ :=
  match value with
  -- a boolean of the file is no number here, though `bool` is an `int` of Python
  | .int n => n
  | .str s => (B.int_of_str s.strip).getD default
  | _ => default

/-- `parse_float`; `none` is the `OverflowError` of a number without a float. -/
def parse_float (value : Json) (default : BitVec 64) : Option (BitVec 64) :=
  match value with
  | .int n => B.float_of_int n
  | .float bits => some bits
  | .str s => some ((B.float_of_str s.strip).getD default)
  | _ => some default

/-- `parse_str`. -/
def parse_str (value : Json) (default : Text) : Text :=
  match value with
  | .null => default
  | .str s => if s = [] then default else s
  | value => B.str value

/-- `1 <= n <= 65535`. -/
def is_port (n : ℤ) : Bool := 1 ≤ n && n ≤ 65535

/-- The port a file names. -/
def file_port (file_value : Json) : Option ℤ :=
  match file_value with
  | .int n => if is_port n then some n else none
  | _ => none

/-- The port a variable names. -/
def env_port (env_raw : Option Text) : Option ℤ :=
  ((stripped env_raw).bind B.int_of_str).filter is_port

/-- `resolve_port`. -/
def resolve_port (env_raw : Option Text) (file_value : Json) (default : ℤ) : ℤ :=
  -- a variable that names no port gives way to the file, and the file to the default
  let fallback := (file_port file_value).getD default
  (env_port B env_raw).getD fallback

end Helpers

/-! ## `offsite.py` -/

/-- `[A-Za-z0-9_.-]`, and the same with a slash. -/
def remote_char (extra : List Char) : CodePoint → Bool
  | .scalar c => c.isAlphanum || c ∈ '_' :: '.' :: '-' :: extra
  | .surrogate _ => false

/-- `_REMOTE_RE`. -/
def REMOTE_RE : Regex CodePoint :=
  .seq (.plus (remote_char [])) (.seq (Regex.lit [.scalar ':']) (.star (.char (remote_char ['/']))))

structure CloudBackupConfig where
  enabled : Bool
  remote : Text
  recipients : List Text
  problem : Option Text
  deriving DecidableEq

/-- `tuple(part.strip() for part in raw.split(",") if part.strip())`. -/
def csv (raw : Text) : List Text := ((split_on [.scalar ','] raw).filter fun part => !Text.blank part).map Text.strip

def BAD_REMOTE : Text :=
  Text.ofString "OC_CLOUD_REMOTE must be an rclone remote in name:path form, e.g. ocdrop:openchronicle/nas"

def NO_RECIPIENTS : Text :=
  Text.ofString
    "OC_CLOUD_AGE_RECIPIENTS is empty while OC_CLOUD_REMOTE is set; refusing to push unencrypted"

/-- `read_cloud_backup_config`. -/
def read_cloud_backup_config (environ : Environ) : CloudBackupConfig :=
  let recipients := csv ((environ "OC_CLOUD_AGE_RECIPIENTS").getD [])
  match stripped (environ "OC_CLOUD_REMOTE") with
  | none => { enabled := false, remote := [], recipients, problem := none }
  | some remote =>
      -- a remote that begins with a dash would be an option of rclone
      if remote.head? = some (.scalar '-') || !REMOTE_RE.fullmatch remote then
        { enabled := true, remote := [], recipients, problem := some BAD_REMOTE }
      else if recipients = [] then { enabled := true, remote, recipients := [], problem := some NO_RECIPIENTS }
      else { enabled := true, remote, recipients, problem := none }

/-! ## Hosts -/

def DEFAULT_ALLOWED_HOSTS : List Text := ["127.0.0.1:*", "localhost:*", "[::1]:*"].map Text.ofString

/-- `parsed if parsed else DEFAULT_ALLOWED_HOSTS`. -/
def or_default_hosts (parsed : List Text) : List Text := if parsed = [] then DEFAULT_ALLOWED_HOSTS else parsed

/-- `parse_allowed_hosts`. -/
def parse_allowed_hosts (B : Builtins) (env_value : Option Text) (file_value : Json) : List Text :=
  match given env_value with
  -- a variable with nothing but commas is set, and gives the default
  | some raw => or_default_hosts (csv raw)
  | none =>
      match file_value with
      | .list items => or_default_hosts (((items.map B.str).filter fun h => !Text.blank h).map Text.strip)
      | _ => DEFAULT_ALLOWED_HOSTS

/-- `str_or_default`. -/
def str_or_default (value : Json) (default : Text) : Text :=
  match value with
  | .str s => if s.blank then default else s.strip
  | _ => default

/-! ## The two servers -/

/-- A port that can be bound. -/
abbrev Port := { n : ℤ // 1 ≤ n ∧ n ≤ 65535 }

theorem is_port_iff {n : ℤ} : is_port n = true ↔ 1 ≤ n ∧ n ≤ 65535 := by
  rw [is_port, Bool.and_eq_true, decide_eq_true_eq, decide_eq_true_eq]

theorem file_port_mem {value : Json} {n : ℤ} (h : file_port value = some n) : 1 ≤ n ∧ n ≤ 65535 := by
  unfold file_port at h
  split at h
  · next m =>
      by_cases hm : is_port m = true
      · rw [if_pos hm] at h
        cases h
        exact is_port_iff.mp hm
      · rw [if_neg hm] at h
        cases h
  · cases h

theorem env_port_mem {B : Builtins} {raw : Option Text} {n : ℤ} (h : env_port B raw = some n) : 1 ≤ n ∧ n ≤ 65535 :=
  is_port_iff.mp (Option.filter_eq_some_iff.mp h).2

/-- Whatever the layers hold, the port can be bound if the default can. -/
theorem resolve_port_mem (B : Builtins) (env_raw : Option Text) (file_value : Json) (default : Port) :
    1 ≤ resolve_port B env_raw file_value default ∧ resolve_port B env_raw file_value default ≤ 65535 := by
  unfold resolve_port
  cases henv : env_port B env_raw with
  | some n => exact env_port_mem henv
  | none =>
      cases hfile : file_port file_value with
      | some n => exact file_port_mem hfile
      | none => exact default.2

/-- `HTTPConfig`; `__post_init__` refuses any other port. -/
@[ext] structure HTTPConfig where
  host : Text
  port : Port
  api_key : Option Text
  allowed_hosts : List Text
  deriving DecidableEq

/-- `a or b`, for the values of two variables. -/
def first_set (a b : Option Text) : Option Text := (a.filter (· ≠ [])).or b

section Servers

variable (B : Builtins) (environ : Environ) (fc : Json.Dict)

def LOOPBACK : Text := Text.ofString "127.0.0.1"

def key (name : String) : Json := Json.Dict.get fc (Text.ofString name)

/-- `HTTPConfig.from_env`. -/
def HTTPConfig.from_env : HTTPConfig where
  host := (stripped (environ "OC_API_HOST")).getD (str_or_default (key fc "host") LOOPBACK)
  port := ⟨resolve_port B (environ "OC_API_PORT") (key fc "port") 8000,
    resolve_port_mem B _ _ ⟨8000, by decide⟩⟩
  api_key := ((stripped (environ "OC_API_KEY")).or (some (str_or_default (key fc "api_key") []))).filter (· ≠ [])
  allowed_hosts :=
    parse_allowed_hosts B (first_set (environ "OC_API_ALLOWED_HOSTS") (environ "OC_MCP_ALLOWED_HOSTS"))
      (key fc "allowed_hosts")

inductive Transport where
  | stdio
  | sse
  | streamable_http
  deriving DecidableEq, Repr

def Transport.of_text (s : Text) : Option Transport :=
  if s = Text.ofString "stdio" then some .stdio
  else if s = Text.ofString "sse" then some .sse
  else if s = Text.ofString "streamable-http" then some .streamable_http
  else none

structure MCPConfig where
  transport : Transport
  host : Text
  port : Port
  server_name : Text
  allowed_hosts : List Text
  deriving DecidableEq

/-- `MCPConfig.from_env`; the error is the transport that is none. -/
def MCPConfig.from_env (binds_port : Bool) : Except Text MCPConfig :=
  let named := (stripped (environ "OC_MCP_TRANSPORT")).getD
    (str_or_default (key fc "transport") (Text.ofString "stdio"))
  match Transport.of_text named with
  | none => .error named
  | some transport => .ok
      { transport
        host := (stripped (environ "OC_MCP_HOST")).getD (str_or_default (key fc "host") LOOPBACK)
        port :=
          -- a transport that binds nothing reads no port
          if binds_port ∧ transport ≠ .stdio then
            ⟨resolve_port B (environ "OC_MCP_PORT") (key fc "port") 8080, resolve_port_mem B _ _ ⟨8080, by decide⟩⟩
          else ⟨8080, by decide⟩
        server_name := str_or_default (key fc "server_name") (Text.ofString "openchronicle")
        allowed_hosts := parse_allowed_hosts B (environ "OC_MCP_ALLOWED_HOSTS") (key fc "allowed_hosts") }

end Servers

/-! ## `paths.py` -/

/-- `Path(base)` or `Path(base) / suffix`. -/
structure RuntimePath where
  base : Text
  suffix : Option Text := none
  deriving DecidableEq

/-- `_resolve`. -/
def resolve (environ : Environ) (explicit : Option Text) (env_var : String) (data_dir : Option Text)
    (data_dir_suffix fallback : String) : RuntimePath :=
  match explicit, given (environ env_var), data_dir with
  | some explicit, _, _ => { base := explicit }
  | none, some env_val, _ => { base := env_val }
  | none, none, some data_dir => { base := data_dir, suffix := some (Text.ofString data_dir_suffix) }
  | none, none, none => { base := Text.ofString fallback }

structure RuntimePaths where
  db_path : RuntimePath
  config_dir : RuntimePath
  output_dir : RuntimePath
  deriving DecidableEq

/-- `RuntimePaths.resolve`. -/
def RuntimePaths.resolve (environ : Environ) (db_path config_dir output_dir : Option Text) : RuntimePaths :=
  let data_dir := given (environ "OC_DATA_DIR")
  { db_path := Config.resolve environ db_path "OC_DB_PATH" data_dir "openchronicle.db" "data/openchronicle.db"
    config_dir := Config.resolve environ config_dir "OC_CONFIG_DIR" data_dir "config" "config"
    output_dir := Config.resolve environ output_dir "OC_OUTPUT_DIR" data_dir "output" "output" }

/-! ## `settings.py` -/

/-- `VALID_EMBEDDING_PROVIDERS`. -/
def VALID_EMBEDDING_PROVIDERS : List Text := ["none", "stub", "openai", "ollama"].map Text.ofString

/-- `bits <= 0`; a NaN is not. -/
def not_positive (bits : BitVec 64) : Bool :=
  let magnitude := bits.toNat % 2 ^ 63
  magnitude ≤ 0x7FF0000000000000 && (magnitude = 0 || 2 ^ 63 ≤ bits.toNat)

/-- `30.0`. -/
def THIRTY : BitVec 64 := 0x403E000000000000

/-- `EmbeddingSettings`, with what `__post_init__` checks. -/
structure EmbeddingSettings where
  provider : Text
  model : Text
  dimensions : Option ℤ
  api_key : Text
  timeout : BitVec 64
  valid_provider : provider ∈ VALID_EMBEDDING_PROVIDERS
  valid_dimensions : ∀ n ∈ dimensions, 1 ≤ n
  valid_timeout : not_positive timeout = false
  deriving DecidableEq

section Embedding

variable (B : Builtins) (environ : Environ) (fc : Json.Dict)

/-- The dimensions asked for; no positive number is none. -/
def load_dimensions : Option ℤ :=
  let dims_raw := env_override environ "OC_EMBEDDING_DIMENSIONS" (key fc "dimensions")
  -- what is no number counts as 0, so as no dimensions
  let dims := parse_int B dims_raw 0
  if 0 < dims then some dims else none

/-- The timeout; one that is not positive is replaced. -/
def load_timeout : Option (BitVec 64) :=
  (parse_float B (env_override environ "OC_EMBEDDING_TIMEOUT" (key fc "timeout")) THIRTY).map fun timeout =>
    if not_positive timeout then THIRTY else timeout

/-- The provider; one that is unknown is replaced. -/
def load_provider : Text :=
  let provider := B.lower (parse_str B (env_override environ "OC_EMBEDDING_PROVIDER" (key fc "provider"))
    (Text.ofString "none"))
  if provider ∈ VALID_EMBEDDING_PROVIDERS then provider else Text.ofString "none"

theorem load_provider_mem : load_provider B environ fc ∈ VALID_EMBEDDING_PROVIDERS := by
  rw [load_provider]
  split
  · next h => exact h
  · decide

theorem load_dimensions_pos : ∀ n ∈ load_dimensions B environ fc, 1 ≤ n := by
  intro n hn
  rw [load_dimensions] at hn
  split at hn
  · next hpos =>
      cases hn
      omega
  · cases hn

theorem load_timeout_pos {timeout : BitVec 64} (h : load_timeout B environ fc = some timeout) :
    not_positive timeout = false := by
  obtain ⟨parsed, -, rfl⟩ := Option.map_eq_some_iff.mp h
  split
  · decide
  · next hpositive => exact Bool.eq_false_iff.mpr hpositive

/-- `load_embedding_settings`; `none` is the `OverflowError` that its callers do not expect. -/
def load_embedding_settings : Option EmbeddingSettings :=
  match h : load_timeout B environ fc with
  | none => none
  | some timeout => some
      { provider := load_provider B environ fc
        model := parse_str B (env_override environ "OC_EMBEDDING_MODEL" (key fc "model")) []
        dimensions := load_dimensions B environ fc
        api_key := parse_str B (env_override environ "OC_EMBEDDING_API_KEY" (key fc "api_key")) []
        timeout
        valid_provider := load_provider_mem B environ fc
        valid_dimensions := load_dimensions_pos B environ fc
        valid_timeout := load_timeout_pos B environ fc h }

end Embedding

end OpenChronicle.Config
