/-
The git children of `services/git_onboard.py`: what they are started with, and in what environment.

`extract_commits_from_url` clones into a temporary directory, resolves HEAD there and walks it, each
step a child process. The program is a tree of these calls; what git answers is anything. The process
environment is read and never written, so it is fixed for a run, and so is the clock that dates an entry
without a date. `redact_url_userinfo` and the two case tables are parameters.

A call is the argument list, the environment and the time limit of a child; its answer is an exit code
and two decoded outputs, or the exception of `subprocess.run`. The directory is made and removed by
calls too, so a trace shows in which order things happen and what is left when a call raises.

The texts of the errors are put together as in the source, with the output of git in them, because the
question is what of it may be shown.
-/
import OpenChronicle.Config.Environment
import OpenChronicle.GitOnboard.Gates
import OpenChronicle.GitOnboard.GitLog
import OpenChronicle.Lib.Argv
import OpenChronicle.Lib.Base64
import OpenChronicle.Lib.Replace

set_option autoImplicit false

namespace OpenChronicle.GitHost

open Program PyStr GitLog
open Config (Environ)

/-! ## The environment of a child -/

/-- The `env` of a child, in the order its names were set. -/
abbrev ChildEnv := List (String × Text)

/-- `_GIT_ENV_PASSTHROUGH`. -/
def GIT_ENV_PASSTHROUGH : List String :=
  ["PATH", "HOME", "TMPDIR",
   "USERPROFILE", "SYSTEMROOT", "SYSTEMDRIVE", "COMSPEC", "PATHEXT", "Temp", "TMP",
   "LANG", "LC_ALL", "LC_CTYPE",
   "SSL_CERT_FILE", "SSL_CERT_DIR", "CURL_CA_BUNDLE", "GIT_SSL_CAINFO",
   "http_proxy", "https_proxy", "all_proxy", "no_proxy",
   "HTTP_PROXY", "HTTPS_PROXY", "ALL_PROXY", "NO_PROXY",
   "SSH_AUTH_SOCK", "GIT_SSH", "GIT_SSH_COMMAND",
   "GIT_CONFIG_GLOBAL", "GIT_CONFIG_NOSYSTEM"]

/-- `env[name] = value`. -/
def ChildEnv.set (env : ChildEnv) (name : String) (value : Text) : ChildEnv :=
  if env.any (·.1 = name) then env.map fun p => if p.1 = name then (name, value) else p
  else env ++ [(name, value)]

/-- `_git_child_env`. -/
def git_child_env (environ : Environ) : ChildEnv :=
  GIT_ENV_PASSTHROUGH.filterMap fun name => (environ name).map (name, ·)

/-! ## Exceptions -/

/-- What a run can raise, with its text. -/
inductive GitExc where
  | RuntimeError (message : Text)
  | FileNotFoundError
  | TimeoutExpired
  | IndexError
  | UnicodeEncodeError
  /-- What the parser of the log lets through. -/
  | parser (e : Exc)
  | Other
  deriving DecidableEq

/-- A gate raises `RuntimeError`, but for the index that is missing in a URL without `://`. -/
def GitExc.gate (repr : Text → String) : GateError → GitExc
  | .IndexError => .IndexError
  | e => .RuntimeError (Text.ofString (e.message repr))

/-! ## The token -/

/-- The only host that is sent the token. -/
def GITHUB : Text := Text.ofString "https://github.com/"

/-- `s.encode()`, as bytes. -/
def utf8 (s : String) : List ℕ := s.toByteArray.data.toList.map UInt8.toNat

/-- ASCII as code points. -/
def chars (s : List Char) : Text := s.map .scalar

/-- `base64.b64encode(f"x-access-token:{token}".encode()).decode()`. -/
def basic_b64 (token : Text) : Except GitExc Text :=
  match (Text.ofString "x-access-token:" ++ token).encode with
  | none => .error .UnicodeEncodeError
  | some credential => .ok (chars (Base64.encode (utf8 credential)))

/-- What stands before the header value in `GIT_CONFIG_PARAMETERS`. -/
def EXTRAHEADER : Text := Text.ofString "'http.https://github.com/.extraheader=AUTHORIZATION: "

def quote : CodePoint := .scalar '\''

/-- `f"'http.https://github.com/.extraheader=AUTHORIZATION: Basic {basic_b64}'"`. -/
def config_parameters (b64 : Text) : Text := EXTRAHEADER ++ Text.ofString "Basic " ++ b64 ++ [quote]

/-- `_build_clone_env`. -/
def build_clone_env (environ : Environ) (repo_url : Text) : Except GitExc ChildEnv :=
  let env := (git_child_env environ).set "GIT_TERMINAL_PROMPT" (Text.ofString "0")
  match environ "OC_GIT_TOKEN" with
  | none => .ok env
  | some token =>
      if token ≠ [] ∧ GITHUB <+: repo_url then do
        let b64 ← basic_b64 token
        .ok (env.set "GIT_CONFIG_PARAMETERS" (config_parameters b64))
      else .ok env

/-- `os.environ.get("OC_GIT_TOKEN") or ""`. -/
def token (environ : Environ) : Text := (environ "OC_GIT_TOKEN").getD []

/-- The header value in an environment: `params.split("Basic ", 1)[1].rstrip("'")`. -/
def header_value (clone_env : ChildEnv) : Option Text :=
  (partition (Text.ofString "Basic ") ((clone_env.lookup "GIT_CONFIG_PARAMETERS").getD [])).map
    fun p => p.2.rdropWhile (· = quote)

/-- What stands for a secret. -/
def STARS : Text := Text.ofString "***"

/-- `_redact_clone_secrets`. -/
def redact_clone_secrets (environ : Environ) (text : Text) (clone_env : ChildEnv) : Text :=
  (token environ :: (header_value clone_env).toList).foldl
    (fun text secret => if secret = [] then text else replace secret STARS text) text

/-! ## Children -/

/-- What a child is started with. -/
structure Child where
  argv : List Text
  env : ChildEnv
  timeout : ℕ

/-- What `subprocess.run` returns. With `text=True` both outputs are decoded: there is no carriage return
left in either. -/
structure CompletedProcess where
  returncode : ℤ
  stdout : List Char
  stderr : List Char

/-- The calls of a run. -/
inductive HostOp where
  /-- `tempfile.TemporaryDirectory(prefix="oc-git-onboard-")`. -/
  | mkdtemp
  /-- `subprocess.run(argv, capture_output=True, text=True, timeout, env)`. -/
  | run (child : Child)
  | cleanup (tmpdir : Text)

@[reducible] def HostOp.Resp : HostOp → Type
  | mkdtemp => Text
  | run _ => CompletedProcess
  | cleanup _ => Unit

/-- The calls with their answers. -/
abbrev hostSig : Sig := ⟨HostOp, HostOp.Resp⟩

abbrev HostProg := Prog hostSig GitExc

/-- A single call. -/
def host (o : HostOp) : HostProg o.Resp := Prog.op (S := hostSig) o

def decimal (n : ℤ) : Text := Text.ofString (toString n)

/-- `f"--format={separator}{git_format}"`. -/
def FORMAT : Text :=
  Text.ofString "--format=" ++ chars separator
    ++ (chars field_sep).intercalate (["%H", "%an", "%aI", "%s", "%b"].map Text.ofString) ++ chars body_end

/-- A clone is shallow unless it must reach a watermark. -/
def depth_args (max_commits : ℤ) (since_commit : Option String) : List Text :=
  if since_commit.isNone then [Text.ofString "--depth", decimal (max_commits + 1)] else []

/-- The branch, if there is one, as the value of its option. -/
def branch_args : Option Text → List Text
  | some branch => [Text.ofString "--branch", branch]
  | none => []

/-- The `clone_cmd` of `extract_commits_from_url`. -/
def clone_argv (repo_url : Text) (max_commits : ℤ) (since_commit : Option String) (branch : Option Text)
    (tmpdir : Text) : List Text :=
  ["git", "clone", "--quiet", "--no-checkout"].map Text.ofString ++ depth_args max_commits since_commit
    ++ branch_args branch ++ [Text.ofString "--", repo_url, tmpdir]

/-- `f"{since_commit}..HEAD"`, if there is a `since_commit`. -/
def revision_range : Option String → List Text
  | some since_commit => if since_commit = "" then [] else [Text.ofString since_commit ++ Text.ofString "..HEAD"]
  | none => []

/-- The `cmd` of `extract_commits_from_git`. -/
def log_argv (repo_path : Text) (max_commits : ℤ) (since_commit : Option String) : List Text :=
  [Text.ofString "git", Text.ofString "-C", repo_path, Text.ofString "log"] ++ revision_range since_commit
    ++ [Text.ofString "--max-count=" ++ decimal max_commits, Text.ofString "--no-merges", FORMAT,
        Text.ofString "--numstat"]

def abbrev_ref_argv (repo_path : Text) : List Text :=
  [Text.ofString "git", Text.ofString "-C", repo_path, Text.ofString "rev-parse", Text.ofString "--abbrev-ref",
   Text.ofString "HEAD"]

def head_argv (repo_path : Text) : List Text :=
  [Text.ofString "git", Text.ofString "-C", repo_path, Text.ofString "rev-parse", Text.ofString "HEAD"]

/-! ## The program -/

/-- What a run finds around it. -/
structure Platform where
  environ : Environ
  decimals : DecimalTable
  lower : Text → Text
  lower_ascii : ∀ s : List Char, (∀ c ∈ s, c.toNat < 128) → lower (chars s) = chars (s.map Char.toLower)
  repr : Text → String
  redact_url_userinfo : Text → Text
  utc_now : PyDatetime

/-- `ExtractedHistory`, its commits as the log gives them. -/
structure WalkedHistory where
  commits : List LogCommit
  branch : List Char
  head : List Char
  watermark_unreachable : Bool

def runtime_error (message : String) : GitExc := .RuntimeError (Text.ofString message)

def NOT_INSTALLED : String := "git is not installed or not in PATH"

def LOG_TIMED_OUT : String := "git log timed out after 60 seconds"

section Extraction

variable (X : Platform)

/-- `try: subprocess.run(...) except FileNotFoundError … except TimeoutExpired …`. -/
def run_git (child : Child) (timed_out : String) : HostProg CompletedProcess := do
  match ← (host (.run child)).attempt with
  | .ok result => pure result
  -- other errors of `subprocess.run` are not caught
  | .error .FileNotFoundError => .raise (runtime_error NOT_INSTALLED)
  | .error .TimeoutExpired => .raise (runtime_error timed_out)
  | .error e => .raise e

/-- `_UNREACHABLE_MARKERS`. -/
def UNREACHABLE_MARKERS : List Text :=
  ["invalid revision range", "unknown revision", "bad revision"].map Text.ofString

/-- `_is_unreachable_revision_error`. -/
def is_unreachable_revision_error (message : Text) : Bool :=
  UNREACHABLE_MARKERS.any (contains · (X.lower message))

/-- What a failed `git log` raises. -/
def log_failed (repo_path : Text) (result : CompletedProcess) : Text :=
  let stderr := chars (strip result.stderr)
  if contains (Text.ofString "not a git repository") (X.lower stderr) then
    Text.ofString "Not a git repository: " ++ repo_path
  else Text.ofString "git log failed: " ++ stderr

/-- `extract_commits_from_git`. -/
def extract_commits_from_git (repo_path : Text) (max_commits : ℤ) (since_commit : Option String) :
    HostProg (List LogCommit) := do
  let result ← run_git ⟨log_argv repo_path max_commits since_commit, git_child_env X.environ, 60⟩
    LOG_TIMED_OUT
  if result.returncode ≠ 0 then .raise (.RuntimeError (log_failed X repo_path result))
  else
    match parse_log X.decimals X.utc_now result.stdout with
    | .ok commits => pure commits
    | .error e => .raise (.parser e)

/-- `_extract_with_recovery`. -/
def extract_with_recovery (repo_path : Text) (max_commits : ℤ) (since_commit : Option String) :
    HostProg (List LogCommit × Bool) := do
  match since_commit with
  | none => do
      let commits ← extract_commits_from_git X repo_path max_commits none
      pure (commits, false)
  | some since => do
      match ← (extract_commits_from_git X repo_path max_commits (some since)).attempt with
      | .ok commits => pure (commits, false)
      | .error (.RuntimeError message) =>
          -- the clone lacks the watermark, as after a force-push: the walk starts over without it
          if is_unreachable_revision_error X message then do
            let commits ← extract_commits_from_git X repo_path max_commits none
            pure (commits, true)
          else .raise (.RuntimeError message)
      | .error e => .raise e

/-- `_resolve_ref`. -/
def resolve_ref (repo_path : Text) : HostProg (List Char × List Char) := do
  let branch : CompletedProcess ← host (.run ⟨abbrev_ref_argv repo_path, git_child_env X.environ, 10⟩)
  let head : CompletedProcess ← host (.run ⟨head_argv repo_path, git_child_env X.environ, 10⟩)
  if branch.returncode ≠ 0 ∨ head.returncode ≠ 0 then
    .raise (.RuntimeError (Text.ofString "git rev-parse failed: " ++ chars (strip (branch.stderr ++ head.stderr))))
  else pure (strip branch.stdout, strip head.stdout)

/-- `extract_history_from_path`. -/
def extract_history_from_path (repo_path : Text) (max_commits : ℤ) (since_commit : Option String) :
    HostProg WalkedHistory := do
  let (branch, head) ← resolve_ref X repo_path
  let (commits, unreachable) ← extract_with_recovery X repo_path max_commits since_commit
  pure { commits, branch, head, watermark_unreachable := unreachable }

/-- What a failed `git clone` raises. -/
def clone_failed (repo_url : Text) (result : CompletedProcess) (clone_env : ChildEnv) : Text :=
  Text.ofString "git clone failed for " ++ X.redact_url_userinfo repo_url ++ Text.ofString ": "
    ++ redact_clone_secrets X.environ (chars (strip result.stderr)) clone_env

/-- The body of the `with`. -/
def clone_and_walk (repo_url : Text) (max_commits : ℤ) (since_commit : Option String) (branch : Option Text)
    (clone_env : ChildEnv) (tmpdir : Text) : HostProg WalkedHistory := do
  let result ← run_git ⟨clone_argv repo_url max_commits since_commit branch tmpdir, clone_env, 300⟩
    "git clone timed out after 300 seconds"
  if result.returncode ≠ 0 then .raise (.RuntimeError (clone_failed X repo_url result clone_env))
  else extract_history_from_path X tmpdir max_commits since_commit

/-- The two gates, the branch only when there is one. -/
def clone_gates (repo_url : Text) (branch : Option Text) : Except GateError Unit := do
  validate_repo_url repo_url
  match branch with
  | some branch => validate_branch branch
  | none => .ok ()

/-- `extract_commits_from_url`. -/
def extract_commits_from_url (repo_url : Text) (max_commits : ℤ) (since_commit : Option String)
    (branch : Option Text) : HostProg WalkedHistory :=
  match clone_gates repo_url branch with
  | .error e => .raise (.gate X.repr e)
  | .ok () =>
      match build_clone_env X.environ repo_url with
      | .error e => .raise e
      | .ok clone_env => do
          -- the environment is built before the directory, so a token that cannot be encoded leaves nothing behind
          let tmpdir : Text ← host .mkdtemp
          (clone_and_walk X repo_url max_commits since_commit branch clone_env tmpdir).tryFinally
            (host (.cleanup tmpdir))

end Extraction

end OpenChronicle.GitHost
