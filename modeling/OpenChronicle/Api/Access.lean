/-
The gates in front of the REST routes (`interfaces/api/middleware/`, and `create_app` where it registers them).

A middleware is a function from the application it wraps to the application it makes. The state is what the
gates keep between requests: the limiter's times and what the metrics middleware has observed. The routes keep
what they like: what they answer may depend on every request that has reached them, so the model keeps those
requests and leaves the rest to a function.

The framework is a parameter. Of its stack no more is used than its documentation says: the middleware added
last is outermost, and the handler registered for `Exception` stands outside of all of them; of its CORS
middleware, that it answers a preflight request itself and only adds headers to other answers. What the
framework computes is given with the request. Among this is `request.url.path`, which is what two of the gates
look at and is not `scope["path"]`, by which the routes are chosen: the framework makes it of the Host header and
the path, so a Host header with a slash in it changes the one and not the other. Nothing here relates the two.
Log lines and the in-flight gauge are left out.
-/
import OpenChronicle.Api.RateLimit
import OpenChronicle.Config.Environment
import OpenChronicle.Lib.Latin1

set_option autoImplicit false

namespace OpenChronicle.Access

open PyStr
open RateLimit (Requests)
open Config (Environ Builtins HTTPConfig stripped given)

/-! ## Exchanges -/

structure Request where
  method : Text
  /-- `scope["path"]`. -/
  path : Text
  /-- `request.url.path`. -/
  url_path : Text
  /-- The names are in lower case. -/
  headers : List (String × List UInt8)
  /-- `request.client.host`. -/
  client : Option String
  /-- `time.monotonic()` when the limiter reads it. -/
  now : ℚ

/-- `request.headers.get(name)`. -/
def Request.header (r : Request) (name : String) : Option Text := (r.headers.lookup name).map Text.of_latin1

structure Response where
  status : ℕ
  /-- The fields of a JSON body. -/
  content : List (String × Text) := []
  headers : List (String × Text) := []
  deriving DecidableEq

/-- `response.headers[name] = value`. -/
def Response.set_header (response : Response) (name : String) (value : Text) : Response :=
  { response with headers := response.headers.filter (·.1 ≠ name) ++ [(name, value)] }

inductive Exc where
  | UnicodeEncodeError
  | Other
  deriving DecidableEq, Repr

/-- How a request was dealt with, and whether it got to the routes. -/
structure Exchange where
  reached : Bool
  outcome : Except Exc Response

/-- A request turned away. -/
def Exchange.refused (response : Response) : Exchange := ⟨false, .ok response⟩

structure Observation where
  path : Text
  method : Text
  status_code : ℕ
  deriving DecidableEq

/-- What the gates keep, and the requests that have reached the routes. -/
structure Server where
  requests : Requests := {}
  observed : List Observation := []
  served : List Request := []

abbrev App := Server → Request → Exchange × Server

abbrev Middleware := App → App

/-- `str(n)`. -/
def str (n : ℤ) : Text := Text.ofString (toString n)

/-! ## `auth.py` -/

/-- `_DOCS_PATHS` and `_AUTH_EXEMPT_PATHS`. -/
def EXEMPT : List Text :=
  ["/docs", "/redoc", "/openapi.json", "/health", "/api/v1/health"].map Text.ofString

/-- `_extract_key`. -/
def extract_key (request : Request) : Option Text :=
  let auth := (request.header "authorization").getD []
  -- a bearer header wins, also an empty one; an empty `X-API-Key` counts as none
  if Text.ofString "bearer " <+: Text.lower_latin1 auth then some (Text.strip (auth.drop 7))
  else (request.header "x-api-key").filter (· ≠ [])

/-- `_key_matches`. -/
def key_matches (key api_key : Text) : Except Exc Bool :=
  match key.encode_latin1 with
  -- what no header value can hold matches no key
  | none => .ok false
  | some sent =>
      match api_key.encode with
      | none => .error .UnicodeEncodeError
      | some configured => .ok (decide (sent = utf8 configured))

/-- `request_has_key`. -/
def request_has_key (request : Request) (api_key : Text) : Except Exc Bool :=
  match extract_key request with
  | none => .ok false
  | some key => key_matches key api_key

def missing_key : Response where
  status := 401
  content := [("detail",
    Text.ofString "Missing API key. Provide via Authorization: Bearer <key> or X-API-Key header.")]

def invalid_key : Response where
  status := 403
  content := [("detail", Text.ofString "Invalid API key.")]

/-- `APIKeyMiddleware.dispatch`. -/
def api_key_middleware (api_key : Text) : Middleware := fun app server request =>
  if request.url_path ∈ EXEMPT then app server request
  else
    match extract_key request with
    | none => (.refused missing_key, server)
    | some key =>
        match key_matches key api_key with
        -- a configured key with a lone surrogate has no UTF-8 bytes to compare with
        | .error e => (⟨false, .error e⟩, server)
        | .ok false => (.refused invalid_key, server)
        | .ok true => app server request

/-! ## `host_allowlist.py` -/

def ALWAYS_ALLOWED : List Text :=
  ["127.0.0.1", "127.0.0.1:*", "localhost", "localhost:*", "[::1]", "[::1]:*", "testserver"].map Text.ofString

/-- One turn of the loop of `host_allowed`. -/
def entry_allows (host entry : Text) : Bool :=
  host = entry
    || (decide (Text.ofString ":*" <:+ entry)
      && (decide (host = entry.take (entry.length - 2))
        || decide (entry.take (entry.length - 2) ++ Text.ofString ":" <+: host)))

/-- `host_allowed`. -/
def host_allowed (host : Option Text) (allowed : List Text) : Bool :=
  match host.filter (· ≠ []) with
  | none => false
  | some host => allowed.any (entry_allows host)

/-- The paths that FastMCP guards itself. -/
def skipped (path : Text) : Bool := path = Text.ofString "/mcp" || decide (Text.ofString "/mcp/" <+: path)

def invalid_host : Response where
  status := 421
  content := [("detail", Text.ofString "Invalid Host header."), ("code", Text.ofString "INVALID_HOST")]

/-- Whether the allowlist lets a request through. -/
def host_passes (allowed_hosts : List Text) (request : Request) : Bool :=
  skipped request.url_path || host_allowed (request.header "host") (ALWAYS_ALLOWED ++ allowed_hosts)

/-- `HostAllowlistMiddleware.dispatch`. -/
def host_allowlist_middleware (allowed_hosts : List Text) : Middleware := fun app server request =>
  if host_passes allowed_hosts request then app server request else (.refused invalid_host, server)

/-! ## `rate_limit.py` -/

def Request.timed (r : Request) : RateLimit.Request := ⟨r.client, r.now⟩

def too_many (retry_after : ℤ) : Response where
  status := 429
  content := [("detail", Text.ofString "Rate limit exceeded.")]
  headers := [("Retry-After", str retry_after)]

/-- The headers that tell a client what it has left. -/
def limit_headers (limit remaining : ℤ) (response : Response) : Response :=
  (response.set_header "X-RateLimit-Limit" (str limit)).set_header "X-RateLimit-Remaining" (str remaining)

/-- `RateLimitMiddleware.dispatch`, around `RateLimit.dispatch`. -/
def rate_limit_middleware (rpm : ℤ) : Middleware := fun app server request =>
  -- the limiter has counted the request before anything behind it is asked
  let (limit, requests) := RateLimit.dispatch rpm server.requests request.timed
  match limit with
  | .unlimited => app { server with requests } request
  | .too_many retry_after => (.refused (too_many retry_after), { server with requests })
  | .passed limit remaining =>
      let (exchange, server) := app { server with requests } request
      ({ exchange with outcome := exchange.outcome.map (limit_headers limit remaining) }, server)

/-! ## `metrics.py` -/

/-- `MetricsMiddleware`: an exchange without an answer counts as 500. -/
def metrics_middleware : Middleware := fun app server request =>
  let (exchange, server) := app server request
  let status_code :=
    match exchange.outcome with
    | .ok response => response.status
    | .error _ => 500
  (exchange, { server with observed := server.observed ++ [⟨request.path, request.method, status_code⟩] })

/-! ## The framework -/

/-- What is relied on of `CORSMiddleware`: it answers a preflight request itself, and adds headers to the answer
of any other. -/
structure Cors where
  preflight : List Text → Request → Option Response
  decorate : List Text → Request → Response → Response
  status_decorate : ∀ origins request response, (decorate origins request response).status = response.status

def Cors.middleware (C : Cors) (allow_origins : List Text) : Middleware := fun app server request =>
  match C.preflight allow_origins request with
  | some response => (.refused response, server)
  | none =>
      let (exchange, server) := app server request
      ({ exchange with outcome := exchange.outcome.map (C.decorate allow_origins request) }, server)

def internal_error : Response where
  status := 500
  content := [("detail", Text.ofString "Internal server error"), ("code", Text.ofString "INTERNAL_ERROR")]

/-- What is relied on of the framework. -/
structure Framework extends Cors where
  /-- An application with its middlewares, in the order in which `app.add_middleware` was called. -/
  stack : List Middleware → App → App
  stack_nil : ∀ router, stack [] router = router
  /-- What was added last is outermost. -/
  stack_add : ∀ added middleware router, stack (added ++ [middleware]) router = middleware (stack added router)
  /-- An application behind the handler that `@app.exception_handler(Exception)` registers. -/
  handled : (Exc → Response) → App → App
  handled_ok : ∀ handler app server request response, (app server request).1.outcome = .ok response →
    handled handler app server request = app server request
  /-- An exception that no middleware has caught is answered by the handler. -/
  handled_error : ∀ handler app server request e, (app server request).1.outcome = .error e →
    handled handler app server request
      = ({ (app server request).1 with outcome := .ok (handler e) }, (app server request).2)

/-! ## `middleware/__init__.py` -/

/-- `parse_int_env(…, default=_DEFAULT_RPM)`. -/
def read_rpm (B : Builtins) (environ : Environ) : ℤ :=
  ((stripped (environ "OC_API_RATE_LIMIT_RPM")).bind B.int_of_str).getD 600

/-- `[o.strip() for o in cors_origins.split(",")]`, of origins that are set. -/
def read_origins (environ : Environ) : Option (List Text) :=
  (stripped (environ "OC_API_CORS_ORIGINS")).map fun origins => (split_on [.scalar ','] origins).map Text.strip

/-- What `register_middleware` is given and reads. -/
structure Posture where
  api_key : Option Text
  allowed_hosts : List Text
  rpm : ℤ
  cors_origins : Option (List Text)
  metrics : Bool

def Posture.of_config (B : Builtins) (environ : Environ) (config : HTTPConfig) (metrics : Bool) : Posture where
  api_key := config.api_key
  allowed_hosts := config.allowed_hosts
  rpm := read_rpm B environ
  cors_origins := read_origins environ
  metrics := metrics

/-- `app.add_middleware`, called if there is a setting. -/
def added_if {α : Type} (middleware : α → Middleware) (setting : Option α) : List Middleware :=
  (setting.map middleware).toList

/-- `register_middleware`: the calls of `app.add_middleware`, the first one first. -/
def register_middleware (C : Cors) (P : Posture) : List Middleware :=
  added_if api_key_middleware (P.api_key.filter (· ≠ []))
    ++ added_if C.middleware P.cors_origins
    ++ [rate_limit_middleware P.rpm]
    ++ [host_allowlist_middleware P.allowed_hosts]
    ++ added_if (fun _ : Unit => metrics_middleware) (if P.metrics then some () else none)

/-- The routes. Whatever they answer, they have been reached; what they answer may depend on all that they have
been asked before. -/
def routes (answer : List Request → Request → Except Exc Response) : App := fun server request =>
  (⟨true, answer server.served request⟩, { server with served := server.served ++ [request] })

/-- The application. -/
def create_app (F : Framework) (P : Posture) (answer : List Request → Request → Except Exc Response) : App :=
  F.handled (fun _ => internal_error) (F.stack (register_middleware F.toCors P) (routes answer))

/-! ## `routes/system.py` -/

def PATH_FIELDS : List String := ["db_path", "config_dir"]

/-- `health`, given what `build_health_payload` answers. -/
def health (api_key : Option Text) (payload : List (String × Text)) (request : Request) :
    Except Exc (List (String × Text)) :=
  match api_key.filter (· ≠ []) with
  -- without a key there is nothing to hold back from anyone
  | none => .ok payload
  | some key =>
      (request_has_key request key).map fun has_key =>
        if has_key then payload else payload.filter (·.1 ∉ PATH_FIELDS)

end OpenChronicle.Access
