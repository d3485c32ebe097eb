/-
What the gates do to a whole run of requests.

`expected` is the exchange of one request with an accepted Host, given what the limiter answered it and what the
routes have been asked before. The limiter's state is the only one that a gate's decision depends on, and only
requests with an accepted Host change it. Since each client's limiter is its own, the gates treat a client as if
no other request had been made. Of the routes nothing of the kind is said: they share a store, and what one
client writes another reads. So isolation is about verdicts, which are `none` for a request that reached the
routes.

The stack is taken apart from the outside in. The handler of `Exception` and the metrics change no decision; the
allowlist and the limiter are the two that decide by themselves; CORS and the key decide by the request alone,
which is what `Transparent` says of everything behind the limiter. A run is an induction over its requests with
the server as it stands, so each run lemma is stated for every server.
-/
import OpenChronicle.Api.Access

set_option autoImplicit false

namespace OpenChronicle.Access

open PyStr
open RateLimit (Requests)

section Stack

variable (F : Framework) (P : Posture) (answer : List Request → Request → Except Exc Response)

/-! ## The stack -/

/-- A middleware around an application, if there is a setting. -/
def around {α : Type} (middleware : α → Middleware) (setting : Option α) (app : App) : App :=
  match setting with
  | some a => middleware a app
  | none => app

/-- A middleware that is not configured is not there. -/
theorem stack_added_if {α : Type} (middleware : α → Middleware) (setting : Option α) (added : List Middleware)
    (router : App) :
    F.stack (added ++ added_if middleware setting) router = around middleware setting (F.stack added router) := by
  cases setting with
  | none =>
      rw [added_if, Option.map_none, Option.toList_none, List.append_nil]
      rfl
  | some a =>
      rw [added_if, Option.map_some, Option.toList_some, F.stack_add]
      rfl

/-- CORS, the key and the routes. -/
def inner : App :=
  around F.middleware P.cors_origins (around api_key_middleware (P.api_key.filter (· ≠ [])) (routes answer))

/-! ## Behind the limiter -/

/-- What the gates decided: the answer they gave themselves, and nothing of a request that reached the routes. -/
def Exchange.verdict (exchange : Exchange) : Option (Except Exc Response) :=
  if exchange.reached then none else some exchange.outcome

/-- What is done to every answer alike does not tell more of an exchange than its verdict. -/
theorem verdict_congr {f : Exchange → Exchange} (hf : ∀ exchange, (f exchange).reached = exchange.reached)
    {a b : Exchange} (h : a.verdict = b.verdict) : (f a).verdict = (f b).verdict := by
  rcases a with ⟨_ | _, out⟩
  · rcases b with ⟨_ | _, out'⟩
    · obtain rfl : out = out' := Option.some.inj h
      rfl
    · cases h
  · rcases b with ⟨_ | _, out'⟩
    · cases h
    · have hnone : ∀ out, (f ⟨true, out⟩).verdict = none := fun out => if_pos (hf ⟨true, out⟩)
      rw [hnone, hnone]

/-- An application that keeps what the gates keep as it is, answers by what the routes have been asked, and
refuses by the request alone. -/
structure Transparent (app : App) : Prop where
  requests : ∀ server request, (app server request).2.requests = server.requests
  observed : ∀ server request, (app server request).2.observed = server.observed
  answers : ∀ server request, (app server request).1 = (app { served := server.served } request).1
  verdicts : ∀ server request, (app server request).1.verdict = (app {} request).1.verdict

/-- The routes see the request and the requests before it, and nothing of the server besides. -/
theorem transparent_routes : Transparent (routes answer) :=
  ⟨fun _ _ => rfl, fun _ _ => rfl, fun _ _ => rfl, fun _ _ => rfl⟩

/-- The key middleware passes a request on as it is or answers it itself. -/
theorem api_key_cases (api_key : Text) (request : Request) :
    (∀ app server, api_key_middleware api_key app server request = app server request)
      ∨ ∃ exchange, ∀ app server, api_key_middleware api_key app server request = (exchange, server) := by
  simp only [api_key_middleware]
  split
  · exact .inl fun _ _ => rfl
  · split
    · exact .inr ⟨_, fun _ _ => rfl⟩
    · split
      · exact .inr ⟨_, fun _ _ => rfl⟩
      · exact .inr ⟨_, fun _ _ => rfl⟩
      · exact .inl fun _ _ => rfl

variable {F P answer} in
/-- The key check looks at the request alone, -/
theorem Transparent.api_key {app : App} (h : Transparent app) (api_key : Text) :
    Transparent (api_key_middleware api_key app) := by
  constructor
  · intro server request
    rcases api_key_cases api_key request with hpass | ⟨exchange, hstop⟩
    · rw [hpass]
      exact h.requests server request
    · rw [hstop]
  · intro server request
    rcases api_key_cases api_key request with hpass | ⟨exchange, hstop⟩
    · rw [hpass]
      exact h.observed server request
    · rw [hstop]
  · intro server request
    rcases api_key_cases api_key request with hpass | ⟨exchange, hstop⟩
    · rw [hpass, hpass]
      exact h.answers server request
    · rw [hstop, hstop]
  · intro server request
    rcases api_key_cases api_key request with hpass | ⟨exchange, hstop⟩
    · rw [hpass, hpass]
      exact h.verdicts server request
    · rw [hstop, hstop]

/-- and so does CORS. -/
theorem Transparent.cors {app : App} (h : Transparent app) (origins : List Text) :
    Transparent (F.middleware origins app) := by
  have hpreflight : ∀ {request response}, F.preflight origins request = some response →
      ∀ server, F.middleware origins app server request = (.refused response, server) := by
    intro request response hpre server
    rw [Cors.middleware, hpre]
  have hpassed : ∀ {request}, F.preflight origins request = none →
      ∀ server, F.middleware origins app server request
        = ({ (app server request).1 with
              outcome := (app server request).1.outcome.map (F.decorate origins request) },
            (app server request).2) := by
    intro request hpre server
    rw [Cors.middleware, hpre]
  constructor
  · intro server request
    cases hpre : F.preflight origins request with
    | some response => rw [hpreflight hpre]
    | none =>
        rw [hpassed hpre]
        exact h.requests server request
  · intro server request
    cases hpre : F.preflight origins request with
    | some response => rw [hpreflight hpre]
    | none =>
        rw [hpassed hpre]
        exact h.observed server request
  · intro server request
    cases hpre : F.preflight origins request with
    | some response => rw [hpreflight hpre, hpreflight hpre]
    | none => rw [hpassed hpre, hpassed hpre, h.answers server request]
  · intro server request
    cases hpre : F.preflight origins request with
    | some response => rw [hpreflight hpre, hpreflight hpre]
    | none =>
        rw [hpassed hpre, hpassed hpre]
        exact verdict_congr
          (f := fun exchange => { exchange with outcome := exchange.outcome.map (F.decorate origins request) })
          (fun _ => rfl) (h.verdicts server request)

/-- Behind the limiter nothing depends on the state of the limiter. -/
theorem transparent_inner : Transparent (inner F P answer) := by
  -- from the inside out: the key, where one is set, then CORS
  have hkey : Transparent (around api_key_middleware (P.api_key.filter (· ≠ [])) (routes answer)) := by
    cases P.api_key.filter (· ≠ []) with
    | none => exact transparent_routes answer
    | some api_key => exact (transparent_routes answer).api_key api_key
  unfold inner
  cases P.cors_origins with
  | none => exact hkey
  | some origins => exact hkey.cors F origins

/-- The path is exempt or the request carries the key, if one is configured. -/
def Authorised (request : Request) : Prop :=
  ∀ api_key, P.api_key.filter (· ≠ []) = some api_key →
    request.url_path ∈ EXEMPT ∨ request_has_key request api_key = .ok true

/-- The request is none that CORS answers. -/
def NoPreflight (request : Request) : Prop :=
  ∀ origins, P.cors_origins = some origins → F.preflight origins request = none

theorem api_key_reached {app : App} (api_key : Text) (server : Server) (request : Request) :
    (api_key_middleware api_key app server request).1.reached = true
      ↔ (request.url_path ∈ EXEMPT ∨ request_has_key request api_key = .ok true)
        ∧ (app server request).1.reached = true := by
  simp only [api_key_middleware, request_has_key]
  -- an exempt path is let in whatever it carries
  by_cases hexempt : request.url_path ∈ EXEMPT
  · simp only [hexempt, if_true, true_or, true_and]
  · simp only [hexempt, if_false, false_or]
    cases extract_key request with
    | none => simp [Exchange.refused]
    | some key =>
        cases hmatch : key_matches key api_key with
        | error e => simp [hmatch]
        | ok matches_key =>
            cases matches_key with
            | false => simp [hmatch, Exchange.refused]
            | true => simp [hmatch]

/-- **What gets past CORS and the key.** -/
theorem inner_reached (server : Server) (request : Request) :
    (inner F P answer server request).1.reached = true ↔ NoPreflight F P request ∧ Authorised P request := by
  have hkey : (around api_key_middleware (P.api_key.filter (· ≠ [])) (routes answer) server request).1.reached = true
      ↔ Authorised P request := by
    unfold Authorised
    cases P.api_key.filter (· ≠ []) with
    | none => simp [around, routes]
    | some api_key =>
        refine (api_key_reached api_key server request).trans ?_
        simp [routes]
  unfold inner NoPreflight
  cases P.cors_origins with
  | none =>
      rw [around, hkey]
      simp
  | some origins =>
      rw [around, Cors.middleware]
      cases hpre : F.preflight origins request with
      | some response => simp [Exchange.refused, hpre]
      | none =>
          refine hkey.trans ?_
          simp [hpre]

/-! ## One request -/

/-- What the handler of `Exception` makes of an exchange. -/
def closed (exchange : Exchange) : Exchange :=
  match exchange.outcome with
  | .ok _ => exchange
  | .error _ => { exchange with outcome := .ok internal_error }

/-- The exchange of a request with an accepted Host, given what the routes have been asked and the limiter's
answer. -/
def expected (served : List Request) (limit : RateLimit.Response) (request : Request) : Exchange :=
  match limit with
  | .unlimited => closed (inner F P answer { served } request).1
  | .too_many retry_after => .refused (too_many retry_after)
  | .passed limit remaining =>
      let exchange := (inner F P answer { served } request).1
      closed { exchange with outcome := exchange.outcome.map (limit_headers limit remaining) }

/-- The status the client gets. -/
def Exchange.status (exchange : Exchange) : ℕ :=
  match exchange.outcome with
  | .ok response => response.status
  | .error _ => 500

/-- What the metrics keep of an exchange. -/
def observation (request : Request) (exchange : Exchange) : Observation :=
  ⟨request.path, request.method, exchange.status⟩

/-- The client sees the status that was set, whatever ends the response. -/
theorem status_closed (exchange : Exchange) : (closed exchange).status = exchange.status := by
  unfold closed Exchange.status
  cases hout : exchange.outcome with
  | ok response => simp [hout]
  | error e => rfl

theorem reached_closed (exchange : Exchange) : (closed exchange).reached = exchange.reached := by
  unfold closed
  split
  · rfl
  · rfl

/-- The verdict on a request does not depend on what the routes have been asked. -/
theorem verdict_expected (served : List Request) (limit : RateLimit.Response) (request : Request) :
    (expected F P answer served limit request).verdict = (expected F P answer [] limit request).verdict := by
  have hinner := (transparent_inner F P answer).verdicts { served } request
  cases limit with
  | unlimited => exact verdict_congr reached_closed hinner
  | too_many retry_after => rfl
  | passed limit remaining =>
      refine verdict_congr reached_closed ?_
      exact verdict_congr
        (f := fun exchange => { exchange with outcome := exchange.outcome.map (limit_headers limit remaining) })
        (fun _ => rfl) hinner

/-- What the limiter and the allowlist do to a request, before the metrics and the handler of `Exception`. -/
def gated (server : Server) (request : Request) : Exchange × Server :=
  host_allowlist_middleware P.allowed_hosts (rate_limit_middleware P.rpm (inner F P answer)) server request

/-- A host that is not on the list: nothing else is asked, and the server stays as it is. -/
theorem gated_rejected {server : Server} {request : Request} (h : host_passes P.allowed_hosts request = false) :
    gated F P answer server request = (.refused invalid_host, server) := by
  rw [gated, host_allowlist_middleware, if_neg (by rw [h]; exact Bool.false_ne_true)]

theorem gated_passed {server : Server} {request : Request} (h : host_passes P.allowed_hosts request = true) :
    closed (gated F P answer server request).1
        = expected F P answer server.served (RateLimit.dispatch P.rpm server.requests request.timed).1 request
      ∧ (gated F P answer server request).2.requests
        = (RateLimit.dispatch P.rpm server.requests request.timed).2
      ∧ (gated F P answer server request).2.observed = server.observed := by
  have hinner := transparent_inner F P answer
  rw [gated, host_allowlist_middleware, if_pos h, rate_limit_middleware]
  -- what is behind the limiter leaves the gates' state alone, so it changes by the limiter only
  rcases RateLimit.dispatch P.rpm server.requests request.timed with ⟨limit, requests⟩
  cases limit with
  | unlimited =>
      dsimp only
      refine ⟨?_, hinner.requests _ request, hinner.observed _ request⟩
      rw [hinner.answers]
      rfl
  | too_many retry_after => exact ⟨rfl, rfl, rfl⟩
  | passed limit remaining =>
      dsimp only
      refine ⟨?_, hinner.requests _ request, hinner.observed _ request⟩
      rw [hinner.answers]
      rfl

/-- What the metrics middleware adds to its list. -/
def observe (request : Request) (exchange : Exchange) : List Observation :=
  if P.metrics then [observation request exchange] else []

/-- An exception of a route is the framework's to answer, and changes nothing else. -/
theorem handled_eq (app : App) (server : Server) (request : Request) :
    F.handled (fun _ => internal_error) app server request
      = (closed (app server request).1, (app server request).2) := by
  unfold closed
  cases hout : (app server request).1.outcome with
  | ok response => rw [F.handled_ok _ _ _ _ response hout]
  | error e => rw [F.handled_error _ _ _ _ e hout]

/-- **One request**: the gates, an answer in every case, and one observation of it. -/
theorem create_app_eq (server : Server) (request : Request) :
    create_app F P answer server request
      = (closed (gated F P answer server request).1,
          { (gated F P answer server request).2 with
            observed := (gated F P answer server request).2.observed
              ++ observe P request (closed (gated F P answer server request).1) }) := by
  -- the metrics stand around the gates, and the handler of `Exception` around the metrics
  have hgates : F.stack (added_if api_key_middleware (P.api_key.filter (· ≠ [])) ++ added_if F.middleware P.cors_origins
      ++ [rate_limit_middleware P.rpm] ++ [host_allowlist_middleware P.allowed_hosts]) (routes answer)
      = gated F P answer := by
    have hkey := stack_added_if F api_key_middleware (P.api_key.filter (· ≠ [])) [] (routes answer)
    rw [List.nil_append, F.stack_nil] at hkey
    rw [F.stack_add, F.stack_add, stack_added_if, hkey]
    rfl
  have hstack : create_app F P answer = F.handled (fun _ => internal_error)
      (around (fun _ : Unit => metrics_middleware) (if P.metrics then some () else none) (gated F P answer)) := by
    rw [create_app, register_middleware, stack_added_if, hgates]
  rw [hstack, handled_eq, observe]
  cases P.metrics with
  | true =>
      have hstatus := status_closed (gated F P answer server request).1
      rw [if_pos rfl, if_pos rfl, observation, hstatus]
      rfl
  | false =>
      rw [if_neg Bool.false_ne_true, if_neg Bool.false_ne_true, List.append_nil]
      rfl

end Stack

/-! ## A run -/

/-- The exchanges of a run, and what the gates keep in the end. -/
def serve (app : App) : Server → List Request → List (Request × Exchange) × Server
  | server, [] => ([], server)
  | server, request :: rest =>
      ((request, (app server request).1) :: (serve app (app server request).2 rest).1,
        (serve app (app server request).2 rest).2)

section Run

variable {F : Framework} {P : Posture} {answer : List Request → Request → Except Exc Response}

/-- A request of one client with an accepted Host. -/
def concerns (P : Posture) (client_ip : String) (request : Request) : Bool :=
  host_passes P.allowed_hosts request && decide (request.timed.client_ip = client_ip)

/-- The exchanges of such requests. -/
def seen (P : Posture) (client_ip : String) (run : List (Request × Exchange)) : List (Request × Exchange) :=
  run.filter fun p => concerns P client_ip p.1

/-- The requests the limiter gets to see. -/
def accepted (P : Posture) (requests : List Request) : List RateLimit.Request :=
  (requests.filter (host_passes P.allowed_hosts)).map Request.timed

/-- The two cases for the whole stack: a host that is refused, -/
theorem exchange_rejected {server : Server} {request : Request}
    (h : host_passes P.allowed_hosts request = false) :
    (create_app F P answer server request).1 = .refused invalid_host
      ∧ (create_app F P answer server request).2.requests = server.requests := by
  rw [create_app_eq, gated_rejected F P answer h]
  exact ⟨rfl, rfl⟩

/-- and one that passes. -/
theorem exchange_passed {server : Server} {request : Request} (h : host_passes P.allowed_hosts request = true) :
    (create_app F P answer server request).1
        = expected F P answer server.served (RateLimit.dispatch P.rpm server.requests request.timed).1 request
      ∧ (create_app F P answer server request).2.requests
        = (RateLimit.dispatch P.rpm server.requests request.timed).2 := by
  obtain ⟨hexchange, hrequests, -⟩ := @gated_passed F P answer server request h
  rw [create_app_eq]
  exact ⟨hexchange, hrequests⟩

/-- The verdict on each request of a run. -/
def verdicts (run : List (Request × Exchange)) : List (Request × Option (Except Exc Response)) :=
  run.map fun p => (p.1, p.2.verdict)

/-- **The verdicts on one client are made of the limiter's answers to it.** -/
theorem verdicts_serve (client_ip : String) (requests : List Request) : ∀ server : Server,
    verdicts (seen P client_ip (serve (create_app F P answer) server requests).1)
      = ((requests.filter (concerns P client_ip)).zip
          (RateLimit.answers (RateLimit.log P.rpm server.requests (accepted P requests)) client_ip)).map
        fun p => (p.1, (expected F P answer [] p.2.2 p.1).verdict) := by
  induction requests with
  | nil => exact fun _ => rfl
  | cons request rest ih =>
      intro server
      rw [serve, seen, verdicts, accepted]
      cases hhost : host_passes P.allowed_hosts request with
      | false =>
          -- a forged Host: no client has the request, and the limiter never sees it
          have hnot : ¬ concerns P client_ip request = true := by
            rw [concerns, hhost, Bool.false_and]
            exact Bool.false_ne_true
          rw [List.filter_cons_of_neg (by exact hnot), List.filter_cons_of_neg hnot,
            List.filter_cons_of_neg (by rw [hhost]; exact Bool.false_ne_true)]
          have hrest := ih (create_app F P answer server request).2
          rw [(exchange_rejected hhost).2] at hrest
          exact hrest
      | true =>
          obtain ⟨hexchange, hrequests⟩ := @exchange_passed F P answer server _ hhost
          have hrest := ih (create_app F P answer server request).2
          rw [hrequests] at hrest
          -- the limiter answers first, and its log and the run grow by one
          have haccepted : (request :: rest).filter (host_passes P.allowed_hosts)
              = request :: rest.filter (host_passes P.allowed_hosts) := List.filter_cons_of_pos hhost
          rw [haccepted, List.map_cons, RateLimit.log, RateLimit.answers]
          by_cases hclient : request.timed.client_ip = client_ip
          · have hmine : concerns P client_ip request = true := by
              rw [concerns, hhost, Bool.true_and, decide_eq_true hclient]
            rw [List.filter_cons_of_pos (by exact hmine), List.filter_cons_of_pos hmine,
              List.filter_cons_of_pos (by exact decide_eq_true hclient), List.map_cons, List.map_cons,
              List.zip_cons_cons, List.map_cons, hexchange, verdict_expected]
            exact congrArg _ hrest
          · -- a request of another client takes a line of the log, and none of this client's answers
            have hother : ¬ concerns P client_ip request = true := by
              rw [concerns, hhost, Bool.true_and, decide_eq_true_eq]
              exact hclient
            rw [List.filter_cons_of_neg (by exact hother), List.filter_cons_of_neg hother,
              List.filter_cons_of_neg (by rw [decide_eq_true_eq]; exact hclient)]
            exact hrest

/-! ## One client among others -/

/-- Requests in the order of the clock. -/
def Ordered (requests : List Request) : Prop := requests.Pairwise fun a b => a.now ≤ b.now

/-- What passes the host check is in the order of the clock as well. -/
theorem ordered_accepted {requests : List Request} (h : Ordered requests) :
    (accepted P requests).Pairwise fun a b => a.now ≤ b.now :=
  List.pairwise_map.mpr (h.sublist List.filter_sublist)

/-- A limiter that is off answers every request alike. -/
theorem answers_unlimited {rpm : ℤ} (hrpm : rpm ≤ 0) (client_ip : String) (requests : List RateLimit.Request)
    (s : Requests) :
    RateLimit.answers (RateLimit.log rpm s requests) client_ip
      = (RateLimit.times requests client_ip).map fun t => (t, .unlimited) := by
  induction requests with
  | nil => rfl
  | cons request rest ih =>
      have hstep : RateLimit.dispatch rpm s request = (.unlimited, s) := by rw [RateLimit.dispatch, if_pos hrpm]
      rw [RateLimit.log, hstep, RateLimit.answers, RateLimit.times]
      by_cases hclient : request.client_ip = client_ip
      · rw [List.filter_cons_of_pos (by exact decide_eq_true hclient),
          List.filter_cons_of_pos (by exact decide_eq_true hclient), List.map_cons, List.map_cons, List.map_cons]
        exact congrArg _ ih
      · rw [List.filter_cons_of_neg (by rw [decide_eq_true_eq]; exact hclient),
          List.filter_cons_of_neg (by rw [decide_eq_true_eq]; exact hclient)]
        exact ih

/-- The limiter's answers to a client are a function of the times it asks at. -/
theorem answers_of_times {rpm : ℤ} {a b : List RateLimit.Request} (ha : a.Pairwise fun x y => x.now ≤ y.now)
    (hb : b.Pairwise fun x y => x.now ≤ y.now) {client_ip : String}
    (htimes : RateLimit.times a client_ip = RateLimit.times b client_ip) :
    RateLimit.answers (RateLimit.log rpm {} a) client_ip = RateLimit.answers (RateLimit.log rpm {} b) client_ip := by
  -- with a limit the answers are those of the sliding window; without one they are all alike
  by_cases hrpm : 1 ≤ rpm
  · rw [RateLimit.answers_run hrpm ha, RateLimit.answers_run hrpm hb, htimes]
  · rw [answers_unlimited (by omega), answers_unlimited (by omega), htimes]

/-- The limiter sees a client's requests and no others of it. -/
theorem times_accepted (client_ip : String) (requests : List Request) :
    RateLimit.times (accepted P requests) client_ip
      = (requests.filter (concerns P client_ip)).map Request.now := by
  unfold RateLimit.times accepted
  rw [List.filter_map, List.map_map, List.filter_filter]
  have hconcerns : ∀ r : Request, (((fun q : RateLimit.Request => decide (q.client_ip = client_ip)) ∘ Request.timed) r
      && host_passes P.allowed_hosts r) = concerns P client_ip r := fun r => Bool.and_comm _ _
  simp only [hconcerns]
  rfl

/-- A run has the requests it was made of. -/
theorem serve_requests (app : App) (requests : List Request) : ∀ server : Server,
    ((serve app server requests).1).map Prod.fst = requests := by
  induction requests with
  | nil => exact fun _ => rfl
  | cons request rest ih => exact fun server => congrArg _ (ih _)

/-- **Isolation**: the gates treat a client in a run as in a run with its own requests only. -/
theorem verdicts_alone {requests : List Request} (hordered : Ordered requests) (client_ip : String) :
    verdicts (seen P client_ip (serve (create_app F P answer) {} requests).1)
      = verdicts (serve (create_app F P answer) {} (requests.filter (concerns P client_ip))).1 := by
  have hown : seen P client_ip (serve (create_app F P answer) {} (requests.filter (concerns P client_ip))).1
      = (serve (create_app F P answer) {} (requests.filter (concerns P client_ip))).1 := by
    refine List.filter_eq_self.mpr fun p hp => ?_
    have hmem : p.1 ∈ requests.filter (concerns P client_ip) := by
      rw [← serve_requests (create_app F P answer) (requests.filter (concerns P client_ip)) {}]
      exact List.mem_map_of_mem hp
    exact (List.mem_filter.mp hmem).2
  have hfilter : (requests.filter (concerns P client_ip)).filter (concerns P client_ip)
      = requests.filter (concerns P client_ip) := by
    rw [List.filter_filter]
    simp only [Bool.and_self]
  have hordered' : Ordered (requests.filter (concerns P client_ip)) := hordered.sublist List.filter_sublist
  have htimes : RateLimit.times (accepted P requests) client_ip
      = RateLimit.times (accepted P (requests.filter (concerns P client_ip))) client_ip := by
    rw [times_accepted, times_accepted, hfilter]
  rw [← hown, verdicts_serve, verdicts_serve, hfilter,
    answers_of_times (ordered_accepted hordered) (ordered_accepted hordered') htimes]

/-! ## Whose Host -/

/-- The Host is an entry, or the entry ends in `:*` and the Host is what stands before that, alone or with a
colon and anything behind it. -/
def Names (host entry : Text) : Prop :=
  host = entry ∨ ∃ base, entry = base ++ Text.ofString ":*"
    ∧ (host = base ∨ ∃ port, host = base ++ Text.ofString ":" ++ port)

/-- A host that is accepted is the entry, or its name with or without something behind a colon. -/
theorem names_of_allowed {host entry : Text} (h : entry_allows host entry = true) : Names host entry := by
  rw [entry_allows, Bool.or_eq_true, decide_eq_true_eq] at h
  refine h.imp_right fun hwild => ?_
  simp only [Bool.and_eq_true, Bool.or_eq_true, decide_eq_true_eq] at hwild
  obtain ⟨⟨base, rfl⟩, hmatch⟩ := hwild
  have htake : (base ++ Text.ofString ":*").take ((base ++ Text.ofString ":*").length - 2) = base := by
    rw [List.length_append, show (Text.ofString ":*").length = 2 from by decide, Nat.add_sub_cancel, List.take_left]
  rw [htake] at hmatch
  refine ⟨base, rfl, hmatch.imp_right ?_⟩
  rintro ⟨port, hport⟩
  exact ⟨port, hport.symm⟩

/-- Outside of `/mcp`, as `request.url.path` has it, the allowlist lets through only what it names. -/
theorem host_of_passed {request : Request} (h : host_passes P.allowed_hosts request = true)
    (hrest : skipped request.url_path = false) :
    ∃ host entry, request.header "host" = some host ∧ entry ∈ ALWAYS_ALLOWED ++ P.allowed_hosts ∧ Names host entry := by
  rw [host_passes, hrest, Bool.false_or, host_allowed] at h
  cases hfilter : (request.header "host").filter (· ≠ []) with
  | none =>
      rw [hfilter] at h
      cases h
  | some host =>
      rw [hfilter] at h
      obtain ⟨entry, hentry, hallows⟩ := List.any_eq_true.mp h
      exact ⟨host, entry, (Option.filter_eq_some_iff.mp hfilter).1, hentry, names_of_allowed hallows⟩

/-! ## The result -/

/-- Who gets to the routes. -/
theorem expected_reached {served : List Request} {limit : RateLimit.Response} {request : Request} :
    (expected F P answer served limit request).reached = true
      ↔ (∀ retry_after, limit ≠ .too_many retry_after) ∧ NoPreflight F P request ∧ Authorised P request := by
  cases limit with
  | unlimited =>
      rw [expected, reached_closed, inner_reached]
      simp
  | too_many retry_after => simp [expected, Exchange.refused]
  | passed limit remaining =>
      rw [expected, reached_closed]
      refine (inner_reached F P answer { served } request).trans ?_
      simp

/-- The times at which the requests of a client get to the routes. -/
def reached_times (client_ip : String) (run : List (Request × Exchange)) : List ℚ :=
  (run.filter fun p => p.2.reached && decide (p.1.timed.client_ip = client_ip)).map (·.1.now)

/-- The limiter either refuses or takes the request in. -/
theorem dispatch_passed {rpm : ℤ} (hrpm : 1 ≤ rpm) {s : Requests} {request : RateLimit.Request}
    (h : ∀ retry_after, (RateLimit.dispatch rpm s request).1 ≠ .too_many retry_after) :
    (RateLimit.dispatch rpm s request).1.is_passed = true := by
  have hon : ¬ rpm ≤ 0 := by omega
  rw [RateLimit.dispatch, if_neg hon] at h ⊢
  dsimp only at h ⊢
  split
  · next hfull =>
      rw [if_pos hfull] at h
      exact absurd rfl (h _)
  · rfl

/-- What gets to the routes has been admitted by the limiter. -/
theorem reached_admitted (hrpm : 1 ≤ P.rpm) (client_ip : String) (requests : List Request) : ∀ server : Server,
    (reached_times client_ip (serve (create_app F P answer) server requests).1).Sublist
      (RateLimit.admitted (RateLimit.log P.rpm server.requests (accepted P requests)) client_ip) := by
  induction requests with
  | nil => exact fun _ => List.Sublist.refl _
  | cons request rest ih =>
      intro server
      have hrest := ih (create_app F P answer server request).2
      unfold reached_times at hrest ⊢
      rw [serve, accepted]
      cases hhost : host_passes P.allowed_hosts request with
      | false =>
          obtain ⟨hexchange, hrequests⟩ := @exchange_rejected F P answer server _ hhost
          rw [hrequests] at hrest
          have haccepted : (request :: rest).filter (host_passes P.allowed_hosts)
              = rest.filter (host_passes P.allowed_hosts) :=
            List.filter_cons_of_neg (by rw [hhost]; exact Bool.false_ne_true)
          rw [haccepted, List.filter_cons_of_neg (by rw [hexchange]; exact Bool.false_ne_true)]
          exact hrest
      | true =>
          obtain ⟨hexchange, hrequests⟩ := @exchange_passed F P answer server _ hhost
          rw [hrequests] at hrest
          have haccepted : (request :: rest).filter (host_passes P.allowed_hosts)
              = request :: rest.filter (host_passes P.allowed_hosts) := List.filter_cons_of_pos hhost
          rw [haccepted, List.map_cons, RateLimit.log, RateLimit.admitted]
          by_cases hreached : (create_app F P answer server request).1.reached
              && decide (request.timed.client_ip = client_ip)
          · obtain ⟨hin, hclient⟩ := Bool.and_eq_true_iff.mp hreached
            rw [hexchange] at hin
            have hpassed := dispatch_passed hrpm (expected_reached.mp hin).1
            rw [List.filter_cons_of_pos (by exact hreached),
              List.filter_cons_of_pos (by exact Bool.and_eq_true_iff.mpr ⟨hclient, hpassed⟩), List.map_cons, List.map_cons]
            exact hrest.cons_cons _
          · rw [List.filter_cons_of_neg (by exact hreached)]
            refine hrest.trans (List.Sublist.map _ ?_)
            exact List.Sublist.filter _ (List.sublist_cons_self _ _)

/-- What the gates promise of a run. -/
structure Guarded (F : Framework) (P : Posture) (answer : List Request → Request → Except Exc Response)
    (requests : List Request) (run : List (Request × Exchange)) (observed : List Observation) : Prop where
  /-- A forged Host gets its answer before anything else is looked at. -/
  forged : ∀ p ∈ run, host_passes P.allowed_hosts p.1 = false → p.2 = .refused invalid_host
  /-- What gets to the routes is what every gate lets through. -/
  passed : ∀ p ∈ run, (p.2.reached = true ↔ host_passes P.allowed_hosts p.1 = true
    ∧ (∀ retry_after, p.2 ≠ .refused (too_many retry_after)) ∧ NoPreflight F P p.1 ∧ Authorised P p.1)
  /-- Outside of `/mcp`, as the framework's `request.url.path` has it, its Host is one that the allowlist names. -/
  named : ∀ p ∈ run, p.2.reached = true → skipped p.1.url_path = false →
    ∃ host entry, p.1.header "host" = some host ∧ entry ∈ ALWAYS_ALLOWED ++ P.allowed_hosts ∧ Names host entry
  /-- What other clients send, and what comes with a forged Host, makes no difference to what the gates do with
  a client's requests. -/
  isolated : ∀ client_ip, verdicts (seen P client_ip run)
    = verdicts (serve (create_app F P answer) {} (requests.filter (concerns P client_ip))).1
  /-- No window of a minute lets more than the limit of a client's requests get to the routes. -/
  limited : 1 ≤ P.rpm → ∀ client_ip t,
    (((reached_times client_ip run).filter fun u => t - 60 < u ∧ u ≤ t).length : ℤ) ≤ P.rpm
  /-- Each exchange is observed once, with the status the client got. -/
  measured : observed = if P.metrics then run.map fun p => observation p.1 p.2 else []

/-- By induction over the requests. -/
theorem gated_serve (requests : List Request) : ∀ server : Server,
    ∀ p ∈ (serve (create_app F P answer) server requests).1,
      (host_passes P.allowed_hosts p.1 = false → p.2 = .refused invalid_host)
      ∧ (p.2.reached = true ↔ host_passes P.allowed_hosts p.1 = true
        ∧ (∀ retry_after, p.2 ≠ .refused (too_many retry_after)) ∧ NoPreflight F P p.1 ∧ Authorised P p.1) := by
  induction requests with
  | nil => exact fun server p hp => absurd hp List.not_mem_nil
  | cons request rest ih =>
      intro server p hp
      rcases List.mem_cons.mp hp with rfl | hrest
      · cases hhost : host_passes P.allowed_hosts request with
        | false =>
            have hexchange := (@exchange_rejected F P answer server _ hhost).1
            refine ⟨fun _ => hexchange, iff_of_false ?_ fun h => Bool.false_ne_true h.1⟩
            dsimp only
            rw [hexchange]
            exact Bool.false_ne_true
        | true =>
            have hexchange := (@exchange_passed F P answer server _ hhost).1
            refine ⟨fun hfalse => absurd hfalse.symm Bool.false_ne_true, ?_⟩
            dsimp only
            rw [hexchange]
            constructor
            · intro hreached
              refine ⟨rfl, fun retry_after heq => ?_, (expected_reached.mp hreached).2⟩
              rw [heq] at hreached
              cases hreached
            · rintro ⟨-, hlimit, hgates⟩
              refine expected_reached.mpr ⟨fun retry_after heq => hlimit retry_after ?_, hgates⟩
              rw [heq]
              rfl
      · exact ih _ p hrest

/-- One observation for each exchange, in order. -/
theorem observed_serve (requests : List Request) : ∀ server : Server,
    (serve (create_app F P answer) server requests).2.observed
      = server.observed ++ if P.metrics then
          (serve (create_app F P answer) server requests).1.map (fun p => observation p.1 p.2) else [] := by
  induction requests with
  | nil => intro server; cases P.metrics <;> simp [serve]
  | cons request rest ih =>
      intro server
      have hkept : (gated F P answer server request).2.observed = server.observed := by
        cases hhost : host_passes P.allowed_hosts request with
        | false => rw [gated_rejected F P answer hhost]
        | true => exact (gated_passed F P answer hhost).2.2
      have hone : (create_app F P answer server request).2.observed
          = server.observed ++ observe P request (create_app F P answer server request).1 := by
        rw [create_app_eq, hkept]
      rw [serve, ih, hone, observe]
      cases P.metrics with
      | false => simp
      | true => simp

/-- **Access.** In every run of requests in the order of the clock, whatever they are, whatever the routes answer,
also by what others have asked them, and whatever CORS does with preflights, the gates keep their promises. -/
theorem gates_hold (F : Framework) (P : Posture) (answer : List Request → Request → Except Exc Response)
    (requests : List Request) (hordered : Ordered requests) :
    Guarded F P answer requests (serve (create_app F P answer) {} requests).1
      (serve (create_app F P answer) {} requests).2.observed where
  forged := fun p hp => (gated_serve requests {} p hp).1
  passed := fun p hp => (gated_serve requests {} p hp).2
  named := fun p hp hreached => host_of_passed ((gated_serve requests {} p hp).2.mp hreached).1
  isolated := verdicts_alone hordered
  limited := by
    intro hrpm client_ip t
    have hadmitted := @reached_admitted F P answer hrpm client_ip requests {}
    rw [RateLimit.admitted_run hrpm (ordered_accepted hordered)] at hadmitted
    have hbounded : SlidingWindow.Bounded P.rpm.toNat RateLimit.WINDOW
        (SlidingWindow.history P.rpm.toNat RateLimit.WINDOW (RateLimit.times (accepted P requests) client_ip)) :=
      SlidingWindow.history_bounded (RateLimit.sorted_times (ordered_accepted hordered) client_ip)
    -- what reached the routes is a part of what the limiter let through
    have hfew := hbounded.few t
    have hcount := (hadmitted.filter fun u => decide (t - 60 < u ∧ u ≤ t)).length_le
    have hwindow : RateLimit.WINDOW = 60 := rfl
    rw [hwindow] at hfew hcount
    omega
  measured := by rw [observed_serve, List.nil_append]

end Run

/-- A framework that builds its stack as it is documented, with a CORS middleware that lets everything be. -/
def framework : Framework where
  preflight := fun _ _ => none
  decorate := fun _ _ response => response
  status_decorate := fun _ _ _ => rfl
  stack := fun added router => added.foldl (fun app middleware => middleware app) router
  stack_nil := fun _ => rfl
  stack_add := fun _ _ _ => List.foldl_append
  handled := fun handler app server request =>
    match (app server request).1.outcome with
    | .ok _ => app server request
    | .error e => ({ (app server request).1 with outcome := .ok (handler e) }, (app server request).2)
  handled_ok := fun _ _ _ _ _ hout => by rw [hout]
  handled_error := fun _ _ _ _ _ hout => by rw [hout]

def sample_posture : Posture where
  api_key := some (Text.ofString "k")
  allowed_hosts := [Text.ofString "nas:*"]
  rpm := 1
  cors_origins := none
  metrics := true

def sample_request (host key : String) (now : ℚ) : Request where
  method := Text.ofString "GET"
  path := Text.ofString "/api/v1/memory"
  url_path := Text.ofString "/api/v1/memory"
  headers := [("host", utf8 host), ("x-api-key", utf8 key)]
  client := some "a"
  now := now

/-- A forged Host, a good request, one too many, and a bad key a minute later. -/
def sample_requests : List Request :=
  [sample_request "evil:80" "k" 0, sample_request "nas:18000" "k" 1, sample_request "nas" "k" 2,
    sample_request "nas" "no" 61]

example : (serve (create_app framework sample_posture fun _ _ => .ok { status := 200 }) {} sample_requests).2.observed.map
    (·.status_code) = [421, 200, 429, 403] := by decide +kernel

theorem gates_hold_sample :
    Guarded framework sample_posture (fun _ _ => .ok { status := 200 }) sample_requests
      (serve (create_app framework sample_posture fun _ _ => .ok { status := 200 }) {} sample_requests).1
      (serve (create_app framework sample_posture fun _ _ => .ok { status := 200 }) {} sample_requests).2.observed :=
  gates_hold framework sample_posture _ sample_requests (show sample_requests.Pairwise _ by decide +kernel)

end OpenChronicle.Access
