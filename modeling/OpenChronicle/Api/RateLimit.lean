/-
`RateLimitMiddleware.dispatch`: a sliding window for each client address, in exact time.

The middleware forgets what has left the window: the times of a client when it asks, those of every
other client when a request is let through, and neither when one is turned away. `alone` is the limiter
of one client that forgets nothing. What the middleware has forgotten is older than any later window, so
both give every request the same answer.

So there are two steps. `answers_log` reduces a run of the middleware to one run of `alone` for each
client: the relation between the two states is `Sees`, which says of each client that the two know the
same times from the last cutoff on. The promises are then about `alone`, which is the sliding window of
the library with a bound of its own.

The clock is `time.monotonic`, so the times of a run do not descend. They are rational, since what the
source rounds is only the number of seconds in `Retry-After`.
-/
import Mathlib.Data.Rat.Floor
import Mathlib.Tactic.Linarith
import OpenChronicle.Lib.Keyed
import OpenChronicle.Lib.SlidingWindow

set_option autoImplicit false

namespace OpenChronicle.RateLimit

/-! ## The middleware -/

structure Request where
  /-- `request.client.host`; a server may not know the client. -/
  host : Option String
  /-- `time.monotonic()` when the request is dispatched. -/
  now : ℚ
  deriving DecidableEq

/-- A request over a socket without an address is counted for a client of this name. -/
def Request.client_ip (r : Request) : String := r.host.getD "unknown"

inductive Response where
  /-- The handler's, rate limiting being disabled. -/
  | unlimited
  /-- 429 with `Retry-After`. -/
  | too_many (retry_after : ℤ)
  /-- The handler's, with `X-RateLimit-Limit` and `X-RateLimit-Remaining`. -/
  | passed (limit remaining : ℤ)
  deriving DecidableEq, Repr

def Response.is_passed : Response → Bool
  | passed _ _ => true
  | _ => false

/-- `_DEFAULT_WINDOW_SECONDS`. -/
def WINDOW : ℚ := 60

/-- `_requests`: a dict from the client address to its times. -/
structure Requests where
  entries : List (String × List ℚ) := []
  keys_nodup : (entries.map Prod.fst).Nodup := by simp

namespace Requests

/-- `self._requests.get(client_ip, [])`. -/
def get (s : Requests) (client_ip : String) : List ℚ :=
  ((Keyed.lookup Prod.fst s.entries client_ip).map (·.2)).getD []

/-- `self._requests[client_ip] = timestamps`. -/
def set (s : Requests) (client_ip : String) (timestamps : List ℚ) : Requests where
  entries := Keyed.upsert Prod.fst s.entries (client_ip, timestamps)
  keys_nodup := Keyed.upsert_nodup s.keys_nodup _

/-- One turn of the sweep. -/
def swept (client_ip : String) (cutoff : ℚ) (entry : String × List ℚ) : Option (String × List ℚ) :=
  if entry.1 = client_ip then some entry
  else
    let pruned := entry.2.filter (cutoff < ·)
    if pruned = [] then none else some (entry.1, pruned)

/-- An entry that stays keeps its address. -/
theorem swept_key (client_ip : String) (cutoff : ℚ) (entry entry' : String × List ℚ)
    (h : swept client_ip cutoff entry = some entry') : entry'.1 = entry.1 := by
  rw [swept] at h
  by_cases hkey : entry.1 = client_ip
  · rw [if_pos hkey] at h
    rw [Option.some.inj h]
  · rw [if_neg hkey] at h
    by_cases hnone : entry.2.filter (cutoff < ·) = []
    · simp only [hnone, if_true] at h
      cases h
    · simp only [hnone, if_false] at h
      rw [← Option.some.inj h]

/-- The loop over every other client. -/
def sweep (s : Requests) (client_ip : String) (cutoff : ℚ) : Requests where
  entries := s.entries.filterMap (swept client_ip cutoff)
  keys_nodup := Keyed.nodup_filterMap _ (swept_key client_ip cutoff) s.keys_nodup

@[simp] theorem get_empty (client_ip : String) : ({} : Requests).get client_ip = [] := rfl

/-- Setting one client leaves the others. -/
theorem get_set (s : Requests) (client_ip k : String) (timestamps : List ℚ) :
    (s.set client_ip timestamps).get k = if k = client_ip then timestamps else s.get k := by
  rw [get, set, Keyed.lookup_upsert]
  by_cases hk : k = client_ip
  · simp [hk]
  · simp [hk, get]

/-- The sweep drops what is expired, of every client but the one that asked. -/
theorem get_sweep (s : Requests) (client_ip k : String) (cutoff : ℚ) :
    (s.sweep client_ip cutoff).get k
      = if k = client_ip then s.get k else (s.get k).filter (cutoff < ·) := by
  rw [get, sweep, Keyed.lookup_filterMap _ (swept_key client_ip cutoff) s.keys_nodup, get]
  rcases hentry : Keyed.lookup Prod.fst s.entries k with _ | entry
  · simp
  · have hkey : entry.1 = k := Keyed.key_of_lookup Prod.fst hentry
    rw [Option.bind_some, swept, hkey]
    by_cases hk : k = client_ip
    · simp [hk]
    · by_cases hnone : entry.2.filter (cutoff < ·) = []
      · simp [hk, hnone]
      · simp [hk, hnone]

end Requests

/-- `int(x)`: towards zero. -/
def int (x : ℚ) : ℤ := if 0 ≤ x then ⌊x⌋ else ⌈x⌉

variable (rpm : ℤ)

/-- `dispatch`. -/
def dispatch (s : Requests) (request : Request) : Response × Requests :=
  if rpm ≤ 0 then (.unlimited, s)
  else
    let cutoff := request.now - WINDOW
    let timestamps := (s.get request.client_ip).filter (cutoff < ·)
    if rpm ≤ timestamps.length then
      -- the list is not empty here, since `rpm` is positive
      let retry_after := int (timestamps.headD cutoff - cutoff) + 1
      (.too_many (max retry_after 1), s)
    else
      let timestamps := timestamps ++ [request.now]
      let remaining := max 0 (rpm - timestamps.length)
      (.passed rpm remaining,
        (s.set request.client_ip timestamps).sweep request.client_ip cutoff)

/-- Every request of a run with its answer. -/
def log : Requests → List Request → List (Request × Response)
  | _, [] => []
  | s, request :: rest =>
      (request, (dispatch rpm s request).1) :: log (dispatch rpm s request).2 rest

/-! ## One client, and nothing forgotten -/

/-- The limiter of one client; its state is every time it ever admitted. -/
def alone_step (history : List ℚ) (now : ℚ) : Response × List ℚ :=
  let recent := SlidingWindow.recent WINDOW now history
  if rpm ≤ recent.length then
    (.too_many (max (int (recent.headD (now - WINDOW) - (now - WINDOW)) + 1) 1), history)
  else (.passed rpm (max 0 (rpm - (recent.length + 1))), history ++ [now])

def alone : List ℚ → List ℚ → List (ℚ × Response)
  | _, [] => []
  | history, now :: rest =>
      (now, (alone_step rpm history now).1) :: alone (alone_step rpm history now).2 rest

/-- The times of one client's requests. -/
def times (requests : List Request) (client_ip : String) : List ℚ :=
  (requests.filter (·.client_ip = client_ip)).map (·.now)

/-- What one client sees of a run. -/
def answers (entries : List (Request × Response)) (client_ip : String) : List (ℚ × Response) :=
  (entries.filter (·.1.client_ip = client_ip)).map fun p => (p.1.now, p.2)

/-! ## The middleware against the limiter of one client -/

variable {rpm}

/-- From the cutoff on, the middleware knows of each client what its own limiter knows. -/
def Sees (cutoff : ℚ) (s : Requests) (history : String → List ℚ) : Prop :=
  ∀ k c, cutoff ≤ c → (s.get k).filter (c < ·) = (history k).filter (c < ·)

/-- Times that are dropped at one cutoff are dropped at every later one. -/
theorem filter_filter_later {c c' : ℚ} (h : c ≤ c') (l : List ℚ) :
    (l.filter (c < ·)).filter (c' < ·) = l.filter (c' < ·) := by
  rw [List.filter_filter]
  refine List.filter_congr fun t _ => ?_
  by_cases ht : c' < t
  · simp [ht, h.trans_lt ht]
  · simp [ht]

/-- **One request.** The answer is that of the client's own limiter, and `Sees` holds again, from the
cutoff of this request on. -/
theorem dispatch_alone (hrpm : 1 ≤ rpm) {cutoff : ℚ} {s : Requests} {history : String → List ℚ}
    (h : Sees cutoff s history) {request : Request} (hnow : cutoff ≤ request.now - WINDOW) :
    (dispatch rpm s request).1 = (alone_step rpm (history request.client_ip) request.now).1
      ∧ Sees (request.now - WINDOW) (dispatch rpm s request).2
        (Function.update history request.client_ip
          (alone_step rpm (history request.client_ip) request.now).2) := by
  have hpos : ¬ rpm ≤ 0 := by omega
  have hwindow : (s.get request.client_ip).filter (request.now - WINDOW < ·)
      = SlidingWindow.recent WINDOW request.now (history request.client_ip) :=
    h request.client_ip (request.now - WINDOW) hnow
  have hlater : Sees (request.now - WINDOW) s history := fun k c hc => h k c (hnow.trans hc)
  rw [dispatch, if_neg hpos, alone_step]
  simp only [hwindow]
  by_cases hfull : rpm ≤ ((SlidingWindow.recent WINDOW request.now
      (history request.client_ip)).length : ℤ)
  · rw [if_pos hfull, if_pos hfull]
    refine ⟨rfl, ?_⟩
    rw [Function.update_eq_self]
    exact hlater
  · rw [if_neg hfull, if_neg hfull]
    refine ⟨by simp, ?_⟩
    intro k c hc
    rw [Requests.get_sweep, Requests.get_set]
    by_cases hk : k = request.client_ip
    · subst hk
      rw [if_pos rfl, if_pos rfl, Function.update_self, List.filter_append, List.filter_append,
        SlidingWindow.recent, filter_filter_later hc]
    · rw [if_neg hk, if_neg hk, Function.update_of_ne hk, filter_filter_later hc]
      exact hlater k c hc

/-- **What a client sees of a run is its own limiter's**, whatever the others do. -/
theorem answers_log (hrpm : 1 ≤ rpm) (requests : List Request) (k : String) :
    ∀ {cutoff : ℚ} {s : Requests} {history : String → List ℚ}, Sees cutoff s history →
      (∀ r ∈ requests, cutoff ≤ r.now - WINDOW) →
      requests.Pairwise (fun a b => a.now ≤ b.now) →
      answers (log rpm s requests) k = alone rpm (history k) (times requests k) := by
  induction requests with
  | nil => exact fun _ _ _ => rfl
  | cons request rest ih =>
      intro cutoff s history h hnow hsorted
      obtain ⟨hfirst, hrest⟩ := List.pairwise_cons.mp hsorted
      obtain ⟨hanswer, hsees⟩ := dispatch_alone hrpm h (hnow request List.mem_cons_self)
      have hlog := ih hsees (fun r hr => sub_le_sub_right (hfirst r hr) WINDOW) hrest
      rw [log, answers, times]
      by_cases hk : request.client_ip = k
      · subst hk
        rw [Function.update_self] at hlog
        rw [List.filter_cons_of_pos (by simp), List.filter_cons_of_pos (by simp), List.map_cons,
          List.map_cons, alone, hanswer]
        exact congrArg _ hlog
      · rw [Function.update_of_ne (Ne.symm hk)] at hlog
        rw [List.filter_cons_of_neg (by simpa using hk), List.filter_cons_of_neg (by simpa using hk)]
        exact hlog

/-! ## The limiter of one client -/

/-- The limit is an integer, and positive where the middleware is installed. -/
theorem toNat_le_iff (hrpm : 1 ≤ rpm) (n : ℕ) : rpm ≤ n ↔ ¬ n < rpm.toNat := by omega

/-- The history takes in what is admitted, -/
theorem alone_step_history (hrpm : 1 ≤ rpm) (history : List ℚ) (now : ℚ) :
    (alone_step rpm history now).2 = SlidingWindow.step rpm.toNat WINDOW history now := by
  rw [alone_step, SlidingWindow.step, SlidingWindow.admits]
  by_cases hroom : (SlidingWindow.recent WINDOW now history).length < rpm.toNat
  · simp [toNat_le_iff hrpm, hroom]
  · simp [toNat_le_iff hrpm, hroom]

/-- and a request passes when it is admitted. -/
theorem alone_step_passed (hrpm : 1 ≤ rpm) (history : List ℚ) (now : ℚ) :
    (alone_step rpm history now).1.is_passed
      = SlidingWindow.admits rpm.toNat WINDOW history now := by
  rw [alone_step, SlidingWindow.admits]
  by_cases hroom : (SlidingWindow.recent WINDOW now history).length < rpm.toNat
  · simp [toNat_le_iff hrpm, hroom, Response.is_passed]
  · simp [toNat_le_iff hrpm, hroom, Response.is_passed]

/-- The times that pass are the ones the history takes in. -/
theorem alone_passed (hrpm : 1 ≤ rpm) (l : List ℚ) : ∀ history : List ℚ,
    l.foldl (SlidingWindow.step rpm.toNat WINDOW) history
      = history ++ ((alone rpm history l).filter (·.2.is_passed)).map (·.1) := by
  induction l with
  | nil => simp [alone]
  | cons now rest ih =>
      intro history
      rw [List.foldl_cons, ← alone_step_history hrpm, ih, alone]
      have hpassed := alone_step_passed hrpm history now
      have hhistory := alone_step_history hrpm history now
      by_cases hadmit : SlidingWindow.admits rpm.toNat WINDOW history now = true
      · rw [List.filter_cons_of_pos (by rw [hpassed]; exact hadmit), List.map_cons, hhistory,
          SlidingWindow.step, if_pos hadmit, List.append_assoc]
        rfl
      · rw [List.filter_cons_of_neg (by rw [hpassed]; exact hadmit), hhistory, SlidingWindow.step,
          if_neg hadmit]

/-- One run and then another. -/
theorem alone_append (hrpm : 1 ≤ rpm) (a b : List ℚ) : ∀ history : List ℚ,
    alone rpm history (a ++ b)
      = alone rpm history a
        ++ alone rpm (a.foldl (SlidingWindow.step rpm.toNat WINDOW) history) b := by
  induction a with
  | nil => exact fun _ => rfl
  | cons now rest ih =>
      intro history
      rw [List.cons_append, alone, alone, ih, alone_step_history hrpm, List.foldl_cons]
      rfl

theorem map_fst_alone (l : List ℚ) : ∀ history : List ℚ, (alone rpm history l).map (·.1) = l := by
  induction l with
  | nil => exact fun _ => rfl
  | cons now rest ih =>
      intro history
      rw [alone, List.map_cons, ih]

theorem sorted_times {requests : List Request} (hsorted : requests.Pairwise fun a b => a.now ≤ b.now)
    (k : String) : (times requests k).Pairwise (· ≤ ·) :=
  List.pairwise_map.mpr (hsorted.sublist List.filter_sublist)

theorem int_lt (x : ℚ) : x < int x + 1 := by
  rw [int]
  by_cases hx : 0 ≤ x
  · rw [if_pos hx]
    exact Int.lt_floor_add_one x
  · rw [if_neg hx]
    exact (Int.le_ceil x).trans_lt (lt_add_one _)

/-- **The promise of `Retry-After`**, of one client's limiter. -/
theorem retry_admitted (hrpm : 1 ≤ rpm) {history : List ℚ}
    (hbounded : SlidingWindow.Bounded rpm.toNat WINDOW history) {now later : ℚ}
    (hnow : ∀ u ∈ history, u ≤ now) {retry_after : ℤ}
    (hrejected : (alone_step rpm history now).1 = .too_many retry_after)
    (hlater : now + retry_after ≤ later) :
    (alone_step rpm history later).1.is_passed = true := by
  rw [alone_step_passed hrpm]
  rw [alone_step] at hrejected
  by_cases hfull : rpm ≤ ((SlidingWindow.recent WINDOW now history).length : ℤ)
  · rw [if_pos hfull] at hrejected
    rcases hrecent : SlidingWindow.recent WINDOW now history with _ | ⟨oldest, rest⟩
    · rw [hrecent] at hfull
      simp only [List.length_nil] at hfull
      omega
    · rw [hrecent, List.headD_cons] at hrejected
      obtain rfl := Response.too_many.inj hrejected
      -- the seconds named reach past the moment the oldest leaves the window
      have hint := int_lt (oldest - (now - WINDOW))
      have hseconds : ((int (oldest - (now - WINDOW)) + 1 : ℤ) : ℚ)
          ≤ ((max (int (oldest - (now - WINDOW)) + 1) 1 : ℤ) : ℚ) := by
        exact_mod_cast le_max_left _ _
      have hone : ((1 : ℤ) : ℚ) ≤ ((max (int (oldest - (now - WINDOW)) + 1) 1 : ℤ) : ℚ) := by
        exact_mod_cast le_max_right _ _
      push_cast at hseconds hone
      refine SlidingWindow.admits_after hbounded hnow hrecent ?_ ?_
      · push_cast at hlater
        linarith
      · push_cast at hlater
        linarith
  · rw [if_neg hfull] at hrejected
    cases hrejected

/-! ## The result -/

theorem sees_empty (cutoff : ℚ) : Sees cutoff {} fun _ => [] := fun _ _ _ => by simp

/-- A whole run from an empty middleware, as each client sees it. -/
theorem answers_run (hrpm : 1 ≤ rpm) {requests : List Request}
    (hsorted : requests.Pairwise fun a b => a.now ≤ b.now) (k : String) :
    answers (log rpm {} requests) k = alone rpm [] (times requests k) := by
  rcases requests with _ | ⟨request, rest⟩
  · rfl
  · refine answers_log hrpm (request :: rest) k (sees_empty (request.now - WINDOW)) ?_ hsorted
    intro r hr
    refine sub_le_sub_right ?_ WINDOW
    rcases List.mem_cons.mp hr with rfl | hr
    · exact le_rfl
    · exact (List.pairwise_cons.mp hsorted).1 r hr

/-- The requests of one client that are let through. -/
def admitted (entries : List (Request × Response)) (client_ip : String) : List ℚ :=
  ((entries.filter fun p => p.1.client_ip = client_ip && p.2.is_passed)).map (·.1.now)

theorem admitted_run (hrpm : 1 ≤ rpm) {requests : List Request}
    (hsorted : requests.Pairwise fun a b => a.now ≤ b.now) (k : String) :
    admitted (log rpm {} requests) k
      = SlidingWindow.history rpm.toNat WINDOW (times requests k) := by
  have hpassed := alone_passed hrpm (times requests k) []
  rw [List.nil_append, ← answers_run hrpm hsorted] at hpassed
  rw [SlidingWindow.history, hpassed, answers, admitted, List.filter_map, List.map_map,
    List.filter_filter]
  have hfilter : ∀ p : Request × Response,
      (decide (p.1.client_ip = k) && p.2.is_passed)
        = (((fun q : ℚ × Response => q.2.is_passed) ∘ fun p : Request × Response => (p.1.now, p.2)) p
          && decide (p.1.client_ip = k)) :=
    fun p => Bool.and_comm _ _
  simp only [hfilter]
  rfl

/-- Where a client is turned away in a run, and what it gets when it next asks. -/
theorem alone_retry (hrpm : 1 ≤ rpm) {l : List ℚ} (hsorted : l.Pairwise (· ≤ ·))
    {A C : List (ℚ × Response)} {now later : ℚ} {retry_after : ℤ} {response : Response}
    (hlog : alone rpm [] l = A ++ (now, .too_many retry_after) :: (later, response) :: C)
    (hlater : now + retry_after ≤ later) : response.is_passed = true := by
  have hl := @map_fst_alone rpm l []
  rw [hlog, List.map_append, List.map_cons, List.map_cons] at hl
  rw [← hl] at hlog hsorted
  rw [alone_append hrpm] at hlog
  obtain ⟨-, htail⟩ := List.append_inj hlog (by
    rw [← List.length_map (f := Prod.fst), map_fst_alone, List.length_map])
  set past := (A.map (·.1)).foldl (SlidingWindow.step rpm.toNat WINDOW) [] with hpast
  simp only [alone, List.cons.injEq, Prod.mk.injEq, true_and] at htail
  obtain ⟨hrejected, hresponse, -⟩ := htail
  -- a request that is turned away leaves no trace
  have hsame : (alone_step rpm past now).2 = past := by
    have hnot := alone_step_passed hrpm past now
    rw [hrejected] at hnot
    rw [alone_step_history hrpm, SlidingWindow.step, if_neg]
    rw [← hnot]
    exact Bool.false_ne_true
  rw [hsame] at hresponse
  obtain ⟨hA, -, hcross⟩ := List.pairwise_append.mp hsorted
  have hbounded : SlidingWindow.Bounded rpm.toNat WINDOW past :=
    SlidingWindow.history_bounded hA
  have hnow : ∀ u ∈ past, u ≤ now := fun u hu =>
    hcross u (SlidingWindow.mem_history hu) now List.mem_cons_self
  rw [← hresponse]
  exact retry_admitted hrpm hbounded hnow hrejected hlater

/-- **The rate limiter is its specification.** In every run with times that do not go back
and a positive limit: no window `(t - 60, t]` holds more than `rpm` admitted requests of a
client; every request gets the answer of a limiter that has the client to itself and
forgets nothing; and a client that was turned away and next asks after `Retry-After`
seconds or later is let through. -/
theorem rate_limit_spec (rpm : ℤ) (hrpm : 1 ≤ rpm) (requests : List Request)
    (hsorted : requests.Pairwise fun a b => a.now ≤ b.now) :
    (∀ k t, (((admitted (log rpm {} requests) k).filter fun u => t - 60 < u ∧ u ≤ t).length : ℤ)
        ≤ rpm)
      ∧ (∀ k, answers (log rpm {} requests) k = alone rpm [] (times requests k))
      ∧ ∀ (before between after : List (Request × Response)) (rejected retry : Request)
          (retry_after : ℤ) (response : Response),
        log rpm {} requests
          = before ++ (rejected, .too_many retry_after) :: (between ++ (retry, response) :: after) →
        retry.client_ip = rejected.client_ip →
        (∀ p ∈ between, p.1.client_ip ≠ rejected.client_ip) →
        rejected.now + retry_after ≤ retry.now → response.is_passed = true := by
  refine ⟨?_, answers_run hrpm hsorted, ?_⟩
  · intro k t
    have hbounded : SlidingWindow.Bounded rpm.toNat WINDOW (admitted (log rpm {} requests) k) := by
      rw [admitted_run hrpm hsorted k]
      exact SlidingWindow.history_bounded (sorted_times hsorted k)
    have hfew := hbounded.few t
    have hwindow : WINDOW = 60 := rfl
    rw [hwindow] at hfew
    omega
  · intro before between after rejected retry retry_after response hlog hclient hbetween hlater
    have hanswers := answers_run hrpm hsorted rejected.client_ip
    have hnone : between.filter (·.1.client_ip = rejected.client_ip) = [] := by
      rw [List.filter_eq_nil_iff]
      intro p hp
      simpa using hbetween p hp
    rw [hlog, answers, List.filter_append, List.filter_cons_of_pos (by simp), List.filter_append,
      hnone, List.nil_append, List.filter_cons_of_pos (by simpa using hclient), List.map_append,
      List.map_cons, List.map_cons] at hanswers
    exact alone_retry hrpm (sorted_times hsorted _) hanswers.symm hlater

/-- One request a minute: `a` comes back too early, and again when it was told to. -/
def sample : List Request :=
  [⟨some "a", 0⟩, ⟨some "b", 1 / 2⟩, ⟨some "a", 3 / 2⟩, ⟨none, 30⟩, ⟨some "a", 121 / 2⟩]

theorem rate_limit_spec_sample :
    (1 : ℤ) ≤ 1 ∧ sample.Pairwise (fun a b => a.now ≤ b.now)
      ∧ answers (log 1 {} sample) "a" = alone 1 [] (times sample "a") := by
  have hsorted : sample.Pairwise fun a b => a.now ≤ b.now := by decide +kernel
  exact ⟨le_rfl, hsorted, (rate_limit_spec 1 le_rfl sample hsorted).2.1 "a"⟩

end OpenChronicle.RateLimit
