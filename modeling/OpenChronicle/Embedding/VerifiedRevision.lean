/-
The verified revision is the latest successful probe's.

Every thread may probe, embed and read at once, and the attributes it writes are not guarded by one
lock: the probe lock covers the probes, while an embed resets the cooldown whenever its answer is in
order. What makes the snapshot the latest answer is that a probe records its outcome before it gives up
the lock; what keeps an unforced probe out of a cooldown is that everything it has read since it took
the lock still stands, or was reset by an embed.

The specification is read off the log alone. `received` lists the answers in the order in which they
came, `settled` those that have been recorded, `uncleared` the failures since a cooldown was last ended,
and `clock_of` the time. Each is a function of the events, so that the statements speak of what happened
and not of attributes. The invariant `Inv` then says that the attributes are what the log says; it is
kept by each operation, with one lemma for each.

What a thread has read (`Seen`) needs care. Under the lock its copy of the revision cannot become stale,
since only holders of the lock write it. Its copy of the failure time can, by an embed that ends the
cooldown; then the thread believes in a cooldown that is over, which makes it wait and never makes it
probe too early. And the clock it has read is late. Those are the two exceptions in the fields of
`Seen`.

An embed ends the cooldown once its answer has been validated, which is before the vectors have been
normalized. So an embed that raises may have ended it, and the last run of the file shows a probe that
is sent because of that.
-/
import Mathlib.Tactic.Linarith
import OpenChronicle.Embedding.OllamaProbe

set_option autoImplicit false

namespace OpenChronicle.Ollama

open Program Machine PyStr

/-! ## What a listing says -/

section Listings

variable {F : Type} (A : Adapter F)

/-- An entry of a listing is a dict, or it is passed over. -/
def as_dict : Json → Option Json.Dict
  | .dict fields => some fields
  | _ => none

/-- The first entry of the `models` list that names the model. -/
def listed_entry (payload : Json) : Option Json.Dict :=
  match payload with
  | .dict fields =>
      match Json.Dict.get fields "models" with
      | .list models => (models.filterMap as_dict).find? fun entry =>
          (entry_names entry).any fun n =>
            canonical_model_name A.casefold n = canonical_model_name A.casefold A.model
      | _ => none
  | _ => none

/-- The loop stops at the first match, and collects the names up to there for its warning. -/
theorem find_entry_fst {casefold : Text → Text} {wanted : Text} {models : List Json} {names : List Text} :
    (if (find_entry casefold wanted models names).1 then
        some (find_entry casefold wanted models names).2.1 else none)
      = ((models.filterMap as_dict).find? fun entry =>
          (entry_names entry).any fun n => canonical_model_name casefold n = wanted).map
        fun entry => nonempty_str (Json.Dict.get entry "digest") := by
  -- the names are only collected for a log line, so the induction leaves them open
  induction models generalizing names with
  | nil => rfl
  | cons x rest ih =>
      cases x with
      | dict entry =>
          rw [find_entry, List.filterMap_cons_some (by rfl), List.find?_cons]
          by_cases hnamed : ((entry_names entry).any fun n => canonical_model_name casefold n = wanted) = true
          · rw [if_pos hnamed, hnamed]
            rfl
          · rw [if_neg hnamed, Bool.eq_false_iff.mpr hnamed]
            exact ih
      -- an entry that is no dict is passed over
      | _ =>
          rw [find_entry, List.filterMap_cons_none (by rfl)]
          · exact ih
          · exact nofun

/-- An answer lists the model if and only if some entry names it, and the digest is that of the
first which does, if it is a string and not empty. -/
theorem lists_body (payload : Json) :
    Answer.lists A (.body payload)
      = (listed_entry A payload).map fun entry => nonempty_str (Json.Dict.get entry "digest") := by
  rw [Answer.lists]
  cases payload with
  | dict fields =>
      rw [find_model, listed_entry]
      cases Json.Dict.get fields "models" with
      | list models =>
          dsimp only
          rw [← @find_entry_fst A.casefold (canonical_model_name A.casefold A.model) models []]
          rcases find_entry A.casefold (canonical_model_name A.casefold A.model) models [] with
            ⟨listed, digest, names⟩
          cases listed <;> rfl
      | _ => rfl
  | _ => rfl

/-- Whether an answer lists the model does not depend on the digest. -/
theorem lists_isSome {answer : Answer} : (answer.lists A).isSome
    ↔ ∃ payload entry, answer = .body payload ∧ listed_entry A payload = some entry := by
  constructor
  · intro h
    cases answer with
    | body payload =>
        rw [lists_body, Option.isSome_map] at h
        exact ⟨payload, _, rfl, (Option.some_get h).symm⟩
    | _ => cases h
  · rintro ⟨payload, entry, rfl, hentry⟩
    rw [lists_body, hentry]
    rfl

end Listings

/-! ## The order of calls in a thread -/

variable {F : Type}

/-- A call of the adapter with its answer. -/
abbrev OllamaCall := Call ollamaSig Exc

/-- What a call says about the probe lock. -/
def lock_event : OllamaCall → Option Bool
  | ⟨.acquire_probe_lock, .ok acquired⟩ => some acquired
  | ⟨.release_probe_lock, _⟩ => some false
  | _ => none

/-- The thread took the probe lock and has not given it back. -/
def HoldsProbe (h : List OllamaCall) : Prop := h.findSome? lock_event = some true

/-- The answer that the thread received and has yet to record. -/
def unrecorded : List OllamaCall → Option Answer
  | ⟨.receive_tags, .ok answer⟩ :: _ => some answer
  | ⟨.monotonic, .ok _⟩ :: ⟨.receive_tags, .ok answer⟩ :: _ => some answer
  | _ => none

/-- The thread has recorded every answer it received. -/
def Recorded (h : List OllamaCall) : Prop := unrecorded h = none

/-- What an unforced probe rests on: an unknown revision, and no failed probe or one whose cooldown
was over. -/
def Checked (h : List OllamaCall) : Prop :=
  ∃ snapshot : Snapshot, snapshot.known = false
    ∧ ((∃ h', h = ⟨.read_last_probe_failure, .ok none⟩ :: ⟨.read_revision, .ok snapshot⟩ :: h')
      ∨ ∃ (now failed_at : ℚ) (h' : List OllamaCall), PROBE_COOLDOWN_SECONDS ≤ now - failed_at
        ∧ h = ⟨.monotonic, .ok now⟩ :: ⟨.read_last_probe_failure, .ok (some failed_at)⟩
          :: ⟨.read_revision, .ok snapshot⟩ :: h')

/-- What a call requires of its thread's earlier calls. -/
def Ordered (A : Adapter F) (task : OllamaTask) (h : List OllamaCall) : OllamaCall → Prop
  | ⟨.acquire_probe_lock, _⟩ => h = []
  | ⟨.release_probe_lock, _⟩ => HoldsProbe h ∧ Recorded h
  | ⟨.send_get_tags, _⟩ =>
      HoldsProbe h ∧ Recorded h ∧ (task = .refresh_revision false → Checked h)
  | ⟨.receive_tags, _⟩ => HoldsProbe h ∧ Recorded h
  | ⟨.set_revision digest, _⟩ =>
      HoldsProbe h ∧ ∃ answer h', h = ⟨.receive_tags, .ok answer⟩ :: h' ∧ answer.lists A = some digest
  | ⟨.set_last_probe_failure (some failed_at), _⟩ =>
      HoldsProbe h ∧ ∃ answer h', h = ⟨.monotonic, .ok failed_at⟩ :: ⟨.receive_tags, .ok answer⟩ :: h'
        ∧ answer.lists A = none
  | ⟨.set_last_probe_failure none, _⟩ =>
      (∃ digest r h', h = ⟨.set_revision digest, r⟩ :: h')
        ∨ ∃ texts answer vectors, task = .embed_batch texts
          ∧ h = [⟨.http_post_embed texts, .ok answer⟩]
          ∧ embeddings_of A texts.length answer = .ok vectors
  | ⟨.monotonic, _⟩ => Recorded h ∨ ∃ answer h', h = ⟨.receive_tags, .ok answer⟩ :: h'
  | _ => Recorded h

section Programs

variable {A : Adapter F} {task : OllamaTask} {h : List OllamaCall}

theorem sat_act {o : OllamaOp} {Q : List OllamaCall → Except Exc o.Resp → Prop}
    (hΦ : ∀ r, Ordered A task h ⟨o, r⟩) (hQ : ∀ r, Q (⟨o, r⟩ :: h) r) :
    (act o).Sat (Ordered A task) Q h :=
  Prog.sat_op fun r => ⟨hΦ r, hQ r⟩

theorem HoldsProbe.cons {c : OllamaCall} (hh : HoldsProbe h) (hc : lock_event c = none) :
    HoldsProbe (c :: h) := by
  unfold HoldsProbe at hh ⊢
  rw [List.findSome?_cons, hc]
  exact hh

/-- The end of a probe, or of what stands for one: the lock is still held, and nothing is left to
record. -/
def Done (h : List OllamaCall) : Prop := HoldsProbe h ∧ Recorded h

theorem sat_read_done (hh : HoldsProbe h) (hr : Recorded h) :
    (act .read_revision).Sat (Ordered A task) (fun h' _ => Done h') h :=
  sat_act (fun _ => hr) fun _ => ⟨hh.cons rfl, rfl⟩

/-- After an answer the thread does nothing but record it. -/
theorem sat_probe_succeeded {digest : Option Text} {answer : Answer} {h' : List OllamaCall}
    (hh : HoldsProbe h) (hcall : h = ⟨.receive_tags, .ok answer⟩ :: h')
    (hlists : answer.lists A = some digest) :
    (probe_succeeded digest).Sat (Ordered A task) (fun h' _ => Done h') h := by
  unfold probe_succeeded
  refine Prog.Sat.bind (sat_act (fun _ => ⟨hh, answer, h', hcall, hlists⟩) ?_)
  intro r
  have hh₁ : HoldsProbe ((⟨.set_revision digest, r⟩ : OllamaCall) :: h) := hh.cons rfl
  cases r with
  | error e => exact ⟨hh₁, rfl⟩
  | ok _ =>
      refine Prog.Sat.bind (sat_act (fun _ => .inl ⟨digest, .ok (), h, rfl⟩) ?_)
      intro r'
      have hh₂ := hh₁.cons (show lock_event ⟨.set_last_probe_failure none, r'⟩ = none from rfl)
      cases r' with
      | error e => exact ⟨hh₂, rfl⟩
      | ok _ => exact sat_read_done hh₂ rfl

/-- A failure is recorded with the time that was read after the answer. -/
theorem sat_probe_failed {answer : Answer} {h' : List OllamaCall} (hh : HoldsProbe h)
    (hcall : h = ⟨.receive_tags, .ok answer⟩ :: h') (hlists : answer.lists A = none) :
    probe_failed.Sat (Ordered A task) (fun h' _ => Done h') h := by
  unfold probe_failed
  refine Prog.Sat.bind (sat_act (fun _ => .inr ⟨answer, h', hcall⟩) ?_)
  intro r
  have hh₁ : HoldsProbe ((⟨.monotonic, r⟩ : OllamaCall) :: h) := hh.cons rfl
  cases r with
  | error e => exact ⟨hh₁, rfl⟩
  | ok now =>
      refine Prog.Sat.bind (sat_act (fun _ => ⟨hh₁, answer, h', ?_, hlists⟩) ?_)
      · rw [hcall]
      · intro r'
        have hh₂ := hh₁.cons (show lock_event ⟨.set_last_probe_failure (some now), r'⟩ = none from rfl)
        cases r' with
        | error e => exact ⟨hh₂, rfl⟩
        | ok _ => exact sat_read_done hh₂ rfl

/-- The probe, from its request to its record, under the lock. -/
theorem sat_probe (hh : HoldsProbe h) (hr : Recorded h)
    (hcheck : task = .refresh_revision false → Checked h) :
    (probe A).Sat (Ordered A task) (fun h' _ => Done h') h := by
  unfold probe
  refine Prog.Sat.bind (sat_act (fun _ => ⟨hh, hr, hcheck⟩) ?_)
  intro r
  have hh₁ : HoldsProbe ((⟨.send_get_tags, r⟩ : OllamaCall) :: h) := hh.cons rfl
  cases r with
  | error e => exact ⟨hh₁, rfl⟩
  | ok _ =>
      refine Prog.Sat.bind (sat_act (fun _ => ⟨hh₁, rfl⟩) ?_)
      intro r'
      have hh₂ := hh₁.cons (show lock_event ⟨.receive_tags, r'⟩ = none from rfl)
      cases r' with
      | error e => exact ⟨hh₂, rfl⟩
      | ok answer =>
          -- one branch of the source for each way an answer can fail to list the model
          cases answer with
          | body payload =>
              dsimp only
              cases hfound : find_model A.casefold payload A.model with
              | none =>
                  refine sat_probe_failed hh₂ rfl ?_
                  rw [Answer.lists, hfound]
              | some found =>
                  obtain ⟨listed, digest, names⟩ := found
                  cases listed with
                  | true =>
                      refine sat_probe_succeeded hh₂ rfl ?_
                      rw [Answer.lists, hfound]
                  | false =>
                      refine sat_probe_failed hh₂ rfl ?_
                      rw [Answer.lists, hfound]
          | _ => exact sat_probe_failed hh₂ rfl rfl

theorem sat_refresh_locked {force : Bool} (htask : task = .refresh_revision force)
    (hh : HoldsProbe h) (hr : Recorded h) :
    (refresh_locked A force).Sat (Ordered A task) (fun h' _ => Done h') h := by
  unfold refresh_locked
  cases force with
  -- a forced probe rests on nothing it has read
  | true =>
      refine sat_probe hh hr ?_
      intro hfalse
      rw [htask] at hfalse
      cases hfalse
  | false =>
      refine Prog.Sat.bind ?_
      unfold settled_or_cooling
      refine Prog.Sat.bind (sat_act (fun _ => hr) ?_)
      intro r
      have hh₁ : HoldsProbe ((⟨.read_revision, r⟩ : OllamaCall) :: h) := hh.cons rfl
      cases r with
      | error e => exact ⟨hh₁, rfl⟩
      | ok snapshot =>
          dsimp only
          by_cases hk : snapshot.known = true
          · rw [if_pos hk]
            exact Prog.sat_pure (sat_read_done hh₁ rfl)
          rw [if_neg hk]
          have hunknown : snapshot.known = false := Bool.eq_false_iff.mpr hk
          unfold in_cooldown
          refine Prog.Sat.bind (sat_act (fun _ => rfl) ?_)
          intro r'
          have hh₂ := hh₁.cons (show lock_event ⟨.read_last_probe_failure, r'⟩ = none from rfl)
          cases r' with
          | error e => exact ⟨hh₂, rfl⟩
          | ok failed_at =>
              cases failed_at with
              | none =>
                  refine Prog.sat_pure (sat_probe hh₂ rfl ?_)
                  intro _
                  exact ⟨snapshot, hunknown, .inl ⟨h, rfl⟩⟩
              | some failed_at =>
                  refine Prog.Sat.bind (sat_act (fun _ => .inl rfl) ?_)
                  intro r''
                  have hh₃ := hh₂.cons (show lock_event ⟨.monotonic, r''⟩ = none from rfl)
                  cases r'' with
                  | error e => exact ⟨hh₃, rfl⟩
                  | ok now =>
                      refine Prog.sat_pure ?_
                      by_cases hcool : now - failed_at < PROBE_COOLDOWN_SECONDS
                      · rw [decide_eq_true hcool]
                        exact sat_read_done hh₃ rfl
                      · rw [decide_eq_false hcool]
                        refine sat_probe hh₃ rfl ?_
                        intro _
                        exact ⟨snapshot, hunknown, .inr ⟨now, failed_at, h, not_lt.mp hcool, rfl⟩⟩

theorem sat_refresh_revision {force : Bool} (htask : task = .refresh_revision force) :
    (refresh_revision A force).Sat (Ordered A task) (fun _ _ => True) [] := by
  unfold refresh_revision
  refine Prog.Sat.bind (sat_act (fun _ => rfl) ?_)
  intro r
  cases r with
  | error e => trivial
  | ok acquired =>
      cases acquired with
      -- the wait for the lock timed out
      | false => exact sat_act (fun _ => rfl) fun _ => trivial
      | true =>
          have hh : HoldsProbe [⟨.acquire_probe_lock, .ok true⟩] := rfl
          refine Prog.Sat.tryFinally ((sat_refresh_locked htask hh rfl).mono ?_)
          intro h' r' _ hdone
          refine sat_act (fun _ => hdone) ?_
          intro u
          cases r' <;> cases u <;> trivial

/-- An embed takes no lock, and may end the cooldown at one place. -/
theorem sat_embed_batch {texts : List Text} (htask : task = .embed_batch texts) :
    (embed_batch A texts).Sat (Ordered A task) (fun h' _ => Recorded h') [] := by
  unfold embed_batch
  -- an empty batch makes no call at all
  by_cases hnil : texts = []
  · rw [if_pos hnil]
    trivial
  rw [if_neg hnil]
  refine Prog.Sat.bind (sat_act (fun _ => rfl) ?_)
  intro r
  cases r with
  | error e => trivial
  | ok answer =>
      dsimp only
      cases hvectors : embeddings_of A texts.length answer with
      | error e => trivial
      | ok embeddings =>
          refine Prog.Sat.bind (sat_act (fun _ => .inr ⟨texts, answer, embeddings, htask, rfl, hvectors⟩) ?_)
          intro r'
          cases r' with
          | error e => trivial
          | ok _ =>
              dsimp only
              cases embeddings.mapM (normalize_unit A) <;> trivial

/-- **Every task makes its calls in order.** -/
theorem task_ordered (A : Adapter F) (task : OllamaTask) :
    (task_program A task).Sat (Ordered A task) (fun _ _ => True) [] := by
  cases task with
  | refresh_revision force =>
      refine Prog.Sat.bind ((sat_refresh_revision rfl).mono ?_)
      intro h' r _ _
      cases r <;> trivial
  | embed_batch texts =>
      refine Prog.Sat.bind ((sat_embed_batch rfl).mono ?_)
      intro h' r _ hrecorded
      cases r with
      | error e => trivial
      | ok vectors => exact sat_act (fun _ => hrecorded) fun _ => trivial
  | revision_snapshot =>
      refine Prog.Sat.bind (sat_act (fun _ => rfl) ?_)
      intro r
      cases r <;> trivial

end Programs

/-! ## What a log says -/

section Logs

variable {A : Adapter F}

abbrev OllamaLog (A : Adapter F) := List (Event (ollama A))

/-- The answers of the probes, newest first. -/
def received (log : OllamaLog A) : List Answer :=
  log.filterMap fun
    | .called _ ⟨.receive_tags, .ok answer⟩ => some answer
    | _ => none

/-- The answers whose probe has recorded its outcome, newest first. -/
def settled : OllamaLog A → List Answer
  | [] => []
  | .called t ⟨.set_revision _, _⟩ :: log => (unrecorded (own t log)).toList ++ settled log
  | .called t ⟨.set_last_probe_failure (some _), _⟩ :: log =>
      (unrecorded (own t log)).toList ++ settled log
  | _ :: log => settled log

/-- The snapshot of the latest answer that lists the model. -/
def latest_verified (A : Adapter F) (answers : List Answer) : Snapshot :=
  match answers.findSome? (Answer.lists A) with
  | some digest => { known := true, value := digest }
  | none => UNKNOWN_REVISION

/-- The times of the failed probes since a success or an embed last ended the cooldown. -/
def uncleared : OllamaLog A → List ℚ
  | [] => []
  | .called _ ⟨.set_last_probe_failure (some failed_at), _⟩ :: log => failed_at :: uncleared log
  | .called _ ⟨.set_last_probe_failure none, _⟩ :: _ => []
  | _ :: log => uncleared log

/-- The clock after a log. -/
def clock_of (start : ℚ) : OllamaLog A → ℚ
  | [] => start
  | .env elapsed :: log => clock_of start log + (elapsed : ℚ≥0)
  | _ :: log => clock_of start log

/-- The revision the thread has read since its last other call. -/
def seen_revision : List OllamaCall → Option Snapshot
  | ⟨.read_revision, .ok snapshot⟩ :: _ => some snapshot
  | ⟨.read_last_probe_failure, _⟩ :: h => seen_revision h
  | ⟨.monotonic, _⟩ :: h => seen_revision h
  | _ => none

/-- The time of the failed probe it has read. -/
def seen_failure : List OllamaCall → Option (Option ℚ)
  | ⟨.read_last_probe_failure, .ok failed_at⟩ :: _ => some failed_at
  | ⟨.monotonic, _⟩ :: h => seen_failure h
  | _ => none

/-- The time it has read. -/
def seen_clock : List OllamaCall → Option ℚ
  | ⟨.monotonic, .ok now⟩ :: _ => some now
  | _ => none

/-- What the thread in the lock has read still stands, save that an embed may have ended the
cooldown and that the clock runs. -/
structure Seen (A : Adapter F) (start : ℚ) (log : OllamaLog A) (h : List OllamaCall) : Prop where
  revision : ∀ snapshot, seen_revision h = some snapshot → snapshot = latest_verified A (settled log)
  failure : ∀ failed_at, seen_failure h = some failed_at →
    ∀ earlier ∈ uncleared log, ∃ latest, failed_at = some latest ∧ earlier ≤ latest
  clock : ∀ now, seen_clock h = some now →
    (∀ earlier ∈ uncleared log, earlier ≤ now) ∧ now ≤ clock_of start log

/-- The attributes are what the log says, and so is the lock. -/
structure Inv (A : Adapter F) (start : ℚ) (w : AdapterState) (log : OllamaLog A) : Prop where
  locked : ∀ t, HoldsProbe (own t log) ↔ w.probe_lock = some t
  revision : w.revision = latest_verified A (settled log)
  failure : w.last_probe_failure = (uncleared log).head?
  clock : w.clock = clock_of start log
  verified : ∀ t digest r, .called t ⟨.set_revision digest, r⟩ ∈ log → w.revision.known = true
  past : ∀ failed_at ∈ uncleared log, failed_at ≤ clock_of start log
  descending : (uncleared log).Pairwise fun later earlier => earlier ≤ later
  free : w.probe_lock = none → received log = settled log
  /-- The answer its holder has yet to record is the only one that is not settled. -/
  pending : ∀ t, w.probe_lock = some t →
    received log = (unrecorded (own t log)).toList ++ settled log
  seen : ∀ t, w.probe_lock = some t → Seen A start log (own t log)

/-- A thread that has read nothing believes nothing. -/
theorem seen_of_nothing {start : ℚ} {log : OllamaLog A} {h : List OllamaCall}
    (hrevision : seen_revision h = none) (hfailure : seen_failure h = none)
    (hclock : seen_clock h = none) : Seen A start log h := by
  refine ⟨?_, ?_, ?_⟩
  · rw [hrevision]
    exact fun _ heq => by cases heq
  · rw [hfailure]
    exact fun _ heq => by cases heq
  · rw [hclock]
    exact fun _ heq => by cases heq

/-- Settling nothing, failing nowhere and not turning the clock back leaves what was seen. -/
theorem Seen.later {start : ℚ} {log log' : OllamaLog A} {h : List OllamaCall}
    (hs : Seen A start log h) (hsettled : settled log' = settled log)
    (huncleared : ∀ failed_at ∈ uncleared log', failed_at ∈ uncleared log)
    (hclock : clock_of start log ≤ clock_of start log') : Seen A start log' h := by
  refine ⟨?_, ?_, ?_⟩
  · rw [hsettled]
    exact hs.revision
  · intro failed_at hread earlier hin
    exact hs.failure failed_at hread earlier (huncleared earlier hin)
  · intro now hread
    obtain ⟨hbefore, hnow⟩ := hs.clock now hread
    exact ⟨fun earlier hin => hbefore earlier (huncleared earlier hin), hnow.trans hclock⟩

/-- The adapter as it is made: unknown, no failure, and nobody in the lock. -/
theorem inv_initial (start : ℚ) :
    Inv A start { clock := start } ([] : OllamaLog A) := by
  refine ⟨?_, rfl, rfl, rfl, ?_, ?_, List.Pairwise.nil, fun _ => rfl, ?_, ?_⟩
  · intro t
    constructor <;> intro h <;> cases h
  · intro t digest r hin
    cases hin
  · intro failed_at hin
    cases hin
  · intro t ht
    cases ht
  · intro t ht
    cases ht

/-! ### One step -/

section Steps

variable {start : ℚ} {w : AdapterState} {log : OllamaLog A} {u : ℕ}

/-- Nothing changes for a thread when another one makes a call. -/
theorem own_or (log : OllamaLog A) (u t : ℕ) (k : OllamaCall) :
    (u = t ∧ own t (.called u k :: log) = k :: own u log)
      ∨ (u ≠ t ∧ own t (.called u k :: log) = own t log) := by
  by_cases ht : u = t
  · subst ht
    exact .inl ⟨rfl, own_called_self u k log⟩
  · exact .inr ⟨ht, own_called_ne ht k log⟩

/-- Only a call that sets the revision has to answer for it. -/
theorem set_before {P : Prop} {k : OllamaCall} {log : OllamaLog A}
    (hi : ∀ t digest r, .called t ⟨.set_revision digest, r⟩ ∈ log → P)
    (hset : ∀ digest r, k ≠ ⟨.set_revision digest, r⟩) (t : ℕ) (digest : Option Text)
    (r : Except Exc Unit) (hin : .called t ⟨.set_revision digest, r⟩ ∈ (.called u k :: log)) :
    P := by
  rcases List.mem_cons.mp hin with heq | hin
  · obtain ⟨-, hk⟩ := Event.called.inj heq
    exact absurd hk.symm (hset digest r)
  · exact hi t digest r hin

/-- The holder of the lock makes a call that says nothing of the lock. -/
theorem locked_holder {k : OllamaCall} {lock : Option ℕ} {log : OllamaLog A}
    (hi : ∀ t, HoldsProbe (own t log) ↔ lock = some t) (hholds : HoldsProbe (own u log))
    (hk : lock_event k = none) (t : ℕ) : HoldsProbe (own t (.called u k :: log)) ↔ lock = some t := by
  rcases own_or log u t k with ⟨rfl, heq⟩ | ⟨ht, heq⟩
  · rw [heq]
    exact ⟨fun _ => (hi u).mp hholds, fun _ => hholds.cons hk⟩
  · rw [heq]
    exact hi t

/-- A call that records nothing. -/
theorem Inv.quiet {k : OllamaCall} (hi : Inv A start w log)
    (hholds : HoldsProbe (k :: own u log) ↔ HoldsProbe (own u log))
    (hreceived : received (A := A) (.called u k :: log) = received log)
    (hsettled : settled (A := A) (.called u k :: log) = settled log)
    (huncleared : uncleared (A := A) (.called u k :: log) = uncleared log)
    (hset : ∀ digest r, k ≠ ⟨.set_revision digest, r⟩)
    (hunrecorded : unrecorded (k :: own u log) = unrecorded (own u log))
    (hseen : w.probe_lock = some u → Seen A start log (k :: own u log)) :
    Inv A start w (.called u k :: log) := by
  refine ⟨?_, ?_, ?_, hi.clock, ?_, ?_, ?_, ?_, ?_, ?_⟩
  · intro t
    by_cases ht : u = t
    · subst ht
      rw [own_called_self, hholds]
      exact hi.locked u
    · rw [own_called_ne ht]
      exact hi.locked t
  · rw [hsettled]
    exact hi.revision
  · rw [huncleared]
    exact hi.failure
  · exact set_before hi.verified hset
  · rw [huncleared]
    exact hi.past
  · rw [huncleared]
    exact hi.descending
  · rw [hreceived, hsettled]
    exact hi.free
  · intro t hlock
    rw [hreceived, hsettled]
    by_cases ht : u = t
    · subst ht
      rw [own_called_self, hunrecorded]
      exact hi.pending u hlock
    · rw [own_called_ne ht]
      exact hi.pending t hlock
  · intro t hlock
    -- the ghosts of the log are as they were, so nothing seen is lost
    have hlater : ∀ h, Seen A start log h → Seen A start (.called u k :: log) h := by
      intro h hs
      refine hs.later hsettled ?_ (le_refl _)
      rw [huncleared]
      exact fun _ hin => hin
    by_cases ht : u = t
    · subst ht
      rw [own_called_self]
      exact hlater _ (hseen hlock)
    · rw [own_called_ne ht]
      exact hlater _ (hi.seen t hlock)

/-- Who takes the lock finds every answer settled. -/
theorem Inv.acquire (hi : Inv A start w log) (hlock : w.probe_lock = none) (hown : own u log = []) :
    Inv A start { w with probe_lock := some u }
      (.called u ⟨.acquire_probe_lock, .ok true⟩ :: log) := by
  refine ⟨?_, hi.revision, hi.failure, hi.clock, ?_, hi.past, hi.descending, ?_, ?_, ?_⟩
  · intro t
    rcases own_or log u t ⟨.acquire_probe_lock, .ok true⟩ with ⟨rfl, heq⟩ | ⟨ht, heq⟩
    · rw [heq]
      exact ⟨fun _ => rfl, fun _ => rfl⟩
    · rw [heq, hi.locked t, hlock]
      constructor
      · intro h
        cases h
      · intro h
        exact absurd (Option.some.inj h) ht
  · exact set_before hi.verified fun _ _ h => by cases h
  · intro h
    cases h
  · intro t ht
    obtain rfl := Option.some.inj ht
    rw [own_called_self]
    exact hi.free hlock
  · intro t ht
    obtain rfl := Option.some.inj ht
    rw [own_called_self, hown]
    exact seen_of_nothing rfl rfl rfl

/-- Who gives it up has settled its own. -/
theorem Inv.release (hi : Inv A start w log) (hholds : HoldsProbe (own u log))
    (hrecorded : Recorded (own u log)) {r : Except Exc Unit} :
    Inv A start { w with probe_lock := none } (.called u ⟨.release_probe_lock, r⟩ :: log) := by
  -- only the holder releases the lock, so nobody holds it afterwards
  have hlock : w.probe_lock = some u := (hi.locked u).mp hholds
  refine ⟨?_, hi.revision, hi.failure, hi.clock, ?_, hi.past, hi.descending, ?_, ?_, ?_⟩
  · intro t
    rcases own_or log u t ⟨.release_probe_lock, r⟩ with ⟨rfl, heq⟩ | ⟨ht, heq⟩
    · rw [heq]
      constructor <;> intro h <;> cases h
    · rw [heq, hi.locked t, hlock]
      constructor
      · intro h
        exact absurd (Option.some.inj h) ht
      · intro h
        cases h
  · exact set_before hi.verified fun _ _ h => by cases h
  · intro _
    have hpending := hi.pending u hlock
    rw [hrecorded] at hpending
    exact hpending
  · intro t ht
    cases ht
  · intro t ht
    cases ht

/-- An answer has come and is not settled; only the holder of the lock has such a one. -/
theorem Inv.receive (hi : Inv A start w log) (hholds : HoldsProbe (own u log))
    (hrecorded : Recorded (own u log)) {answer : Answer} :
    Inv A start w (.called u ⟨.receive_tags, .ok answer⟩ :: log) := by
  have hlock : w.probe_lock = some u := (hi.locked u).mp hholds
  refine ⟨locked_holder hi.locked hholds rfl, hi.revision, hi.failure, hi.clock, ?_, hi.past,
    hi.descending, ?_, ?_, ?_⟩
  · exact set_before hi.verified fun _ _ h => by cases h
  · intro hfree
    rw [hlock] at hfree
    cases hfree
  · intro t ht
    obtain rfl := Option.some.inj (hlock.symm.trans ht)
    have hpending := hi.pending u hlock
    rw [hrecorded] at hpending
    rw [own_called_self]
    exact congrArg (answer :: ·) hpending
  · intro t ht
    obtain rfl := Option.some.inj (hlock.symm.trans ht)
    rw [own_called_self]
    exact seen_of_nothing rfl rfl rfl

/-- The answer lists the model, and now the revision is its digest. -/
theorem Inv.set_revision (hi : Inv A start w log) (hholds : HoldsProbe (own u log))
    {answer : Answer} {digest : Option Text} (hunrecorded : unrecorded (own u log) = some answer)
    (hlists : answer.lists A = some digest) {r : Except Exc Unit} :
    Inv A start { w with revision := ⟨true, digest⟩ } (.called u ⟨.set_revision digest, r⟩ :: log) := by
  have hlock : w.probe_lock = some u := (hi.locked u).mp hholds
  have hsettled : settled (A := A) (.called u ⟨.set_revision digest, r⟩ :: log)
      = answer :: settled log := by
    rw [settled, hunrecorded]
    rfl
  refine ⟨locked_holder hi.locked hholds rfl, ?_, hi.failure, hi.clock, fun _ _ _ _ => rfl, hi.past,
    hi.descending, ?_, ?_, ?_⟩
  · rw [hsettled, latest_verified, List.findSome?_cons, hlists]
  · intro hfree
    rw [show w.probe_lock = none from hfree] at hlock
    cases hlock
  · intro t ht
    obtain rfl := Option.some.inj (hlock.symm.trans ht)
    have hpending := hi.pending u hlock
    rw [hunrecorded] at hpending
    rw [own_called_self, hsettled]
    exact hpending
  · intro t ht
    obtain rfl := Option.some.inj (hlock.symm.trans ht)
    rw [own_called_self]
    exact seen_of_nothing rfl rfl rfl

/-- The answer does not list the model, and now its time is the latest failure. -/
theorem Inv.set_failure (hi : Inv A start w log) (hholds : HoldsProbe (own u log))
    {answer : Answer} {failed_at : ℚ} (hunrecorded : unrecorded (own u log) = some answer)
    (hlists : answer.lists A = none) (hclock : seen_clock (own u log) = some failed_at)
    {r : Except Exc Unit} :
    Inv A start { w with last_probe_failure := some failed_at }
      (.called u ⟨.set_last_probe_failure (some failed_at), r⟩ :: log) := by
  have hlock : w.probe_lock = some u := (hi.locked u).mp hholds
  have hsettled : settled (A := A) (.called u ⟨.set_last_probe_failure (some failed_at), r⟩ :: log)
      = answer :: settled log := by
    rw [settled, hunrecorded]
    rfl
  -- the time of the failure is the one the thread read last, which no recorded one exceeds
  obtain ⟨hbefore, hnow⟩ := (hi.seen u hlock).clock failed_at hclock
  refine ⟨locked_holder hi.locked hholds rfl, ?_, rfl, hi.clock, ?_, ?_, ?_, ?_, ?_, ?_⟩
  · rw [hsettled, latest_verified, List.findSome?_cons, hlists]
    exact hi.revision
  · exact set_before hi.verified fun _ _ h => by cases h
  · intro earlier hin
    rcases List.mem_cons.mp hin with rfl | hin
    · exact hnow
    · exact hi.past earlier hin
  · exact List.pairwise_cons.mpr ⟨hbefore, hi.descending⟩
  · intro hfree
    rw [show w.probe_lock = none from hfree] at hlock
    cases hlock
  · intro t ht
    obtain rfl := Option.some.inj (hlock.symm.trans ht)
    have hpending := hi.pending u hlock
    rw [hunrecorded] at hpending
    rw [own_called_self, hsettled]
    exact hpending
  · intro t ht
    obtain rfl := Option.some.inj (hlock.symm.trans ht)
    rw [own_called_self]
    exact seen_of_nothing rfl rfl rfl

/-- The end of a cooldown; the thread may or may not hold the lock. -/
theorem Inv.end_cooldown (hi : Inv A start w log) (hrecorded : Recorded (own u log))
    {r : Except Exc Unit} :
    Inv A start { w with last_probe_failure := none }
      (.called u ⟨.set_last_probe_failure none, r⟩ :: log) := by
  -- what others have seen of the failures still bounds the ones that count: there are none
  have hnil : ∀ x : ℚ, x ∉ uncleared (A := A) (.called u ⟨.set_last_probe_failure none, r⟩ :: log) := by
    intro x hin
    cases hin
  refine ⟨?_, hi.revision, rfl, hi.clock, ?_, ?_, List.Pairwise.nil, hi.free, ?_, ?_⟩
  · intro t
    rcases own_or log u t ⟨.set_last_probe_failure none, r⟩ with ⟨rfl, heq⟩ | ⟨ht, heq⟩
    · rw [heq]
      exact hi.locked u
    · rw [heq]
      exact hi.locked t
  · exact set_before hi.verified fun _ _ h => by cases h
  · intro failed_at hin
    exact absurd hin (hnil failed_at)
  · intro t ht
    rcases own_or log u t ⟨.set_last_probe_failure none, r⟩ with ⟨rfl, heq⟩ | ⟨-, heq⟩
    · have hpending := hi.pending u ht
      rw [hrecorded] at hpending
      rw [heq]
      exact hpending
    · rw [heq]
      exact hi.pending t ht
  · intro t ht
    rcases own_or log u t ⟨.set_last_probe_failure none, r⟩ with ⟨rfl, heq⟩ | ⟨-, heq⟩
    · rw [heq]
      exact seen_of_nothing rfl rfl rfl
    · rw [heq]
      exact (hi.seen t ht).later rfl (fun x hin => absurd hin (hnil x)) (le_refl _)

theorem Inv.read_revision (hi : Inv A start w log) (hrecorded : Recorded (own u log)) :
    Inv A start w (.called u ⟨.read_revision, .ok w.revision⟩ :: log) := by
  refine hi.quiet Iff.rfl rfl rfl rfl (fun _ _ h => by cases h) hrecorded.symm ?_
  intro _
  refine ⟨?_, fun _ h => (by cases h), fun _ h => (by cases h)⟩
  intro snapshot hread
  obtain rfl := Option.some.inj hread
  exact hi.revision

theorem Inv.read_failure (hi : Inv A start w log) (hrecorded : Recorded (own u log)) :
    Inv A start w (.called u ⟨.read_last_probe_failure, .ok w.last_probe_failure⟩ :: log) := by
  refine hi.quiet Iff.rfl rfl rfl rfl (fun _ _ h => by cases h) hrecorded.symm ?_
  intro hlock
  refine ⟨(hi.seen u hlock).revision, ?_, fun _ h => (by cases h)⟩
  intro failed_at hread earlier hin
  obtain rfl := Option.some.inj hread
  rw [hi.failure]
  -- the one that is read is the latest of those that still count
  have hsorted := hi.descending
  cases hfailures : uncleared log with
  | nil =>
      rw [hfailures] at hin
      cases hin
  | cons latest rest =>
      rw [hfailures] at hin hsorted
      refine ⟨latest, rfl, ?_⟩
      rcases List.mem_cons.mp hin with rfl | hin
      · exact le_refl _
      · exact (List.pairwise_cons.mp hsorted).1 earlier hin

theorem unrecorded_monotonic {h : List OllamaCall} {now : ℚ}
    (ho : Recorded h ∨ ∃ answer h', h = ⟨.receive_tags, .ok answer⟩ :: h') :
    unrecorded (⟨.monotonic, .ok now⟩ :: h) = unrecorded h := by
  rcases ho with hrecorded | ⟨answer, h', rfl⟩
  · have hnone : unrecorded h = none := hrecorded
    rw [hnone]
    cases h with
    | nil => rfl
    | cons k h' =>
        obtain ⟨o, r⟩ := k
        cases o with
        | receive_tags =>
            cases r with
            | ok answer => cases hnone
            | error e => rfl
        | _ => rfl
  · rfl

/-- Reading the clock neither settles anything nor lets time pass. -/
theorem Inv.monotonic (hi : Inv A start w log)
    (ho : Recorded (own u log) ∨ ∃ answer h', own u log = ⟨.receive_tags, .ok answer⟩ :: h') :
    Inv A start w (.called u ⟨.monotonic, .ok w.clock⟩ :: log) := by
  refine hi.quiet Iff.rfl rfl rfl rfl (fun _ _ h => by cases h) (unrecorded_monotonic ho) ?_
  intro hlock
  refine ⟨(hi.seen u hlock).revision, (hi.seen u hlock).failure, ?_⟩
  intro now hread
  obtain rfl := Option.some.inj hread
  rw [hi.clock]
  exact ⟨hi.past, le_refl _⟩

theorem recorded_of_end {task : OllamaTask} {h : List OllamaCall} {r : Except Exc Unit}
    (ho : Ordered A task h ⟨.set_last_probe_failure none, r⟩) : Recorded h := by
  rcases ho with ⟨digest, r', h', rfl⟩ | ⟨texts, answer, vectors, -, rfl, -⟩
  · rfl
  · rfl

/-- One call of a thread that keeps the order. -/
theorem inv_call {task : OllamaTask} {o : OllamaOp} {outcome : Outcome} {r : Except Exc o.Resp}
    {w' : AdapterState} (hi : Inv A start w log) (ho : Ordered A task (own u log) ⟨o, r⟩)
    (hx : w.exec u o outcome = some (r, w')) : Inv A start w' (.called u ⟨o, r⟩ :: log) := by
  cases o with
  | acquire_probe_lock =>
      dsimp only [AdapterState.exec] at hx
      -- the acquisition is the first call of its own probe
      have hown : own u log = [] := ho
      cases hlock : w.probe_lock with
      | none =>
          rw [hlock] at hx
          obtain ⟨rfl, rfl⟩ := Prod.mk.inj (Option.some.inj hx)
          exact hi.acquire hlock hown
      | some t =>
          rw [hlock] at hx
          cases outcome with
          -- the wait runs out: nothing is held and nothing was read
          | times_out =>
              obtain ⟨rfl, rfl⟩ := Prod.mk.inj (Option.some.inj hx)
              refine hi.quiet ?_ rfl rfl rfl (fun _ _ h => by cases h) ?_ ?_
              · rw [hown]
                constructor <;> intro h <;> cases h
              · rw [hown]
                rfl
              · exact fun _ => seen_of_nothing rfl rfl rfl
          | goes => cases hx
          | answers answer => cases hx
  | release_probe_lock =>
      obtain ⟨rfl, rfl⟩ := Prod.mk.inj (Option.some.inj hx)
      exact hi.release ho.1 ho.2
  | read_revision =>
      obtain ⟨rfl, rfl⟩ := Prod.mk.inj (Option.some.inj hx)
      exact hi.read_revision ho
  | read_last_probe_failure =>
      obtain ⟨rfl, rfl⟩ := Prod.mk.inj (Option.some.inj hx)
      exact hi.read_failure ho
  | monotonic =>
      obtain ⟨rfl, rfl⟩ := Prod.mk.inj (Option.some.inj hx)
      exact hi.monotonic ho
  | send_get_tags =>
      obtain ⟨rfl, rfl⟩ := Prod.mk.inj (Option.some.inj hx)
      have hrecorded : Recorded (own u log) := ho.2.1
      exact hi.quiet Iff.rfl rfl rfl rfl (fun _ _ h => by cases h) hrecorded.symm
        fun _ => seen_of_nothing rfl rfl rfl
  | receive_tags =>
      cases outcome with
      | answers answer =>
          obtain ⟨rfl, rfl⟩ := Prod.mk.inj (Option.some.inj hx)
          exact hi.receive ho.1 ho.2
      | goes => cases hx
      | times_out => cases hx
  | set_revision digest =>
      obtain ⟨rfl, rfl⟩ := Prod.mk.inj (Option.some.inj hx)
      obtain ⟨hholds, answer, h', heq, hlists⟩ := ho
      refine hi.set_revision hholds ?_ hlists
      rw [heq]
      rfl
  | set_last_probe_failure failed_at =>
      obtain ⟨rfl, rfl⟩ := Prod.mk.inj (Option.some.inj hx)
      cases failed_at with
      | none => exact hi.end_cooldown (recorded_of_end ho)
      | some failed_at =>
          obtain ⟨hholds, answer, h', heq, hlists⟩ := ho
          refine hi.set_failure hholds ?_ hlists ?_
          · rw [heq]
            rfl
          · rw [heq]
            rfl
  | http_post_embed texts =>
      cases outcome with
      | answers answer =>
          obtain ⟨rfl, rfl⟩ := Prod.mk.inj (Option.some.inj hx)
          have hrecorded : Recorded (own u log) := ho
          exact hi.quiet Iff.rfl rfl rfl rfl (fun _ _ h => by cases h) hrecorded.symm
            fun _ => seen_of_nothing rfl rfl rfl
      | goes => cases hx
      | times_out => cases hx
  | embed_succeeded =>
      obtain ⟨rfl, rfl⟩ := Prod.mk.inj (Option.some.inj hx)
      have hrecorded : Recorded (own u log) := ho
      exact hi.quiet Iff.rfl rfl rfl rfl (fun _ _ h => by cases h) hrecorded.symm
        fun _ => seen_of_nothing rfl rfl rfl

end Steps

/-! ### Whole runs -/

section Runs

variable {start : ℚ} {c c' : (ollama A).Conf}

/-- One step of any thread, or of time. -/
theorem inv_step {a : Action (ollama A)} (ho : InOrder (Ordered A) (fun _ _ _ => True) c)
    (hi : Inv A start c.world c.log) (hs : c.step a = some c') : Inv A start c'.world c'.log := by
  obtain ⟨task, w, rfl, hw, rfl⟩ | ⟨t, outcome, o, k, r, w, rfl, hk, hx, rfl⟩ | ⟨elapsed, rfl, rfl⟩ :=
    Conf.step_cases hs
  · -- a task starts: no call, so nothing is settled or failed
    obtain rfl := Option.some.inj hw
    refine ⟨hi.locked, hi.revision, hi.failure, hi.clock, ?_, hi.past, hi.descending, hi.free,
      hi.pending, ?_⟩
    · intro t digest r hin
      rcases List.mem_cons.mp hin with heq | hin
      · cases heq
      · exact hi.verified t digest r hin
    · intro t ht
      exact (hi.seen t ht).later rfl (fun _ hin => hin) (le_refl _)
  · obtain ⟨task, -, hsat⟩ := ho.live t _ hk
    exact inv_call hi (hsat r).1 hx
  · -- time passes
    have hclock : clock_of start c.log ≤ clock_of start (.env elapsed :: c.log) := by
      rw [clock_of]
      have hpos : (0 : ℚ) ≤ elapsed := elapsed.2
      linarith
    refine ⟨hi.locked, hi.revision, hi.failure, ?_, ?_, ?_, hi.descending, hi.free, hi.pending, ?_⟩
    · exact congrArg (· + (elapsed : ℚ)) hi.clock
    · intro t digest r hin
      rcases List.mem_cons.mp hin with heq | hin
      · cases heq
      · exact hi.verified t digest r hin
    · intro failed_at hin
      exact (hi.past failed_at hin).trans hclock
    · intro t ht
      exact (hi.seen t ht).later rfl (fun _ hin => hin) hclock

/-- The runs of one adapter, from the moment it is made. -/
abbrev Running (A : Adapter F) (start : ℚ) (c : (ollama A).Conf) : Prop :=
  Reach (fun _ _ => True) (Conf.initial ({ clock := start } : AdapterState)) c

theorem running_inOrder (h : Running A start c) : InOrder (Ordered A) (fun _ _ _ => True) c :=
  reach_inOrder (task_ordered A) h

/-- The run lemma. -/
theorem running_inv (h : Running A start c) : Inv A start c.world c.log := by
  induction h with
  | init => exact inv_initial start
  | step hr _ hs ih => exact inv_step (running_inOrder hr) ih hs

theorem running_prefix {t : ℕ} {k : OllamaCall} {pre : OllamaLog A} (h : Running A start c)
    (hlog : .called t k :: pre <:+ c.log) :
    ∃ w task, Inv A start w pre ∧ .started t task ∈ pre ∧ Ordered A task (own t pre) k
      ∧ ∃ outcome w', w.exec t k.op outcome = some (k.res, w') := by
  obtain ⟨c₁, a, c₂, h₁, rfl, -, hs, hl, -⟩ := h.cut hlog
  obtain ⟨task, w, rfl, -, rfl⟩ | ⟨u, outcome, o, k', r, w, rfl, hk, hx, rfl⟩ | ⟨e, rfl, rfl⟩ :=
    Conf.step_cases hs
  · cases (List.cons.inj hl).1
  · obtain ⟨rfl, rfl⟩ := Event.called.inj (List.cons.inj hl).1
    obtain ⟨task, hin, hsat⟩ := (running_inOrder h₁).live u _ hk
    exact ⟨c₁.world, task, running_inv h₁, hin, (hsat r).1, outcome, w, hx⟩
  · cases (List.cons.inj hl).1

end Runs

/-! ### The latest answer, and an unforced probe -/

section Results

/-- The revision is known if some settled answer listed the model. -/
theorem latest_verified_known {answers : List Answer} :
    (latest_verified A answers).known = true
      ↔ ∃ payload entry, .body payload ∈ answers ∧ listed_entry A payload = some entry := by
  have hsome : (latest_verified A answers).known = true ↔ (answers.findSome? (Answer.lists A)).isSome := by
    rw [latest_verified]
    cases answers.findSome? (Answer.lists A) with
    | none =>
        constructor <;> intro h <;> cases h
    | some digest => exact ⟨fun _ => rfl, fun _ => rfl⟩
  rw [hsome, List.findSome?_isSome_iff]
  constructor
  · rintro ⟨answer, hin, hlists⟩
    obtain ⟨payload, entry, rfl, hentry⟩ := (lists_isSome A).mp hlists
    exact ⟨payload, entry, hin, hentry⟩
  · rintro ⟨payload, entry, hin, hentry⟩
    exact ⟨_, hin, (lists_isSome A).mpr ⟨payload, entry, rfl, hentry⟩⟩

theorem latest_verified_eq {newer older : List Answer} {payload : Json} {entry : Json.Dict}
    (hentry : listed_entry A payload = some entry)
    (hnewer : ∀ later, .body later ∈ newer → listed_entry A later = none) :
    latest_verified A (newer ++ .body payload :: older)
      = ⟨true, nonempty_str (Json.Dict.get entry "digest")⟩ := by
  have hnone : newer.findSome? (Answer.lists A) = none := by
    rw [List.findSome?_eq_none_iff]
    intro answer hin
    cases hlists : answer.lists A with
    | none => rfl
    | some digest =>
        obtain ⟨later, entry', rfl, hentry'⟩ := (lists_isSome A).mp (Option.isSome_of_eq_some hlists)
        rw [hnewer later hin] at hentry'
        cases hentry'
  rw [latest_verified, List.findSome?_append, hnone, Option.none_or, List.findSome?_cons, lists_body,
    hentry]
  rfl

theorem uncleared_of_split {failed_at : ℚ} {u : ℕ} {r : Except Exc Unit} {mid earlier : OllamaLog A}
    (hmid : ∀ v r', .called v ⟨.set_last_probe_failure none, r'⟩ ∉ mid) :
    failed_at ∈ uncleared (mid ++ .called u ⟨.set_last_probe_failure (some failed_at), r⟩ :: earlier) := by
  induction mid with
  | nil => exact List.mem_cons_self
  | cons e mid ih =>
      have hrest := ih fun v r' hin => hmid v r' (List.mem_cons_of_mem _ hin)
      rcases e with ⟨v, task⟩ | ⟨v, o, r'⟩ | elapsed
      · exact hrest
      · cases o with
        | set_last_probe_failure failed_at' =>
            cases failed_at' with
            | none => exact absurd List.mem_cons_self (hmid v r')
            | some _ => exact List.mem_cons_of_mem _ hrest
        | _ => exact hrest
      · exact hrest

/-- What an unforced probe finds when it is sent. -/
theorem unforced_send {start : ℚ} {w : AdapterState} {pre : OllamaLog A} {t : ℕ}
    {r : Except Exc Unit} (hi : Inv A start w pre)
    (ho : Ordered A (.refresh_revision false) (own t pre) ⟨.send_get_tags, r⟩) :
    w.revision.known = false
      ∧ ∀ failed_at ∈ uncleared pre, PROBE_COOLDOWN_SECONDS ≤ clock_of start pre - failed_at := by
  obtain ⟨hholds, -, hcheck⟩ := ho
  -- the thread is in the lock, so what it checked still stands
  have hseen := hi.seen t ((hi.locked t).mp hholds)
  obtain ⟨snapshot, hunknown, ⟨h', heq⟩ | ⟨now, latest, h', hcool, heq⟩⟩ := hcheck rfl
  · rw [heq] at hseen
    have hrevision := hseen.revision snapshot rfl
    refine ⟨by rw [hi.revision, ← hrevision, hunknown], ?_⟩
    intro failed_at hin
    obtain ⟨latest, hnone, -⟩ := hseen.failure none rfl failed_at hin
    cases hnone
  · rw [heq] at hseen
    have hrevision := hseen.revision snapshot rfl
    refine ⟨by rw [hi.revision, ← hrevision, hunknown], ?_⟩
    intro failed_at hin
    obtain ⟨latest', hlatest, hle⟩ := hseen.failure (some latest) rfl failed_at hin
    obtain rfl := Option.some.inj hlatest
    have hnow := (hseen.clock now rfl).2
    linarith

/-- An event settles at most one answer: a probe that found the model sets the revision, and any
other sets the time of its failure. -/
theorem settled_event {start : ℚ} {c : (ollama A).Conf} {e : Event (ollama A)} {pre : OllamaLog A}
    (h : Running A start c) (hlog : e :: pre <:+ c.log) :
    settled (e :: pre) = settled pre
      ∨ ∃ answer, settled (e :: pre) = answer :: settled pre
        ∧ ((answer.lists A).isSome
          ∨ answer.lists A = none ∧ ∃ u failed_at r,
            e = .called u ⟨.set_last_probe_failure (some failed_at), r⟩) := by
  rcases e with ⟨v, task⟩ | ⟨v, o, r⟩ | elapsed
  · exact .inl rfl
  · obtain ⟨w, task, -, -, ho, -⟩ := running_prefix h hlog
    cases o with
    | set_revision digest =>
        obtain ⟨-, answer, h', heq, hlists⟩ := ho
        refine .inr ⟨answer, ?_, .inl (Option.isSome_of_eq_some hlists)⟩
        rw [settled, heq]
        rfl
    | set_last_probe_failure failed_at =>
        cases failed_at with
        | none => exact .inl rfl
        | some failed_at =>
            obtain ⟨-, answer, h', heq, hlists⟩ := ho
            refine .inr ⟨answer, ?_, .inr ⟨hlists, v, failed_at, r, rfl⟩⟩
            rw [settled, heq]
            rfl
    | _ => exact .inl rfl
  · exact .inl rfl

/-- An embed whose answer passed validation ended the cooldown in the last part of a log. -/
def EmbedReset (A : Adapter F) (last log : OllamaLog A) : Prop :=
  ∃ t r texts answer vectors, .called t ⟨.set_last_probe_failure none, r⟩ ∈ last
    ∧ .called t ⟨.http_post_embed texts, .ok answer⟩ ∈ log
    ∧ embeddings_of A texts.length answer = .ok vectors

/-- While the revision is unknown, only an embed can have ended a cooldown. -/
theorem not_reset {start : ℚ} {c : (ollama A).Conf} {w : AdapterState} {last earlier : OllamaLog A}
    (h : Running A start c) (hlog : last ++ earlier <:+ c.log)
    (hi : Inv A start w (last ++ earlier)) (hunknown : w.revision.known = false)
    (hembed : ¬ EmbedReset A last (last ++ earlier)) (v : ℕ) (r : Except Exc Unit) :
    .called v ⟨.set_last_probe_failure none, r⟩ ∉ last := by
  intro hin
  obtain ⟨newer, older, rfl⟩ := List.append_of_mem hin
  have hpre : .called v ⟨.set_last_probe_failure none, r⟩ :: (older ++ earlier)
      <:+ newer ++ .called v ⟨.set_last_probe_failure none, r⟩ :: older ++ earlier := by
    rw [List.append_assoc]
    exact List.suffix_append _ _
  have hin_log : ∀ k, k ∈ own v (older ++ earlier) →
      .called v k ∈ newer ++ .called v ⟨.set_last_probe_failure none, r⟩ :: older ++ earlier := by
    intro k hk
    exact hpre.subset (List.mem_cons_of_mem _ (mem_own.mp hk))
  obtain ⟨w', task, -, -, ho, -⟩ := running_prefix h (hpre.trans hlog)
  -- a probe that resets the cooldown has just set the revision
  rcases ho with ⟨digest, r', h', heq⟩ | ⟨texts, answer, vectors, -, heq, hvectors⟩
  · have hset := hin_log ⟨.set_revision digest, r'⟩ (by rw [heq]; exact List.mem_cons_self)
    rw [hi.verified v digest r' hset] at hunknown
    cases hunknown
  · have hpost := hin_log ⟨.http_post_embed texts, .ok answer⟩ (by rw [heq]; exact List.mem_cons_self)
    exact hembed ⟨v, r, texts, answer, vectors, hin, hpost, hvectors⟩

/-- **The verified revision is the latest successful probe's**, in every run of probes, embeds and
reads from the moment the adapter is made. It is known if and only if a settled answer listed the
model, and then it is the digest of the latest that did; every read of it answers so, and no other
answer changes it. Every answer is settled before the probe lock is given up. An unforced probe is
sent only while the revision is unknown, and not within the cooldown of a failed probe unless an
embed whose answer passed validation has ended it. -/
theorem revision_is_latest_verified {start : ℚ} {c : (ollama A).Conf} (h : Running A start c) :
    (c.world.revision.known = true
      ↔ ∃ payload entry, .body payload ∈ settled c.log ∧ listed_entry A payload = some entry)
    ∧ (∀ newer payload entry older, settled c.log = newer ++ .body payload :: older →
        listed_entry A payload = some entry →
        (∀ later, .body later ∈ newer → listed_entry A later = none) →
        c.world.revision = ⟨true, nonempty_str (Json.Dict.get entry "digest")⟩)
    ∧ (∀ t snapshot pre, .called t ⟨.read_revision, .ok snapshot⟩ :: pre <:+ c.log →
        snapshot = latest_verified A (settled pre))
    ∧ (∀ a c', c.step a = some c' → c'.world.revision ≠ c.world.revision →
        ∃ payload entry, settled c'.log = .body payload :: settled c.log
          ∧ listed_entry A payload = some entry)
    ∧ (∃ pending, received c.log = pending ++ settled c.log ∧ pending.length ≤ 1
        ∧ (c.world.probe_lock = none → pending = []))
    ∧ ∀ t r pre, .called t ⟨.send_get_tags, r⟩ :: pre <:+ c.log →
        .started t (.refresh_revision false) ∈ pre →
        (latest_verified A (settled pre)).known = false
        ∧ ∀ last e earlier answer, pre = last ++ e :: earlier →
            settled (e :: earlier) = answer :: settled earlier → answer.lists A = none →
            ¬ EmbedReset A last pre →
            ∃ u failed_at r', e = .called u ⟨.set_last_probe_failure (some failed_at), r'⟩
              ∧ PROBE_COOLDOWN_SECONDS ≤ clock_of start pre - failed_at := by
  have hi := running_inv h
  refine ⟨?_, ?_, ?_, ?_, ?_, ?_⟩
  · rw [hi.revision]
    exact latest_verified_known
  · intro newer payload entry older hsettled hentry hnewer
    rw [hi.revision, hsettled]
    exact latest_verified_eq hentry hnewer
  · intro t snapshot pre hlog
    obtain ⟨w, task, hw, -, -, outcome, w', hx⟩ := running_prefix h hlog
    obtain ⟨hr, -⟩ := Prod.mk.inj (Option.some.inj hx)
    obtain rfl := Except.ok.inj hr
    exact hw.revision
  · intro a c' hs hne
    have h' : Running A start c' := h.step trivial hs
    obtain ⟨e, he⟩ := Conf.step_log hs
    have hafter := (running_inv h').revision
    rw [he] at hafter
    rcases settled_event h' (show e :: c.log <:+ c'.log from he ▸ List.suffix_refl _) with
      hsame | ⟨answer, hsettled, hlists | ⟨hlists, -⟩⟩
    · rw [hsame, ← hi.revision] at hafter
      exact absurd hafter hne
    · obtain ⟨payload, entry, rfl, hentry⟩ := (lists_isSome A).mp hlists
      rw [he]
      exact ⟨payload, entry, hsettled, hentry⟩
    · rw [hsettled, latest_verified, List.findSome?_cons, hlists] at hafter
      exact absurd (hafter.trans hi.revision.symm) hne
  · cases hlock : c.world.probe_lock with
    | none => exact ⟨[], hi.free hlock, Nat.zero_le _, fun _ => rfl⟩
    | some t =>
        refine ⟨(unrecorded (own t c.log)).toList, hi.pending t hlock, ?_, fun hfree => by cases hfree⟩
        cases unrecorded (own t c.log) with
        | none => exact Nat.zero_le _
        | some answer => exact Nat.le_refl _
  · intro t r pre hlog hstarted
    obtain ⟨w, task, hw, hin, ho, -⟩ := running_prefix h hlog
    have hpre : pre <:+ c.log := (List.suffix_cons _ _).trans hlog
    obtain rfl : task = .refresh_revision false :=
      (running_inOrder h).once t _ _ (hpre.subset hin) (hpre.subset hstarted)
    obtain ⟨hunknown, hcool⟩ := unforced_send hw ho
    refine ⟨by rw [← hw.revision, hunknown], ?_⟩
    rintro last e earlier answer rfl hsettled hlists hembed
    -- the failure still counts when the probe is sent
    have hmid := not_reset h hpre hw hunknown hembed
    rcases settled_event h ((List.suffix_append last _).trans hpre) with
      hsame | ⟨answer', hsettled', hsome | ⟨-, u, failed_at, r', rfl⟩⟩
    · rw [hsame] at hsettled
      exact absurd hsettled.symm (List.cons_ne_self _ _)
    · rw [hsettled'] at hsettled
      rw [(List.cons.inj hsettled).1, hlists] at hsome
      cases hsome
    · exact ⟨u, failed_at, r', rfl, hcool failed_at (uncleared_of_split hmid)⟩

end Results

end Logs

/-! ## Two runs -/

namespace Probing

/-- Numbers that a float holds exactly. -/
def exact : Double ℚ where
  of_bits _ := 0
  of_int n := if n.natAbs.log2 < 1024 then some n else none
  is_finite _ := true
  is_zero x := x = 0
  add := (· + ·)
  mul := (· * ·)
  div := (· / ·)
  sqrt x := Nat.sqrt x.num.natAbs / Nat.sqrt x.den

def adapter : Adapter ℚ where
  model := "embedder"
  casefold := id
  lower := id
  double := exact

/-- The threads take these steps, one operation each. -/
def go (t : ℕ) (outcomes : List Outcome) : List (Action (ollama adapter)) :=
  outcomes.map (.run t)

/-- One embedding, of a number that is finite as a float while its square is not. -/
def too_large : Json := .dict [("embeddings", .list [.list [.int (10 ^ 200)]])]

/-- A listing of the model. -/
def listing : Json :=
  .dict [("models", .list [.dict [("name", .str "embedder:latest"), ("digest", .str "sha256:1")]])]

/-- A probe that fails. -/
def failed_probe : List (Action (ollama adapter)) :=
  .start (.refresh_revision false)
    :: go 0 [.goes, .goes, .goes, .goes, .answers .connect_error, .goes, .goes, .goes, .goes]

/-- It fails, waits for the cooldown and lists the model. -/
def patient_probe : List (Action (ollama adapter)) :=
  failed_probe ++ .env 30 :: .start (.refresh_revision false)
    :: go 1 [.goes, .goes, .goes, .goes, .goes, .answers (.body listing), .goes, .goes, .goes, .goes]

/-- It fails, an embed gets an answer that it cannot normalize, and another probe is sent. -/
def early_probe : List (Action (ollama adapter)) :=
  failed_probe ++ .start (.embed_batch ["note"]) :: go 1 [.answers (.body too_large), .goes]
    ++ .start (.refresh_revision false) :: go 2 [.goes, .goes, .goes, .goes]

def after (acts : List (Action (ollama adapter))) : Option (ollama adapter).Conf :=
  (Conf.initial ({} : AdapterState)).steps (fun _ _ => true) acts

theorem reach_after {acts : List (Action (ollama adapter))} {c : (ollama adapter).Conf}
    (h : after acts = some c) : Running adapter 0 c :=
  reach_of_steps (fun _ _ _ => trivial) h

/-- The log when the failure is recorded. -/
def before_failure : OllamaLog adapter :=
  [.called 0 ⟨.monotonic, .ok 0⟩,
    .called 0 ⟨.receive_tags, .ok .connect_error⟩,
    .called 0 ⟨.send_get_tags, .ok ()⟩,
    .called 0 ⟨.read_last_probe_failure, .ok none⟩,
    .called 0 ⟨.read_revision, .ok UNKNOWN_REVISION⟩,
    .called 0 ⟨.acquire_probe_lock, .ok true⟩,
    .started 0 (.refresh_revision false)]

def failure : Event (ollama adapter) := .called 0 ⟨.set_last_probe_failure (some 0), .ok ()⟩

/-- The log from there on, up to the second probe. -/
def before_early_probe : OllamaLog adapter :=
  [.called 2 ⟨.read_last_probe_failure, .ok none⟩,
    .called 2 ⟨.read_revision, .ok UNKNOWN_REVISION⟩,
    .called 2 ⟨.acquire_probe_lock, .ok true⟩,
    .started 2 (.refresh_revision false),
    .called 1 ⟨.set_last_probe_failure none, .ok ()⟩,
    .called 1 ⟨.http_post_embed ["note"], .ok (.body too_large)⟩,
    .started 1 (.embed_batch ["note"]),
    .called 0 ⟨.release_probe_lock, .ok ()⟩,
    .called 0 ⟨.read_revision, .ok UNKNOWN_REVISION⟩]

def before_patient_probe : OllamaLog adapter :=
  [.called 1 ⟨.monotonic, .ok 30⟩,
    .called 1 ⟨.read_last_probe_failure, .ok (some 0)⟩,
    .called 1 ⟨.read_revision, .ok UNKNOWN_REVISION⟩,
    .called 1 ⟨.acquire_probe_lock, .ok true⟩,
    .started 1 (.refresh_revision false),
    .env (30 : ℚ≥0),
    .called 0 ⟨.release_probe_lock, .ok ()⟩,
    .called 0 ⟨.read_revision, .ok UNKNOWN_REVISION⟩]

def after_patient_probe : OllamaLog adapter :=
  [.called 1 ⟨.release_probe_lock, .ok ()⟩,
    .called 1 ⟨.read_revision, .ok ⟨true, some "sha256:1"⟩⟩,
    .called 1 ⟨.set_last_probe_failure none, .ok ()⟩,
    .called 1 ⟨.set_revision (some "sha256:1"), .ok ()⟩,
    .called 1 ⟨.receive_tags, .ok (.body listing)⟩]

set_option maxRecDepth 10000 in
theorem early_probe_log : (after early_probe).map (fun c => (c.log, c.threads 1))
    = some (.called 2 ⟨.send_get_tags, .ok ()⟩ :: (before_early_probe ++ failure :: before_failure),
        some (.raise (.ProviderError .PROVIDER_ERROR))) := by
  rfl

set_option maxRecDepth 10000 in
theorem patient_probe_log : (after patient_probe).map (·.log)
    = some (after_patient_probe ++ .called 1 ⟨.send_get_tags, .ok ()⟩
        :: (before_patient_probe ++ failure :: before_failure)) := by
  with_unfolding_all rfl

end Probing

/-- A failed probe, half a minute later one that lists the model. -/
theorem revision_is_latest_verified_sample : ∃ c : (ollama Probing.adapter).Conf,
    Running Probing.adapter 0 c ∧ c.world.revision = ⟨true, some "sha256:1"⟩
    ∧ ∃ pre, .called 1 ⟨.send_get_tags, .ok ()⟩ :: pre <:+ c.log
      ∧ .started 1 (.refresh_revision false) ∈ pre
      ∧ PROBE_COOLDOWN_SECONDS ≤ clock_of 0 pre - 0 := by
  obtain ⟨c, hc, hlog⟩ := Option.map_eq_some_iff.mp Probing.patient_probe_log
  have hrun := Probing.reach_after hc
  have hsend : .called 1 ⟨.send_get_tags, .ok ()⟩
      :: (Probing.before_patient_probe ++ Probing.failure :: Probing.before_failure) <:+ c.log := by
    rw [hlog]
    exact List.suffix_append _ _
  have hstarted : .started 1 (.refresh_revision false)
      ∈ Probing.before_patient_probe ++ Probing.failure :: Probing.before_failure := by
    simp [Probing.before_patient_probe]
  obtain ⟨-, hlatest, -, -, -, hunforced⟩ := revision_is_latest_verified hrun
  refine ⟨c, hrun, ?_, _, hsend, hstarted, ?_⟩
  · refine hlatest [] Probing.listing _ [.connect_error] ?_ (by rfl) ?_
    · rw [hlog]
      rfl
    · intro later hin
      cases hin
  · obtain ⟨-, hcool⟩ := hunforced 1 (.ok ()) _ hsend hstarted
    obtain ⟨u, failed_at, r, heq, hle⟩ := hcool Probing.before_patient_probe Probing.failure
      Probing.before_failure .connect_error rfl rfl rfl (by
        rintro ⟨t, r, texts, answer, vectors, hin, -⟩
        simp [Probing.before_patient_probe] at hin)
    obtain ⟨rfl, hcall⟩ := Event.called.inj heq
    cases hcall
    exact hle

/-- A probe that fails at 0, and one that is sent at 0 though no embed succeeded: the embed in
between got an answer that passes validation, and its vector cannot be normalized. -/
theorem probe_sent_within_cooldown : ∃ c : (ollama Probing.adapter).Conf,
    Running Probing.adapter 0 c ∧ ∃ last earlier,
      c.log = .called 2 ⟨.send_get_tags, .ok ()⟩
        :: (last ++ .called 0 ⟨.set_last_probe_failure (some 0), .ok ()⟩ :: earlier)
      ∧ .started 2 (.refresh_revision false) ∈ last
      ∧ (∀ t r, .called t ⟨.embed_succeeded, r⟩ ∉ c.log)
      ∧ c.threads 1 = some (.raise (.ProviderError .PROVIDER_ERROR))
      ∧ c.world.clock - 0 < PROBE_COOLDOWN_SECONDS := by
  obtain ⟨c, hc, hlog⟩ := Option.map_eq_some_iff.mp Probing.early_probe_log
  obtain ⟨hlog, hraise⟩ := Prod.mk.inj hlog
  have hrun := Probing.reach_after hc
  refine ⟨c, hrun, Probing.before_early_probe, Probing.before_failure, hlog, ?_, ?_, hraise, ?_⟩
  · simp [Probing.before_early_probe]
  · intro t r hin
    rw [hlog] at hin
    simp [Probing.before_early_probe, Probing.failure, Probing.before_failure] at hin
  · rw [(running_inv hrun).clock, hlog]
    show (0 : ℚ) - 0 < 30
    norm_num

end OpenChronicle.Ollama
