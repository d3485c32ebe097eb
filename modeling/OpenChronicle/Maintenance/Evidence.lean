/-
What the state file says about the last run of a job.

The world keeps a log of the runs that have ended, which the code does not have: what the two timestamps
of a job mean is a statement about it. A thread writes the file after each run, and may be late; a
process that starts again finds what the last of them has written.

Health compares two timestamps, that of the last run and that of the last success, and takes a later run
for a failed one. The two are stamped in different places: `last_run_at` in a `finally`, so also when
the run was cancelled or skipped, and `last_success_at` only when the handler returned and had not
skipped. What the comparison tells is therefore "the last run was no success", and not "the last run
raised". `Telling` is the condition under which the two are the same, and it is stated of the log.

The world has three kinds of events, an act of the loop, a thread that gets to the end of its write, and
a restart that reads the file. `Recorded` is what is true after each of them: the stamps of a job are
those of its newest run and its newest success, in memory, and in the file once no write is outstanding.
-/
import OpenChronicle.Maintenance.Overlap
import OpenChronicle.Maintenance.Tick

set_option autoImplicit false

namespace OpenChronicle.Maintenance

open PyStr Loop

/-! ## The world of the loop -/

/-- A run that has ended. -/
structure Run where
  job : String
  exit : Exit
  ended : Instant
  deriving DecidableEq, Repr

/-- `log` has the newest run first, and `writers` threads have yet to write the file. -/
structure World where
  loop : Loop
  file : Option Json := none
  log : List Run := []
  clock : Instant := 0
  writers : ℕ := 0

/-- Each reading of the clock is later than the one before. -/
def advance (clock : Instant) : Act → Option Instant
  | .tick now => if clock < now then some now else none
  | .resume _ now ended => if clock < now ∧ now < ended then some ended else none
  | .handler_ends _ _ now => if clock < now then some now else none
  | _ => some clock

/-- The run that the act ends. -/
def ended (l : Loop) : Act → List Run
  | .handler_ends t exit now => ((l.task t).map fun task => ⟨task.job, exit, now⟩).toList
  | _ => []

/-- What can happen to the process and to the loop in it. -/
inductive Event where
  | act (a : Act)
  /-- A thread gets to the end of `_persist_state`. -/
  | write
  /-- The process is started again, with another configuration perhaps. -/
  | restart (file_config : Json.Dict)

section World

variable (int_of_str : Text → Option ℤ) (iso : Iso)

/-- The first process: there is no file yet. -/
def World.boot (file_config : Json.Dict) (clock : Instant) : Option World :=
  (load_jobs int_of_str file_config).map fun specs =>
    { loop := (start HANDLERS specs).load_state iso none, clock }

/-- One event, if it can happen. -/
def World.step (w : World) : Event → Option World
  | .act a =>
      (w.loop.step a).bind fun l => (advance w.clock a).map fun clock =>
        { w with loop := l, clock := clock, log := ended w.loop a ++ w.log
                 writers := w.writers + (ended w.loop a).length }
  | .write =>
      if 0 < w.writers then
        some { w with file := some (persist_state iso w.loop), writers := w.writers - 1 }
      else none
  | .restart file_config =>
      if w.writers = 0 then
        (load_jobs int_of_str file_config).map fun specs =>
          { w with loop := (start HANDLERS specs).load_state iso w.file }
      else none

def World.run (w : World) : List Event → Option World
  | [] => some w
  | e :: rest => (w.step int_of_str iso e).bind fun w' => w'.run rest

end World

/-! ## What the log says -/

/-- The newest run of a job. -/
def last_run (log : List Run) (n : String) : Option Run := log.find? (·.job = n)

/-- The newest run of the job that succeeded. -/
def last_success (log : List Run) (n : String) : Option Run :=
  log.find? fun r => r.job = n ∧ r.exit.succeeded = true

/-- The last run that ran to its end. -/
def last_completed (log : List Run) (n : String) : Option Run :=
  log.find? fun r => r.job = n ∧ r.exit ≠ .cancelled

/-- The run that was completed last ended with an exception. -/
def LastCompletedRaised (log : List Run) (n : String) : Prop :=
  ∃ r error, last_completed log n = some r ∧ r.exit = .raised error

/-- The last run was no skip, and if it was cancelled, the one before that ran to its end raised. -/
def Telling (log : List Run) (n : String) : Prop :=
  ∀ r, last_run log n = some r →
    r.exit ≠ .returned true ∧ (r.exit = .cancelled → LastCompletedRaised log n)

/-- Later runs have ended later. -/
def Ordered (log : List Run) : Prop := log.Pairwise fun r s => s.ended < r.ended

section Log

variable {log : List Run} {n : String}

/-- A run that is the last one, and succeeded, is the last success. -/
theorem last_success_of_succeeded {r : Run} (hlast : last_run log n = some r)
    (hr : r.exit.succeeded = true) : last_success log n = some r := by
  induction log with
  | nil => cases hlast
  | cons s log ih =>
      rw [last_run, List.find?_cons] at hlast
      rw [last_success, List.find?_cons]
      by_cases hs : s.job = n
      · simp only [hs, decide_true] at hlast
        obtain rfl := Option.some.inj hlast
        simp [hs, hr]
      · simp only [hs, decide_false] at hlast
        simp only [hs, false_and, decide_false]
        exact ih hlast

/-- A success under a last run that is none has ended earlier. -/
theorem last_success_lt {r s : Run} (hordered : Ordered log) (hlast : last_run log n = some r)
    (hr : r.exit.succeeded = false) (hsuccess : last_success log n = some s) : s.ended < r.ended := by
  induction log with
  | nil => cases hlast
  | cons q log ih =>
      obtain ⟨hq, hrest⟩ := List.pairwise_cons.mp hordered
      rw [last_run, List.find?_cons] at hlast
      rw [last_success, List.find?_cons] at hsuccess
      by_cases hjob : q.job = n
      · simp only [hjob, decide_true] at hlast
        obtain rfl := Option.some.inj hlast
        simp only [hr, Bool.false_eq_true, and_false, decide_false] at hsuccess
        exact hq s (List.mem_of_find?_eq_some hsuccess)
      · simp only [hjob, decide_false] at hlast
        simp only [hjob, false_and, decide_false] at hsuccess
        exact ih hrest hlast hsuccess

/-- A run that is the last one, and was not cancelled, is the last that ran to its end. -/
theorem last_completed_of_ne {r : Run} (hlast : last_run log n = some r) (hr : r.exit ≠ .cancelled) :
    last_completed log n = some r := by
  induction log with
  | nil => cases hlast
  | cons s log ih =>
      rw [last_run, List.find?_cons] at hlast
      rw [last_completed, List.find?_cons]
      by_cases hs : s.job = n
      · simp only [hs, decide_true] at hlast
        obtain rfl := Option.some.inj hlast
        simp [hs, hr]
      · simp only [hs, decide_false] at hlast
        simp only [hs, false_and, decide_false]
        exact ih hlast

/-- **What the newest run has to be**, for "the last run was no success" to say that the last
run to its end raised. -/
theorem telling_iff (log : List Run) (n : String) :
    ((∃ r, last_run log n = some r ∧ r.exit.succeeded = false) ↔ LastCompletedRaised log n)
      ↔ Telling log n := by
  rcases hlast : last_run log n with _ | r
  · have hnone : last_completed log n = none := by
      rw [last_run, List.find?_eq_none] at hlast
      rw [last_completed, List.find?_eq_none]
      intro s hs hboth
      refine hlast s hs ?_
      simp only [decide_eq_true_eq] at hboth ⊢
      exact hboth.1
    simp [LastCompletedRaised, Telling, hlast, hnone]
  · have hraised : ∀ {error}, r.exit = .raised error → LastCompletedRaised log n := by
      intro error hexit
      exact ⟨r, error, last_completed_of_ne hlast (by rw [hexit]; nofun), hexit⟩
    have hreturned : ∀ {skipped}, r.exit = .returned skipped → ¬ LastCompletedRaised log n := by
      rintro skipped hexit ⟨s, error, hs, hraised⟩
      rw [last_completed_of_ne hlast (by rw [hexit]; nofun)] at hs
      rw [← Option.some.inj hs, hexit] at hraised
      cases hraised
    rcases hexit : r.exit with skipped | error | _
    · simp [Telling, hlast, hexit, hreturned hexit, Exit.succeeded]
    · simp [Telling, hlast, hexit, hraised hexit, Exit.succeeded]
    · simp [Telling, hlast, hexit, Exit.succeeded]

end Log

/-! ## What the file says -/

section File

variable {iso : Iso} {l : Loop} {n : String}

/-- Names of jobs are told apart as texts. -/
theorem ofString_inj {a b : String} (h : Text.ofString a = Text.ofString b) : a = b := by
  have henc : (Text.ofString a).encode = (Text.ofString b).encode := congrArg _ h
  rw [Text.encode_ofString, Text.encode_ofString] at henc
  exact Option.some.inj henc

/-- What is read of a block is what was written. -/
theorem parse_stamps (stamp : JobState → Option Instant) (hn : n ∈ l.names) :
    parse_state_timestamp iso (Json.Dict.get (stamps iso l stamp) (Text.ofString n)) = stamp (l.job n) := by
  have hnames : ∀ names : List String, n ∈ names →
      parse_state_timestamp iso (Json.Dict.get (names.filterMap fun name =>
        (stamp (l.job name)).map fun at_ => (Text.ofString name, Json.str (iso.isoformat at_)))
        (Text.ofString n)) = stamp (l.job n) := by
    intro names hn
    rcases hstamp : stamp (l.job n) with _ | at_
    · -- no entry has its name
      have hnone : Json.Dict.get (names.filterMap fun name =>
          (stamp (l.job name)).map fun at_ => (Text.ofString name, Json.str (iso.isoformat at_)))
          (Text.ofString n) = .null := by
        rw [Json.Dict.get, List.find?_eq_none.mpr]
        · rfl
        · intro entry hentry
          obtain ⟨name, -, hsome⟩ := List.mem_filterMap.mp hentry
          obtain ⟨at_, hat, rfl⟩ := Option.map_eq_some_iff.mp hsome
          simp only [decide_eq_true_eq]
          intro heq
          rw [ofString_inj heq, hstamp] at hat
          cases hat
      rw [hnone]
      rfl
    · induction names with
      | nil => cases hn
      | cons name rest ih =>
          rw [List.filterMap_cons]
          by_cases hname : name = n
          · subst hname
            simp [hstamp, Json.Dict.get, parse_state_timestamp, iso.fromisoformat_isoformat]
          · have hrest := ih ((List.mem_cons.mp hn).resolve_left (Ne.symm hname))
            rcases hother : stamp (l.job name) with _ | other
            · exact hrest
            · have hne : Text.ofString name ≠ Text.ofString n := fun heq => hname (ofString_inj heq)
              simp only [Option.map_some, Json.Dict.get, List.find?_cons, hne, decide_false]
              exact hrest
  exact hnames l.names hn

/-- The comparison `_last_run_failed` ends with. -/
def run_after_success (run success : Option Instant) : Bool :=
  match run with
  | none => false
  | some run =>
      match success with
      | none => true
      | some success => decide (success < run)

/-- **What health makes of a file that the loop has written.** -/
theorem last_run_failed_persisted (hn : n ∈ l.names) :
    last_run_failed iso (some (persist_state iso l)) n = true
      ↔ ∃ run, (l.job n).last_run_at = some run
        ∧ ∀ success, (l.job n).last_success_at = some success → success < run := by
  have hblocks : last_run_failed iso (some (persist_state iso l)) n
      = run_after_success
          (parse_state_timestamp iso (Json.Dict.get (stamps iso l JobState.last_run_at) (Text.ofString n)))
          (parse_state_timestamp iso
            (Json.Dict.get (stamps iso l JobState.last_success_at) (Text.ofString n))) := rfl
  rw [hblocks, parse_stamps JobState.last_run_at hn, parse_stamps JobState.last_success_at hn]
  rcases (l.job n).last_run_at with _ | run
  · simp [run_after_success]
  · rcases (l.job n).last_success_at with _ | success
    · simp [run_after_success]
    · simp [run_after_success]

/-- The two timestamps of a job are those of the other loop. -/
structure SameStamps (l l' : Loop) (n : String) : Prop where
  run : (l'.job n).last_run_at = (l.job n).last_run_at
  success : (l'.job n).last_success_at = (l.job n).last_success_at

/-- **A loop that starts from a file has the timestamps of the loop that wrote it.** -/
theorem load_state_persisted (handlers : List String) (specs : List JobSpec) (hn : n ∈ l.names) :
    SameStamps l ((start handlers specs).load_state iso (some (persist_state iso l))) n := by
  have hrun : persisted_stamp iso [(Text.ofString "last_run_at", .dict (stamps iso l JobState.last_run_at)),
      (Text.ofString "last_success_at", .dict (stamps iso l JobState.last_success_at))] "last_run_at" n
      = (l.job n).last_run_at := parse_stamps JobState.last_run_at hn
  have hsuccess : persisted_stamp iso [(Text.ofString "last_run_at", .dict (stamps iso l JobState.last_run_at)),
      (Text.ofString "last_success_at", .dict (stamps iso l JobState.last_success_at))] "last_success_at" n
      = (l.job n).last_success_at := parse_stamps JobState.last_success_at hn
  refine ⟨?_, ?_⟩
  · show (persisted_stamp iso _ "last_run_at" n).or none = _
    rw [hrun, Option.or_none]
  · show (persisted_stamp iso _ "last_success_at" n).or none = _
    rw [hsuccess, Option.or_none]

end File

/-! ## Runs of the world -/

section Stamps

variable {l l' : Loop} {n : String} {a : Act}

/-- The stamps are no business of the locks. -/
theorem blind_last_run_at : Blind JobState.last_run_at :=
  ⟨fun _ _ => rfl, fun _ _ => rfl, fun _ _ => rfl⟩

/-- Of the steps of the loop only the end of a run that succeeded writes the field. -/
theorem blind_last_success_at : Blind JobState.last_success_at :=
  ⟨fun _ _ => rfl, fun _ _ => rfl, fun _ _ => rfl⟩

/-- A tick stamps nothing. -/
theorem tick_stamps (l : Loop) (now : Instant) (n : String) : SameStamps l (l.tick now) n := by
  refine visit_all_keeps (P := fun l₁ => SameStamps l l₁ n) ?_ l.names ⟨rfl, rfl⟩
  rintro l₁ name l₂ ⟨hrun, hsuccess⟩ hvisit
  rcases visit_cases hvisit with rfl | ⟨job, hjob, rfl⟩ | ⟨-, rfl⟩
  · exact ⟨hrun, hsuccess⟩
  · by_cases hn : n = name
    · subst hn
      have hkept : job.last_run_at = (l₁.job n).last_run_at
          ∧ job.last_success_at = (l₁.job n).last_success_at := by
        rcases note_cases hjob with ⟨-, rfl⟩ | rfl | ⟨s, d, -, -, -, -, rfl⟩
        · exact ⟨rfl, rfl⟩
        · exact ⟨rfl, rfl⟩
        · exact ⟨rfl, rfl⟩
      refine ⟨?_, ?_⟩
      · rw [modify_job_self]
        exact hkept.1.trans hrun
      · rw [modify_job_self]
        exact hkept.2.trans hsuccess
    · refine ⟨?_, ?_⟩
      · rw [modify_job_of_ne l₁ hn]
        exact hrun
      · rw [modify_job_of_ne l₁ hn]
        exact hsuccess
  · exact ⟨hrun, hsuccess⟩

/-- The end of a run stamps the job. -/
theorem end_run_stamps (job : JobState) (exit : Exit) (now : Instant) :
    (job.end_run exit now).last_run_at = some now
      ∧ (job.end_run exit now).last_success_at
        = if exit.succeeded = true then some now else job.last_success_at := by
  rcases exit with (_ | _) | _ | _
  · exact ⟨rfl, rfl⟩
  · exact ⟨rfl, rfl⟩
  · exact ⟨rfl, rfl⟩
  · exact ⟨rfl, rfl⟩

/-- **A step stamps a job with the run that it ends, and with nothing else.** -/
theorem step_stamps (hregistered : l.handlers.contains n = true) (hstep : l.step a = some l') :
    (l'.job n).last_run_at = ((last_run (ended l a) n).map Run.ended).or (l.job n).last_run_at
      ∧ (l'.job n).last_success_at
        = ((last_success (ended l a) n).map Run.ended).or (l.job n).last_success_at := by
  cases a with
  | tick now =>
      obtain rfl := Option.some.inj hstep
      exact ⟨(tick_stamps l now n).run, (tick_stamps l now n).success⟩
  -- a start ends no run, and it leaves the stamps
  | run_once name =>
      rw [Loop.step] at hstep
      split at hstep
      · obtain rfl := Option.some.inj hstep
        exact ⟨rfl, rfl⟩
      · cases hstep
  | resume t now ended =>
      obtain ⟨task, -, hresume⟩ := Option.bind_eq_some_iff.mp hstep
      exact ⟨blind_last_run_at.resume (.inl hregistered) hresume,
        blind_last_success_at.resume (.inl hregistered) hresume⟩
  | handler_ends t exit now =>
      obtain ⟨task, ht, hends⟩ := Option.bind_eq_some_iff.mp hstep
      have hended : ended l (.handler_ends t exit now) = [⟨task.job, exit, now⟩] := by
        rw [ended, ht]
        rfl
      rw [handler_ends.eq_def] at hends
      split at hends
      · obtain rfl := Option.some.inj hends
        obtain ⟨hrun, hsuccess⟩ := end_run_stamps (l.job task.job) exit now
        rw [hended]
        -- only the job that ran gets new stamps
        by_cases hjob : task.job = n
        · subst hjob
          refine ⟨?_, ?_⟩
          · simpa [set_task, last_run] using hrun
          · by_cases hsucceeded : exit.succeeded = true
            · simpa [set_task, last_success, hsucceeded] using hsuccess
            · simpa [set_task, last_success, hsucceeded] using hsuccess
        · refine ⟨?_, ?_⟩
          · simp [set_task, last_run, hjob, modify_job_of_ne l (Ne.symm hjob)]
          · simp [set_task, last_success, hjob, modify_job_of_ne l (Ne.symm hjob)]
      · cases hends
  | persisted t =>
      obtain ⟨task, -, hpersisted⟩ := Option.bind_eq_some_iff.mp hstep
      rw [persisted.eq_def] at hpersisted
      split at hpersisted
      · obtain rfl := Option.some.inj hpersisted
        exact ⟨blind_last_run_at.leave_slot l task.job n, blind_last_success_at.leave_slot l task.job n⟩
      · cases hpersisted
  | cancel t =>
      obtain ⟨task, -, rfl⟩ := Option.map_eq_some_iff.mp hstep
      exact ⟨cancel_keeps _ (fun _ _ => rfl) l t task n, cancel_keeps _ (fun _ _ => rfl) l t task n⟩

/-- A run that a step ends has ended at its reading of the clock. -/
theorem ended_at {clock clock' : Instant} (hclock : advance clock a = some clock') :
    clock ≤ clock' ∧ Ordered (ended l a) ∧ ∀ r ∈ ended l a, clock < r.ended ∧ r.ended ≤ clock' := by
  cases a with
  | tick now =>
      rw [advance] at hclock
      split at hclock
      · next hlater =>
          obtain rfl := Option.some.inj hclock
          exact ⟨hlater.le, .nil, nofun⟩
      · cases hclock
  | resume t now ended =>
      rw [advance] at hclock
      split at hclock
      · next hlater =>
          obtain rfl := Option.some.inj hclock
          exact ⟨(hlater.1.trans hlater.2).le, .nil, nofun⟩
      · cases hclock
  | handler_ends t exit now =>
      rw [advance] at hclock
      split at hclock
      · next hlater =>
          obtain rfl := Option.some.inj hclock
          rw [ended]
          rcases l.task t with _ | task
          · exact ⟨hlater.le, .nil, nofun⟩
          · refine ⟨hlater.le, List.pairwise_singleton _ _, ?_⟩
            intro r hr
            rw [List.mem_singleton.mp hr]
            exact ⟨hlater, le_refl _⟩
      · cases hclock
  | run_once name =>
      obtain rfl := Option.some.inj hclock
      exact ⟨le_refl _, .nil, nofun⟩
  | persisted t =>
      obtain rfl := Option.some.inj hclock
      exact ⟨le_refl _, .nil, nofun⟩
  | cancel t =>
      obtain rfl := Option.some.inj hclock
      exact ⟨le_refl _, .nil, nofun⟩

end Stamps

/-- What is true after every event. -/
structure Recorded (iso : Iso) (w : World) : Prop where
  names : w.loop.names = DEFAULT_JOBS.map JobSpec.name
  handlers : w.loop.handlers = HANDLERS
  run_at : ∀ n ∈ HANDLERS, (w.loop.job n).last_run_at = (last_run w.log n).map Run.ended
  success_at : ∀ n ∈ HANDLERS, (w.loop.job n).last_success_at = (last_success w.log n).map Run.ended
  ordered : Ordered w.log
  past : ∀ r ∈ w.log, r.ended ≤ w.clock
  written : w.writers = 0 → (w.file = none ∧ w.log = [])
    ∨ ∃ l, w.file = some (persist_state iso l) ∧ l.names = DEFAULT_JOBS.map JobSpec.name
      ∧ ∀ n ∈ HANDLERS, SameStamps l w.loop n

section Recorded

variable {int_of_str : Text → Option ℤ} {iso : Iso} {w w' : World} {n : String}

/-- The jobs with a handler are among those that the source lists. -/
theorem mem_default_of_handler (hn : n ∈ HANDLERS) : n ∈ DEFAULT_JOBS.map JobSpec.name := by
  have hall : ∀ n ∈ HANDLERS, n ∈ DEFAULT_JOBS.map JobSpec.name := by decide
  exact hall n hn

/-- A loop that `load_jobs` has made. -/
theorem loaded_loop {file_config : Json.Dict} {specs : List JobSpec}
    (hload : load_jobs int_of_str file_config = some specs) (iso : Iso) (file : Option Json) :
    ((start HANDLERS specs).load_state iso file).names = DEFAULT_JOBS.map JobSpec.name
      ∧ ((start HANDLERS specs).load_state iso file).handlers = HANDLERS := by
  have hnames : (start HANDLERS specs).names = DEFAULT_JOBS.map JobSpec.name := by
    show (specs.map JobSpec.name).eraseDups = _
    rw [load_jobs_names hload]
    decide
  unfold load_state
  split
  · exact ⟨hnames, rfl⟩
  · exact ⟨hnames, rfl⟩

/-- Nothing has run, and the file says nothing. -/
theorem recorded_boot {file_config : Json.Dict} {clock : Instant}
    (hboot : World.boot int_of_str iso file_config clock = some w) : Recorded iso w := by
  obtain ⟨specs, hload, rfl⟩ := Option.map_eq_some_iff.mp hboot
  obtain ⟨hnames, hhandlers⟩ := loaded_loop hload iso none
  exact ⟨hnames, hhandlers, fun _ _ => rfl, fun _ _ => rfl, .nil, nofun, fun _ => .inl ⟨rfl, rfl⟩⟩

/-- An act of the loop: the run that it ends, if it ends one, is the newest. -/
theorem Recorded.act (h : Recorded iso w) {a : Act} (hstep : w.step int_of_str iso (.act a) = some w') :
    Recorded iso w' := by
  obtain ⟨l, hl, hstep⟩ := Option.bind_eq_some_iff.mp hstep
  obtain ⟨clock, hclock, rfl⟩ := Option.map_eq_some_iff.mp hstep
  obtain ⟨hlater, hordered, hreading⟩ := ended_at (l := w.loop) hclock
  have hstamps : ∀ n ∈ HANDLERS, _ := fun n hn =>
    step_stamps (n := n) (by rw [h.handlers]; simpa using hn) hl
  refine ⟨?_, ?_, ?_, ?_, ?_, ?_, ?_⟩
  · exact (step_apart apart_names (fun _ _ => rfl) hl).trans h.names
  · exact (step_apart apart_handlers (fun _ _ => rfl) hl).trans h.handlers
  · intro n hn
    rw [(hstamps n hn).1, h.run_at n hn, last_run, last_run, last_run, List.find?_append, Option.map_or]
  · intro n hn
    rw [(hstamps n hn).2, h.success_at n hn, last_success, last_success, last_success,
      List.find?_append, Option.map_or]
  · refine List.pairwise_append.mpr ⟨hordered, h.ordered, ?_⟩
    intro r hr s hs
    exact lt_of_le_of_lt (h.past s hs) (hreading r hr).1
  · intro r hr
    rcases List.mem_append.mp hr with hnew | hold
    · exact (hreading r hnew).2
    · exact (h.past r hold).trans hlater
  · intro hwriters
    -- no thread is to write, so that no run has ended
    have hidle : w.writers = 0 ∧ (ended w.loop a).length = 0 := Nat.add_eq_zero_iff.mp hwriters
    have hnone : ended w.loop a = [] := List.eq_nil_of_length_eq_zero hidle.2
    have hsame : ∀ n ∈ HANDLERS, SameStamps w.loop l n := by
      intro n hn
      obtain ⟨hrun, hsuccess⟩ := hstamps n hn
      rw [hnone] at hrun hsuccess
      exact ⟨hrun, hsuccess⟩
    rw [hnone]
    refine (h.written hidle.1).imp id ?_
    rintro ⟨l₀, hfile, hnames, hl₀⟩
    refine ⟨l₀, hfile, hnames, fun n hn => ⟨?_, ?_⟩⟩
    · exact (hsame n hn).run.trans (hl₀ n hn).run
    · exact (hsame n hn).success.trans (hl₀ n hn).success

/-- **Every event keeps the record.** -/
theorem Recorded.step (h : Recorded iso w) {e : Event} (hstep : w.step int_of_str iso e = some w') :
    Recorded iso w' := by
  cases e with
  | act a => exact h.act hstep
  | write =>
      rw [World.step] at hstep
      split at hstep
      · obtain rfl := Option.some.inj hstep
        exact ⟨h.names, h.handlers, h.run_at, h.success_at, h.ordered, h.past,
          fun _ => .inr ⟨w.loop, rfl, h.names, fun _ _ => ⟨rfl, rfl⟩⟩⟩
      · cases hstep
  | restart file_config =>
      rw [World.step] at hstep
      split at hstep
      · next hidle =>
          obtain ⟨specs, hload, rfl⟩ := Option.map_eq_some_iff.mp hstep
          obtain ⟨hnames, hhandlers⟩ := loaded_loop hload iso w.file
          -- the new loop has read what the old one wrote, or there was nothing to write
          have hkept : ∀ n ∈ HANDLERS,
              SameStamps w.loop ((start HANDLERS specs).load_state iso w.file) n := by
            intro n hn
            rcases h.written hidle with ⟨hfile, hlog⟩ | ⟨l, hfile, hl, hsame⟩
            · have hrun := h.run_at n hn
              have hsuccess := h.success_at n hn
              rw [hlog] at hrun hsuccess
              rw [hfile]
              exact ⟨hrun.symm, hsuccess.symm⟩
            · rw [hfile]
              have hread : SameStamps l ((start HANDLERS specs).load_state iso (some (persist_state iso l))) n :=
                load_state_persisted HANDLERS specs (by rw [hl]; exact mem_default_of_handler hn)
              exact ⟨hread.run.trans (hsame n hn).run.symm, hread.success.trans (hsame n hn).success.symm⟩
          refine ⟨hnames, hhandlers, ?_, ?_, h.ordered, h.past, ?_⟩
          · intro n hn
            exact (hkept n hn).run.trans (h.run_at n hn)
          · intro n hn
            exact (hkept n hn).success.trans (h.success_at n hn)
          · intro _
            refine (h.written hidle).imp id ?_
            rintro ⟨l, hfile, hl, hsame⟩
            refine ⟨l, hfile, hl, fun n hn => ⟨?_, ?_⟩⟩
            · exact (hkept n hn).run.trans (hsame n hn).run
            · exact (hkept n hn).success.trans (hsame n hn).success
      · cases hstep

/-- And so does every sequence of events. -/
theorem Recorded.run (h : Recorded iso w) (events : List Event)
    (hrun : w.run int_of_str iso events = some w') : Recorded iso w' := by
  induction events generalizing w with
  | nil => exact (Option.some.inj hrun) ▸ h
  | cons e rest ih =>
      obtain ⟨w₁, hstep, hrest⟩ := Option.bind_eq_some_iff.mp hrun
      exact ih (h.step hstep) hrest

/-- What health says, once the file is written, is that the last run was no success. -/
theorem Recorded.failed_iff (h : Recorded iso w) (hwritten : w.writers = 0) (hn : n ∈ HANDLERS) :
    last_run_failed iso w.file n = true
      ↔ ∃ r, last_run w.log n = some r ∧ r.exit.succeeded = false := by
  rcases h.written hwritten with ⟨hfile, hlog⟩ | ⟨l, hfile, hl, hsame⟩
  · rw [hfile, hlog]
    simp [last_run_failed, block, last_run, parse_state_timestamp, Json.Dict.get, Json.Dict.has]
  · rw [hfile, last_run_failed_persisted (by rw [hl]; exact mem_default_of_handler hn),
      ← (hsame n hn).run, ← (hsame n hn).success, h.run_at n hn, h.success_at n hn]
    constructor
    · rintro ⟨run, hrun, hearlier⟩
      obtain ⟨r, hr, rfl⟩ := Option.map_eq_some_iff.mp hrun
      refine ⟨r, hr, ?_⟩
      by_contra hsucceeded
      rw [last_success_of_succeeded hr (by simpa using hsucceeded)] at hearlier
      exact lt_irrefl _ (hearlier r.ended rfl)
    · rintro ⟨r, hr, hfailed⟩
      refine ⟨r.ended, by rw [hr]; rfl, ?_⟩
      intro success hsuccess
      obtain ⟨s, hs, rfl⟩ := Option.map_eq_some_iff.mp hsuccess
      exact last_success_lt h.ordered hr hfailed hs

/-- **What the persisted evidence is worth**, after every sequence of events: `last_success_at` is
the end of the last success, and once the file is written, the flag of health says that the last
run to its end raised exactly if the newest run was no skip, and no cancellation after one that
did not raise. -/
theorem last_run_failed_tells_iff {file_config : Json.Dict} {clock : Instant} {w₀ : World}
    (hboot : World.boot int_of_str iso file_config clock = some w₀) (events : List Event)
    (hrun : w₀.run int_of_str iso events = some w) (hn : n ∈ HANDLERS) :
    (w.loop.job n).last_success_at = (last_success w.log n).map Run.ended
      ∧ (w.writers = 0 →
        ((last_run_failed iso w.file n = true ↔ LastCompletedRaised w.log n) ↔ Telling w.log n)) := by
  have h : Recorded iso w := (recorded_boot hboot).run events hrun
  refine ⟨h.success_at n hn, ?_⟩
  intro hwritten
  rw [h.failed_iff hwritten hn]
  exact telling_iff w.log n

end Recorded

/-! ### A redeployment -/

namespace Redeployed

/-- `{"maintenance": {"jobs": [{"name": "db_vacuum", "enabled": false}]}}`. -/
def file_config : Json.Dict :=
  [("maintenance", .dict [("jobs", .list [.dict [("name", .str "db_vacuum"),
    ("enabled", .bool false)]])])]

/-- The first tick spawns the integrity check, which comes into its slot. -/
def begun : List Event := [.act (.tick 1000000), .act (.resume 0 2000000 3000000)]

/-- It is cancelled by `stop`, and the file is written. -/
def stopped : List Event :=
  begun ++ [.act (.cancel 0), .act (.handler_ends 0 .cancelled 5000000), .write, .act (.persisted 0)]

/-- It finishes, and the file is written. -/
def finished : List Event :=
  begun ++ [.act (.handler_ends 0 (.returned false) 5000000), .write, .act (.persisted 0)]

def booted : World := (World.boot (fun _ => none) epoch_clock file_config 0).get (by decide +kernel)

def halted : World := (booted.run (fun _ => none) epoch_clock stopped).get (by decide +kernel)

def checked : World := (booted.run (fun _ => none) epoch_clock finished).get (by decide +kernel)

theorem boot_booted : World.boot (fun _ => none) epoch_clock file_config 0 = some booted :=
  (Option.some_get _).symm

/-- Health reports a failed check, and no run has ever raised. -/
theorem cancelled_check_reads_as_failed :
    World.boot (fun _ => none) epoch_clock file_config 0 = some booted
      ∧ booted.run (fun _ => none) epoch_clock stopped = some halted ∧ halted.writers = 0
      ∧ ¬ (last_run_failed epoch_clock halted.file "db_integrity_check" = true
        ↔ LastCompletedRaised halted.log "db_integrity_check") := by
  refine ⟨boot_booted, (Option.some_get _).symm, by decide +kernel, ?_⟩
  have hflag : last_run_failed epoch_clock halted.file "db_integrity_check" = true := by decide +kernel
  have hnone : last_completed halted.log "db_integrity_check" = none := by decide +kernel
  rw [hflag]
  rintro ⟨hraised, -⟩
  obtain ⟨r, error, hcompleted, -⟩ := hraised rfl
  rw [hnone] at hcompleted
  cases hcompleted

/-- After a check that succeeds health is right. -/
theorem last_run_failed_tells_iff_checked :
    checked.writers = 0 ∧ Telling checked.log "db_integrity_check"
      ∧ (checked.loop.job "db_integrity_check").last_success_at = some 5000000
      ∧ (last_run_failed epoch_clock checked.file "db_integrity_check" = true
        ↔ LastCompletedRaised checked.log "db_integrity_check") := by
  obtain ⟨hsuccess, htells⟩ := last_run_failed_tells_iff boot_booted finished
    (w := checked) (Option.some_get _).symm (n := "db_integrity_check") (by decide)
  have hwritten : checked.writers = 0 := by decide +kernel
  have hlast : last_run checked.log "db_integrity_check"
      = some ⟨"db_integrity_check", .returned false, 5000000⟩ := by decide +kernel
  have htelling : Telling checked.log "db_integrity_check" := by
    intro r hr
    rw [hlast] at hr
    rw [← Option.some.inj hr]
    exact ⟨nofun, nofun⟩
  refine ⟨hwritten, htelling, hsuccess.trans (by decide +kernel), (htells hwritten).mpr htelling⟩

end Redeployed

end OpenChronicle.Maintenance
