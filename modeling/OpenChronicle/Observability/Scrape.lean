/-
The scrape slot.

The slot is handed on: the coroutine that took it creates the worker, the worker that was created owns
it until it has rendered, and who owns it releases it once. `phase` reads from the log who owns it; that
the slot is taken just when someone does, and that the owner's program has still to release it, is an
invariant of single steps. So at most one rendering is under way, the slot is never released by anyone
else, and it is free when all is done, if every worker that was created has begun: one whose thread
cannot start would own the slot for good.

`Turn` and `Holds` say of each task what it calls after what, and when the calls it has made leave it
the slot; they are proved of the programs once, and the steps of the machine use them and nothing of the
programs.

That the slot is not released by the coroutine that took it is the point of the design: a request may be
cancelled while its worker renders, and what the coroutine would do then comes too early. A lock with an
owner could not be used so. The proof has to follow the ownership through the moment between the
creation of the worker and its first step, in which no thread has the slot although it is taken;
`Owner.worker` stands for this moment, and `pending` counts the workers in it.
-/
import OpenChronicle.Lib.Traces
import OpenChronicle.Observability.Recorder

set_option autoImplicit false

namespace OpenChronicle.Recorder

open Program Machine PyStr

/-! ## The order of calls -/

/-- An operation that is no business of the slot. -/
def Quiet (o : RecOp) : Prop :=
  match o with
  | .acquire_slot | .create_worker | .await_worker | .generate_latest | .release_slot => False
  | _ => True

/-- The slot was got. -/
def got : Call recSig RecExc := ⟨.acquire_slot, .ok true⟩

/-- The calls of a thread show no release. -/
def Unreleased (h : List (Call recSig RecExc)) : Prop := ∀ k ∈ h, k.op ≠ .release_slot

/-- The thread has the slot, to judge by its own calls. -/
def Holds (task : RecTask) (h : List (Call recSig RecExc)) : Prop :=
  match task with
  | .render => h = [got] ∨ ∃ e, h = [⟨.create_worker, .error e⟩, got]
  | .render_owned => Unreleased h
  | _ => False

/-- What a task calls after what. -/
def Turn (task : RecTask) (h : List (Call recSig RecExc)) (c : Call recSig RecExc) : Prop :=
  match task with
  | .render =>
      match c.op with
      | .acquire_slot => h = []
      | .create_worker => h = [got]
      | .await_worker => h = [⟨.create_worker, .ok ()⟩, got]
      | .release_slot => ∃ e, h = [⟨.create_worker, .error e⟩, got]
      | _ => False
  | .render_owned =>
      match c.op with
      | .acquire_slot | .create_worker | .await_worker => False
      | _ => Unreleased h
  | _ => Quiet c.op

/-- A worker that has called anything but the release still owns the slot. -/
theorem unreleased_cons {h : List (Call recSig RecExc)} {c : Call recSig RecExc} (hc : c.op ≠ .release_slot)
    (hh : Unreleased h) : Unreleased (c :: h) := by
  intro k hk
  rcases List.mem_cons.mp hk with rfl | hk
  · exact hc
  · exact hh k hk

section Quiet

/-- The recording calls, each by its text: none of them comes near the slot. -/
theorem quiet_suppress {p : RecProg Unit} (hp : p.Makes Quiet) : (suppress p).Makes Quiet := by
  refine Prog.Makes.bind hp.attempt ?_
  intro r
  cases r with
  | ok u => trivial
  | error e => cases e <;> trivial

theorem quiet_act {o : RecOp} (ho : Quiet o) : (act o).Makes Quiet := Prog.makes_op (S := recSig) ho

theorem quiet_mark_error (operation : String) : (mark_error operation).Makes Quiet :=
  Prog.Makes.bind (quiet_act trivial) fun _ =>
    Prog.Makes.bind (quiet_suppress (Prog.Makes.bind (quiet_act trivial) fun _ => quiet_act trivial)) fun _ =>
      quiet_act trivial

theorem quiet_safe (operation : String) {callback : RecProg Unit} (hp : callback.Makes Quiet) :
    (safe operation callback).Makes Quiet := by
  refine Prog.Makes.bind (Prog.Makes.attempt (Prog.Makes.bind hp fun _ => quiet_act trivial)) ?_
  intro r
  cases r with
  | ok u => trivial
  | error e =>
      cases e with
      | Interrupt => trivial
      | _ => exact quiet_mark_error operation

theorem quiet_labels_all (key : Labels) (families : List Family) : (labels_all key families).Makes Quiet := by
  induction families with
  | nil => trivial
  | cons family rest ih => exact Prog.Makes.bind (quiet_act trivial) fun _ => ih

theorem quiet_child (cache : Cache) (families : List Family) (key : Labels) :
    (child cache families key).Makes Quiet := by
  refine Prog.Makes.bind (quiet_act trivial) ?_
  intro found
  cases found with
  | true => trivial
  | false => exact Prog.Makes.bind (quiet_labels_all key families) fun _ => quiet_act trivial

theorem quiet_sample (family : Family) (key : Labels) : (sample family key).Makes Quiet :=
  Prog.Makes.bind (quiet_act trivial) fun _ => quiet_act trivial

theorem quiet_inflight (operation : String) (surface : Text) : (inflight operation surface).Makes Quiet :=
  quiet_safe _ (Prog.Makes.bind (quiet_child _ _ _) fun _ => quiet_act trivial)

theorem quiet_observe_http (path method : Text) (status_code : ℤ) :
    (observe_http path method status_code).Makes Quiet := by
  unfold observe_http
  cases normalize_http_route path with
  | none => trivial
  | some route =>
      exact quiet_safe _ (Prog.Makes.bind (quiet_child _ _ _) fun _ => Prog.Makes.bind (quiet_act trivial) fun _ =>
        Prog.Makes.bind (quiet_child _ _ _) fun _ => quiet_act trivial)

theorem quiet_observe_store_lock (kind : Text) : (observe_store_lock kind).Makes Quiet :=
  quiet_safe _ (Prog.Makes.bind (quiet_child _ _ _) fun _ => Prog.Makes.bind (quiet_act trivial) fun _ =>
    quiet_act trivial)

theorem quiet_observe_embedding (provider operation outcome : Text) :
    (observe_embedding provider operation outcome).Makes Quiet :=
  quiet_safe _ (Prog.Makes.bind (quiet_child _ _ _) fun _ => Prog.Makes.bind (quiet_act trivial) fun _ =>
    Prog.Makes.bind (quiet_child _ _ _) fun _ => quiet_act trivial)

theorem quiet_observe_search_stage (stage : Text) : (observe_search_stage stage).Makes Quiet :=
  quiet_safe _ (Prog.Makes.bind (quiet_child _ _ _) fun _ => quiet_act trivial)

theorem quiet_observe_job (name outcome : Text) (timed : Bool) : (observe_job name outcome timed).Makes Quiet := by
  refine quiet_safe _ (Prog.Makes.bind (quiet_sample _ _) fun _ => ?_)
  cases timed with
  | true => exact quiet_sample _ _
  | false => trivial

end Quiet

/-- A task that is no scrape is never said to hold the slot. -/
theorem quiet_turn {p : RecProg Unit} (hp : p.Makes Quiet) {task : RecTask}
    (htask : ∀ h c, Turn task h c = Quiet c.op) (hholds : ∀ h, Holds task h = False) :
    p.Sat (Turn task) (fun h _ => ¬ Holds task h) [] := by
  refine (Prog.Makes.keeps (I := fun _ => True) hp ?_ trivial).mono ?_
  · intro h c _ hc
    rw [htask]
    exact ⟨hc, trivial⟩
  · intro h r _ _
    rw [hholds]
    exact not_false

/-- The coroutine: it asks once, and whatever it does then depends on what it was told. -/
theorem render_turn : render.Sat (Turn .render) (fun h _ => ¬ Holds .render h) [] := by
  have hnot : ∀ {h : List (Call recSig RecExc)}, (∀ e, h ≠ [⟨.create_worker, .error e⟩, got]) → h ≠ [got] →
      ¬ Holds .render h := by
    rintro h hfailed hgot (heq | ⟨e, heq⟩)
    · exact hgot heq
    · exact hfailed e heq
  refine Prog.sat_op_bind (S := recSig) (fun _ => rfl) ?_ ?_
  · intro e
    exact hnot (by simp) (by simp [got])
  · intro acquired
    cases acquired with
    | false => exact hnot (by simp) (by simp [got])
    | true =>
        refine Prog.Sat.bind (Prog.Sat.attempt (Prog.sat_op (S := recSig) fun r => ⟨rfl, ?_⟩))
        cases r with
        | ok u =>
            refine Prog.sat_op (S := recSig) fun r => ⟨rfl, ?_⟩
            exact hnot (by simp) (by simp)
        | error e =>
            refine Prog.sat_op_bind (S := recSig) (fun _ => ⟨e, rfl⟩) ?_ ?_
            · intro e'
              exact hnot (by simp) (by simp)
            · intro u
              exact hnot (by simp) (by simp)

/-- The worker: it renders and releases, also when the rendering raises. -/
theorem render_owned_turn : render_owned.Sat (Turn .render_owned) (fun h _ => ¬ Holds .render_owned h) [] := by
  -- whatever was called before it, the release comes last
  have hrelease : ∀ h, Unreleased h → ∀ r : Except RecExc Unit,
      (act .release_slot).Sat (Turn .render_owned) (fun h'' _ => ¬ Holds .render_owned h'') h := by
    intro h hh _
    exact Prog.sat_op (S := recSig) fun r => ⟨hh, fun hholds => hholds ⟨.release_slot, r⟩ List.mem_cons_self rfl⟩
  have hempty : Unreleased [] := fun k hk => absurd hk List.not_mem_nil
  refine Prog.sat_finally ?_
  refine Prog.Sat.bind (Prog.Sat.attempt (Prog.sat_op (S := recSig) fun r => ⟨hempty, ?_⟩))
  have hone : Unreleased [⟨.generate_latest, r⟩] := unreleased_cons (fun heq => (by cases heq)) hempty
  cases r with
  | ok u => exact hrelease _ hone (.ok u)
  | error e =>
      cases e with
      | Interrupt => exact hrelease _ hone (.error .Interrupt)
      | _ =>
          refine Prog.Sat.bind ((Prog.Makes.keeps (quiet_mark_error "scrape") ?_ hone).mono ?_)
          · intro h c hh hquiet
            obtain ⟨o, res⟩ := c
            cases o with
            | acquire_slot => exact False.elim hquiet
            | create_worker => exact False.elim hquiet
            | await_worker => exact False.elim hquiet
            | generate_latest => exact False.elim hquiet
            | release_slot => exact False.elim hquiet
            | _ => exact ⟨hh, unreleased_cons (fun heq => (by cases heq)) hh⟩
          · intro h' r _ hh
            cases r with
            | ok u => exact hrelease h' hh (.error .MetricsScrapeError)
            | error e => exact hrelease h' hh (.error e)

/-- Each task calls in its turn, and owns nothing when it ends. -/
theorem task_turn (task : RecTask) :
    task.program.Sat (Turn task) (fun h _ => ¬ Holds task h) [] := by
  cases task with
  | inflight_inc surface => exact quiet_turn (quiet_inflight _ _) (fun _ _ => rfl) fun _ => rfl
  | inflight_dec surface => exact quiet_turn (quiet_inflight _ _) (fun _ _ => rfl) fun _ => rfl
  | observe_http path method status_code => exact quiet_turn (quiet_observe_http _ _ _) (fun _ _ => rfl) fun _ => rfl
  | observe_mcp tool outcome =>
      exact quiet_turn (quiet_safe _ (Prog.Makes.bind (quiet_sample _ _) fun _ => quiet_sample _ _))
        (fun _ _ => rfl) fun _ => rfl
  | observe_store_lock kind => exact quiet_turn (quiet_observe_store_lock _) (fun _ _ => rfl) fun _ => rfl
  | observe_embedding provider operation outcome =>
      exact quiet_turn (quiet_observe_embedding _ _ _) (fun _ _ => rfl) fun _ => rfl
  | observe_search_stage stage => exact quiet_turn (quiet_observe_search_stage _) (fun _ _ => rfl) fun _ => rfl
  | observe_search_fallback reason => exact quiet_turn (quiet_safe _ (quiet_sample _ _)) (fun _ _ => rfl) fun _ => rfl
  | observe_job name outcome timed => exact quiet_turn (quiet_observe_job _ _ _) (fun _ _ => rfl) fun _ => rfl
  | set_job_last_success name => exact quiet_turn (quiet_safe _ (quiet_sample _ _)) (fun _ _ => rfl) fun _ => rfl
  | observe_backfill_item outcome => exact quiet_turn (quiet_safe _ (quiet_sample _ _)) (fun _ _ => rfl) fun _ => rfl
  | render => exact render_turn
  | render_owned => exact render_owned_turn

/-! ## Who owns the slot -/

inductive Owner where
  | thread (t : ℕ)
  /-- The worker that was created and has not begun. -/
  | worker
  deriving DecidableEq

/-- Who owns the slot after these events. -/
def phase : List recorder.Event → Option Owner
  | [] => none
  | .started t .render_owned :: _ => some (.thread t)
  | .called t ⟨.acquire_slot, .ok true⟩ :: _ => some (.thread t)
  | .called _ ⟨.create_worker, .ok ()⟩ :: _ => some .worker
  | .called _ ⟨.release_slot, .ok ()⟩ :: _ => none
  | _ :: log => phase log

/-- The slot and its owner agree. -/
structure Owned (c : recorder.Conf) : Prop where
  slot : c.world.slot = true ↔ phase c.log ≠ none
  pending : c.world.pending = if phase c.log = some .worker then 1 else 0
  /-- What a thread's own calls say agrees with the log of all. -/
  holder : ∀ t task, .started t task ∈ c.log → (Holds task (own t c.log) ↔ phase c.log = some (.thread t))
  known : ∀ t, phase c.log = some (.thread t) → ∃ task, .started t task ∈ c.log
  /-- A lock that nobody holds raises when it is released. -/
  released : ∀ t r, .called t ⟨.release_slot, r⟩ ∈ c.log → r = .ok ()

/-- Nobody has the slot at the start. -/
theorem owned_initial : Owned (Conf.initial ({} : RecState)) := by
  refine ⟨?_, rfl, ?_, ?_, ?_⟩
  · constructor
    · intro h
      cases h
    · intro h
      exact absurd rfl h
  · intro t task hin
    cases hin
  · intro t hphase
    cases hphase
  · intro t r hin
    cases hin

/-- No task but the worker owns the slot when it starts. -/
theorem not_holds_nil {task : RecTask} (htask : task ≠ .render_owned) : ¬ Holds task [] := by
  cases task with
  | render => simp [Holds]
  | render_owned => exact absurd rfl htask
  | _ => exact not_false

theorem phase_started {t : ℕ} {task : RecTask} (htask : task ≠ .render_owned) (log : List recorder.Event) :
    phase (.started t task :: log) = phase log := by
  cases task with
  | render_owned => exact absurd rfl htask
  | _ => rfl

section Step

variable {c : recorder.Conf}

/-- A task that starts is no owner, unless it is the worker. -/
theorem Owned.begin (hc : Owned c) (hgiven : ∀ t task, .started t task ∈ c.log → t < c.next)
    (hunused : own c.next c.log = []) {task : RecTask} (htask : task ≠ .render_owned)
    {threads : ℕ → Option (RecProg Unit)} {next : ℕ} :
    Owned { world := c.world, log := .started c.next task :: c.log, threads := threads, next := next } := by
  have hphase := phase_started (t := c.next) htask c.log
  refine ⟨?_, ?_, ?_, ?_, ?_⟩
  · dsimp only
    rw [hphase]
    exact hc.slot
  · dsimp only
    rw [hphase]
    exact hc.pending
  · intro t task' hin
    dsimp only
    rw [hphase, own_started]
    rcases List.mem_cons.mp hin with heq | hin
    · obtain ⟨rfl, rfl⟩ := Event.started.inj heq
      rw [hunused]
      constructor
      · intro hholds
        exact absurd hholds (not_holds_nil htask)
      · intro hown
        -- a thread that owns the slot has started before
        obtain ⟨task'', hbefore⟩ := hc.known _ hown
        exact absurd (hgiven _ _ hbefore) (Nat.lt_irrefl _)
    · exact hc.holder t task' hin
  · intro t hown
    dsimp only at hown
    rw [hphase] at hown
    obtain ⟨task', hin⟩ := hc.known t hown
    exact ⟨task', List.mem_cons_of_mem _ hin⟩
  · intro t r hin
    rcases List.mem_cons.mp hin with heq | hin
    · cases heq
    · exact hc.released t r hin

/-- A worker begins: it is the one that was created. -/
theorem Owned.begin_worker (hc : Owned c) (hgiven : ∀ t task, .started t task ∈ c.log → t < c.next)
    (hunused : own c.next c.log = []) (hpos : 0 < c.world.pending)
    {threads : ℕ → Option (RecProg Unit)} {next : ℕ} :
    Owned { world := { c.world with pending := c.world.pending - 1 },
            log := .started c.next .render_owned :: c.log, threads := threads, next := next } := by
  -- only an owned slot has a worker to begin
  have hworker : phase c.log = some .worker := by
    by_contra hnot
    rw [hc.pending, if_neg hnot] at hpos
    exact absurd hpos (Nat.lt_irrefl _)
  have hphase : phase (.started c.next .render_owned :: c.log) = some (.thread c.next) := rfl
  refine ⟨?_, ?_, ?_, ?_, ?_⟩
  · dsimp only
    rw [hphase, hc.slot, hworker]
    simp
  · dsimp only
    rw [hphase, hc.pending, hworker]
    rfl
  · intro t task hin
    dsimp only
    rw [hphase, own_started]
    rcases List.mem_cons.mp hin with heq | hin
    · obtain ⟨rfl, rfl⟩ := Event.started.inj heq
      rw [hunused]
      exact ⟨fun _ => rfl, fun _ k hk => absurd hk List.not_mem_nil⟩
    · have hlt := hgiven t task hin
      rw [hc.holder t task hin, hworker]
      constructor
      · intro heq
        cases heq
      · intro heq
        obtain rfl := Owner.thread.inj (Option.some.inj heq)
        exact absurd hlt (Nat.lt_irrefl _)
  · intro t hown
    obtain rfl := Owner.thread.inj (Option.some.inj hown)
    exact ⟨_, List.mem_cons_self⟩
  · intro t r hin
    rcases List.mem_cons.mp hin with heq | hin
    · cases heq
    · exact hc.released t r hin

variable {t : ℕ} {task : RecTask} {k : Call recSig RecExc} {w : RecState} {threads : ℕ → Option (RecProg Unit)}

theorem mem_log_called {u : ℕ} {task' : RecTask} {log : List recorder.Event}
    (h : .started u task' ∈ (.called t k :: log : List recorder.Event)) : .started u task' ∈ log := by
  rcases List.mem_cons.mp h with heq | hin
  · cases heq
  · exact hin

/-- A call that changes nothing about the slot. -/
theorem Owned.same (hc : Owned c) (hin : .started t task ∈ c.log)
    (honce : ∀ task', .started t task' ∈ c.log → task' = task)
    (hphase : phase (.called t k :: c.log) = phase c.log) (hslot : w.slot = c.world.slot)
    (hpending : w.pending = c.world.pending) (hholds : Holds task (k :: own t c.log) ↔ Holds task (own t c.log))
    (hrelease : k.op ≠ .release_slot) :
    Owned { c with world := w, log := .called t k :: c.log, threads := threads } := by
  refine ⟨?_, ?_, ?_, ?_, ?_⟩
  · dsimp only
    rw [hphase, hslot]
    exact hc.slot
  · dsimp only
    rw [hphase, hpending]
    exact hc.pending
  · intro u task' hstarted
    dsimp only
    rw [hphase]
    by_cases hu : t = u
    · subst hu
      obtain rfl := honce task' (mem_log_called hstarted)
      rw [own_called_self, hholds]
      exact hc.holder t _ hin
    · rw [own_called_ne hu]
      exact hc.holder u task' (mem_log_called hstarted)
  · intro u hown
    dsimp only at hown
    rw [hphase] at hown
    obtain ⟨task', hstarted⟩ := hc.known u hown
    exact ⟨task', List.mem_cons_of_mem _ hstarted⟩
  · intro u r hcall
    rcases List.mem_cons.mp hcall with heq | hcall
    · obtain ⟨-, rfl⟩ := Event.called.inj heq
      exact absurd rfl hrelease
    · exact hc.released u r hcall

/-- A call by which the thread gets the slot or gives it away. -/
theorem Owned.moved (hc : Owned c) (hin : .started t task ∈ c.log)
    (honce : ∀ task', .started t task' ∈ c.log → task' = task)
    (hbefore : ∀ u, t ≠ u → phase c.log ≠ some (.thread u))
    (hafter : ∀ u, t ≠ u → phase (.called t k :: c.log) ≠ some (.thread u))
    (hself : Holds task (k :: own t c.log) ↔ phase (.called t k :: c.log) = some (.thread t))
    (hslot : w.slot = true ↔ phase (.called t k :: c.log) ≠ none)
    (hpending : w.pending = if phase (.called t k :: c.log) = some .worker then 1 else 0)
    (hrelease : ∀ r, k = ⟨.release_slot, r⟩ → r = .ok ()) :
    Owned { c with world := w, log := .called t k :: c.log, threads := threads } := by
  refine ⟨hslot, hpending, ?_, ?_, ?_⟩
  · intro u task' hstarted
    dsimp only
    by_cases hu : t = u
    · subst hu
      obtain rfl := honce task' (mem_log_called hstarted)
      rw [own_called_self]
      exact hself
    · rw [own_called_ne hu, hc.holder u task' (mem_log_called hstarted)]
      exact ⟨fun heq => absurd heq (hbefore u hu), fun heq => absurd heq (hafter u hu)⟩
  · intro u hown
    by_cases hu : t = u
    · subst hu
      exact ⟨task, List.mem_cons_of_mem _ hin⟩
    · exact absurd hown (hafter u hu)
  · intro u r hcall
    rcases List.mem_cons.mp hcall with heq | hcall
    · obtain ⟨-, heq⟩ := Event.called.inj heq
      exact hrelease r heq.symm
    · exact hc.released u r hcall

/-- The coroutine asks for the slot. -/
theorem Owned.acquire (hc : Owned c) (hin : .started t .render ∈ c.log)
    (honce : ∀ task', .started t task' ∈ c.log → task' = .render) (hnew : own t c.log = []) :
    Owned { c with world := { c.world with slot := true },
                   log := .called t ⟨.acquire_slot, .ok (!c.world.slot)⟩ :: c.log, threads := threads } := by
  cases htaken : c.world.slot with
  | true =>
      -- refused: the slot stays with its owner
      refine hc.same hin honce rfl htaken.symm rfl ?_ (fun heq => (by cases heq))
      rw [hnew]
      simp [Holds, got]
  | false =>
      have hnone : phase c.log = none := by
        by_contra hsome
        rw [hc.slot.mpr hsome] at htaken
        cases htaken
      -- granted: nobody owned it
      have hphase : phase (.called t ⟨.acquire_slot, .ok (!false)⟩ :: c.log) = some (.thread t) := rfl
      refine hc.moved hin honce ?_ ?_ ?_ ?_ ?_ ?_
      · intro u _
        rw [hnone]
        exact fun heq => (by cases heq)
      · intro u hu heq
        rw [hphase] at heq
        exact hu (Owner.thread.inj (Option.some.inj heq))
      · rw [hphase, hnew]
        exact ⟨fun _ => rfl, fun _ => .inl rfl⟩
      · rw [hphase]
        simp
      · rw [hphase]
        dsimp only
        rw [hc.pending, hnone]
        rfl
      · intro r heq
        cases heq

/-- The thread that owns the slot, and nobody else. -/
theorem Owned.alone (hc : Owned c) (hin : .started t task ∈ c.log) (hholds : Holds task (own t c.log)) :
    phase c.log = some (.thread t) ∧ c.world.slot = true ∧ c.world.pending = 0
      ∧ ∀ u, t ≠ u → phase c.log ≠ some (.thread u) := by
  have hphase := (hc.holder t task hin).mp hholds
  refine ⟨hphase, ?_, ?_, ?_⟩
  · rw [hc.slot, hphase]
    simp
  · rw [hc.pending, hphase]
    rfl
  · intro u hu heq
    rw [hphase] at heq
    exact hu (Owner.thread.inj (Option.some.inj heq))

/-- The slot goes to the worker, if there is one. -/
theorem Owned.create (hc : Owned c) (luck : Luck) (hin : .started t .render ∈ c.log)
    (honce : ∀ task', .started t task' ∈ c.log → task' = .render) (hown : own t c.log = [got]) :
    Owned { c with world := (c.world.exec luck .create_worker).2,
                   log := .called t ⟨.create_worker, (c.world.exec luck .create_worker).1⟩ :: c.log,
                   threads := threads } := by
  obtain ⟨hphase, hslot, hpending, halone⟩ := hc.alone hin (hown ▸ .inl rfl)
  -- a worker that could not be created leaves the slot with the coroutine
  have hfailed : ∀ e, Owned { c with log := .called t ⟨.create_worker, .error e⟩ :: c.log, threads := threads } := by
    intro e
    refine hc.same hin honce rfl rfl rfl ?_ (fun heq => (by cases heq))
    rw [hown]
    exact ⟨fun _ => .inl rfl, fun _ => .inr ⟨e, rfl⟩⟩
  cases luck with
  | raises e => exact hfailed e
  | raises_late e => exact hfailed e
  | works =>
      have hworker : phase (.called t ⟨.create_worker, .ok ()⟩ :: c.log) = some .worker := rfl
      refine hc.moved hin honce halone ?_ ?_ ?_ ?_ ?_
      · intro u _ heq
        cases heq
      · rw [hown]
        constructor
        · rintro (heq | ⟨e, heq⟩)
          · cases heq
          · cases heq
        · intro heq
          cases heq
      · exact ⟨fun _ heq => (by cases heq), fun _ => hslot⟩
      · show c.world.pending + 1 = _
        rw [hpending]
        rfl
      · intro r heq
        cases heq

/-- Who owns the slot gives it back. -/
theorem Owned.release (hc : Owned c) (luck : Luck) (hin : .started t task ∈ c.log)
    (honce : ∀ task', .started t task' ∈ c.log → task' = task) (hholds : Holds task (own t c.log))
    (hafter : ∀ r, ¬ Holds task (⟨.release_slot, r⟩ :: own t c.log)) :
    Owned { c with world := (c.world.exec luck .release_slot).2,
                   log := .called t ⟨.release_slot, (c.world.exec luck .release_slot).1⟩ :: c.log,
                   threads := threads } := by
  obtain ⟨hphase, hslot, hpending, halone⟩ := hc.alone hin hholds
  have hexec : c.world.exec luck .release_slot = (.ok (), { c.world with slot := false }) := by
    simp only [RecState.exec, hslot, if_true]
  rw [hexec]
  refine hc.moved hin honce halone ?_ ?_ ?_ ?_ ?_
  · intro u _ heq
    cases heq
  · constructor
    · intro hself
      exact absurd hself (hafter _)
    · intro heq
      cases heq
  · constructor
    · intro heq
      cases heq
    · intro hne
      exact absurd rfl hne
  · exact hpending
  · intro r heq
    exact (eq_of_heq (Call.mk.inj heq).2).symm

/-- Other calls leave the slot and the workers alone. -/
theorem exec_slot (w : RecState) (luck : Luck) {o : RecOp} (hacquire : o ≠ .acquire_slot)
    (hcreate : o ≠ .create_worker) (hrelease : o ≠ .release_slot) :
    (w.exec luck o).2.slot = w.slot ∧ (w.exec luck o).2.pending = w.pending := by
  cases o with
  | acquire_slot => exact absurd rfl hacquire
  | create_worker => exact absurd rfl hcreate
  | release_slot => exact absurd rfl hrelease
  | publish_success =>
      simp only [RecState.exec]
      split
      · exact ⟨rfl, rfl⟩
      · cases luck <;> exact ⟨rfl, rfl⟩
  | publish_zero =>
      simp only [RecState.exec]
      cases luck with
      | works => exact ⟨rfl, rfl⟩
      | raises e => cases e <;> exact ⟨rfl, rfl⟩
      | raises_late e => cases e <;> exact ⟨rfl, rfl⟩
  | lookup cache key => exact ⟨rfl, rfl⟩
  | remember cache key => exact ⟨rfl, rfl⟩
  | warn_once => exact ⟨rfl, rfl⟩
  | _ => cases luck <;> exact ⟨rfl, rfl⟩

theorem phase_called {o : RecOp} {r : Except RecExc o.Resp} (hacquire : o ≠ .acquire_slot)
    (hcreate : o ≠ .create_worker) (hrelease : o ≠ .release_slot) (log : List recorder.Event) :
    phase (.called t ⟨o, r⟩ :: log) = phase log := by
  cases o with
  | acquire_slot => exact absurd rfl hacquire
  | create_worker => exact absurd rfl hcreate
  | release_slot => exact absurd rfl hrelease
  | _ => rfl

/-- Other calls of a task in its turn do not change who owns the slot. -/
theorem holds_called {o : RecOp} {r : Except RecExc o.Resp} {h : List (Call recSig RecExc)}
    (hturn : Turn task h ⟨o, r⟩) (hacquire : o ≠ .acquire_slot) (hcreate : o ≠ .create_worker)
    (hrelease : o ≠ .release_slot) : Holds task (⟨o, r⟩ :: h) ↔ Holds task h := by
  cases task with
  | render =>
      cases o with
      | acquire_slot => exact absurd rfl hacquire
      | create_worker => exact absurd rfl hcreate
      | release_slot => exact absurd rfl hrelease
      | await_worker =>
          obtain rfl : h = _ := hturn
          simp [Holds, got]
      | _ => exact False.elim hturn
  | render_owned =>
      constructor
      · intro hh k hk
        exact hh k (List.mem_cons_of_mem _ hk)
      · exact unreleased_cons hrelease
  | _ => exact Iff.rfl

/-- A call, whatever it is: the four that concern the slot by their own lemmas, and all others by one. -/
theorem Owned.call (hc : Owned c) (luck : Luck) {o : RecOp} (hin : .started t task ∈ c.log)
    (honce : ∀ task', .started t task' ∈ c.log → task' = task)
    (hturn : Turn task (own t c.log) ⟨o, (c.world.exec luck o).1⟩) :
    Owned { c with world := (c.world.exec luck o).2, log := .called t ⟨o, (c.world.exec luck o).1⟩ :: c.log,
                   threads := threads } := by
  by_cases hacquire : o = .acquire_slot
  · subst hacquire
    cases task with
    | render => exact hc.acquire hin honce hturn
    | _ => exact False.elim hturn
  by_cases hcreate : o = .create_worker
  · subst hcreate
    cases task with
    | render => exact hc.create luck hin honce hturn
    | _ => exact False.elim hturn
  by_cases hrelease : o = .release_slot
  · subst hrelease
    cases task with
    | render =>
        obtain ⟨e, hown⟩ := hturn
        refine hc.release luck hin honce (.inr ⟨e, hown⟩) ?_
        intro r
        rw [hown]
        simp [Holds, got]
    | render_owned =>
        refine hc.release luck hin honce hturn ?_
        intro r hh
        exact hh ⟨.release_slot, r⟩ List.mem_cons_self rfl
    | _ => exact False.elim hturn
  · -- every other call leaves the slot and its owner alone
    obtain ⟨hslot, hpending⟩ := exec_slot c.world luck hacquire hcreate hrelease
    exact hc.same hin honce (phase_called hacquire hcreate hrelease c.log) hslot hpending
      (holds_called hturn hacquire hcreate hrelease) hrelease

end Step

/-! ## All runs -/

/-- The run lemma. -/
theorem reach_owned {ok : recorder.Conf → recorder.Action → Prop} {c : recorder.Conf}
    (h : Reach ok (Conf.initial ({} : RecState)) c) : Owned c := by
  induction h with
  | init => exact owned_initial
  | @step c c' a hr ha hs ih =>
      have horder := reach_inOrder (M := recorder) (Φ := Turn) (Q := fun task h _ => ¬ Holds task h) task_turn hr
      obtain ⟨task, w, -, hw, rfl⟩ | ⟨t, luck, o, k, r, w, -, hk, hexec, rfl⟩ | ⟨e, -, -⟩ := Conf.step_cases hs
      · have hunused := (horder.unused c.next (Nat.le_refl _)).2
        by_cases htask : task = .render_owned
        · subst htask
          simp only at hw
          split at hw
          · next hpos =>
              obtain rfl := Option.some.inj hw
              exact ih.begin_worker horder.given hunused hpos
          · cases hw
        · have hsame : w = c.world := by
            cases task with
            | render_owned => exact absurd rfl htask
            | _ => exact (Option.some.inj hw).symm
          subst hsame
          exact ih.begin horder.given hunused htask
      · obtain ⟨rfl, rfl⟩ := Prod.mk.inj (Option.some.inj hexec)
        obtain ⟨task, hin, hsat⟩ := horder.live t _ hk
        exact ih.call luck hin (fun task' hin' => horder.once t task' task hin' hin) (hsat _).1
      · exact e.elim

/-- A thread that started is there, ended or not. -/
theorem reach_thread {ok : recorder.Conf → recorder.Action → Prop} {c : recorder.Conf}
    (h : Reach ok (Conf.initial ({} : RecState)) c) {t : ℕ} {task : RecTask} (hin : .started t task ∈ c.log) :
    ∃ p, c.threads t = some p := by
  induction h with
  | init => cases hin
  | @step c c' a hr ha hs ih =>
      obtain ⟨task', w, -, -, rfl⟩ | ⟨u, luck, o, k, r, w, -, -, -, rfl⟩ | ⟨e, -, -⟩ := Conf.step_cases hs
      · dsimp only
        by_cases ht : t = c.next
        · subst ht
          exact ⟨_, Function.update_self ..⟩
        · rw [Function.update_of_ne ht]
          rcases List.mem_cons.mp hin with heq | hin
          · exact absurd (Event.started.inj heq).1 ht
          · exact ih hin
      · dsimp only
        by_cases ht : t = u
        · subst ht
          exact ⟨_, Function.update_self ..⟩
        · rw [Function.update_of_ne ht]
          exact ih (mem_log_called hin)
      · exact e.elim

/-- Who owns the slot has calls to make. -/
theorem holder_goes_on {c : recorder.Conf} (h : Reach (fun _ _ => True) (Conf.initial ({} : RecState)) c) {t : ℕ}
    {task : RecTask} (hin : .started t task ∈ c.log) (hholds : Holds task (own t c.log)) :
    ∃ o k, c.threads t = some (.call o k) := by
  have horder := reach_inOrder (M := recorder) (Φ := Turn) (Q := fun task h _ => ¬ Holds task h) task_turn h
  obtain ⟨p, hp⟩ := reach_thread h hin
  obtain ⟨task', hin', hsat⟩ := horder.live t p hp
  obtain rfl := horder.once t task task' hin hin'
  cases p with
  | ret a => exact absurd hholds hsat
  | raise e => exact absurd hholds hsat
  | call o k => exact ⟨o, k, hp⟩

/-- The thread is a scrape that has not ended. -/
def Scraping (c : recorder.Conf) (t : ℕ) : Prop :=
  (.started t .render ∈ c.log ∨ .started t .render_owned ∈ c.log)
    ∧ ∃ o k, c.threads t = some (.call o k)

/-- The thread is about to render. -/
def Rendering (c : recorder.Conf) (t : ℕ) : Prop := ∃ k, c.threads t = some (.call .generate_latest k)

/-- Who renders is in its turn to do so, and then it is the owner. -/
theorem rendering_owns {c : recorder.Conf} (h : Reach (fun _ _ => True) (Conf.initial ({} : RecState)) c) {t : ℕ}
    (hrender : Rendering c t) : phase c.log = some (.thread t) := by
  have horder := reach_inOrder (M := recorder) (Φ := Turn) (Q := fun task h _ => ¬ Holds task h) task_turn h
  obtain ⟨k, hk⟩ := hrender
  obtain ⟨task, hin, hsat⟩ := horder.live t _ hk
  -- only the worker renders, and only before its release
  have hturn := (hsat (.ok ())).1
  refine ((reach_owned h).holder t task hin).mp ?_
  cases task with
  | render_owned => exact hturn
  | _ => exact False.elim hturn

/-- **One scrape at a time.** However scrapes, recordings, cancellations and failures interleave: two threads never
render at once, and while one renders the slot is taken and no other worker is about to begin; a worker that was
created has the slot, and there is at most one; no release fails; a new scrape gets the slot only if nobody has it;
and the slot is taken only while there is a worker to begin or a scrape that has not ended. -/
theorem one_scrape_at_a_time {c : recorder.Conf}
    (h : Reach (fun _ _ => True) (Conf.initial ({} : RecState)) c) :
    (∀ t t', Rendering c t → Rendering c t' → t = t')
      ∧ (∀ t, Rendering c t → c.world.slot = true ∧ c.world.pending = 0)
      ∧ c.world.pending ≤ 1 ∧ (0 < c.world.pending → c.world.slot = true)
      ∧ (∀ t r, .called t ⟨.release_slot, r⟩ ∈ c.log → r = .ok ())
      ∧ (∀ luck, (c.world.exec luck .acquire_slot).1 = .ok true → c.world.pending = 0 ∧ ∀ t, ¬ Rendering c t)
      ∧ (c.world.slot = true → 0 < c.world.pending ∨ ∃ t, Scraping c t) := by
  have hc := reach_owned h
  -- everything is read off the one owner that the log knows
  have hrendering : ∀ t, Rendering c t → c.world.slot = true ∧ c.world.pending = 0 := by
    intro t ht
    have hphase := rendering_owns h ht
    constructor
    · rw [hc.slot, hphase]
      simp
    · rw [hc.pending, hphase]
      rfl
  have hpending : 0 < c.world.pending → c.world.slot = true := by
    intro hpos
    rw [hc.slot]
    intro hnone
    rw [hc.pending, hnone] at hpos
    cases hpos
  refine ⟨?_, hrendering, ?_, hpending, hc.released, ?_, ?_⟩
  · intro t t' ht ht'
    have heq := (rendering_owns h ht).symm.trans (rendering_owns h ht')
    exact Owner.thread.inj (Option.some.inj heq)
  · rw [hc.pending]
    split <;> omega
  · -- a slot that can be had is owned by nobody
    intro luck hgot
    have hfree : c.world.slot = false := by
      have hnot : (!c.world.slot) = true := Except.ok.inj hgot
      simpa using hnot
    constructor
    · by_contra hne
      rw [hpending (Nat.pos_of_ne_zero hne)] at hfree
      cases hfree
    · intro t ht
      rw [(hrendering t ht).1] at hfree
      cases hfree
  · -- and a slot that is taken has an owner that goes on
    intro hslot
    have howner := hc.slot.mp hslot
    cases hphase : phase c.log with
    | none => exact absurd hphase howner
    | some owner =>
        cases owner with
        | worker =>
            left
            rw [hc.pending, if_pos hphase]
            exact Nat.one_pos
        | thread t =>
            obtain ⟨task, hin⟩ := hc.known t hphase
            have hholds := (hc.holder t task hin).mpr hphase
            have hscrape : .started t .render ∈ c.log ∨ .started t .render_owned ∈ c.log := by
              cases task with
              | render => exact .inl hin
              | render_owned => exact .inr hin
              | _ => exact False.elim hholds
            right
            exact ⟨t, hscrape, holder_goes_on h hin hholds⟩

/-- The program's next call renders. -/
def is_rendering : RecProg Unit → Bool
  | .call .generate_latest _ => true
  | _ => false

theorem is_rendering_eq {p : RecProg Unit} (h : is_rendering p = true) : ∃ k, p = .call .generate_latest k := by
  cases p with
  | ret a => cases h
  | raise e => cases h
  | call o k =>
      cases o with
      | generate_latest => exact ⟨k, rfl⟩
      | _ => cases h

/-- The last call did not get the slot. -/
def refused : List recorder.Event → Bool
  | .called _ ⟨.acquire_slot, .ok false⟩ :: _ => true
  | _ => false

/-- A scrape creates its worker, its request is cancelled, and another scrape comes while the worker renders. -/
def cancelled_scrape : List recorder.Action :=
  [.start .render, .run 0 .works, .run 0 .works, .run 0 (.raises .Interrupt), .start .render_owned, .start .render,
    .run 2 .works]

theorem one_scrape_at_a_time_cancelled :
    ∃ c : recorder.Conf, refused c.log = true ∧ Rendering c 1 ∧ c.world.slot = true ∧ c.world.pending = 0 := by
  have hrun : ((Conf.initial (M := recorder) {}).steps (fun _ _ => true) cancelled_scrape).any
      (fun c => (c.threads 1).any is_rendering && refused c.log) = true := by decide +kernel
  obtain ⟨c, hsteps, hrun⟩ := (Option.any_eq_true _ _).mp hrun
  obtain ⟨hthread, hrefused⟩ := (Bool.and_eq_true _ _).mp hrun
  obtain ⟨p, hp, hrendering⟩ := (Option.any_eq_true _ _).mp hthread
  have hin : Rendering c 1 := by
    obtain ⟨k, rfl⟩ := is_rendering_eq hrendering
    exact ⟨k, hp⟩
  have hsafe := one_scrape_at_a_time (reach_of_steps (fun _ _ _ => trivial) hsteps)
  exact ⟨c, hrefused, hin, hsafe.2.1 1 hin⟩

end OpenChronicle.Recorder
