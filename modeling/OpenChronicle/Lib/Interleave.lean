/-
Many programs on one shared world.

A `Machine` runs tasks, each a `Prog`, on threads that share a world. One step is one operation of one
thread, the start of a task, or an act of the environment, and every step is written to a log. Nothing
is said about which step comes next, so the reachable configurations are those of every schedule.

Proofs split in two. What a thread does in which order depends on its program alone: `Sat` says it of
the program tree, one call at a time, and `reach_inOrder` carries it to every call in the log. What an
operation answers depends on the world alone and is an invariant of single steps. Results about runs
combine the two, as facts about one log.

The log is the means by which the two speak of each other. It is kept by the machine, not by the
programs, and no operation can read it. `own` cuts it down to one thread, and the theorem about program
order says that this is a history which the thread's program may have; `Reach.cut` goes back from an
event to the configuration in which it happened, so that an invariant of configurations can be used in
the middle of a run.

A thread may stop anywhere, by not being run again or by an act of the environment that ends all
threads, which is how a process that is killed is modelled. So nothing that is proved here says that a
program ends.
-/
import OpenChronicle.Lib.Program

set_option autoImplicit false

namespace Program

/-- A call as it went: the operation and its answer. -/
structure Call (S : Sig) (ε : Type) where
  op : S.Op
  res : Except ε (S.Resp op)

/-! ## The order of calls in a program -/

namespace Prog

variable {S : Sig} {ε α β : Type} {Φ : List (Call S ε) → Call S ε → Prop}

/-- Whatever is answered, each call of the program satisfies `Φ` relative to the
calls made before it (newest first), and its end satisfies `Q`. -/
def Sat (Φ : List (Call S ε) → Call S ε → Prop) :
    Prog S ε α → (List (Call S ε) → Except ε α → Prop) → List (Call S ε) → Prop
  | ret a, Q, h => Q h (.ok a)
  | raise e, Q, h => Q h (.error e)
  | call o k, Q, h => ∀ r, Φ h ⟨o, r⟩ ∧ (k r).Sat Φ Q (⟨o, r⟩ :: h)

variable {Q Q' : List (Call S ε) → Except ε α → Prop} {h : List (Call S ε)}

theorem sat_pure {a : α} (hQ : Q h (.ok a)) : (pure a : Prog S ε α).Sat Φ Q h := hQ

theorem sat_raise {e : ε} (hQ : Q h (.error e)) : (raise e : Prog S ε α).Sat Φ Q h := hQ

/-- The rules, one for each way in which a program is put together. They follow the tree, so a proof
about a program has the shape of its text. -/
theorem sat_op {o : S.Op} {Q : List (Call S ε) → Except ε (S.Resp o) → Prop}
    (hQ : ∀ r, Φ h ⟨o, r⟩ ∧ Q (⟨o, r⟩ :: h) r) : (op o : Prog S ε (S.Resp o)).Sat Φ Q h := by
  intro r
  refine ⟨(hQ r).1, ?_⟩
  cases r with
  | ok v => exact (hQ (.ok v)).2
  | error e => exact (hQ (.error e)).2

/-- The calls a program makes only add to those before it. -/
theorem Sat.mono {p : Prog S ε α} (hp : p.Sat Φ Q h)
    (hQ : ∀ h' r, h <:+ h' → Q h' r → Q' h' r) : p.Sat Φ Q' h := by
  induction p generalizing h with
  | ret a => exact hQ h _ (List.suffix_refl h) hp
  | raise e => exact hQ h _ (List.suffix_refl h) hp
  | call o k ih =>
      intro r
      refine ⟨(hp r).1, ih r (hp r).2 ?_⟩
      intro h' r' hsuf
      exact hQ h' r' ((List.suffix_cons _ _).trans hsuf)

theorem Sat.bind {p : Prog S ε α} {f : α → Prog S ε β}
    {Q : List (Call S ε) → Except ε β → Prop}
    (hp : p.Sat Φ (fun h' r => match r with
      | .ok a => (f a).Sat Φ Q h'
      | .error e => Q h' (.error e)) h) : (p >>= f).Sat Φ Q h := by
  induction p generalizing h with
  | ret a => exact hp
  | raise e => exact hp
  | call o k ih =>
      intro r
      exact ⟨(hp r).1, ih r (hp r).2⟩

theorem Sat.attempt {p : Prog S ε α} {Q : List (Call S ε) → Except ε (Except ε α) → Prop}
    (hp : p.Sat Φ (fun h' r => Q h' (.ok r)) h) : p.attempt.Sat Φ Q h := by
  induction p generalizing h with
  | ret a => exact hp
  | raise e => exact hp
  | call o k ih =>
      intro r
      exact ⟨(hp r).1, ih r (hp r).2⟩

/-- What is in a `finally` runs after the body, whichever way that ended, and an exception of its own
takes the place of the body's. -/
theorem Sat.tryFinally {p : Prog S ε α} {fin : Prog S ε Unit}
    (hp : p.Sat Φ (fun h' r => fin.Sat Φ (fun h'' u => match r, u with
      | .ok a, .ok _ => Q h'' (.ok a)
      | .error e, .ok _ => Q h'' (.error e)
      | _, .error e => Q h'' (.error e)) h') h) : (p.tryFinally fin).Sat Φ Q h := by
  refine Sat.bind (Sat.attempt (hp.mono ?_))
  intro h' r _ hfin
  cases r with
  | ok a =>
      refine Sat.bind (hfin.mono ?_)
      intro h'' u _ hu
      cases u with
      | ok _ => exact hu
      | error e => exact hu
  | error e =>
      refine Sat.bind (hfin.mono ?_)
      intro h'' u _ hu
      cases u with
      | ok _ => exact hu
      | error e' => exact hu

/-! ### Calls of one kind

`Makes P p` forgets the order: every operation `p` may call satisfies `P`. -/

def Makes (P : S.Op → Prop) : Prog S ε α → Prop
  | ret _ => True
  | raise _ => True
  | call o k => P o ∧ ∀ r, (k r).Makes P

section Makes

variable {P : S.Op → Prop}

theorem makes_op {o : S.Op} (ho : P o) : (op o : Prog S ε (S.Resp o)).Makes P := by
  refine ⟨ho, ?_⟩
  intro r
  cases r <;> trivial

/-- A kind that is wider. -/
theorem Makes.mono {P' : S.Op → Prop} {p : Prog S ε α} (hp : p.Makes P)
    (hP : ∀ o, P o → P' o) : p.Makes P' := by
  induction p with
  | ret a => trivial
  | raise e => trivial
  | call o k ih => exact ⟨hP o hp.1, fun r => ih r (hp.2 r)⟩

theorem Makes.bind {p : Prog S ε α} {f : α → Prog S ε β} (hp : p.Makes P)
    (hf : ∀ a, (f a).Makes P) : (p >>= f).Makes P := by
  induction p with
  | ret a => exact hf a
  | raise e => trivial
  | call o k ih => exact ⟨hp.1, fun r => ih r (hp.2 r)⟩

theorem Makes.attempt {p : Prog S ε α} (hp : p.Makes P) : p.attempt.Makes P := by
  induction p with
  | ret a => trivial
  | raise e => trivial
  | call o k ih => exact ⟨hp.1, fun r => ih r (hp.2 r)⟩

theorem Makes.tryFinally {p : Prog S ε α} {fin : Prog S ε Unit} (hp : p.Makes P)
    (hfin : fin.Makes P) : (p.tryFinally fin).Makes P := by
  refine Makes.bind hp.attempt ?_
  intro r
  cases r with
  | ok a => exact Makes.bind hfin fun _ => trivial
  | error e => exact Makes.bind hfin fun _ => trivial

/-- Several kinds at once. -/
theorem makes_forall {ι : Type} {P : ι → S.Op → Prop} {p : Prog S ε α}
    (hp : ∀ i, p.Makes (P i)) : p.Makes fun o => ∀ i, P i o := by
  induction p with
  | ret a => trivial
  | raise e => trivial
  | call o k ih => exact ⟨fun i => (hp i).1, fun r => ih r fun i => (hp i).2 r⟩

/-- Once a program is done, its calls are those before it and calls of its kind. -/
theorem Sat.makes {p : Prog S ε α} (hp : p.Sat Φ Q h) (hm : p.Makes P) :
    p.Sat Φ (fun h' r => Q h' r ∧ ∀ c ∈ h', c ∈ h ∨ P c.op) h := by
  induction p generalizing h with
  | ret a => exact ⟨hp, fun c hc => .inl hc⟩
  | raise e => exact ⟨hp, fun c hc => .inl hc⟩
  | call o k ih =>
      intro r
      refine ⟨(hp r).1, (ih r (hp r).2 (hm.2 r)).mono ?_⟩
      rintro h' r' - ⟨hQ, hcalls⟩
      refine ⟨hQ, ?_⟩
      intro c hc
      rcases hcalls c hc with hin | hP
      · rcases List.mem_cons.mp hin with rfl | hin
        · exact .inr hm.1
        · exact .inl hin
      · exact .inr hP

/-- Calls of one kind are an order that asks nothing of the calls before. -/
theorem Makes.sat {p : Prog S ε α} (hp : p.Makes P) (h : List (Call S ε)) :
    p.Sat (fun _ c => P c.op) (fun _ _ => True) h := by
  induction p generalizing h with
  | ret a => trivial
  | raise e => trivial
  | call o k ih => exact fun r => ⟨hp.1, ih r (hp.2 r) _⟩

end Makes

end Prog

/-! ## Machines -/

structure Machine (S : Sig) (ε : Type) where
  World : Type
  Task : Type
  /-- What decides an operation that can go several ways. -/
  Choice : Type
  Env : Type
  prog : Task → Prog S ε Unit
  /-- Whether a task may start, and what starting it does. -/
  launch : Task → World → Option World
  /-- One operation of a thread; `none` while it has to wait. -/
  exec : ℕ → (o : S.Op) → Choice → World → Option (Except ε (S.Resp o) × World)
  env : Env → World → World
  /-- Whether an act of the environment ends every thread. -/
  kills : Env → Bool

namespace Machine

variable {S : Sig} {ε : Type} (M : Machine S ε)

inductive Event where
  | started (t : ℕ) (task : M.Task)
  | called (t : ℕ) (c : Call S ε)
  | env (e : M.Env)

inductive Action where
  | start (task : M.Task)
  | run (t : ℕ) (choice : M.Choice)
  | env (e : M.Env)

/-- A configuration; the log has the newest event first. -/
structure Conf where
  world : M.World
  log : List M.Event
  threads : ℕ → Option (Prog S ε Unit)
  next : ℕ

variable {M}

/-- A world before anything ran on it. -/
def Conf.initial (w : M.World) : M.Conf := ⟨w, [], fun _ => none, 0⟩

def Conf.step (c : M.Conf) : M.Action → Option M.Conf
  | .start task =>
      (M.launch task c.world).map fun w =>
        { world := w
          log := .started c.next task :: c.log
          threads := Function.update c.threads c.next (some (M.prog task))
          next := c.next + 1 }
  | .run t choice =>
      match c.threads t with
      | some (.call o k) =>
          (M.exec t o choice c.world).map fun (r, w) =>
            { c with
              world := w
              log := .called t ⟨o, r⟩ :: c.log
              threads := Function.update c.threads t (some (k r)) }
      | _ => none
  | .env e => some
      { c with
        world := M.env e c.world
        log := .env e :: c.log
        threads := if M.kills e then fun _ => none else c.threads }

/-- Take several steps, each of them only if it passes the check. -/
def Conf.steps (check : M.Conf → M.Action → Bool) : M.Conf → List M.Action → Option M.Conf
  | c, [] => some c
  | c, a :: rest => if check c a then (c.step a).bind fun c' => c'.steps check rest else none

/-- Reachable by steps that all satisfy `ok`. -/
inductive Reach (ok : M.Conf → M.Action → Prop) (c₀ : M.Conf) : M.Conf → Prop
  | init : Reach ok c₀ c₀
  | step {c c' : M.Conf} {a : M.Action} :
      Reach ok c₀ c → ok c a → c.step a = some c' → Reach ok c₀ c'

/-- What a step can be. -/
theorem Conf.step_cases {c c' : M.Conf} {a : M.Action} (h : c.step a = some c') :
    (∃ task w, a = .start task ∧ M.launch task c.world = some w ∧ c' =
      { world := w, log := .started c.next task :: c.log,
        threads := Function.update c.threads c.next (some (M.prog task)), next := c.next + 1 })
    ∨ (∃ t choice o k r w, a = .run t choice ∧ c.threads t = some (.call o k)
        ∧ M.exec t o choice c.world = some (r, w) ∧ c' =
          { c with world := w, log := .called t ⟨o, r⟩ :: c.log,
                   threads := Function.update c.threads t (some (k r)) })
    ∨ ∃ e, a = .env e ∧ c' =
        { c with world := M.env e c.world, log := .env e :: c.log,
                 threads := if M.kills e then fun _ => none else c.threads } := by
  cases a with
  | start task =>
      obtain ⟨w, hw, rfl⟩ := Option.map_eq_some_iff.mp h
      exact .inl ⟨task, w, rfl, hw, rfl⟩
  | run t choice =>
      rw [Conf.step] at h
      split at h
      · next o k hk =>
          obtain ⟨⟨r, w⟩, hw, rfl⟩ := Option.map_eq_some_iff.mp h
          exact .inr (.inl ⟨t, choice, o, k, r, w, rfl, hk, hw, rfl⟩)
      · cases h
  | env e => exact .inr (.inr ⟨e, rfl, (Option.some.inj h).symm⟩)

theorem Reach.trans {ok : M.Conf → M.Action → Prop} {c₀ c₁ c₂ : M.Conf} (h₁ : Reach ok c₀ c₁)
    (h₂ : Reach ok c₁ c₂) : Reach ok c₀ c₂ := by
  induction h₂ with
  | init => exact h₁
  | step _ ha hs ih => exact ih.step ha hs

theorem reach_of_steps {ok : M.Conf → M.Action → Prop} {check : M.Conf → M.Action → Bool}
    (hok : ∀ c a, check c a = true → ok c a) {c c' : M.Conf} {acts : List M.Action}
    (h : c.steps check acts = some c') : Reach ok c c' := by
  induction acts generalizing c with
  | nil =>
      obtain rfl := Option.some.inj h
      exact .init
  | cons a rest ih =>
      rw [Conf.steps] at h
      split at h
      · next hcheck =>
          obtain ⟨c₁, h₁, h₂⟩ := Option.bind_eq_some_iff.mp h
          exact (Reach.init.step (hok c a hcheck) h₁).trans (ih h₂)
      · cases h

/-- Runs under a stronger condition are runs under a weaker one. -/
theorem Reach.mono {ok ok' : M.Conf → M.Action → Prop} {c₀ c : M.Conf}
    (hok : ∀ c a, ok c a → ok' c a) (h : Reach ok c₀ c) : Reach ok' c₀ c := by
  induction h with
  | init => exact .init
  | step _ ha hs ih => exact ih.step (hok _ _ ha) hs

/-! ## Logs -/

section Logs

/-- A step writes exactly one event. -/
theorem Conf.step_log {c c' : M.Conf} {a : M.Action} (h : c.step a = some c') :
    ∃ e, c'.log = e :: c.log := by
  obtain ⟨task, w, -, -, rfl⟩ | ⟨t, choice, o, k, r, w, -, -, -, rfl⟩ | ⟨e, -, rfl⟩ :=
    Conf.step_cases h
  · exact ⟨_, rfl⟩
  · exact ⟨_, rfl⟩
  · exact ⟨_, rfl⟩

/-- A log only grows. -/
theorem Reach.log_suffix {ok : M.Conf → M.Action → Prop} {c₀ c : M.Conf} (h : Reach ok c₀ c) :
    c₀.log <:+ c.log := by
  induction h with
  | init => exact List.suffix_refl _
  | step _ _ hs ih =>
      obtain ⟨e, he⟩ := Conf.step_log hs
      rw [he]
      exact ih.trans (List.suffix_cons _ _)

/-- A run can be cut at any event of its log: before the step that wrote it, and after. -/
theorem Reach.cut {ok : M.Conf → M.Action → Prop} {w : M.World} {c : M.Conf}
    (h : Reach ok (Conf.initial w) c) {pre : List M.Event} {e : M.Event}
    (hlog : e :: pre <:+ c.log) : ∃ c₁ a c₂, Reach ok (Conf.initial w) c₁ ∧ c₁.log = pre
      ∧ ok c₁ a ∧ c₁.step a = some c₂ ∧ c₂.log = e :: pre ∧ Reach ok c₂ c := by
  induction h with
  | init => simp [Conf.initial] at hlog
  | @step c c' a hr ha hs ih =>
      obtain ⟨e', he'⟩ := Conf.step_log hs
      rw [he'] at hlog
      rcases List.suffix_cons_iff.mp hlog with heq | hlog
      · obtain ⟨rfl, rfl⟩ := List.cons.inj heq
        exact ⟨c, a, c', hr, rfl, ha, hs, he', .init⟩
      · obtain ⟨c₁, a₁, c₂, h₁, hl₁, ha₁, hs₁, hl₂, h₂⟩ := ih hlog
        exact ⟨c₁, a₁, c₂, h₁, hl₁, ha₁, hs₁, hl₂, h₂.step ha hs⟩

/-- Every event of the log satisfies `Ψ` relative to what came before it. -/
def Each (Ψ : List M.Event → M.Event → Prop) (log : List M.Event) : Prop :=
  ∀ e pre, e :: pre <:+ log → Ψ pre e

theorem each_nil {Ψ : List M.Event → M.Event → Prop} : Each Ψ [] := by
  intro e pre h
  simp at h

theorem each_cons {Ψ : List M.Event → M.Event → Prop} {e : M.Event} {log : List M.Event} :
    Each Ψ (e :: log) ↔ Ψ log e ∧ Each Ψ log := by
  constructor
  · intro h
    refine ⟨h e log (List.suffix_refl _), ?_⟩
    intro e' pre hs
    exact h e' pre (hs.trans (List.suffix_cons _ _))
  · rintro ⟨he, hlog⟩ e' pre hs
    rcases List.suffix_cons_iff.mp hs with heq | hs
    · obtain ⟨rfl, rfl⟩ := List.cons.inj heq
      exact he
    · exact hlog e' pre hs

/-- An event of a log has the part of the log before it. -/
theorem suffix_of_mem {e : M.Event} {log : List M.Event} (h : e ∈ log) :
    ∃ pre, e :: pre <:+ log := by
  obtain ⟨post, pre, rfl⟩ := List.append_of_mem h
  exact ⟨pre, List.suffix_append _ _⟩

/-- The calls of one thread, newest first. -/
def own (t : ℕ) (log : List M.Event) : List (Call S ε) :=
  log.filterMap fun
    | .called u c => if u = t then some c else none
    | _ => none

@[simp] theorem own_started (t u : ℕ) (task : M.Task) (log : List M.Event) :
    own t (.started u task :: log) = own t log := rfl

@[simp] theorem own_env (t : ℕ) (e : M.Env) (log : List M.Event) :
    own t (.env e :: log) = own t log := rfl

@[simp] theorem own_called_self (t : ℕ) (c : Call S ε) (log : List M.Event) :
    own t (.called t c :: log) = c :: own t log := by
  simp [own]

theorem own_called_ne {t u : ℕ} (h : u ≠ t) (c : Call S ε) (log : List M.Event) :
    own t (.called u c :: log) = own t log := by
  simp [own, h]

/-- A call of a thread stands in the log, after the calls before it. -/
theorem own_split {t : ℕ} {c : Call S ε} {h : List (Call S ε)} {log : List M.Event}
    (hs : c :: h <:+ own t log) : ∃ pre, .called t c :: pre <:+ log ∧ own t pre = h := by
  induction log with
  | nil => simp [own] at hs
  | cons e log ih =>
      -- either this event is the call, or the call is further back
      have further : c :: h <:+ own t log →
          ∃ pre, .called t c :: pre <:+ e :: log ∧ own t pre = h := by
        intro hs
        obtain ⟨pre, hlog, hpre⟩ := ih hs
        exact ⟨pre, hlog.trans (List.suffix_cons _ _), hpre⟩
      rcases e with ⟨u, task⟩ | ⟨u, d⟩ | a
      · exact further hs
      · by_cases hu : u = t
        · subst hu
          rw [own_called_self] at hs
          rcases List.suffix_cons_iff.mp hs with heq | hs
          · obtain ⟨rfl, rfl⟩ := List.cons.inj heq
            exact ⟨log, List.suffix_refl _, rfl⟩
          · exact further hs
        · rw [own_called_ne hu] at hs
          exact further hs
      · exact further hs

theorem mem_own {t : ℕ} {c : Call S ε} {log : List M.Event} :
    c ∈ own t log ↔ .called t c ∈ log := by
  unfold own
  rw [List.mem_filterMap]
  constructor
  · rintro ⟨e, he, heq⟩
    rcases e with ⟨u, task⟩ | ⟨u, d⟩ | a
    · cases heq
    · simp only [Option.ite_none_right_eq_some] at heq
      obtain ⟨rfl, hd⟩ := heq
      obtain rfl := Option.some.inj hd
      exact he
    · cases heq
  · intro h
    exact ⟨_, h, if_pos rfl⟩

/-- And so does what one thread has of it. -/
theorem own_suffix {t : ℕ} {log log' : List M.Event} (h : log <:+ log') :
    own t log <:+ own t log' := by
  obtain ⟨post, rfl⟩ := h
  unfold own
  rw [List.filterMap_append]
  exact List.suffix_append _ _

end Logs

/-! ## Program order in every run -/

section Order

variable {Φ : M.Task → List (Call S ε) → Call S ε → Prop}
  {Q : M.Task → List (Call S ε) → Except ε Unit → Prop}

/-- Each live thread still runs its task's program, at the point its own calls have
brought it to; a number is given out once and has no calls before. -/
structure InOrder (Φ : M.Task → List (Call S ε) → Call S ε → Prop)
    (Q : M.Task → List (Call S ε) → Except ε Unit → Prop) (c : M.Conf) : Prop where
  live : ∀ t p, c.threads t = some p → ∃ task, .started t task ∈ c.log
    ∧ p.Sat (Φ task) (Q task) (own t c.log)
  unused : ∀ t, c.next ≤ t → c.threads t = none ∧ own t c.log = []
  given : ∀ t task, .started t task ∈ c.log → t < c.next
  once : ∀ t task task', .started t task ∈ c.log → .started t task' ∈ c.log → task = task'
  each : Each (fun pre e => match e with
    | .called t k => ∃ task, .started t task ∈ pre ∧ Φ task (own t pre) k
    | _ => True) c.log

theorem inOrder_initial (w : M.World) : InOrder Φ Q (Conf.initial w) := by
  refine ⟨?_, fun _ _ => ⟨rfl, rfl⟩, nofun, nofun, each_nil⟩
  intro t p h
  cases h

section Steps

variable {c : M.Conf}

/-- A task starts under a fresh number, with no calls of its own yet. -/
theorem InOrder.start (hc : InOrder Φ Q c) (w : M.World) {task : M.Task}
    (hΦ : (M.prog task).Sat (Φ task) (Q task) []) :
    InOrder Φ Q { world := w, log := .started c.next task :: c.log,
                  threads := Function.update c.threads c.next (some (M.prog task)),
                  next := c.next + 1 } := by
  -- the new thread is the only one that this event starts
  have hstarted : ∀ t task', .started t task' ∈ .started c.next task :: c.log →
      (t = c.next ∧ task' = task) ∨ (t < c.next ∧ .started t task' ∈ c.log) := by
    intro t task' hin
    rcases List.mem_cons.mp hin with heq | hin
    · obtain ⟨rfl, rfl⟩ := Event.started.inj heq
      exact .inl ⟨rfl, rfl⟩
    · exact .inr ⟨hc.given t task' hin, hin⟩
  refine ⟨?_, ?_, ?_, ?_, each_cons.mpr ⟨trivial, hc.each⟩⟩
  · intro t p hp
    dsimp only at hp ⊢
    by_cases ht : t = c.next
    · subst ht
      rw [Function.update_self] at hp
      obtain rfl := Option.some.inj hp
      refine ⟨task, List.mem_cons_self, ?_⟩
      -- it has made no call
      rw [own_started, (hc.unused c.next (Nat.le_refl _)).2]
      exact hΦ
    · rw [Function.update_of_ne ht] at hp
      obtain ⟨task', hin, hsat⟩ := hc.live t p hp
      exact ⟨task', List.mem_cons_of_mem _ hin, hsat⟩
  · intro t ht
    dsimp only at ht ⊢
    have hlt : t ≠ c.next := by omega
    rw [Function.update_of_ne hlt]
    exact hc.unused t (by omega)
  · intro t task' hin
    dsimp only at hin ⊢
    rcases hstarted t task' hin with ⟨rfl, -⟩ | ⟨hlt, -⟩
    · omega
    · omega
  · intro t task₁ task₂ h₁ h₂
    rcases hstarted t task₁ h₁ with ⟨rfl, rfl⟩ | ⟨hlt, h₁⟩
    · rcases hstarted _ task₂ h₂ with ⟨-, rfl⟩ | ⟨hlt, -⟩
      · rfl
      · omega
    · rcases hstarted t task₂ h₂ with ⟨rfl, -⟩ | ⟨-, h₂⟩
      · omega
      · exact hc.once t task₁ task₂ h₁ h₂

/-- The thread's program moves on by exactly the call it makes. -/
theorem InOrder.call (hc : InOrder Φ Q c) (w : M.World) {t : ℕ} {o : S.Op}
    {k : Except ε (S.Resp o) → Prog S ε Unit} (hk : c.threads t = some (.call o k))
    (r : Except ε (S.Resp o)) :
    InOrder Φ Q { c with world := w, log := .called t ⟨o, r⟩ :: c.log,
                         threads := Function.update c.threads t (some (k r)) } := by
  obtain ⟨task, hin, hsat⟩ := hc.live t _ hk
  have hstarted : ∀ u task', .started u task' ∈ .called t ⟨o, r⟩ :: c.log →
      .started u task' ∈ c.log := by
    intro u task' hin
    rcases List.mem_cons.mp hin with heq | hin
    · cases heq
    · exact hin
  refine ⟨?_, ?_, ?_, ?_, each_cons.mpr ⟨⟨task, hin, (hsat r).1⟩, hc.each⟩⟩
  · intro u p hp
    dsimp only at hp ⊢
    by_cases hu : u = t
    · subst hu
      rw [Function.update_self] at hp
      obtain rfl := Option.some.inj hp
      refine ⟨task, List.mem_cons_of_mem _ hin, ?_⟩
      rw [own_called_self]
      exact (hsat r).2
    · rw [Function.update_of_ne hu] at hp
      obtain ⟨task', hin', hsat'⟩ := hc.live u p hp
      refine ⟨task', List.mem_cons_of_mem _ hin', ?_⟩
      rw [own_called_ne (Ne.symm hu)]
      exact hsat'
  · intro u hu
    dsimp only at hu ⊢
    have hne : u ≠ t := by
      rintro rfl
      rw [(hc.unused u hu).1] at hk
      cases hk
    rw [Function.update_of_ne hne, own_called_ne (Ne.symm hne)]
    exact hc.unused u hu
  · exact fun u task' h' => hc.given u task' (hstarted u task' h')
  · exact fun u t₁ t₂ h₁ h₂ => hc.once u t₁ t₂ (hstarted u t₁ h₁) (hstarted u t₂ h₂)

/-- The environment makes no call, but it may end the threads. -/
theorem InOrder.env (hc : InOrder Φ Q c) (e : M.Env) :
    InOrder Φ Q { c with world := M.env e c.world, log := .env e :: c.log,
                         threads := if M.kills e then fun _ => none else c.threads } := by
  have hstarted : ∀ u task', .started u task' ∈ .env e :: c.log → .started u task' ∈ c.log := by
    intro u task' hin
    rcases List.mem_cons.mp hin with heq | hin
    · cases heq
    · exact hin
  refine ⟨?_, ?_, ?_, ?_, each_cons.mpr ⟨trivial, hc.each⟩⟩
  · intro t p hp
    dsimp only at hp ⊢
    by_cases hkill : M.kills e = true
    · rw [if_pos hkill] at hp
      cases hp
    · rw [if_neg hkill] at hp
      obtain ⟨task, hin, hsat⟩ := hc.live t p hp
      exact ⟨task, List.mem_cons_of_mem _ hin, hsat⟩
  · intro t ht
    dsimp only at ht ⊢
    refine ⟨?_, (hc.unused t ht).2⟩
    by_cases hkill : M.kills e = true
    · rw [if_pos hkill]
    · rw [if_neg hkill]
      exact (hc.unused t ht).1
  · exact fun u task' h' => hc.given u task' (hstarted u task' h')
  · exact fun u t₁ t₂ h₁ h₂ => hc.once u t₁ t₂ (hstarted u t₁ h₁) (hstarted u t₂ h₂)

end Steps

/-- One step of any kind. -/
theorem inOrder_step (hΦ : ∀ task, (M.prog task).Sat (Φ task) (Q task) [])
    {c c' : M.Conf} {a : M.Action} (hc : InOrder Φ Q c) (h : c.step a = some c') :
    InOrder Φ Q c' := by
  obtain ⟨task, w, -, -, rfl⟩ | ⟨t, choice, o, k, r, w, -, hk, -, rfl⟩ | ⟨e, -, rfl⟩ :=
    Conf.step_cases h
  · exact hc.start w (hΦ task)
  · exact hc.call w hk r
  · exact hc.env e

/-- **Program order.** What every program guarantees of its calls holds of every call
in the log of every run. -/
theorem reach_inOrder (hΦ : ∀ task, (M.prog task).Sat (Φ task) (Q task) [])
    {ok : M.Conf → M.Action → Prop} {w : M.World} {c : M.Conf}
    (h : Reach ok (Conf.initial w) c) : InOrder Φ Q c := by
  induction h with
  | init => exact inOrder_initial w
  | step _ _ hs ih => exact inOrder_step hΦ ih hs

end Order

end Machine

end Program
