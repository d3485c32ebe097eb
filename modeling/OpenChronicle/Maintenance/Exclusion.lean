/-
At most one job runs, and what the tick says about the others is true.

The invariant names the holder of each lock. A step moves one task, so that it is enough to say what the
step has done to this task and to the locks of its job (`Held.change`); which way the task went through
`_invoke` is then a matter of computing.

A job runs under two locks, its own and the one of all jobs. The source never looks at who holds them:
it reads `lock.locked()`, the time at which the run came into its slot, and the name of the running job.
Each of these is a trace of the holder, left when the locks are taken and wiped when they are given
back, and the fields of `Held` say of each that it agrees with the holder. Without the holders the
fields could not be kept: a free lock with a task that still thinks that it has it would satisfy all
that the source can see.

The locks are those of the event loop, in which a lock that is given back wakes the first that waits and
is taken by whoever comes next. That nobody is forgotten on the way is a property of the lock alone
(`own_sound`, `global_sound`), and comes from the library.
-/
import Mathlib.Logic.Relation
import OpenChronicle.Maintenance.Model

set_option autoImplicit false

namespace OpenChronicle.Maintenance

open AsyncLock

/-- The task holds the lock of its job. -/
def Pc.holds_own : Pc → Bool
  | wait_global => true
  | handling _ => true
  | persisting _ => true
  | _ => false

/-- When the task came into its slot, if it is there. -/
def Pc.since : Pc → Option Instant
  | handling s => some s
  | persisting s => some s
  | _ => none

@[simp] theorem Pc.holds_own_created : created.holds_own = false := rfl
@[simp] theorem Pc.holds_own_wait_own : wait_own.holds_own = false := rfl
@[simp] theorem Pc.holds_own_wait_global : wait_global.holds_own = true := rfl
@[simp] theorem Pc.holds_own_handling (s : Instant) : (handling s).holds_own = true := rfl
@[simp] theorem Pc.holds_own_persisting (s : Instant) : (persisting s).holds_own = true := rfl
@[simp] theorem Pc.holds_own_done : done.holds_own = false := rfl

@[simp] theorem Pc.since_created : created.since = none := rfl
@[simp] theorem Pc.since_wait_own : wait_own.since = none := rfl
@[simp] theorem Pc.since_wait_global : wait_global.since = none := rfl
@[simp] theorem Pc.since_handling (s : Instant) : (handling s).since = some s := rfl
@[simp] theorem Pc.since_persisting (s : Instant) : (persisting s).since = some s := rfl
@[simp] theorem Pc.since_done : done.since = none := rfl

/-- Who is in the slot holds the lock of its job. -/
theorem Pc.since_eq_none {pc : Pc} (h : pc.holds_own = false) : pc.since = none := by
  cases pc with
  | handling s => cases h
  | persisting s => cases h
  | _ => rfl

namespace Loop

/-- The task has the lock of the job, by where it stands in `_invoke`. -/
def Holds (l : Loop) (t : ℕ) (n : String) : Prop :=
  ∃ task, l.task t = some task ∧ task.job = n ∧ task.pc.holds_own = true

/-- The task runs its handler, or persists what came of it. -/
def InSlot (l : Loop) (t : ℕ) (n : String) (s : Instant) : Prop :=
  ∃ task, l.task t = some task ∧ task.job = n ∧ task.pc.since = some s

@[simp] theorem modify_job_self (l : Loop) (name : String) (f : JobState → JobState) :
    (l.modify name f).job name = f (l.job name) := Function.update_self _ _ _

theorem modify_job_of_ne (l : Loop) {name n : String} (hn : n ≠ name) (f : JobState → JobState) :
    (l.modify name f).job n = l.job n := Function.update_of_ne hn _ _

/-! ## The invariant -/

/-- `own n` holds the lock of job `n`, and `slot` is the task with the global lock, with its job and
the time it came in. -/
structure Held (l : Loop) (own : String → Option ℕ) (slot : Option (ℕ × String × Instant)) : Prop where
  /-- The tasks that stand behind the lock of a job are its one holder. -/
  own_iff : ∀ t n, l.Holds t n ↔ own n = some t
  slot_iff : ∀ t n s, l.InSlot t n s ↔ slot = some (t, n, s)
  own_locked : ∀ n, (l.job n).lock.locked = (own n).isSome
  global_locked : l.global_lock.locked = slot.isSome
  started : ∀ n s, (l.job n).started_at = some s ↔ ∃ t, slot = some (t, n, s)
  running : l.running_job = slot.map (·.2.1)
  /-- The flag of a counted overlap is cleared with the run. -/
  logged : ∀ n, (l.job n).overlap_logged = true → (l.job n).started_at ≠ none
  own_sound : ∀ n, (l.job n).lock.Sound
  global_sound : l.global_lock.Sound
  /-- The next task gets a number that no task has. -/
  fresh : ∀ t, l.count ≤ t → l.task t = none

section Change

variable {l l' : Loop} {own : String → Option ℕ} {slot : Option (ℕ × String × Instant)} {t : ℕ}
  {task task' : Task}

/-- What the invariant says of a task that is about to move, read from its place. -/
theorem Held.not_holds (h : Held l own slot) (ht : l.task t = some task)
    (hnot : task.pc.holds_own = false) (n : String) : own n ≠ some t := by
  intro hown
  obtain ⟨task₁, ht₁, -, hholds⟩ := (h.own_iff t n).mpr hown
  rw [ht] at ht₁
  rw [← Option.some.inj ht₁, hnot] at hholds
  cases hholds

theorem Held.own_self (h : Held l own slot) (ht : l.task t = some task)
    (hholds : task.pc.holds_own = true) : own task.job = some t :=
  (h.own_iff t task.job).mp ⟨task, ht, rfl, hholds⟩

theorem Held.slot_self (h : Held l own slot) (ht : l.task t = some task) {s : Instant}
    (hsince : task.pc.since = some s) : slot = some (t, task.job, s) :=
  (h.slot_iff t task.job s).mp ⟨task, ht, rfl, hsince⟩

/-- A lock that is free has no holder, whatever the tasks are. -/
theorem Held.free (h : Held l own slot) {n : String} (hfree : (l.job n).lock.locked = false) :
    own n = none := by
  rw [h.own_locked, Option.isSome_eq_false_iff, Option.isNone_iff_eq_none] at hfree
  exact hfree

theorem Held.slot_free (h : Held l own slot) (hfree : l.global_lock.locked = false) : slot = none := by
  rw [h.global_locked, Option.isSome_eq_false_iff, Option.isNone_iff_eq_none] at hfree
  exact hfree

/-- Nothing of a job is started while nobody is in the slot. -/
theorem Held.unstarted (h : Held l own none) (n : String) : (l.job n).started_at = none := by
  rcases hstarted : (l.job n).started_at with _ | s
  · rfl
  · obtain ⟨t, ht⟩ := (h.started n s).mp hstarted
    cases ht

/-- Who holds the lock of the job once the task is at `task'`. -/
def own_after (own : String → Option ℕ) (t : ℕ) (task task' : Task) : String → Option ℕ :=
  Function.update own task.job
    (if task'.pc.holds_own then some t else if task.pc.holds_own then none else own task.job)

/-- Who is in the slot once the task is at `task'`. -/
def slot_after (slot : Option (ℕ × String × Instant)) (t : ℕ) (task task' : Task) :
    Option (ℕ × String × Instant) :=
  match task'.pc.since with
  | some s => some (t, task.job, s)
  | none => if task.pc.since.isSome then none else slot

/-- What a step has to do for a task that it moves from `task` to `task'`. -/
structure Moves (l l' : Loop) (slot' : Option (ℕ × String × Instant)) (own' : Option ℕ) (t : ℕ)
    (task task' : Task) : Prop where
  /-- Where the task stood. -/
  before : l.task t = some task
  same_job : task'.job = task.job
  task_eq : l'.task = Function.update l.task t (some task')
  count_eq : l'.count = l.count
  /-- A step touches the locks of one job. -/
  others : ∀ n, n ≠ task.job → l'.job n = l.job n
  /-- A lock that the task has taken was free. -/
  own_free : task'.pc.holds_own = true → task.pc.holds_own = false →
    (l.job task.job).lock.locked = false
  global_free : ∀ s, task'.pc.since = some s → task.pc.since ≠ some s → l.global_lock.locked = false
  own_locked : (l'.job task.job).lock.locked = own'.isSome
  global_locked : l'.global_lock.locked = slot'.isSome
  started : ∀ s, (l'.job task.job).started_at = some s ↔ ∃ u, slot' = some (u, task.job, s)
  running : l'.running_job = slot'.map (·.2.1)
  logged : (l'.job task.job).overlap_logged = true → (l'.job task.job).started_at ≠ none
  own_sound : (l'.job task.job).lock.Sound
  global_sound : l'.global_lock.Sound

theorem Moves.task_self {slot' : Option (ℕ × String × Instant)} {own' : Option ℕ}
    (hm : Moves l l' slot' own' t task task') : l'.task t = some task' := by
  rw [hm.task_eq, Function.update_self]

/-- The other tasks are where they were. -/
theorem Moves.task_ne {slot' : Option (ℕ × String × Instant)} {own' : Option ℕ}
    (hm : Moves l l' slot' own' t task task') {u : ℕ} (hu : u ≠ t) : l'.task u = l.task u := by
  rw [hm.task_eq, Function.update_of_ne hu]

/-- Somebody else, or another job, is in the slot after the step only if it was there before. -/
theorem Held.slot_after_ne (h : Held l own slot) {slot' : Option (ℕ × String × Instant)}
    {own' : Option ℕ} (hm : Moves l l' slot' own' t task task') {u : ℕ} {n : String} {s : Instant}
    (hne : ∀ s', (u, n, s) ≠ (t, task.job, s')) :
    slot = some (u, n, s) ↔ slot_after slot t task task' = some (u, n, s) := by
  rw [slot_after]
  rcases hsince' : task'.pc.since with _ | s'
  · rcases hsince : task.pc.since with _ | s''
    · simp
    · rw [h.slot_self hm.before hsince]
      simpa using (hne s'').symm
  · by_cases hsince : task.pc.since = some s'
    · rw [h.slot_self hm.before hsince]
    · -- whoever comes in finds the slot empty
      rw [h.slot_free (hm.global_free s' hsince' hsince)]
      simpa using (hne s').symm

/-- The task that moves has the lock of its job as `own_after` says, and the others keep theirs. -/
theorem Held.holds_after (h : Held l own slot) {slot' : Option (ℕ × String × Instant)} {own' : Option ℕ}
    (hm : Moves l l' slot' own' t task task') (u : ℕ) (n : String) :
    l'.Holds u n ↔ own_after own t task task' n = some u := by
  by_cases hu : u = t
  · subst hu
    rw [Holds, hm.task_self]
    by_cases hn : n = task.job
    · subst hn
      rw [own_after, Function.update_self]
      by_cases hholds' : task'.pc.holds_own = true
      · simp [hholds', hm.same_job]
      · by_cases hholds : task.pc.holds_own = true
        · simp [hholds', hholds]
        · have hnot := h.not_holds hm.before (by simpa using hholds) task.job
          simp [hholds', hholds, hnot]
    · rw [own_after, Function.update_of_ne hn, ← h.own_iff, Holds, hm.before]
      simp [hm.same_job, Ne.symm hn]
  · rw [Holds, hm.task_ne hu, ← Holds, h.own_iff]
    by_cases hn : n = task.job
    · subst hn
      rw [own_after, Function.update_self]
      by_cases hholds : task.pc.holds_own = true
      · rw [h.own_self hm.before hholds]
        by_cases hholds' : task'.pc.holds_own = true
        · simp [hholds']
        · simp [hholds', hholds, Ne.symm hu]
      · by_cases hholds' : task'.pc.holds_own = true
        · -- a lock the task has taken was free, so no other task had it
          rw [h.free (hm.own_free hholds' (by simpa using hholds))]
          simp [hholds', Ne.symm hu]
        · simp [hholds', hholds]
    · rw [own_after, Function.update_of_ne hn]

/-- The task that moves is in the slot as `slot_after` says, and nobody else comes in. -/
theorem Held.in_slot_after (h : Held l own slot) {slot' : Option (ℕ × String × Instant)}
    {own' : Option ℕ} (hm : Moves l l' slot' own' t task task') (u : ℕ) (n : String) (s : Instant) :
    l'.InSlot u n s ↔ slot_after slot t task task' = some (u, n, s) := by
  by_cases hu : u = t
  · subst hu
    have hbefore : l.InSlot u n s ↔ task.job = n ∧ task.pc.since = some s := by
      rw [InSlot, hm.before]
      simp
    rw [InSlot, hm.task_self, slot_after]
    rcases hsince' : task'.pc.since with _ | s'
    · rcases hsince : task.pc.since with _ | s''
      · have hnot : slot ≠ some (u, n, s) := by
          rw [Ne, ← h.slot_iff, hbefore, hsince]
          simp
        simp [hsince', hnot]
      · simp [hsince']
    · simp [hsince', hm.same_job]
  · rw [InSlot, hm.task_ne hu, ← InSlot, h.slot_iff]
    exact h.slot_after_ne hm fun _ heq => absurd (Prod.mk.inj heq).1 hu

/-- **One task moves.** -/
theorem Held.change (h : Held l own slot) (t : ℕ) (task task' : Task)
    (hm : Moves l l' (slot_after slot t task task') (own_after own t task task' task.job) t task task') :
    Held l' (own_after own t task task') (slot_after slot t task task') := by
  -- what is said of each job is new for the job of the task and old for the others
  refine ⟨h.holds_after hm, h.in_slot_after hm, ?_, hm.global_locked, ?_, hm.running, ?_, ?_,
    hm.global_sound, ?_⟩
  · intro n
    by_cases hn : n = task.job
    · rw [hn]
      exact hm.own_locked
    · rw [hm.others n hn, own_after, Function.update_of_ne hn]
      exact h.own_locked n
  · intro n s
    by_cases hn : n = task.job
    · rw [hn]
      exact hm.started s
    · rw [hm.others n hn, h.started]
      refine exists_congr fun u => h.slot_after_ne hm fun _ heq => ?_
      exact absurd (Prod.mk.inj (Prod.mk.inj heq).2).1 hn
  · intro n
    by_cases hn : n = task.job
    · rw [hn]
      exact hm.logged
    · rw [hm.others n hn]
      exact h.logged n
  · intro n
    by_cases hn : n = task.job
    · rw [hn]
      exact hm.own_sound
    · rw [hm.others n hn]
      exact h.own_sound n
  · intro u hu
    rw [hm.count_eq] at hu
    -- the task that moves was there, so it is none of the new ones
    have hne : u ≠ t := by
      rintro rfl
      have hnone := h.fresh u hu
      rw [hm.before] at hnone
      cases hnone
    rw [hm.task_ne hne]
    exact h.fresh u hu

end Change

/-! ## Steps of a task -/

/-- The locks have holders. -/
def Exclusive (l : Loop) : Prop := ∃ own slot, Held l own slot

section Tasks

variable {l l' : Loop} {own : String → Option ℕ} {slot : Option (ℕ × String × Instant)} {t : ℕ}
  {task task' : Task}

/-- The step moves no lock. -/
theorem Held.aside (h : Held l own slot) (ht : l.task t = some task) (task' : Task) (hjob : task'.job = task.job)
    (hholds : task'.pc.holds_own = task.pc.holds_own) (hsince : task'.pc.since = task.pc.since)
    (htask : l'.task = Function.update l.task t (some task')) (hcount : l'.count = l.count)
    (hothers : ∀ n, n ≠ task.job → l'.job n = l.job n)
    (hown : (l'.job task.job).lock.locked = (l.job task.job).lock.locked)
    (hglobal : l'.global_lock.locked = l.global_lock.locked)
    (hstarted : (l'.job task.job).started_at = (l.job task.job).started_at)
    (hlogged : (l'.job task.job).overlap_logged = (l.job task.job).overlap_logged)
    (hrunning : l'.running_job = l.running_job) (hsound : (l'.job task.job).lock.Sound)
    (hgsound : l'.global_lock.Sound) : l'.Exclusive := by
  -- the task holds what it held, so the two accounts stay
  have hown_same : own_after own t task task' task.job = own task.job := by
    rw [own_after, Function.update_self, hholds]
    by_cases hheld : task.pc.holds_own = true
    · rw [if_pos hheld, h.own_self ht hheld]
    · rw [if_neg hheld, if_neg hheld]
  have hslot_same : slot_after slot t task task' = slot := by
    rw [slot_after, hsince]
    rcases hin : task.pc.since with _ | s
    · rfl
    · exact (h.slot_self ht hin).symm
  refine ⟨_, _, h.change t task task'
    ⟨ht, hjob, htask, hcount, hothers, ?_, ?_, ?_, ?_, ?_, ?_, ?_, hsound, hgsound⟩⟩
  · intro hnew hnot
    rw [hholds, hnot] at hnew
    cases hnew
  · intro s hnew hnot
    rw [hsince] at hnew
    exact absurd hnew hnot
  · rw [hown, hown_same]
    exact h.own_locked task.job
  · rw [hglobal, hslot_same]
    exact h.global_locked
  · rw [hstarted, hslot_same]
    exact h.started task.job
  · rw [hrunning, hslot_same]
    exact h.running
  · rw [hlogged, hstarted]
    exact h.logged task.job

/-- Another lock for the job, and another global one. -/
def with_locks (l : Loop) (n : String) (k g : Lock ℕ) : Loop :=
  { l.modify n fun job => { job with lock := k } with global_lock := g }

theorem with_locks_self (l : Loop) (n : String) (g : Lock ℕ) :
    l.with_locks n (l.job n).lock g = { l with global_lock := g } := by
  rw [with_locks, modify]
  have hsame : Function.update l.job n { l.job n with lock := (l.job n).lock } = l.job :=
    Function.update_eq_self n l.job
  rw [hsame]

/-- A task that has just got the global lock runs its handler, or is done at once without one. -/
theorem Held.begin_run (h : Held l own slot) (ht : l.task t = some task) {k g : Lock ℕ}
    (hown : task.pc.holds_own = false → (l.job task.job).lock.locked = false)
    (hglobal : l.global_lock.locked = false) (hk : k.locked = true) (hg : g.locked = true)
    (hksound : k.Sound) (hgsound : g.Sound) (now ended : Instant) :
    ((l.with_locks task.job k g).begin_run t task now ended).Exclusive := by
  obtain rfl := h.slot_free hglobal
  have hsince : task.pc.since = none := by
    rcases hin : task.pc.since with _ | s
    · rfl
    · cases h.slot_self ht hin
  have hunstarted := h.unstarted task.job
  rw [Loop.begin_run]
  split
  · -- there is a handler, and its task is in the slot from now on
    refine ⟨_, _, h.change t task { task with pc := .handling now }
      ⟨ht, rfl, rfl, rfl, ?_, fun _ => hown, fun _ _ _ => hglobal, ?_, hg, ?_, rfl, ?_, ?_, hgsound⟩⟩
    · intro n hn
      simp [set_task, enter_slot, with_locks, modify, hn]
    · simp [set_task, enter_slot, with_locks, modify, own_after, hk]
    · simp [set_task, enter_slot, with_locks, modify, slot_after]
    · simp [set_task, enter_slot, with_locks, modify]
    · simpa [set_task, enter_slot, with_locks, modify] using hksound
  · -- the slot is left again, and so are both locks
    have hlost : own_after own t task { task with pc := .done } task.job = none := by
      rw [own_after, Function.update_self]
      by_cases hheld : task.pc.holds_own = true
      · simp [hheld]
      · simp [hheld, h.free (hown (by simpa using hheld))]
    have hempty : slot_after none t task { task with pc := .done } = none := by
      simp [slot_after]
    refine ⟨_, _, h.change t task { task with pc := .done }
      ⟨ht, rfl, rfl, rfl, ?_, nofun, nofun, ?_, ?_, ?_, ?_, ?_, ?_, ?_⟩⟩
    · intro n hn
      simp [set_task, leave_slot, enter_slot, with_locks, modify, hn]
    · rw [hlost]
      simp [set_task, leave_slot, enter_slot, with_locks, modify, JobState.no_handler]
    · rw [hempty]
      simp [set_task, leave_slot, enter_slot, with_locks, modify]
    · rw [hempty]
      simp [set_task, leave_slot, enter_slot, with_locks, modify]
    · rw [hempty]
      rfl
    · simp [set_task, leave_slot, enter_slot, with_locks, modify]
    · simpa [set_task, leave_slot, enter_slot, with_locks, modify, JobState.no_handler] using
        hksound.release
    · exact hgsound.release

/-- A task that has just got the lock of its job goes for the global one. -/
theorem Held.take_global (h : Held l own slot) (ht : l.task t = some task) {k : Lock ℕ}
    (hheld : task.pc.holds_own = false) (hfree : (l.job task.job).lock.locked = false)
    (hk : k.locked = true) (hksound : k.Sound) (now ended : Instant) :
    ((l.modify task.job fun job => { job with lock := k }).take_global t task now ended).Exclusive := by
  have hgsound := h.global_sound.acquire t
  unfold Loop.take_global
  split
  · next hacquired =>
      obtain ⟨hunlocked, hlocked⟩ := Lock.acquire_eq_true hacquired
      exact h.begin_run ht (fun _ => hfree) hunlocked hk hlocked hksound hgsound now ended
  · next hbusy =>
      have hsame := Lock.acquire_eq_false (by simpa using hbusy)
      have hsince := Pc.since_eq_none hheld
      have hslot : slot_after slot t task { task with pc := .wait_global } = slot := by
        simp [slot_after, hsince]
      refine ⟨_, _, h.change t task { task with pc := .wait_global }
        ⟨ht, rfl, rfl, rfl, ?_, fun _ _ => hfree, nofun, ?_, ?_, ?_, ?_, ?_, ?_, hgsound⟩⟩
      · intro n hn
        simp [set_task, modify, hn]
      · simp [set_task, modify, own_after, hk]
      · rw [hslot]
        exact hsame.trans h.global_locked
      · rw [hslot]
        simpa [set_task, modify] using h.started task.job
      · rw [hslot]
        exact h.running
      · simpa [set_task, modify] using h.logged task.job
      · simpa [set_task, modify] using hksound

/-- A task that leaves with the lock of its job, and with the global one if it is in the slot. -/
theorem Held.leave (h : Held l own slot) (ht : l.task t = some task) (hheld : task.pc.holds_own = true)
    (htask : l'.task = Function.update l.task t (some { task with pc := .done }))
    (hcount : l'.count = l.count) (hothers : ∀ n, n ≠ task.job → l'.job n = l.job n)
    (hown : (l'.job task.job).lock = (l.job task.job).lock.release)
    (hglobal : l'.global_lock.locked = (slot_after slot t task { task with pc := .done }).isSome)
    (hstarted : (l'.job task.job).started_at = none)
    (hlogged : (l'.job task.job).overlap_logged = false)
    (hother : ∀ u s, slot_after slot t task { task with pc := .done } ≠ some (u, task.job, s))
    (hrunning : l'.running_job = (slot_after slot t task { task with pc := .done }).map (·.2.1))
    (hgsound : l'.global_lock.Sound) : l'.Exclusive := by
  refine ⟨_, _, h.change t task { task with pc := .done }
    ⟨ht, rfl, htask, hcount, hothers, nofun, nofun, ?_, hglobal, ?_, hrunning, ?_, ?_, hgsound⟩⟩
  · simp [hown, own_after, hheld]
  · intro s
    rw [hstarted]
    simp [hother]
  · rw [hlogged]
    nofun
  · rw [hown]
    exact (h.own_sound task.job).release

theorem future_of_claims {fut : Option Fut} (h : wake task fut = .claims) : fut = some .woken := by
  unfold wake at h
  split at h
  · next heq => rfl
  · cases h
  · cases h

/-- A new task takes the lock of its job, or waits for it. -/
theorem Held.take_own (h : Held l own slot) (ht : l.task t = some task) (hpc : task.pc = .created)
    (now ended : Instant) : (l.take_own t task now ended).Exclusive := by
  have hsound := (h.own_sound task.job).acquire t
  rw [Loop.take_own]
  split
  · next hacquired =>
      obtain ⟨hunlocked, hlocked⟩ := Lock.acquire_eq_true hacquired
      exact h.take_global ht (by rw [hpc]; rfl) hunlocked hlocked hsound now ended
  · next hbusy =>
      have hlocked := Lock.acquire_eq_false (by simpa using hbusy)
      refine h.aside ht { task with pc := .wait_own } rfl (by rw [hpc]; rfl)
        (by rw [hpc]; rfl) rfl rfl ?_ ?_ rfl ?_ ?_ rfl ?_ h.global_sound
      · intro n hn
        simp [set_task, modify, hn]
      · simpa [set_task, modify] using hlocked
      · simp [set_task, modify]
      · simp [set_task, modify]
      · simpa [set_task, modify] using hsound

/-- A task gives up while it waits for the lock of its job. -/
theorem Held.give_up_own (h : Held l own slot) (ht : l.task t = some task) (hpc : task.pc = .wait_own) :
    ((l.modify task.job fun job => { job with lock := job.lock.give_up t }).set_task t
      { task with pc := .done }).Exclusive := by
  refine h.aside ht { task with pc := .done } rfl (by rw [hpc]; rfl)
    (by rw [hpc]; rfl) rfl rfl ?_ ?_ rfl ?_ ?_ rfl ?_ h.global_sound
  · intro n hn
    simp [set_task, modify, hn]
  · simp [set_task, modify]
  · simp [set_task, modify]
  · simp [set_task, modify]
  · simpa [set_task, modify] using (h.own_sound task.job).give_up t

/-- While a task has the lock of its job without being in the slot, the slot is not of that job. -/
theorem Held.slot_foreign (h : Held l own slot) (ht : l.task t = some task)
    (hheld : task.pc.holds_own = true) (hsince : task.pc.since = none) (u : ℕ) (s : Instant) :
    slot ≠ some (u, task.job, s) := by
  intro hin
  obtain ⟨task₁, ht₁, hjob₁, hsince₁⟩ := (h.slot_iff u task.job s).mpr hin
  have hholds₁ : l.Holds u task.job := by
    refine ⟨task₁, ht₁, hjob₁, ?_⟩
    by_contra hnot
    rw [Pc.since_eq_none (by simpa using hnot)] at hsince₁
    cases hsince₁
  -- the task in the slot has the lock of its job too, so it is this one
  have hown := (h.own_iff u task.job).mp hholds₁
  rw [h.own_self ht hheld] at hown
  obtain rfl := Option.some.inj hown
  rw [ht] at ht₁
  rw [← Option.some.inj ht₁, hsince] at hsince₁
  cases hsince₁

/-- A task gives up while it waits for the global lock, and lets the lock of its job go. -/
theorem Held.give_up_global (h : Held l own slot) (ht : l.task t = some task)
    (hpc : task.pc = .wait_global) :
    (({ l with global_lock := l.global_lock.give_up t }.modify task.job fun job =>
      { job with lock := job.lock.release }).set_task t { task with pc := .done }).Exclusive := by
  have hheld : task.pc.holds_own = true := by rw [hpc]; rfl
  have hslot : slot_after slot t task { task with pc := .done } = slot := by
    simp [slot_after, hpc]
  have hforeign := h.slot_foreign ht hheld (by rw [hpc]; rfl)
  have hunstarted : (l.job task.job).started_at = none := by
    rcases hstarted : (l.job task.job).started_at with _ | s
    · rfl
    · obtain ⟨u, hin⟩ := (h.started task.job s).mp hstarted
      exact absurd hin (hforeign u s)
  refine h.leave ht hheld rfl rfl ?_ ?_ ?_ ?_ ?_ ?_ ?_ ?_
  · intro n hn
    simp [set_task, modify, hn]
  · simp [set_task, modify]
  · rw [hslot]
    simpa [set_task, modify] using h.global_locked
  · simpa [set_task, modify] using hunstarted
  · by_contra hlogged
    refine h.logged task.job ?_ hunstarted
    simpa [set_task, modify] using hlogged
  · rw [hslot]
    exact hforeign
  · rw [hslot]
    exact h.running
  · exact h.global_sound.give_up t

theorem Held.resume (h : Held l own slot) (ht : l.task t = some task) {now ended : Instant}
    (hstep : l.resume t task now ended = some l') : l'.Exclusive := by
  rw [Loop.resume.eq_def] at hstep
  split at hstep
  · next hpc =>
      split at hstep
      · obtain rfl := Option.some.inj hstep
        exact h.aside ht { task with pc := .done } rfl (by rw [hpc]; rfl) (by rw [hpc]; rfl)
          rfl rfl (fun _ _ => rfl) rfl rfl rfl rfl rfl (h.own_sound _) h.global_sound
      · obtain rfl := Option.some.inj hstep
        exact h.take_own ht hpc now ended
  · next hpc =>
      split at hstep
      · cases hstep
      · next hwake =>
          obtain rfl := Option.some.inj hstep
          have hwoken := future_of_claims hwake
          have hsound := h.own_sound task.job
          exact h.take_global ht (by rw [hpc]; rfl) (hsound.free_of_woken hwoken)
            (Lock.claim_locked _ _) (hsound.claim hwoken) now ended
      · obtain rfl := Option.some.inj hstep
        exact h.give_up_own ht hpc
  · next hpc =>
      split at hstep
      · cases hstep
      · next hwake =>
          obtain rfl := Option.some.inj hstep
          have hwoken := future_of_claims hwake
          have hheld : task.pc.holds_own = true := by rw [hpc]; rfl
          have hlocked : (l.job task.job).lock.locked = true := by
            rw [h.own_locked, h.own_self ht hheld]
            rfl
          rw [← with_locks_self l task.job]
          refine h.begin_run ht ?_ (h.global_sound.free_of_woken hwoken) hlocked
            (Lock.claim_locked _ _) (h.own_sound _) (h.global_sound.claim hwoken) now ended
          rw [hheld]
          nofun
      · obtain rfl := Option.some.inj hstep
        exact h.give_up_global ht hpc
  · cases hstep

theorem Held.handler_ends (h : Held l own slot) (ht : l.task t = some task) {exit : Exit} {now : Instant}
    (hstep : l.handler_ends t task exit now = some l') : l'.Exclusive := by
  have hend : ∀ job : JobState, (job.end_run exit now).lock = job.lock
      ∧ (job.end_run exit now).started_at = job.started_at
      ∧ (job.end_run exit now).overlap_logged = job.overlap_logged := by
    intro job
    rcases exit with (_ | _) | _ | _
    · exact ⟨rfl, rfl, rfl⟩
    · exact ⟨rfl, rfl, rfl⟩
    · exact ⟨rfl, rfl, rfl⟩
    · exact ⟨rfl, rfl, rfl⟩
  obtain ⟨hlock, hstarted, hlogged⟩ := hend (l.job task.job)
  rw [Loop.handler_ends.eq_def] at hstep
  split at hstep
  · next since hpc =>
      obtain rfl := Option.some.inj hstep
      refine h.aside ht { task with pc := .persisting since } rfl (by rw [hpc]; rfl)
        (by rw [hpc]; rfl) rfl rfl ?_ ?_ rfl ?_ ?_ rfl ?_ h.global_sound
      · intro n hn
        simp [set_task, modify, hn]
      · simp [set_task, modify, hlock]
      · simp [set_task, modify, hstarted]
      · simp [set_task, modify, hlogged]
      · simpa [set_task, modify, hlock] using h.own_sound task.job
  · cases hstep

theorem Held.persisted (h : Held l own slot) (ht : l.task t = some task)
    (hstep : l.persisted t task = some l') : l'.Exclusive := by
  rw [Loop.persisted.eq_def] at hstep
  split at hstep
  · next since hpc =>
      obtain rfl := Option.some.inj hstep
      have hslot : slot_after slot t task { task with pc := .done } = none := by
        simp [slot_after, hpc]
      refine h.leave ht (by rw [hpc]; rfl) rfl rfl ?_ ?_ ?_ ?_ ?_ ?_ ?_ ?_
      · intro n hn
        simp [set_task, leave_slot, modify, hn]
      · simp [set_task, leave_slot, modify]
      · rw [hslot]
        simp [set_task, leave_slot, modify]
      · simp [set_task, leave_slot, modify]
      · simp [set_task, leave_slot, modify]
      · rw [hslot]
        nofun
      · rw [hslot]
        rfl
      · exact h.global_sound.release
  · cases hstep

theorem Held.cancel (h : Held l own slot) (ht : l.task t = some task) : (l.cancel t task).Exclusive := by
  unfold Loop.cancel
  split
  · refine h.aside ht { task with cancelling := true } rfl rfl rfl rfl rfl ?_ ?_ rfl ?_ ?_
      rfl ?_ h.global_sound
    · intro n hn
      simp [set_task, modify, hn]
    · simp [set_task, modify]
    · simp [set_task, modify]
    · simp [set_task, modify]
    · simpa [set_task, modify] using (h.own_sound task.job).cancel t
  · exact h.aside ht { task with cancelling := true } rfl rfl rfl rfl rfl (fun _ _ => rfl)
      rfl rfl rfl rfl rfl (h.own_sound _) (h.global_sound.cancel t)
  · exact h.aside ht { task with cancelling := true } rfl rfl rfl rfl rfl (fun _ _ => rfl)
      rfl rfl rfl rfl rfl (h.own_sound _) h.global_sound

end Tasks

/-! ## What the steps of a task leave alone -/

/-- What is no matter of the jobs, the locks and the task. -/
structure Apart {γ : Type} (f : Loop → γ) (t : ℕ) : Prop where
  jobs : ∀ (l : Loop) job g r, f { l with job := job, global_lock := g, running_job := r } = f l
  task : ∀ (l : Loop) (task : Task), f (l.set_task t task) = f l

theorem apart_names (t : ℕ) : Apart Loop.names t := ⟨fun _ _ _ _ => rfl, fun _ _ => rfl⟩

theorem apart_handlers (t : ℕ) : Apart Loop.handlers t := ⟨fun _ _ _ _ => rfl, fun _ _ => rfl⟩

theorem apart_task {t u : ℕ} (hu : u ≠ t) : Apart (fun l => l.task u) t :=
  ⟨fun _ _ _ _ => rfl, fun _ _ => Function.update_of_ne hu _ _⟩

section Apart

variable {γ : Type} {f : Loop → γ} {l l' : Loop} {t : ℕ} {task : Task} {now ended : Instant}

theorem Apart.begin_run (hf : Apart f t) (l : Loop) (task : Task) (now ended : Instant) :
    f (l.begin_run t task now ended) = f l := by
  rw [Loop.begin_run]
  split
  · exact (hf.task _ _).trans (hf.jobs l _ _ _)
  · exact (hf.task _ _).trans (hf.jobs l _ _ _)

theorem Apart.take_global (hf : Apart f t) (l : Loop) (task : Task) (now ended : Instant) :
    f (l.take_global t task now ended) = f l := by
  rw [Loop.take_global]
  split
  · exact (hf.begin_run _ task now ended).trans (hf.jobs l _ _ _)
  · exact (hf.task _ _).trans (hf.jobs l _ _ _)

theorem Apart.resume (hf : Apart f t) (h : l.resume t task now ended = some l') : f l' = f l := by
  rw [Loop.resume.eq_def] at h
  split at h
  · split at h
    · obtain rfl := Option.some.inj h
      exact hf.task l _
    · obtain rfl := Option.some.inj h
      rw [take_own]
      split
      · exact (hf.take_global _ task now ended).trans (hf.jobs l _ _ _)
      · exact (hf.task _ _).trans (hf.jobs l _ _ _)
  · split at h
    · cases h
    · obtain rfl := Option.some.inj h
      exact (hf.take_global _ task now ended).trans (hf.jobs l _ _ _)
    · obtain rfl := Option.some.inj h
      exact (hf.task _ _).trans (hf.jobs l _ _ _)
  · split at h
    · cases h
    · obtain rfl := Option.some.inj h
      exact (hf.begin_run _ task now ended).trans (hf.jobs l _ _ _)
    · obtain rfl := Option.some.inj h
      exact (hf.task _ _).trans (hf.jobs l _ _ _)
  · cases h

theorem Apart.handler_ends (hf : Apart f t) {exit : Exit}
    (h : l.handler_ends t task exit now = some l') : f l' = f l := by
  rw [Loop.handler_ends.eq_def] at h
  split at h
  · obtain rfl := Option.some.inj h
    exact (hf.task _ _).trans (hf.jobs l _ _ _)
  · cases h

theorem Apart.persisted (hf : Apart f t) (h : l.persisted t task = some l') : f l' = f l := by
  rw [Loop.persisted.eq_def] at h
  split at h
  · obtain rfl := Option.some.inj h
    exact (hf.task _ _).trans (hf.jobs l _ _ _)
  · cases h

theorem Apart.cancel (hf : Apart f t) (l : Loop) (task : Task) : f (l.cancel t task) = f l := by
  unfold Loop.cancel
  split
  · exact (hf.task _ _).trans (hf.jobs l _ _ _)
  · exact (hf.task _ _).trans (hf.jobs l _ _ _)
  · exact hf.task l _

end Apart

/-! ## The tick -/

section Tick

variable {l l' : Loop} {now : Instant} {name : String}

/-- What a visit does to a job whose run is in flight. -/
theorem note_cases {job job' : JobState} (h : note_in_flight job now = some job') :
    (job.started_at = none ∧ job' = { job with queued_logged := true }) ∨ job' = job
      ∨ ∃ s d, job.started_at = some s ∧ job.overlap_logged = false
        ∧ timedelta_seconds job.interval_seconds = some d ∧ d ≤ now - s
        ∧ job' = { job with overlap_logged := true
                            runs_skipped_overlap := job.runs_skipped_overlap + 1
                            last_outcome := some .skipped_overlap } := by
  unfold note_in_flight at h
  split at h
  · next hqueued => exact .inl ⟨hqueued, (Option.some.inj h).symm⟩
  · next s hstarted =>
      split at h
      · exact .inr (.inl (Option.some.inj h).symm)
      · next hlogged =>
          obtain ⟨d, hd, hjob⟩ := Option.map_eq_some_iff.mp h
          split at hjob
          · exact .inr (.inl hjob.symm)
          · next hlate =>
              exact .inr (.inr ⟨s, d, hstarted, by simpa using hlogged, hd, not_lt.mp hlate, hjob.symm⟩)

theorem visit_cases (h : l.visit now name = some l') : l' = l
    ∨ (∃ job, note_in_flight (l.job name) now = some job ∧ l' = l.modify name fun _ => job)
    ∨ ((l.job name).lock.locked = false ∧ l' = l.spawn name) := by
  unfold visit at h
  split at h
  · exact .inl (Option.some.inj h).symm
  · split at h
    · cases h
    · exact .inl (Option.some.inj h).symm
    · split at h
      · obtain ⟨job, hjob, hl'⟩ := Option.map_eq_some_iff.mp h
        exact .inr (.inl ⟨job, hjob, hl'.symm⟩)
      · next hfree => exact .inr (.inr ⟨by simpa using hfree, (Option.some.inj h).symm⟩)

/-- What every visit keeps, a tick keeps. -/
theorem visit_all_keeps {P : Loop → Prop}
    (hvisit : ∀ l name l', P l → l.visit now name = some l' → P l') (names : List String) (hl : P l) :
    P (visit_all now l names) := by
  induction names generalizing l with
  | nil => exact hl
  | cons name rest ih =>
      rw [visit_all]
      split
      · exact hl
      · next l₁ h₁ => exact ih (hvisit l name l₁ hl h₁)

variable {own : String → Option ℕ} {slot : Option (ℕ × String × Instant)}

/-- A task that has not begun holds nothing. -/
theorem Held.spawn (h : Held l own slot) (name : String) : Held (l.spawn name) own slot := by
  have hnew : l.task l.count = none := h.fresh l.count (Nat.le_refl _)
  have htask : ∀ t, t ≠ l.count → (l.spawn name).task t = l.task t := by
    intro t ht
    exact Function.update_of_ne ht _ _
  have hself : (l.spawn name).task l.count = some { job := name } := Function.update_self _ _ _
  refine ⟨?_, ?_, h.own_locked, h.global_locked, h.started, h.running, h.logged, h.own_sound,
    h.global_sound, ?_⟩
  · intro t n
    rw [← h.own_iff, Holds, Holds]
    by_cases ht : t = l.count
    · subst ht
      rw [hself, hnew]
      simp
    · rw [htask t ht]
  · intro t n s
    rw [← h.slot_iff, InSlot, InSlot]
    by_cases ht : t = l.count
    · subst ht
      rw [hself, hnew]
      simp
    · rw [htask t ht]
  · intro t ht
    have ht' : l.count + 1 ≤ t := ht
    rw [htask t (by omega)]
    exact h.fresh t (by omega)

/-- A note leaves the locks alone. -/
theorem Held.note (h : Held l own slot) {job : JobState}
    (hjob : note_in_flight (l.job name) now = some job) :
    Held (l.modify name fun _ => job) own slot := by
  -- the note changes the two fields that only decide log lines
  have hkept : job.lock = (l.job name).lock ∧ job.started_at = (l.job name).started_at
      ∧ (job.overlap_logged = true → job.started_at ≠ none) := by
    rcases note_cases hjob with ⟨-, rfl⟩ | rfl | ⟨s, d, hs, -, -, -, rfl⟩
    · exact ⟨rfl, rfl, h.logged name⟩
    · exact ⟨rfl, rfl, h.logged name⟩
    · refine ⟨rfl, rfl, fun _ => ?_⟩
      rw [hs]
      nofun
  obtain ⟨hlock, hstarted, hlogged⟩ := hkept
  have hself : (l.modify name fun _ => job).job name = job := modify_job_self _ _ _
  have hother : ∀ n, n ≠ name → (l.modify name fun _ => job).job n = l.job n :=
    fun n hn => modify_job_of_ne l hn _
  refine ⟨h.own_iff, h.slot_iff, ?_, h.global_locked, ?_, h.running, ?_, ?_, h.global_sound, h.fresh⟩
  · intro n
    by_cases hn : n = name
    · rw [hn, hself, hlock]
      exact h.own_locked name
    · rw [hother n hn]
      exact h.own_locked n
  · intro n s
    by_cases hn : n = name
    · rw [hn, hself, hstarted]
      exact h.started name s
    · rw [hother n hn]
      exact h.started n s
  · intro n
    by_cases hn : n = name
    · rw [hn, hself]
      exact hlogged
    · rw [hother n hn]
      exact h.logged n
  · intro n
    by_cases hn : n = name
    · rw [hn, hself, hlock]
      exact h.own_sound name
    · rw [hother n hn]
      exact h.own_sound n

theorem Held.visit (h : Held l own slot) (hvisit : l.visit now name = some l') : Held l' own slot := by
  rcases visit_cases hvisit with rfl | ⟨job, hjob, rfl⟩ | ⟨-, rfl⟩
  · exact h
  · exact h.note hjob
  · exact h.spawn name

theorem Held.tick (h : Held l own slot) (now : Instant) : Held (l.tick now) own slot :=
  visit_all_keeps (P := fun l => Held l own slot) (fun _ _ _ h hvisit => h.visit hvisit) l.names h

end Tick

/-! ## Runs -/

/-- The event loop takes a step. -/
def Steps (l l' : Loop) : Prop := ∃ a, l.step a = some l'

abbrev Reaches : Loop → Loop → Prop := Relation.ReflTransGen Steps

section Runs

variable {l l' : Loop} {a : Act}

/-- Nobody holds anything before the first tick. -/
theorem held_start (handlers : List String) (specs : List JobSpec) :
    Held (start handlers specs) (fun _ => none) none := by
  refine ⟨?_, ?_, fun _ => rfl, rfl, ?_, rfl, nofun, fun _ => Lock.sound_new,
    Lock.sound_new, fun _ _ => rfl⟩
  · intro t n
    simp [Holds, start]
  · intro t n s
    simp [InSlot, start]
  · intro n s
    simp [start]

/-- What a file says leaves the locks alone. -/
theorem Held.load_state {l : Loop} {own : String → Option ℕ} {slot : Option (ℕ × String × Instant)}
    (h : Held l own slot) (iso : Iso) (file : Option Json) : Held (l.load_state iso file) own slot := by
  unfold Loop.load_state
  split
  · exact ⟨h.own_iff, h.slot_iff, h.own_locked, h.global_locked, h.started, h.running, h.logged,
      h.own_sound, h.global_sound, h.fresh⟩
  · exact h

/-- The state file says when jobs last ran, and nothing about locks. -/
theorem exclusive_loaded (handlers : List String) (specs : List JobSpec) (iso : Iso) (file : Option Json) :
    ((start handlers specs).load_state iso file).Exclusive :=
  ⟨_, _, (held_start handlers specs).load_state iso file⟩

/-- **A step keeps the locks with their holders.** -/
theorem Exclusive.step (h : l.Exclusive) (hstep : l.step a = some l') : l'.Exclusive := by
  obtain ⟨own, slot, hheld⟩ := h
  cases a with
  | tick now =>
      obtain rfl := Option.some.inj hstep
      exact ⟨own, slot, hheld.tick now⟩
  | run_once name =>
      rw [Loop.step] at hstep
      split at hstep
      · obtain rfl := Option.some.inj hstep
        exact ⟨own, slot, hheld.spawn name⟩
      · cases hstep
  | resume t now ended =>
      obtain ⟨task, ht, hresume⟩ := Option.bind_eq_some_iff.mp hstep
      exact hheld.resume ht hresume
  | handler_ends t exit now =>
      obtain ⟨task, ht, hends⟩ := Option.bind_eq_some_iff.mp hstep
      exact hheld.handler_ends ht hends
  | persisted t =>
      obtain ⟨task, ht, hpersisted⟩ := Option.bind_eq_some_iff.mp hstep
      exact hheld.persisted ht hpersisted
  | cancel t =>
      obtain ⟨task, ht, rfl⟩ := Option.map_eq_some_iff.mp hstep
      exact hheld.cancel ht

/-- The run lemma: what one step keeps, every run keeps. -/
theorem Exclusive.reaches (h : l.Exclusive) (hr : Reaches l l') : l'.Exclusive := by
  induction hr with
  | refl => exact h
  | tail _ hstep ih =>
      obtain ⟨a, ha⟩ := hstep
      exact ih.step ha

/-- What neither a task nor a tick writes. -/
theorem step_apart {γ : Type} {f : Loop → γ} (hf : ∀ t, Apart f t)
    (hspawn : ∀ (l : Loop) name, f (l.spawn name) = f l) (hstep : l.step a = some l') : f l' = f l := by
  cases a with
  | tick now =>
      obtain rfl := Option.some.inj hstep
      refine visit_all_keeps (P := fun l₁ => f l₁ = f l) ?_ l.names rfl
      intro l₁ name l₂ hl₁ hvisit
      rcases visit_cases hvisit with rfl | ⟨job, -, rfl⟩ | ⟨-, rfl⟩
      · exact hl₁
      · exact ((hf 0).jobs l₁ _ _ _).trans hl₁
      · exact (hspawn l₁ name).trans hl₁
  | run_once name =>
      rw [Loop.step] at hstep
      split at hstep
      · obtain rfl := Option.some.inj hstep
        exact hspawn l name
      · cases hstep
  | resume t now ended =>
      obtain ⟨task, -, hresume⟩ := Option.bind_eq_some_iff.mp hstep
      exact (hf t).resume hresume
  | handler_ends t exit now =>
      obtain ⟨task, -, hends⟩ := Option.bind_eq_some_iff.mp hstep
      exact (hf t).handler_ends hends
  | persisted t =>
      obtain ⟨task, -, hpersisted⟩ := Option.bind_eq_some_iff.mp hstep
      exact (hf t).persisted hpersisted
  | cancel t =>
      obtain ⟨task, -, rfl⟩ := Option.map_eq_some_iff.mp hstep
      exact (hf t).cancel l task

/-- The jobs are those that the loop was made with. -/
theorem reaches_names (hr : Reaches l l') : l'.names = l.names := by
  induction hr with
  | refl => rfl
  | tail _ hstep ih =>
      obtain ⟨a, ha⟩ := hstep
      exact (step_apart apart_names (fun _ _ => rfl) ha).trans ih

/-- The loop after the acts; `none` if one of them is not possible. -/
def run : Loop → List Act → Option Loop
  | l, [] => some l
  | l, a :: rest => (l.step a).bind fun l' => run l' rest

/-- A run that is computed is a run. -/
theorem reaches_of_run (acts : List Act) (h : run l acts = some l') : Reaches l l' := by
  induction acts generalizing l with
  | nil => exact (Option.some.inj h) ▸ .refl
  | cons a rest ih =>
      obtain ⟨l₁, hstep, hrest⟩ := Option.bind_eq_some_iff.mp h
      exact .head ⟨a, hstep⟩ (ih hrest)

end Runs

end Loop

end OpenChronicle.Maintenance
