/-
`asyncio.Lock`.

A task that has to wait leaves a future in the queue of the lock. A release wakes the first of them, but
the lock is taken only when the woken task runs, and the task may be cancelled before that. So between a
release and the next claim the lock is free and still promised: whoever comes then has to wait as well.

The definitions are the methods of the class, cut at their `await`: what a task does before it waits is
`acquire`, and what it does when it goes on is `claim` or `give_up`, as it was woken or cancelled. A
cancelled future stays in the queue until its task runs, and there `is_free` looks past it while
`wake_up_first` stops at it; the waiter behind it is woken when the cancelled task gives up.

`Sound` is what the queue keeps through all of these. A machine of tasks needs two facts of it: a woken
task finds the lock free (`Sound.free_of_woken`), and one lemma for each method.
-/
import Mathlib.Data.List.Basic

set_option autoImplicit false

namespace AsyncLock

/-- The future of a waiter. -/
inductive Fut where
  | pending
  | woken
  | cancelled
  deriving DecidableEq, Repr

structure Lock (τ : Type) where
  locked : Bool := false
  waiters : List (τ × Fut) := []
  deriving DecidableEq, Repr

namespace Lock

variable {τ : Type}

/-- Whether `acquire` returns at once. -/
def is_free (l : Lock τ) : Bool := !l.locked && l.waiters.all (·.2 = .cancelled)

/-- `_wake_up_first`. -/
def wake_up_first (l : Lock τ) : Lock τ :=
  match l.waiters with
  | (t, .pending) :: rest => { l with waiters := (t, .woken) :: rest }
  | _ => l

/-- `acquire` up to its await; it answers whether the lock is taken already. -/
def acquire (l : Lock τ) (t : τ) : Bool × Lock τ :=
  if l.is_free then (true, { l with locked := true })
  else (false, { l with waiters := l.waiters ++ [(t, .pending)] })

section Waiting

variable [DecidableEq τ]

/-- The waiter takes its own future out of the queue; nobody else does. -/
def remove (l : Lock τ) (t : τ) : Lock τ := { l with waiters := l.waiters.filter (·.1 ≠ t) }

/-- `acquire` from its await on, when the task was woken. -/
def claim (l : Lock τ) (t : τ) : Lock τ := { l.remove t with locked := true }

/-- `acquire` from its await on, when the task was cancelled. -/
def give_up (l : Lock τ) (t : τ) : Lock τ :=
  if (l.remove t).locked then l.remove t else (l.remove t).wake_up_first

/-- The task is cancelled, and so is its future if it is pending. -/
def cancel (l : Lock τ) (t : τ) : Lock τ :=
  { l with waiters := l.waiters.map fun w => if w.1 = t ∧ w.2 = .pending then (w.1, .cancelled) else w }

/-- The future on which the task waits. -/
def future (l : Lock τ) (t : τ) : Option Fut := l.waiters.lookup t

end Waiting

/-- `release`: the lock is free, and the first waiter may have it. -/
def release (l : Lock τ) : Lock τ := { l with locked := false }.wake_up_first

/-! ## The queue -/

/-- Only the first waiter is woken, and only while the lock is free; and while it is free, the
first waiter does not sleep. -/
structure Sound (l : Lock τ) : Prop where
  rest : ∀ w ∈ l.waiters.tail, w.2 ≠ .woken
  promised : l.locked = true → ∀ w ∈ l.waiters, w.2 ≠ .woken
  awake : l.locked = false → ∀ w ∈ l.waiters.head?, w.2 ≠ .pending

variable {l : Lock τ} {t : τ}

/-- Nobody waits. -/
theorem sound_new : (({} : Lock τ)).Sound := by
  refine ⟨?_, ?_, ?_⟩
  · simp
  · simp
  · simp

@[simp] theorem wake_up_first_locked (l : Lock τ) : l.wake_up_first.locked = l.locked := by
  unfold wake_up_first
  split <;> rfl

@[simp] theorem release_locked (l : Lock τ) : l.release.locked = false := by
  simp [release]

@[simp] theorem claim_locked [DecidableEq τ] (l : Lock τ) (t : τ) : (l.claim t).locked = true := rfl

@[simp] theorem give_up_locked [DecidableEq τ] (l : Lock τ) (t : τ) : (l.give_up t).locked = l.locked := by
  unfold give_up
  split
  · rfl
  · simp [remove]

@[simp] theorem cancel_locked [DecidableEq τ] (l : Lock τ) (t : τ) : (l.cancel t).locked = l.locked := rfl

/-- To wake the first waiter of a free lock is sound, if no other one is woken. -/
theorem sound_wake_up_first (hfree : l.locked = false) (hrest : ∀ w ∈ l.waiters.tail, w.2 ≠ .woken) :
    l.wake_up_first.Sound := by
  unfold wake_up_first
  split
  · next t rest hwaiters =>
      rw [hwaiters] at hrest
      refine ⟨hrest, ?_, ?_⟩
      · intro hlocked
        rw [hfree] at hlocked
        cases hlocked
      · simp
  · next hwaiters =>
      refine ⟨hrest, ?_, ?_⟩
      · intro hlocked
        rw [hfree] at hlocked
        cases hlocked
      · -- the first waiter is not pending, or it would have been woken
        rintro - ⟨t, fut⟩ hhead hpending
        obtain ⟨rest, hcons⟩ := List.head?_eq_some_iff.mp hhead
        simp only at hpending
        rw [hpending] at hcons
        exact hwaiters t rest hcons

/-- The lock is free, and its first waiter is woken. -/
theorem Sound.release (h : l.Sound) : l.release.Sound := sound_wake_up_first rfl h.rest

/-- A lock that is taken at once was free. -/
theorem acquire_eq_true (h : (l.acquire t).1 = true) :
    l.locked = false ∧ (l.acquire t).2.locked = true := by
  unfold acquire at h ⊢
  split at h
  · next hfree =>
      rw [if_pos hfree]
      simp only [is_free, Bool.and_eq_true, Bool.not_eq_true'] at hfree
      exact ⟨hfree.1, rfl⟩
  · cases h

/-- Who has to wait leaves the lock as it is and only joins the queue. -/
theorem acquire_eq_false (h : (l.acquire t).1 = false) :
    (l.acquire t).2.locked = l.locked := by
  unfold acquire at h ⊢
  split at h
  · cases h
  · next hbusy => rw [if_neg hbusy]

/-- A newcomer takes a lock that nobody was promised, or joins the queue asleep. -/
theorem Sound.acquire (h : l.Sound) (t : τ) : (l.acquire t).2.Sound := by
  unfold Lock.acquire
  split
  · -- all waiters are cancelled, so none of them is promised the lock
    next hfree =>
      simp only [is_free, Bool.and_eq_true, List.all_eq_true, decide_eq_true_eq] at hfree
      refine ⟨h.rest, ?_, nofun⟩
      intro _ w hw hwoken
      rw [hfree.2 w hw] at hwoken
      cases hwoken
  · next hbusy =>
      -- the newcomer is the last in the queue, and asleep
      have hwoken : ∀ w ∈ l.waiters ++ [(t, Fut.pending)], w ∉ l.waiters → w.2 ≠ .woken := by
        intro w hw hnot
        rcases List.mem_append.mp hw with hin | hlast
        · exact absurd hin hnot
        · rw [List.mem_singleton.mp hlast]
          nofun
      rcases hwaiters : l.waiters with _ | ⟨first, others⟩
      · -- nobody waits, so it is locked
        have hlocked : l.locked = true := by
          by_contra hfree
          refine hbusy ?_
          simpa [is_free, hwaiters] using hfree
        refine ⟨by simp, ?_, ?_⟩
        · simp
        · intro hfree
          rw [hlocked] at hfree
          cases hfree
      · rw [hwaiters] at hwoken
        refine ⟨?_, ?_, ?_⟩
        · intro w hw
          simp only [List.cons_append, List.tail_cons] at hw
          rcases List.mem_append.mp hw with hin | hlast
          · exact h.rest w (by rw [hwaiters]; exact hin)
          · rw [List.mem_singleton.mp hlast]
            nofun
        · intro hlocked w hw
          by_cases hin : w ∈ first :: others
          · exact h.promised hlocked w (by rw [hwaiters]; exact hin)
          · exact hwoken w hw hin
        · intro hfree w hw
          refine h.awake hfree w ?_
          rw [hwaiters]
          simpa using hw

variable [DecidableEq τ]

/-- A woken task finds the lock free. -/
theorem Sound.free_of_woken (h : l.Sound) (hwoken : l.future t = some .woken) : l.locked = false := by
  by_contra hlocked
  obtain ⟨l₁, l₂, heq, -⟩ := List.lookup_eq_some_iff.mp hwoken
  refine h.promised (by simpa using hlocked) (t, .woken) ?_ rfl
  rw [heq]
  simp

/-- Once its woken waiter is gone, nobody is woken. -/
theorem Sound.remove_woken (h : l.Sound) (hwoken : l.future t = some .woken) :
    ∀ w ∈ (l.remove t).waiters, w.2 ≠ .woken := by
  obtain ⟨l₁, l₂, heq, -⟩ := List.lookup_eq_some_iff.mp hwoken
  intro w hw
  rw [Lock.remove, List.mem_filter] at hw
  obtain ⟨hin, hne⟩ := hw
  rcases l₁ with _ | ⟨first, l₁⟩
  · rw [heq] at hin
    rcases List.mem_cons.mp hin with rfl | htail
    · simp at hne
    · exact h.rest w (by rw [heq]; exact htail)
  · -- the woken waiter is the first one
    refine absurd rfl (h.rest (t, .woken) ?_)
    rw [heq]
    simp

/-- The promise is kept, and none is open afterwards. -/
theorem Sound.claim (h : l.Sound) (hwoken : l.future t = some .woken) : (l.claim t).Sound := by
  have hnone := h.remove_woken hwoken
  refine ⟨fun w hw => hnone w (List.mem_of_mem_tail hw), fun _ => hnone, nofun⟩

/-- What is left of the queue when a waiter goes. -/
theorem Sound.remove_rest (h : l.Sound) (t : τ) : ∀ w ∈ (l.remove t).waiters.tail, w.2 ≠ .woken := by
  intro w hw
  rw [Lock.remove] at hw
  rcases hwaiters : l.waiters with _ | ⟨first, others⟩
  · rw [hwaiters] at hw
    simp at hw
  · rw [hwaiters, List.filter_cons] at hw
    have hin : w ∈ others := by
      split at hw
      · exact List.mem_of_mem_filter hw
      · exact List.mem_of_mem_filter (List.mem_of_mem_tail hw)
    exact h.rest w (by rw [hwaiters]; exact hin)

/-- A promise that is given up is passed on to the next in the queue. -/
theorem Sound.give_up (h : l.Sound) (t : τ) : (l.give_up t).Sound := by
  unfold Lock.give_up
  split
  · next hlocked =>
      refine ⟨h.remove_rest t, ?_, ?_⟩
      · intro _ w hw
        exact h.promised hlocked w (List.mem_of_mem_filter hw)
      · intro hfree
        rw [hlocked] at hfree
        cases hfree
  · next hfree => exact sound_wake_up_first (by simpa using hfree) (h.remove_rest t)

/-- A future that was woken already stays so; its task finds out when it runs. -/
theorem Sound.cancel (h : l.Sound) (t : τ) : (l.cancel t).Sound := by
  have hkeeps : ∀ w : τ × Fut, w.2 ≠ .woken →
      (if w.1 = t ∧ w.2 = .pending then (w.1, Fut.cancelled) else w).2 ≠ .woken := by
    intro w hw
    split
    · nofun
    · exact hw
  refine ⟨?_, ?_, ?_⟩
  · intro w hw
    rw [Lock.cancel, ← List.map_tail] at hw
    obtain ⟨w', hw', rfl⟩ := List.mem_map.mp hw
    exact hkeeps w' (h.rest w' hw')
  · intro hlocked w hw
    obtain ⟨w', hw', rfl⟩ := List.mem_map.mp hw
    exact hkeeps w' (h.promised hlocked w' hw')
  · intro hfree w hw
    rw [Lock.cancel, List.head?_map] at hw
    obtain ⟨w', hw', rfl⟩ := Option.map_eq_some_iff.mp hw
    split
    · nofun
    · exact h.awake hfree w' hw'

end Lock

end AsyncLock
