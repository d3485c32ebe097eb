/-
What the loop counts as an overlap.

The counter of a job grows in a tick only, while a run of the job is in its slot and has been there for
an interval, and no more than once for this run: the flag that says so is set with the count, and
nothing but the end of the run clears it.

That a count is honest is a fact about one tick, read off the branch of the visit that counts. That a
run is counted at most once is a fact about runs of the event loop, and for it the counter is taken
together with the flag: along every step of a run that stays in its slot, the counter less the flag is
the same (`Balanced`). So the counter can have grown by one at most, namely when the flag was not set at
first and is set now.

The first part of the file says what the steps of a task leave alone. It is stated for any reading of a
job's state that does not look at the locks and the slot (`Blind`), since the counter, the flag and the
settings of a job are all of this kind.
-/
import OpenChronicle.Maintenance.Exclusion

set_option autoImplicit false

namespace OpenChronicle.Maintenance.Loop

open AsyncLock

/-! ## What a run leaves alone -/

/-- What the locks and the slot of a job do not concern. -/
structure Blind {β : Type} (f : JobState → β) : Prop where
  lock : ∀ job k, f { job with lock := k } = f job
  entered : ∀ job s, f { job with started_at := s, queued_logged := false } = f job
  left : ∀ job k, f { job with started_at := none, overlap_logged := false, lock := k } = f job

section Blind

variable {β : Type} {f : JobState → β} {l l' : Loop} {n : String} {t : ℕ} {task : Task}
  {now ended : Instant}

/-- A change that a reading does not see. -/
theorem modify_keeps {g : JobState → JobState} (l : Loop) (name : String)
    (hg : ∀ job, f (g job) = f job) (n : String) : f ((l.modify name g).job n) = f (l.job n) := by
  by_cases hn : n = name
  · subst hn
    rw [modify_job_self, hg]
  · rw [modify_job_of_ne l hn]

theorem Blind.enter_slot (hf : Blind f) (l : Loop) (name : String) (now : Instant) (n : String) :
    f ((l.enter_slot name now).job n) = f (l.job n) :=
  modify_keeps l name (fun job => hf.entered job _) n

theorem Blind.leave_slot (hf : Blind f) (l : Loop) (name : String) (n : String) :
    f ((l.leave_slot name).job n) = f (l.job n) :=
  modify_keeps l name (fun job => hf.left job _) n

/-- Only a job without a handler may be changed by its own start. -/
theorem Blind.begin_run (hf : Blind f) (l : Loop) (t : ℕ) (task : Task) (now ended : Instant)
    (hno : l.handlers.contains n = true ∨ ∀ job, f (job.no_handler ended) = f job) :
    f ((l.begin_run t task now ended).job n) = f (l.job n) := by
  rw [Loop.begin_run]
  split
  · exact hf.enter_slot l task.job now n
  · next hmissing =>
      have hleft := hf.leave_slot ((l.enter_slot task.job now).modify task.job (·.no_handler ended))
        task.job n
      refine hleft.trans ?_
      rcases hno with hregistered | hno
      · have hne : n ≠ task.job := by
          rintro rfl
          exact hmissing hregistered
        rw [modify_job_of_ne _ hne]
        exact hf.enter_slot l task.job now n
      · exact (modify_keeps _ _ hno n).trans (hf.enter_slot l task.job now n)

/-- The way of a task through `_invoke`, branch by branch. -/
theorem Blind.take_global (hf : Blind f) (l : Loop) (t : ℕ) (task : Task) (now ended : Instant)
    (hno : l.handlers.contains n = true ∨ ∀ job, f (job.no_handler ended) = f job) :
    f ((l.take_global t task now ended).job n) = f (l.job n) := by
  rw [Loop.take_global]
  split
  · exact hf.begin_run { l with global_lock := (l.global_lock.acquire t).2 } t task now ended hno
  · rfl

theorem Blind.resume (hf : Blind f)
    (hno : l.handlers.contains n = true ∨ ∀ job, f (job.no_handler ended) = f job)
    (hstep : l.resume t task now ended = some l') : f (l'.job n) = f (l.job n) := by
  have hlock : ∀ (l : Loop) (g : Lock ℕ → Lock ℕ),
      f ((l.modify task.job fun job => { job with lock := g job.lock }).job n) = f (l.job n) :=
    fun l g => modify_keeps l task.job (fun job => hf.lock job _) n
  have hfixed : ∀ (l : Loop) (k : Lock ℕ),
      f ((l.modify task.job fun job => { job with lock := k }).job n) = f (l.job n) :=
    fun l k => modify_keeps l task.job (fun job => hf.lock job _) n
  rw [Loop.resume.eq_def] at hstep
  split at hstep
  · split at hstep
    · obtain rfl := Option.some.inj hstep
      rfl
    · obtain rfl := Option.some.inj hstep
      rw [take_own]
      split
      · rw [hf.take_global]
        · exact hfixed l _
        · exact hno
      · exact hfixed l _
  · split at hstep
    · cases hstep
    · obtain rfl := Option.some.inj hstep
      rw [hf.take_global]
      · exact hlock l (·.claim t)
      · exact hno
    · obtain rfl := Option.some.inj hstep
      exact hlock l (·.give_up t)
  · split at hstep
    · cases hstep
    · obtain rfl := Option.some.inj hstep
      exact hf.begin_run { l with global_lock := l.global_lock.claim t } t task now ended hno
    · obtain rfl := Option.some.inj hstep
      exact hlock { l with global_lock := l.global_lock.give_up t } (·.release)
  · cases hstep

/-- While the slot is taken, a task that runs again changes locks only. -/
theorem resume_locks {own : String → Option ℕ} {slot : Option (ℕ × String × Instant)}
    (h : Held l own slot) (hlocked : l.global_lock.locked = true)
    (hstep : l.resume t task now ended = some l') (n : String) :
    ∃ k, l'.job n = { l.job n with lock := k } := by
  have hlock : ∀ (l₁ : Loop) (g : JobState → Lock ℕ), l₁.job = l.job →
      ∃ k, (l₁.modify task.job fun job => { job with lock := g job }).job n
        = { l.job n with lock := k } := by
    intro l₁ g hjob
    by_cases hn : n = task.job
    · subst hn
      refine ⟨g (l.job task.job), ?_⟩
      rw [modify_job_self, hjob]
    · refine ⟨(l.job n).lock, ?_⟩
      rw [modify_job_of_ne l₁ hn, hjob]
  have hglobal : ∀ (l₁ : Loop), l₁.global_lock = l.global_lock →
      (l₁.take_global t task now ended).job = l₁.job := by
    intro l₁ heq
    rw [Loop.take_global]
    split
    · next hacquired =>
        rw [heq] at hacquired
        have hfree := (Lock.acquire_eq_true hacquired).1
        rw [hlocked] at hfree
        cases hfree
    · rfl
  rw [Loop.resume.eq_def] at hstep
  split at hstep
  · split at hstep
    · obtain rfl := Option.some.inj hstep
      exact ⟨(l.job n).lock, rfl⟩
    · obtain rfl := Option.some.inj hstep
      rw [take_own]
      split
      · rw [hglobal]
        · exact hlock l (fun job => ((l.job task.job).lock.acquire t).2) rfl
        · rfl
      · exact hlock l (fun job => ((l.job task.job).lock.acquire t).2) rfl
  · split at hstep
    · cases hstep
    · obtain rfl := Option.some.inj hstep
      rw [hglobal]
      · exact hlock l (·.lock.claim t) rfl
      · rfl
    · obtain rfl := Option.some.inj hstep
      exact hlock l (·.lock.give_up t) rfl
  · split at hstep
    · cases hstep
    · next hwake =>
        -- a woken waiter would have found the lock free
        have hfree := h.global_sound.free_of_woken (future_of_claims hwake)
        rw [hlocked] at hfree
        cases hfree
    · obtain rfl := Option.some.inj hstep
      exact hlock { l with global_lock := l.global_lock.give_up t } (·.lock.release) rfl
  · cases hstep

/-- `task.cancel()` changes locks only. -/
theorem cancel_keeps (f : JobState → β) (hlock : ∀ job k, f { job with lock := k } = f job) (l : Loop)
    (t : ℕ) (task : Task) (n : String) : f ((l.cancel t task).job n) = f (l.job n) := by
  unfold cancel
  split
  · exact modify_keeps (g := fun job => { job with lock := job.lock.cancel t }) l task.job
      (fun job => hlock job _) n
  · rfl
  · rfl

/-- The end of a run leaves the slot and the counter of overlaps alone. -/
theorem end_run_kept (job : JobState) (exit : Exit) (now : Instant) :
    (job.end_run exit now).toJobSpec = job.toJobSpec
      ∧ (job.end_run exit now).runs_skipped_overlap = job.runs_skipped_overlap
      ∧ (job.end_run exit now).overlap_logged = job.overlap_logged := by
  rcases exit with (_ | _) | _ | _
  · exact ⟨rfl, rfl, rfl⟩
  · exact ⟨rfl, rfl, rfl⟩
  · exact ⟨rfl, rfl, rfl⟩
  · exact ⟨rfl, rfl, rfl⟩

end Blind

/-! ## Counting -/

/-- Nothing is counted for the job. -/
def Uncounted (l l' : Loop) (n : String) : Prop :=
  (l'.job n).runs_skipped_overlap = (l.job n).runs_skipped_overlap
    ∧ (l'.job n).overlap_logged = (l.job n).overlap_logged

/-- A tick at `now` counts an overlap of the job. -/
structure Counts (l l' : Loop) (now : Instant) (n : String) : Prop where
  late : ∃ s d, (l.job n).started_at = some s
    ∧ timedelta_seconds (l.job n).interval_seconds = some d ∧ d ≤ now - s
  unlogged : (l.job n).overlap_logged = false
  logged : (l'.job n).overlap_logged = true
  counted : (l'.job n).runs_skipped_overlap = (l.job n).runs_skipped_overlap + 1

section Counting

variable {l l' : Loop} {now : Instant} {a : Act}

/-- What a visit does to the counter of a job. -/
theorem visit_counts {name n : String} (h : l.visit now name = some l') :
    (l'.job n).toJobSpec = (l.job n).toJobSpec ∧ (l'.job n).started_at = (l.job n).started_at
      ∧ (Uncounted l l' n ∨ Counts l l' now n) := by
  rcases visit_cases h with rfl | ⟨job, hjob, rfl⟩ | ⟨-, rfl⟩
  · exact ⟨rfl, rfl, .inl ⟨rfl, rfl⟩⟩
  · by_cases hn : n = name
    · subst hn
      rcases note_cases hjob with ⟨-, rfl⟩ | rfl | ⟨s, d, hs, hunlogged, hd, hlate, rfl⟩
      · rw [Uncounted, modify_job_self]
        exact ⟨rfl, rfl, .inl ⟨rfl, rfl⟩⟩
      · rw [Uncounted, modify_job_self]
        exact ⟨rfl, rfl, .inl ⟨rfl, rfl⟩⟩
      · refine ⟨by rw [modify_job_self], by rw [modify_job_self], .inr ⟨⟨s, d, hs, hd, hlate⟩, hunlogged, ?_, ?_⟩⟩
        · rw [modify_job_self]
        · rw [modify_job_self]
    · rw [Uncounted, modify_job_of_ne l hn]
      exact ⟨rfl, rfl, .inl ⟨rfl, rfl⟩⟩
  · exact ⟨rfl, rfl, .inl ⟨rfl, rfl⟩⟩

/-- **A tick counts at most one overlap of a job**: the visit that counts sets the flag. -/
theorem tick_counts (l : Loop) (now : Instant) (n : String) :
    Uncounted l (l.tick now) n ∨ Counts l (l.tick now) now n := by
  refine (visit_all_keeps (P := fun l₁ => (l₁.job n).toJobSpec = (l.job n).toJobSpec
    ∧ (l₁.job n).started_at = (l.job n).started_at ∧ (Uncounted l l₁ n ∨ Counts l l₁ now n)) ?_
    l.names ⟨rfl, rfl, .inl ⟨rfl, rfl⟩⟩).2.2
  rintro l₁ name l₂ ⟨hspec₁, hstarted₁, hcounts₁⟩ hvisit
  obtain ⟨hspec₂, hstarted₂, hcounts₂⟩ := visit_counts (n := n) hvisit
  refine ⟨hspec₂.trans hspec₁, hstarted₂.trans hstarted₁, ?_⟩
  rcases hcounts₁ with hsame₁ | hcount₁
  · rcases hcounts₂ with hsame₂ | hcount₂
    · exact .inl ⟨hsame₂.1.trans hsame₁.1, hsame₂.2.trans hsame₁.2⟩
    · right
      obtain ⟨s, d, hs, hd, hlate⟩ := hcount₂.late
      have hinterval : (l₁.job n).interval_seconds = (l.job n).interval_seconds :=
        congrArg JobSpec.interval_seconds hspec₁
      rw [hstarted₁] at hs
      rw [hinterval] at hd
      refine ⟨⟨s, d, hs, hd, hlate⟩, ?_, hcount₂.logged, ?_⟩
      · rw [← hsame₁.2]
        exact hcount₂.unlogged
      · rw [hcount₂.counted, hsame₁.1]
  · rcases hcounts₂ with hsame₂ | hcount₂
    · exact .inr ⟨hcount₁.late, hcount₁.unlogged, hsame₂.2.trans hcount₁.logged,
        hsame₂.1.trans hcount₁.counted⟩
    · -- the flag is set already
      have hunlogged := hcount₂.unlogged
      rw [hcount₁.logged] at hunlogged
      cases hunlogged

/-- The counter of overlaps is not touched by a run itself. -/
theorem blind_skipped : Blind JobState.runs_skipped_overlap := ⟨fun _ _ => rfl, fun _ _ => rfl, fun _ _ => rfl⟩

/-- **Only a tick counts overlaps.** -/
theorem step_counts (hstep : l.step a = some l') (n : String) :
    (l'.job n).runs_skipped_overlap = (l.job n).runs_skipped_overlap
      ∨ ∃ now, a = .tick now ∧ Counts l l' now n := by
  cases a with
  | tick now =>
      obtain rfl := Option.some.inj hstep
      exact (tick_counts l now n).imp And.left fun h => ⟨now, rfl, h⟩
  | run_once name =>
      left
      rw [step] at hstep
      split at hstep
      · obtain rfl := Option.some.inj hstep
        rfl
      · cases hstep
  | resume t now ended =>
      obtain ⟨task, -, hresume⟩ := Option.bind_eq_some_iff.mp hstep
      exact .inl (blind_skipped.resume (.inr fun _ => rfl) hresume)
  | handler_ends t exit now =>
      left
      obtain ⟨task, -, hends⟩ := Option.bind_eq_some_iff.mp hstep
      rw [handler_ends.eq_def] at hends
      split at hends
      · obtain rfl := Option.some.inj hends
        exact modify_keeps l task.job (fun job => (end_run_kept job exit now).2.1) n
      · cases hends
  | persisted t =>
      left
      obtain ⟨task, -, hpersisted⟩ := Option.bind_eq_some_iff.mp hstep
      rw [persisted.eq_def] at hpersisted
      split at hpersisted
      · obtain rfl := Option.some.inj hpersisted
        exact blind_skipped.leave_slot l task.job n
      · cases hpersisted
  | cancel t =>
      left
      obtain ⟨task, -, rfl⟩ := Option.map_eq_some_iff.mp hstep
      exact cancel_keeps _ (fun _ _ => rfl) l t task n

/-! ## One run -/

variable {t : ℕ} {n : String} {s : Instant}

/-- The task is over. -/
def Over (l : Loop) (t : ℕ) : Prop := ∃ task, l.task t = some task ∧ task.pc = .done

/-- The counter, less what the present run has counted. -/
def Balanced (l l' : Loop) (n : String) : Prop :=
  (l'.job n).runs_skipped_overlap + (if (l.job n).overlap_logged then 1 else 0)
    = (l.job n).runs_skipped_overlap + (if (l'.job n).overlap_logged then 1 else 0)

/-- Nothing was counted, and the flag is as it was. -/
theorem Uncounted.balanced (h : Uncounted l l' n) : Balanced l l' n := by
  rw [Balanced, h.1, h.2]

/-- Counted and flagged in one visit. -/
theorem Counts.balanced (h : Counts l l' now n) : Balanced l l' n := by
  rw [Balanced, h.counted, h.unlogged, h.logged]
  simp

/-- A visit may add a task; it moves none that is there. -/
theorem visit_task {name : String} (hfresh : t < l.count) (h : l.visit now name = some l') :
    l'.task t = l.task t ∧ l.count ≤ l'.count := by
  rcases visit_cases h with rfl | ⟨job, -, rfl⟩ | ⟨-, rfl⟩
  · exact ⟨rfl, Nat.le_refl _⟩
  · exact ⟨rfl, Nat.le_refl _⟩
  · exact ⟨Function.update_of_ne (by omega) _ _, Nat.le_succ _⟩

theorem tick_task (hfresh : t < l.count) : (l.tick now).task t = l.task t := by
  refine (visit_all_keeps (P := fun l₁ => l₁.task t = l.task t ∧ l.count ≤ l₁.count) ?_ l.names
    ⟨rfl, Nat.le_refl _⟩).1
  rintro l₁ name l₂ ⟨htask, hcount⟩ hvisit
  obtain ⟨htask₂, hcount₂⟩ := visit_task (t := t) (by omega) hvisit
  exact ⟨htask₂.trans htask, Nat.le_trans hcount hcount₂⟩

theorem cancel_task_self (l : Loop) (t : ℕ) (task : Task) :
    (l.cancel t task).task t = some { task with cancelling := true } := Function.update_self _ _ _

/-- **A step moves one task**, or it moves no lock. -/
theorem step_moves (hstep : l.step a = some l') :
    (∀ own slot, Held l own slot → Held l' own slot) ∨ ∃ u, ∀ t, t ≠ u → l'.task t = l.task t := by
  cases a with
  | tick now =>
      obtain rfl := Option.some.inj hstep
      exact .inl fun own slot h => h.tick now
  | run_once name =>
      rw [step] at hstep
      split at hstep
      · obtain rfl := Option.some.inj hstep
        exact .inl fun own slot h => h.spawn name
      · cases hstep
  | resume u now ended =>
      obtain ⟨task, -, hresume⟩ := Option.bind_eq_some_iff.mp hstep
      exact .inr ⟨u, fun t hne => (apart_task hne).resume hresume⟩
  | handler_ends u exit now =>
      obtain ⟨task, -, hends⟩ := Option.bind_eq_some_iff.mp hstep
      exact .inr ⟨u, fun t hne => (apart_task hne).handler_ends hends⟩
  | persisted u =>
      obtain ⟨task, -, hpersisted⟩ := Option.bind_eq_some_iff.mp hstep
      exact .inr ⟨u, fun t hne => (apart_task hne).persisted hpersisted⟩
  | cancel u =>
      obtain ⟨task, -, rfl⟩ := Option.map_eq_some_iff.mp hstep
      exact .inr ⟨u, fun t hne => (apart_task hne).cancel l task⟩

variable {own : String → Option ℕ} {slot : Option (ℕ × String × Instant)}

/-- The tasks that are there have numbers below the next one. -/
theorem Held.lt_count (h : Held l own slot) {task : Task} (ht : l.task t = some task) : t < l.count := by
  by_contra hge
  rw [h.fresh t (not_lt.mp hge)] at ht
  cases ht

/-- There is one slot. -/
theorem Held.slot_unique (h : Held l own slot) (hin : l.InSlot t n s) {u : ℕ} {m : String} {r : Instant}
    (hin' : l.InSlot u m r) : u = t ∧ m = n ∧ r = s := by
  have hsame := (h.slot_iff t n s).mp hin
  rw [(h.slot_iff u m r).mp hin'] at hsame
  simpa using hsame

/-- **What a step does to the run in the slot**: it stays there, and its flag goes with the
counter, or it is over. -/
theorem Held.in_slot_step (h : Held l own slot) (hin : l.InSlot t n s) (hstep : l.step a = some l') :
    (l'.InSlot t n s ∧ Balanced l l' n) ∨ Over l' t := by
  obtain ⟨task, ht, hjob, hsince⟩ := hin
  have hfresh : t < l.count := h.lt_count ht
  have hstays : l'.task t = l.task t → l'.InSlot t n s :=
    fun hsame => ⟨task, hsame.trans ht, hjob, hsince⟩
  -- nobody else runs a handler or persists
  have hunique : ∀ {u task₁ r}, l.task u = some task₁ → task₁.pc.since = some r → u = t :=
    fun hu hr => (h.slot_unique ⟨task, ht, hjob, hsince⟩ ⟨_, hu, rfl, hr⟩).1
  have hself : ∀ {task₁}, l.task t = some task₁ → task₁ = task := by
    intro task₁ ht₁
    rw [ht] at ht₁
    exact (Option.some.inj ht₁).symm
  cases a with
  | tick now =>
      obtain rfl := Option.some.inj hstep
      refine .inl ⟨hstays (tick_task hfresh), ?_⟩
      rcases tick_counts l now n with hsame | hcounts
      · exact hsame.balanced
      · exact hcounts.balanced
  | run_once name =>
      rw [step] at hstep
      split at hstep
      · obtain rfl := Option.some.inj hstep
        refine .inl ⟨hstays (Function.update_of_ne (by omega) _ _), ?_⟩
        exact Uncounted.balanced ⟨rfl, rfl⟩
      · cases hstep
  | resume u now ended =>
      obtain ⟨task₁, hu, hresume⟩ := Option.bind_eq_some_iff.mp hstep
      have hne : t ≠ u := by
        -- a task in its slot does not wait for a lock
        rintro rfl
        obtain rfl := hself hu
        rw [Loop.resume.eq_def] at hresume
        split at hresume
        · next hpc => simp [hpc] at hsince
        · next hpc => simp [hpc] at hsince
        · next hpc => simp [hpc] at hsince
        · cases hresume
      refine .inl ⟨hstays ((apart_task hne).resume hresume), ?_⟩
      have hlocked : l.global_lock.locked = true := by
        rw [h.global_locked, h.slot_self ht hsince]
        rfl
      obtain ⟨k, hk⟩ := resume_locks h hlocked hresume n
      refine Uncounted.balanced ⟨?_, ?_⟩
      · rw [hk]
      · rw [hk]
  | handler_ends u exit now =>
      left
      obtain ⟨task₁, hu, hends⟩ := Option.bind_eq_some_iff.mp hstep
      rw [handler_ends.eq_def] at hends
      split at hends
      · next since hpc =>
          obtain rfl := hunique hu (r := since) (by simp [hpc])
          obtain rfl := hself hu
          obtain rfl := Option.some.inj hends
          refine ⟨⟨{ task₁ with pc := .persisting since }, Function.update_self _ _ _, hjob, ?_⟩, ?_⟩
          · simpa [hpc] using hsince
          · refine Uncounted.balanced ⟨?_, ?_⟩
            · exact modify_keeps l task₁.job (fun job => (end_run_kept job exit now).2.1) n
            · exact modify_keeps l task₁.job (fun job => (end_run_kept job exit now).2.2) n
      · cases hends
  | persisted u =>
      right
      obtain ⟨task₁, hu, hpersisted⟩ := Option.bind_eq_some_iff.mp hstep
      rw [persisted.eq_def] at hpersisted
      split at hpersisted
      · next since hpc =>
          obtain rfl := hunique hu (r := since) (by simp [hpc])
          obtain rfl := Option.some.inj hpersisted
          exact ⟨{ task₁ with pc := .done }, Function.update_self _ _ _, rfl⟩
      · cases hpersisted
  | cancel u =>
      left
      obtain ⟨task₁, hu, rfl⟩ := Option.map_eq_some_iff.mp hstep
      refine ⟨?_, Uncounted.balanced ⟨?_, ?_⟩⟩
      · by_cases hne : t = u
        · subst hne
          obtain rfl := hself hu
          exact ⟨{ task₁ with cancelling := true }, cancel_task_self l t task₁, hjob, hsince⟩
        · exact hstays ((apart_task hne).cancel l task₁)
      · exact cancel_keeps _ (fun _ _ => rfl) l u task₁ n
      · exact cancel_keeps _ (fun _ _ => rfl) l u task₁ n

/-- A task that is over is nowhere. -/
theorem Over.not_in_slot {m : String} {r : Instant} (hover : Over l t) : ¬ l.InSlot t m r := by
  rintro ⟨task₁, ht₁, -, hsince⟩
  obtain ⟨task, ht, hdone⟩ := hover
  rw [ht] at ht₁
  rw [← Option.some.inj ht₁, hdone] at hsince
  cases hsince

/-- What is over stays over. -/
theorem Held.over_step (h : Held l own slot) (hover : Over l t) (hstep : l.step a = some l') :
    Over l' t := by
  obtain ⟨task, ht, hdone⟩ := hover
  have hfresh : t < l.count := h.lt_count ht
  by_cases hsame : l'.task t = l.task t
  · exact ⟨task, hsame.trans ht, hdone⟩
  · -- so it is the task that the step moves, and only a cancellation moves this one
    cases a with
    -- a tick and a call from outside only add tasks
    | tick now =>
        obtain rfl := Option.some.inj hstep
        exact absurd (tick_task hfresh) hsame
    | run_once name =>
        rw [step] at hstep
        split at hstep
        · obtain rfl := Option.some.inj hstep
          exact absurd (Function.update_of_ne (by omega) _ _) hsame
        · cases hstep
    -- no task that is over goes on
    | resume u now ended =>
        obtain ⟨task₁, hu, hresume⟩ := Option.bind_eq_some_iff.mp hstep
        by_cases hne : t = u
        · subst hne
          rw [ht] at hu
          obtain rfl := Option.some.inj hu
          simp [Loop.resume.eq_def, hdone] at hresume
        · exact absurd ((apart_task hne).resume hresume) hsame
    | handler_ends u exit now =>
        obtain ⟨task₁, hu, hends⟩ := Option.bind_eq_some_iff.mp hstep
        rw [handler_ends.eq_def] at hends
        split at hends
        · next since hpc =>
            obtain rfl := Option.some.inj hends
            by_cases hne : t = u
            · subst hne
              rw [ht] at hu
              obtain rfl := Option.some.inj hu
              rw [hdone] at hpc
              cases hpc
            · exact absurd (Function.update_of_ne hne _ _) hsame
        · cases hends
    | persisted u =>
        obtain ⟨task₁, hu, hpersisted⟩ := Option.bind_eq_some_iff.mp hstep
        rw [persisted.eq_def] at hpersisted
        split at hpersisted
        · obtain rfl := Option.some.inj hpersisted
          by_cases hne : t = u
          · subst hne
            exact ⟨{ task₁ with pc := .done }, Function.update_self _ _ _, rfl⟩
          · exact absurd (Function.update_of_ne hne _ _) hsame
        · cases hpersisted
    -- cancelled, and still over
    | cancel u =>
        obtain ⟨task₁, hu, rfl⟩ := Option.map_eq_some_iff.mp hstep
        by_cases hne : t = u
        · subst hne
          rw [ht] at hu
          obtain rfl := Option.some.inj hu
          exact ⟨{ task with cancelling := true }, cancel_task_self l t task, hdone⟩
        · exact absurd ((apart_task hne).cancel l task₁) hsame

/-- **What a run of the event loop does to the run in the slot.** -/
theorem Exclusive.in_slot_reaches (h : l.Exclusive) (hin : l.InSlot t n s) (hr : Reaches l l') :
    (l'.InSlot t n s ∧ Balanced l l' n) ∨ Over l' t := by
  induction hr with
  | refl => exact .inl ⟨hin, rfl⟩
  | tail hr hstep ih =>
      obtain ⟨own, slot, hheld⟩ := h.reaches hr
      obtain ⟨a, ha⟩ := hstep
      rcases ih with ⟨hthere, hbalanced⟩ | hover
      · refine (hheld.in_slot_step hthere ha).imp (fun ⟨hstays, hnext⟩ => ⟨hstays, ?_⟩) id
        unfold Balanced at hbalanced hnext ⊢
        omega
      · exact .inr (hheld.over_step hover ha)

end Counting

/-! ## From the start -/

/-- One run at a time, and what the loop says about it. -/
structure OneAtATime (l : Loop) : Prop where
  unique : ∀ t n s u m r, l.InSlot t n s → l.InSlot u m r → t = u
  started_iff : ∀ n s, (l.job n).started_at = some s ↔ ∃ t, l.InSlot t n s
  running_iff : ∀ n, l.running_job = some n ↔ ∃ t s, l.InSlot t n s
  own_locked_iff : ∀ n, (l.job n).lock.locked = true ↔ ∃ t, l.Holds t n
  global_locked_iff : l.global_lock.locked = true ↔ ∃ t n s, l.InSlot t n s
  /-- A free lock has woken whom it owes the next turn. -/
  own_awake : ∀ n, (l.job n).lock.locked = false → ∀ w ∈ (l.job n).lock.waiters.head?, w.2 ≠ .pending
  global_awake : l.global_lock.locked = false → ∀ w ∈ l.global_lock.waiters.head?, w.2 ≠ .pending

/-- A task that has left its slot, or what it held, has left it free. -/
structure Frees (l l' : Loop) : Prop where
  own : ∀ t n, l.Holds t n → ¬ l'.Holds t n → (l'.job n).lock.locked = false
  slot : ∀ t n s, l.InSlot t n s → ¬ l'.InSlot t n s →
    l'.global_lock.locked = false ∧ (l'.job n).started_at = none ∧ l'.running_job = none

/-- An overlap of the job is counted at a tick only, for a run that has been in its slot for an
interval. -/
def CountsLate (l : Loop) (a : Act) (l' : Loop) (n : String) : Prop :=
  (l'.job n).runs_skipped_overlap = (l.job n).runs_skipped_overlap
    ∨ (l'.job n).runs_skipped_overlap = (l.job n).runs_skipped_overlap + 1
      ∧ ∃ now t s d, a = .tick now ∧ l.InSlot t n s
        ∧ timedelta_seconds (l.job n).interval_seconds = some d ∧ d ≤ now - s

section Start

variable {l l' : Loop} {own : String → Option ℕ} {slot : Option (ℕ × String × Instant)} {a : Act}

/-- What the source can see, read off the holders. -/
theorem Held.one_at_a_time (h : Held l own slot) : l.OneAtATime where
  unique _ _ _ _ _ _ hin hin' := (h.slot_unique hin hin').1.symm
  started_iff n s := by
    rw [h.started]
    exact exists_congr fun t => (h.slot_iff t n s).symm
  running_iff n := by
    rw [h.running, Option.map_eq_some_iff]
    constructor
    · rintro ⟨⟨t, m, s⟩, hslot, rfl⟩
      exact ⟨t, s, (h.slot_iff t m s).mpr hslot⟩
    · rintro ⟨t, s, hin⟩
      exact ⟨(t, n, s), (h.slot_iff t n s).mp hin, rfl⟩
  own_locked_iff n := by
    rw [h.own_locked, Option.isSome_iff_exists]
    exact exists_congr fun t => (h.own_iff t n).symm
  global_locked_iff := by
    rw [h.global_locked, Option.isSome_iff_exists]
    constructor
    · rintro ⟨⟨t, n, s⟩, hslot⟩
      exact ⟨t, n, s, (h.slot_iff t n s).mpr hslot⟩
    · rintro ⟨t, n, s, hin⟩
      exact ⟨(t, n, s), (h.slot_iff t n s).mp hin⟩
  own_awake n := (h.own_sound n).awake
  global_awake := h.global_sound.awake

/-- A step that takes something from a task leaves it free: the task is the one that it moves, so
whoever has it after the step would have had it before. -/
theorem Exclusive.frees (h : l.Exclusive) (hstep : l.step a = some l') : Frees l l' := by
  obtain ⟨own, slot, hheld⟩ := h
  obtain ⟨own', slot', hheld'⟩ := Exclusive.step ⟨own, slot, hheld⟩ hstep
  have hone := hheld'.one_at_a_time
  rcases step_moves hstep with hsame | ⟨u, hothers⟩
  · have hheld₁ := hsame own slot hheld
    refine ⟨?_, ?_⟩
    · intro t n hholds hgone
      exact absurd ((hheld₁.own_iff t n).mpr ((hheld.own_iff t n).mp hholds)) hgone
    · intro t n s hin hgone
      exact absurd ((hheld₁.slot_iff t n s).mpr ((hheld.slot_iff t n s).mp hin)) hgone
  · have hmoved : ∀ {t}, l'.task t ≠ l.task t → t = u := by
      intro t hne
      by_contra htu
      exact hne (hothers t htu)
    refine ⟨?_, ?_⟩
    · intro t n hholds hgone
      obtain rfl : t = u := hmoved fun heq => hgone (by rw [Holds, heq]; exact hholds)
      by_contra hlocked
      obtain ⟨v, hv⟩ := (hone.own_locked_iff n).mp (by simpa using hlocked)
      by_cases hvt : v = t
      · exact hgone (hvt ▸ hv)
      · rw [Holds, hothers v hvt, ← Holds, hheld.own_iff, (hheld.own_iff t n).mp hholds] at hv
        exact hvt (Option.some.inj hv).symm
    · intro t n s hin hgone
      obtain rfl : t = u := hmoved fun heq => hgone (by rw [InSlot, heq]; exact hin)
      have hempty : slot' = none := by
        rcases hslot' : slot' with _ | ⟨v, m, r⟩
        · rfl
        · have hv : l'.InSlot v m r := (hheld'.slot_iff v m r).mpr hslot'
          by_cases hvt : v = t
          · rcases hheld.in_slot_step hin hstep with ⟨hstays, -⟩ | hover
            · exact absurd hstays hgone
            · exact absurd (hvt ▸ hv) hover.not_in_slot
          · rw [InSlot, hothers v hvt, ← InSlot] at hv
            exact absurd (hheld.slot_unique hin hv).1 hvt
      subst hempty
      refine ⟨hheld'.global_locked, hheld'.unstarted n, hheld'.running⟩

/-- A step that counts is a tick, and the run that it counts is in the slot. -/
theorem Held.counts_late (h : Held l own slot) (hstep : l.step a = some l') (n : String) :
    CountsLate l a l' n := by
  rcases step_counts hstep n with hsame | ⟨now, rfl, hcounts⟩
  · exact .inl hsame
  · obtain ⟨s, d, hs, hd, hlate⟩ := hcounts.late
    obtain ⟨t, hin⟩ := (h.one_at_a_time.started_iff n s).mp hs
    exact .inr ⟨hcounts.counted, now, t, s, d, rfl, hin, hd, hlate⟩

/-- A run has counted one overlap at most since it came into its slot. -/
theorem Exclusive.counts_once (h : l.Exclusive) {t : ℕ} {n : String} {s : Instant} (hin : l.InSlot t n s)
    (hr : Reaches l l') (hin' : l'.InSlot t n s) :
    (l'.job n).runs_skipped_overlap ≤ (l.job n).runs_skipped_overlap + 1 := by
  rcases h.in_slot_reaches hin hr with ⟨-, hbalanced⟩ | hover
  · unfold Balanced at hbalanced
    split at hbalanced <;> split at hbalanced <;> omega
  · exact absurd hin' hover.not_in_slot

/-- **One run at a time, and honest counts of overlaps**, for whatever jobs and handlers, after
whatever state file and in whatever order ticks, runs, ends and cancellations come. -/
theorem maintenance_runs_are_exclusive (iso : Iso) (file : Option Json) (handlers : List String)
    (specs : List JobSpec) (hr : Reaches ((start handlers specs).load_state iso file) l) :
    l.OneAtATime
      ∧ (∀ a l', l.step a = some l' → Frees l l' ∧ ∀ n, CountsLate l a l' n)
      ∧ ∀ l' t n s, Reaches l l' → l.InSlot t n s → l'.InSlot t n s →
        (l'.job n).runs_skipped_overlap ≤ (l.job n).runs_skipped_overlap + 1 := by
  obtain ⟨own, slot, hheld⟩ := (exclusive_loaded handlers specs iso file).reaches hr
  refine ⟨hheld.one_at_a_time, ?_, ?_⟩
  · intro a l' hstep
    exact ⟨Exclusive.frees ⟨own, slot, hheld⟩ hstep, hheld.counts_late hstep⟩
  · intro l' t n s hr' hin hin'
    exact Exclusive.counts_once ⟨own, slot, hheld⟩ hin hr' hin'

end Start

/-! ### A long backup -/

namespace Late

/-- A backup every second. -/
def backup : Loop := (start ["db_backup"] [⟨"db_backup", 1, true⟩]).load_state epoch_clock none

/-- It runs for two, and the loop ticks meanwhile. -/
def acts : List Act := [.tick 0, .resume 0 0 0, .tick 1000000, .tick 2000000]

theorem maintenance_runs_are_exclusive_backup :
    ∃ l, Reaches backup l ∧ l.running_job = some "db_backup"
      ∧ (l.job "db_backup").runs_skipped_overlap = 1 ∧ l.OneAtATime := by
  have hrun : ∃ l, run backup acts = some l ∧ l.running_job = some "db_backup"
      ∧ (l.job "db_backup").runs_skipped_overlap = 1 := by
    refine ⟨(run backup acts).get (by decide +kernel), ?_, ?_, ?_⟩
    · simp
    · decide +kernel
    · decide +kernel
  obtain ⟨l, hl, hrunning, hcount⟩ := hrun
  have hr := reaches_of_run acts hl
  exact ⟨l, hr, hrunning, hcount,
    (maintenance_runs_are_exclusive epoch_clock none ["db_backup"] [⟨"db_backup", 1, true⟩] hr).1⟩

end Late

end OpenChronicle.Maintenance.Loop
