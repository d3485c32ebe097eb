/-
One backfill at a time.

`_backfill_lock` is taken without waiting and given back in a `finally`. It is a lock of the machine,
and the two tasks that run `generate_missing` respect it: whatever the store, the server or the clock
do, and whichever exception ends the run, a backfill works under the lock and leaves it free.

The argument about locks is that of the library (`Mutex`): if each task asks for the lock before it
works and gives it back before it ends, the log says at every point who holds it. What is left to show
is that `_backfill_lock` is such a lock, which is a fact about three operations of the machine, and that
the tasks are bracketed by it, which is a fact about their texts. The second is proved by showing of all
that a backfill does inside, and of all that other tasks do, that it does not touch the lock (`Off`).

A restart is part of the runs. It ends every thread and frees the lock with them, so that a backfill
that was cut off by it is over, although it has given nothing back.
-/
import OpenChronicle.Embedding.World
import OpenChronicle.Lib.Mutex
import OpenChronicle.Lib.Traces

set_option autoImplicit false

namespace OpenChronicle

open Program Machine

variable {F : Type} {D : Deployment F}

/-! ## The lock -/

/-- The operation is the `acquire`. -/
def asks_backfill_lock : EmbOp F → Bool
  | .try_backfill_lock => true
  | _ => false

/-- The operation is the `release`. -/
def gives_backfill_lock : EmbOp F → Bool
  | .release_backfill_lock => true
  | _ => false

/-- `acquire(blocking=False)` returned `True`. -/
def got_backfill_lock : EmbCall F → Bool
  | ⟨.try_backfill_lock, .ok acquired⟩ => acquired
  | _ => false

/-- An operation that is neither the `acquire` nor the `release`. -/
def off_backfill_lock (o : EmbOp F) : Bool := !asks_backfill_lock o && !gives_backfill_lock o

/-- Asking takes the lock, and says whether it was free. -/
theorem exec_asks {t : ℕ} {o : EmbOp F} {outcome : Outcome} {w w' : EmbWorld F} {r : Except Exc o.Resp}
    (ho : asks_backfill_lock o = true) (h : w.exec D t o outcome = some (r, w')) :
    w'.backfill_lock = true ∧ got_backfill_lock ⟨o, r⟩ = !w.backfill_lock := by
  cases o with
  | try_backfill_lock =>
      obtain ⟨rfl, rfl⟩ := Prod.mk.inj (Option.some.inj h)
      exact ⟨rfl, rfl⟩
  | _ => cases ho

/-- Giving it back leaves it free. -/
theorem exec_gives {t : ℕ} {o : EmbOp F} {outcome : Outcome} {w w' : EmbWorld F} {r : Except Exc o.Resp}
    (ho : gives_backfill_lock o = true) (h : w.exec D t o outcome = some (r, w')) : w'.backfill_lock = false := by
  cases o with
  | release_backfill_lock =>
      obtain ⟨rfl, rfl⟩ := Prod.mk.inj (Option.some.inj h)
      rfl
  | _ => cases ho

/-- Every other operation leaves it as it is. -/
theorem exec_off {t : ℕ} {o : EmbOp F} {outcome : Outcome} {w w' : EmbWorld F} {r : Except Exc o.Resp}
    (ho : off_backfill_lock o = true) (h : w.exec D t o outcome = some (r, w')) :
    w'.backfill_lock = w.backfill_lock := by
  cases o with
  | try_backfill_lock => cases ho
  | release_backfill_lock => cases ho
  | add_memory _ | update_memory _ _ _ | delete_memory _ | list_memory _ | get_embedding_identity _
  | save_embedding _ | delete_embedding _ | http_post_embed _ | http_get_tags =>
      obtain ⟨db, rfl⟩ := exec_outside rfl h
      rfl
  | acquire_probe_lock =>
      simp only [EmbWorld.exec] at h
      split at h
      · obtain ⟨rfl, rfl⟩ := Prod.mk.inj (Option.some.inj h)
        rfl
      · obtain ⟨rfl, rfl⟩ := Prod.mk.inj (Option.some.inj h)
        rfl
      · cases h
  | _ =>
      obtain ⟨rfl, rfl⟩ := Prod.mk.inj (Option.some.inj h)
      rfl

/-- `_backfill_lock`. -/
def backfill_lock (D : Deployment F) : Mutex (embedding D) where
  asks := asks_backfill_lock
  won := got_backfill_lock
  gives := gives_backfill_lock
  free w := w.backfill_lock = false
  taken := by
    intro t o choice w r w' hx ho hwon
    obtain ⟨hafter, hanswer⟩ := exec_asks ho hx
    rw [hanswer, Bool.not_eq_true'] at hwon
    exact ⟨hwon, fun hfree => Bool.false_ne_true (hfree.symm.trans hafter)⟩
  refused := by
    intro t o choice w r w' hx ho hwon
    obtain ⟨hafter, hanswer⟩ := exec_asks ho hx
    rw [hanswer, Bool.not_eq_false'] at hwon
    exact ⟨fun hfree => Bool.false_ne_true (hfree.symm.trans hwon),
      fun hfree => Bool.false_ne_true (hfree.symm.trans hafter)⟩
  given := by
    intro t o choice w r w' hx ho
    exact exec_gives ho hx
  passed := by
    intro t o choice w r w' hx hasks hgives
    have hoff : off_backfill_lock o = true := by
      rw [off_backfill_lock, hasks, hgives]
      rfl
    rw [exec_off hoff hx]
  launched := by
    intro task w w' h
    rw [task_admitted_cases h]
  killed := by
    intro e w h
    obtain rfl := of_decide_eq_true h
    rfl
  lived := by
    intro e w h
    cases e with
    | repull => exact Iff.rfl
    | pass ms => exact Iff.rfl
    | restart => cases h

/-- The other operations of the machine do not touch it. -/
theorem backfill_lock_passes : (backfill_lock D).Passes fun o => off_backfill_lock o = true := by
  intro o ho
  rw [off_backfill_lock, Bool.and_eq_true_iff, Bool.not_eq_true', Bool.not_eq_true'] at ho
  exact ho

/-! ## Programs that leave the lock alone -/

section Off

variable {revision : Option String}

/-- The program neither takes the backfill lock nor gives it back. -/
def Off {α : Type} (p : EmbProg F α) : Prop := p.Makes fun o => off_backfill_lock o = true

/-- From here on: what never touches the lock, program by program. -/
theorem off_act {o : EmbOp F} (ho : off_backfill_lock o = true) : Off (act o) :=
  Prog.makes_op (S := embSig F) (o := o) ho

theorem off_probe : Off (probe : EmbProg F RevisionSnapshot) := by
  refine Prog.Makes.bind (Prog.Makes.attempt (off_act rfl)) ?_
  intro r
  -- all three branches publish what the probe found
  rcases r with e | _ | digest
  · exact Prog.Makes.bind (off_act rfl) fun _ => off_act rfl
  · exact Prog.Makes.bind (off_act rfl) fun _ => off_act rfl
  · exact Prog.Makes.bind (off_act rfl) fun _ => off_act rfl

theorem off_refresh_revision (force : Bool) : Off (refresh_revision force : EmbProg F RevisionSnapshot) := by
  have hlocked : Off (refresh_locked force : EmbProg F RevisionSnapshot) := by
    unfold refresh_locked
    cases force with
    | true => exact off_probe
    | false =>
        refine Prog.Makes.bind (Prog.Makes.bind (off_act rfl) ?_) ?_
        · intro snapshot
          by_cases hk : snapshot.known = true
          · rw [if_pos hk]
            trivial
          · rw [if_neg hk]
            exact off_act rfl
        · intro settled
          cases settled with
          | true => exact off_act rfl
          | false => exact off_probe
  refine Prog.Makes.bind (off_act rfl) ?_
  intro acquired
  cases acquired with
  | true => exact Prog.Makes.tryFinally hlocked (off_act rfl)
  | false => exact off_act rfl

theorem off_embed_batch (texts : List String) : Off (embed_batch texts : EmbProg F (List (List F))) := by
  unfold embed_batch
  by_cases hnil : texts = []
  · rw [if_pos hnil]
    trivial
  · rw [if_neg hnil]
    refine Prog.Makes.bind (off_act rfl) ?_
    intro vectors
    exact Prog.Makes.bind (off_act rfl) fun _ => trivial

theorem off_embed (text : String) : Off (embed text : EmbProg F (List F)) := by
  refine Prog.Makes.bind (off_embed_batch _) ?_
  intro vectors
  cases vectors <;> trivial

theorem off_write_tombstone (memory_id content : String) : Off (write_tombstone D memory_id content revision) :=
  off_act rfl

theorem off_may_skip (memory_id content : String) (force : Bool) :
    Off (may_skip D memory_id content revision force) := by
  unfold may_skip
  by_cases hf : force = true
  · rw [if_pos hf]
    trivial
  · rw [if_neg hf]
    exact Prog.Makes.bind (off_act rfl) fun _ => trivial

/-- A write embeds outside of the lock, and may run beside a backfill. -/
theorem off_generate_for_memory (memory_id content : String) (force : Bool) :
    Off (generate_for_memory D memory_id content force) := by
  -- a save probes under the probe's lock, not under this one
  have hsnapshot : Off (write_snapshot : EmbProg F RevisionSnapshot) := by
    refine Prog.Makes.bind (off_act rfl) ?_
    intro snapshot
    by_cases hk : snapshot.known = true
    · rw [if_pos hk]
      trivial
    · rw [if_neg hk]
      exact off_refresh_revision false
  have hpublish : ∀ revision, Off (embed_and_publish D memory_id content revision) := by
    intro revision
    refine Prog.Makes.bind (Prog.Makes.attempt (off_embed content)) ?_
    intro r
    cases r with
    | ok vec => exact Prog.Makes.bind (off_act rfl) fun _ => off_act rfl
    | error e =>
        dsimp only
        by_cases hl : is_content_too_long e = true
        · rw [if_pos hl]
          exact Prog.Makes.bind (off_write_tombstone _ _) fun _ => trivial
        · rw [if_neg hl]
          exact Prog.Makes.bind (off_act rfl) fun _ => trivial
  refine Prog.Makes.bind hsnapshot ?_
  intro snapshot
  by_cases hk : snapshot.known = true
  · rw [if_pos hk]
    refine Prog.Makes.bind (off_may_skip _ _ _) ?_
    intro current
    cases current with
    | true => trivial
    | false => exact hpublish _
  · rw [if_neg hk]
    exact Prog.Makes.bind (off_act rfl) fun _ => trivial

theorem off_embed_item (item : MemoryItem) (vec : Option (List F)) : Off (embed_item D revision item vec) := by
  have hvector : Off (item_vector item vec : EmbProg F (List F)) := by
    cases vec with
    | some v => trivial
    | none => exact off_embed _
  have hbody : Off (embed_item_body D revision item vec) := by
    refine Prog.Makes.bind hvector ?_
    intro v
    refine Prog.Makes.bind (off_act rfl) ?_
    intro published
    exact Prog.Makes.bind (off_act rfl) fun _ => trivial
  have hfailed : Off (item_failed : EmbProg F BackfillResult) := Prog.Makes.bind (off_act rfl) fun _ => trivial
  refine Prog.Makes.bind (Prog.Makes.attempt hbody) ?_
  intro r
  cases r with
  | ok published => trivial
  | error e =>
      dsimp only
      by_cases hl : is_content_too_long e = true
      · rw [if_pos hl]
        refine Prog.Makes.bind (Prog.Makes.attempt (off_write_tombstone _ _)) ?_
        intro r'
        cases r' with
        | ok published => trivial
        | error e' => exact hfailed
      · rw [if_neg hl]
        exact hfailed

theorem off_embed_items (work : List (MemoryItem × Option (List F))) : Off (embed_items D revision work) := by
  induction work with
  | nil => trivial
  | cons x rest ih =>
      refine Prog.Makes.bind (off_embed_item x.1 x.2) ?_
      intro one
      exact Prog.Makes.bind ih fun _ => trivial

theorem off_embed_chunks (work : List (List MemoryItem)) : Off (embed_chunks D revision work) := by
  induction work with
  | nil => trivial
  | cons chunk rest ih =>
      have hchunk : Off (embed_chunk D revision chunk) := by
        refine Prog.Makes.bind (Prog.Makes.bind (Prog.Makes.attempt (off_embed_batch _)) ?_) ?_
        · intro r
          cases r <;> trivial
        · intro vectors
          cases vectors with
          | some vectors => exact off_embed_items _
          | none => exact off_embed_items _
      refine Prog.Makes.bind hchunk ?_
      intro one
      exact Prog.Makes.bind ih fun _ => trivial

theorem off_select_candidates (force : Bool) (items : List MemoryItem) :
    Off (select_candidates D revision force items) := by
  induction items with
  | nil => trivial
  | cons item rest ih =>
      exact Prog.Makes.bind (off_may_skip _ _ _) fun _ => Prog.Makes.bind ih fun _ => trivial

/-- The work of a backfill, from its probe to the record of the revision. -/
theorem off_backfill_verified (project_id : Option String) (force : Bool) :
    Off (backfill_verified D project_id force) := by
  have hbackfill : ∀ revision, Off (backfill D revision project_id force) := by
    intro revision
    refine Prog.Makes.bind (off_act rfl) ?_
    intro items
    refine Prog.Makes.bind (off_select_candidates force items) ?_
    intro chosen
    exact Prog.Makes.bind (off_act rfl) fun _ => off_embed_chunks _
  refine Prog.Makes.bind (off_refresh_revision true) ?_
  intro snapshot
  by_cases hk : snapshot.known = true
  · rw [if_pos hk]
    refine Prog.Makes.bind (hbackfill _) ?_
    intro result
    by_cases hp : project_id = none
    · rw [if_pos hp]
      exact Prog.Makes.bind (off_act rfl) fun _ => trivial
    · rw [if_neg hp]
      trivial
  · rw [if_neg hk]
    trivial

/-- Creating the task is not running it. -/
theorem off_start_background_backfill (force : Bool) : Off (start_background_backfill force : EmbProg F Bool) := by
  refine Prog.Makes.bind (off_act rfl) ?_
  intro running
  cases running with
  | true => trivial
  | false => exact Prog.Makes.bind (off_act rfl) fun _ => trivial

theorem off_reconcile (auto_backfill : Bool) (snapshot : RevisionSnapshot) :
    Off (reconcile auto_backfill snapshot : EmbProg F Unit) := by
  unfold reconcile
  by_cases hon : (auto_backfill && snapshot.known) = true
  · rw [if_pos hon]
    refine Prog.Makes.bind (off_act rfl) ?_
    intro reconciled
    by_cases hdone : reconciled = some snapshot.value
    · rw [if_pos hdone]
      trivial
    · rw [if_neg hdone]
      refine Prog.Makes.bind (off_act rfl) ?_
      intro running
      cases running with
      | true => trivial
      | false => exact Prog.Makes.bind (off_start_background_backfill false) fun _ => trivial
  · rw [if_neg hon]
    trivial

theorem off_embed_after_write (service : Bool) (memory_id content : String) (force : Bool) :
    Off (embed_after_write D service memory_id content force) := by
  cases service with
  | false => trivial
  | true => exact Prog.Makes.bind (Prog.Makes.attempt (off_generate_for_memory _ _ _)) fun _ => trivial

theorem off_add_memory_execute (item : MemoryItem) (service : Bool) : Off (add_memory_execute D item service) := by
  unfold add_memory_execute
  by_cases hproj : item.project_id = none
  · rw [if_pos hproj]
    trivial
  rw [if_neg hproj]
  by_cases hblank : PyStr.isBlank item.content.toList = true
  · rw [if_pos hblank]
    trivial
  rw [if_neg hblank]
  by_cases hlong : MAX_CONTENT_CHARS < item.content.length
  · rw [if_pos hlong]
    trivial
  rw [if_neg hlong]
  exact Prog.Makes.bind (off_act rfl) fun _ => off_embed_after_write _ _ _ _

theorem off_update_memory_execute (memory_id : String) (content : Option String)
    (tags : Option (List PyStr.Text)) (service : Bool) :
    Off (update_memory_execute D memory_id content tags service) := by
  cases content with
  | none =>
      rw [update_memory_execute]
      by_cases htags : tags = none
      · rw [if_pos htags]
        trivial
      · rw [if_neg htags]
        exact Prog.Makes.bind (off_act rfl) fun _ => trivial
  | some content =>
      rw [update_memory_execute]
      by_cases hblank : PyStr.isBlank content.toList = true
      · rw [if_pos hblank]
        trivial
      rw [if_neg hblank]
      by_cases hlong : MAX_CONTENT_CHARS < content.length
      · rw [if_pos hlong]
        trivial
      rw [if_neg hlong]
      refine Prog.Makes.bind (off_act rfl) ?_
      intro updated
      exact Prog.Makes.bind (off_act rfl) fun _ => off_embed_after_write _ _ _ _

end Off

/-! ## The tasks -/

/-- What a task does under the lock: all that a backfill does but ask for it and, in the background, report that
it is done. -/
def under_backfill_lock : EmbTask → EmbOp F → Bool
  | .generate_missing _ _, .try_backfill_lock => false
  | .generate_missing _ _, _ => true
  | .background_backfill _, .try_backfill_lock => false
  | .background_backfill _, .background_done => false
  | .background_backfill _, _ => true
  | _, _ => false

/-- A task's calls under the lock, as a predicate. -/
def Under (task : EmbTask) (o : EmbOp F) : Prop := under_backfill_lock task o = true

/-- The bracket: `try` and `finally` around the work. Refused, it does nothing. -/
theorem sat_generate_missing_locked {inside : EmbOp F → Prop} (hask : ¬ inside .try_backfill_lock)
    (project_id : Option String) (force : Bool) :
    (generate_missing D project_id force).Sat ((backfill_lock D).Respects inside)
      (fun h _ => (backfill_lock D).holds h = false) [] := by
  refine Prog.Sat.bind (Prog.sat_op (S := embSig F) (o := .try_backfill_lock) fun r => ?_)
  refine ⟨⟨fun _ => rfl, nofun, fun hin => absurd hin hask⟩, ?_⟩
  cases r with
  | error e => rfl
  | ok acquired =>
      cases acquired with
      | false => rfl
      | true =>
          -- the `finally` gives the lock back, whatever ended the work
          refine Prog.sat_finally (((backfill_lock D).sat_under backfill_lock_passes
            (off_backfill_verified project_id force) inside rfl).mono ?_)
          intro h r _ hh
          refine Prog.sat_op (S := embSig F) (o := .release_backfill_lock) fun fr => ?_
          exact ⟨⟨nofun, fun _ => hh, fun _ => hh⟩, rfl⟩

/-- A task that is no backfill leaves the lock alone. -/
theorem sat_off {task : EmbTask} {p : EmbProg F Unit} (hp : Off p)
    (hnone : ∀ o : EmbOp F, ¬ Under task o) :
    p.Sat ((backfill_lock D).Respects (Under task)) (fun h _ => (backfill_lock D).holds h = false) [] :=
  (backfill_lock D).sat_outside backfill_lock_passes hp (fun o _ => hnone o) rfl

/-- All tasks respect the lock: two of them by the bracket, the others as they never touch it. -/
theorem tasks_bracketed (D : Deployment F) : (backfill_lock D).Bracketed Under := by
  intro task
  cases task with
  | add_memory item service => exact sat_off (off_add_memory_execute item service) fun o => nofun
  | update_memory memory_id content tags service =>
      exact sat_off (off_update_memory_execute memory_id content tags service) fun o => nofun
  | delete_memory memory_id => exact sat_off (off_act rfl) fun o => nofun
  | generate_for_memory memory_id content force =>
      exact sat_off (off_generate_for_memory memory_id content force) fun o => nofun
  | start_background_backfill force =>
      exact sat_off (Prog.Makes.bind (off_start_background_backfill force) fun _ => trivial) fun o => nofun
  | refresher_tick auto_backfill =>
      exact sat_off (Prog.Makes.bind (off_refresh_revision true) fun snapshot => off_reconcile _ _) fun o => nofun
  | refresh_revision force =>
      exact sat_off (Prog.Makes.bind (off_refresh_revision force) fun _ => trivial) fun o => nofun
  | generate_missing project_id force =>
      refine Prog.Sat.bind ((sat_generate_missing_locked nofun project_id force).mono ?_)
      intro h r _ hh
      cases r with
      | ok result => exact hh
      | error e => exact hh
  | background_backfill force =>
      refine Prog.Sat.bind (Prog.Sat.attempt ((sat_generate_missing_locked nofun none force).mono ?_))
      intro h r _ hh
      refine Prog.sat_op (S := embSig F) (o := .background_done) fun u => ?_
      exact ⟨⟨nofun, nofun, nofun⟩, hh⟩

/-! ## Every run -/

/-- The thread that runs a backfill, as the log tells it. -/
def backfilling (log : List (EmbEvent D)) : Option ℕ := (backfill_lock D).holder log

/-- What the log says of the backfills where a thread asks for the lock, asks whether one runs, or works on one. -/
def OneBackfill (pre : List (EmbEvent D)) : EmbEvent D → Prop
  | .called _ ⟨.try_backfill_lock, .ok true⟩ => backfilling pre = none
  | .called t ⟨.try_backfill_lock, .ok false⟩ => ∃ u, u ≠ t ∧ backfilling pre = some u
  | .called _ ⟨.backfill_running, .ok false⟩ => backfilling pre = none
  | .called t ⟨o, _⟩ =>
      ∀ task, .started t task ∈ pre → under_backfill_lock task o = true → backfilling pre = some t
  | _ => True

/-- The backfill of thread `t` is over: it has given the lock back, or the process has ended. -/
def ends_backfill (t : ℕ) : EmbEvent D → Bool
  | .called u ⟨.release_backfill_lock, _⟩ => u = t
  | .env .restart => true
  | _ => false

section Runs

variable {db : Db F} {c : EmbConf D}

/-- A process starts with the lock free. -/
theorem boot_unlocked (db : Db F) : (backfill_lock D).free (boot db) := rfl

/-- The log and the lock agree in every run; this is the library's result at this lock. -/
theorem backfill_agreed (h : Reach (fun _ _ => True) (Conf.initial (boot db)) c) :
    (backfill_lock D).Agreed Under c :=
  (backfill_lock D).reach_agreed (tasks_bracketed D) (boot_unlocked db) h

/-- "None is running" was true when it was said. -/
theorem not_running (h : Reach (fun _ _ => True) (Conf.initial (boot db)) c) {t : ℕ} {pre : List (EmbEvent D)}
    (hlog : .called t ⟨.backfill_running, .ok false⟩ :: pre <:+ c.log) : backfilling pre = none := by
  obtain ⟨c₁, a, c₂, h₁, rfl, -, hs, hl₂, -⟩ := h.cut hlog
  obtain ⟨task, w, -, -, rfl⟩ | ⟨u, choice, o, k, r, w, -, -, hx, rfl⟩ | ⟨e, -, rfl⟩ := Conf.step_cases hs
  · cases hl₂
  · obtain ⟨hevent, -⟩ := List.cons.inj hl₂
    obtain ⟨-, hcall⟩ := Event.called.inj hevent
    cases hcall
    obtain ⟨hanswer, -⟩ := Prod.mk.inj (Option.some.inj hx)
    -- neither the lock nor a task in the background
    obtain ⟨hfree, -⟩ := Bool.or_eq_false_iff.mp (Except.ok.inj hanswer)
    exact (backfill_agreed h₁).free_iff.mp hfree
  · cases hl₂

/-- Every event of every log says so. -/
theorem each_one_backfill (h : Reach (fun _ _ => True) (Conf.initial (boot db)) c) :
    Each (OneBackfill (D := D)) c.log := by
  intro e pre hlog
  have hexclusive := (backfill_agreed h).each e pre hlog
  rcases e with ⟨t, task⟩ | ⟨t, o, r⟩ | a
  · trivial
  · have hinside : ∀ task, .started t task ∈ pre → under_backfill_lock task o = true → backfilling pre = some t :=
      fun task hstarted hunder => hexclusive.inside task hstarted hunder
    cases o with
    | try_backfill_lock =>
        cases r with
        | error e => exact hinside
        | ok acquired =>
            cases acquired with
            | true => exact hexclusive.take rfl
            | false => exact hexclusive.refuse rfl rfl
    | backfill_running =>
        cases r with
        | error e => exact hinside
        | ok running =>
            cases running with
            | true => exact hinside
            | false => exact not_running h hlog
    | _ => exact hinside
  · trivial

/-- **One backfill at a time.** In every run, with any failures, re-pulls and restarts: the lock is taken exactly
while some thread runs a backfill, and that thread has still work to do; who is refused, or told that none is
running, is told the truth; and between the work of one backfill and that of another the first one has ended. -/
theorem one_backfill_at_a_time (h : Reach (fun _ _ => True) (Conf.initial (boot db)) c) :
    (c.world.backfill_lock = true ↔ ∃ t, backfilling c.log = some t)
      ∧ (∀ t, backfilling c.log = some t → ∃ o k, c.threads t = some (.call o k))
      ∧ Each OneBackfill c.log
      ∧ ∀ t u o r o' r' pre pre' task task', .called t ⟨o, r⟩ :: pre <:+ pre' →
        .called u ⟨o', r'⟩ :: pre' <:+ c.log → .started t task ∈ pre → .started u task' ∈ pre' →
        under_backfill_lock task o = true → under_backfill_lock task' o' = true → t ≠ u →
        ∃ e before, e :: before <:+ pre' ∧ pre <:+ before ∧ ends_backfill t e = true := by
  have hc := backfill_agreed h
  refine ⟨?_, ?_, each_one_backfill h, ?_⟩
  · rw [← Option.isSome_iff_exists, Option.isSome_iff_ne_none, ← not_iff_not, Bool.not_eq_true, not_not]
    exact hc.free_iff
  · intro t ht
    exact (backfill_lock D).holder_runs (tasks_bracketed D) (boot_unlocked db) h ht
  · intro t u o r o' r' pre pre' task task' hfirst hsecond hstarted hstarted' hunder hunder' hne
    have hlog' : pre' <:+ c.log := (List.suffix_cons _ _).trans hsecond
    have hholder : backfilling pre = some t :=
      (hc.each _ _ (hfirst.trans hlog')).inside task hstarted hunder
    have hholder' : backfilling pre' = some u := (hc.each _ _ hsecond).inside task' hstarted' hunder'
    -- the lock has left the first thread's hands in between
    have hmoved : backfilling pre' ≠ some t := by
      rw [hholder']
      exact fun heq => hne (Option.some.inj heq).symm
    obtain ⟨e, before, hsuf, hbefore, hend⟩ := (backfill_lock D).holder_moves
      (fun e pre hs => hc.each e pre (hs.trans hlog')) ((List.suffix_cons _ _).trans hfirst) hholder hmoved
    refine ⟨e, before, hsuf, hbefore, ?_⟩
    rcases hend with ⟨⟨o, r⟩, rfl, hgives⟩ | ⟨a, rfl, hkill⟩
    · cases o with
      | release_backfill_lock => exact decide_eq_true rfl
      | _ => cases hgives
    · obtain rfl := of_decide_eq_true hkill
      rfl

end Runs

namespace Scenario

/-- A backfill has its snapshot and lists the corpus when a second one is started, which is refused. -/
def two_backfills : List Step :=
  .start (.generate_missing none false) :: go 0 7 ++ .start (.generate_missing none true) :: go 1 1

/-- The event is the refusal of thread 1. -/
def refuses_second : EmbEvent server → Bool
  | .called t ⟨.try_backfill_lock, .ok acquired⟩ => t = 1 && !acquired
  | _ => false

theorem refuses_second_iff {e : EmbEvent server} (h : refuses_second e = true) :
    e = .called 1 ⟨.try_backfill_lock, .ok false⟩ := by
  unfold refuses_second at h
  split at h
  · next t acquired =>
      obtain ⟨ht, hacquired⟩ := Bool.and_eq_true_iff.mp h
      obtain rfl := of_decide_eq_true ht
      cases acquired with
      | true => cases hacquired
      | false => rfl
  · cases h

end Scenario

theorem one_backfill_at_a_time_refused :
    ∃ c : EmbConf Scenario.server, Reach (fun _ _ => True) (Conf.initial (boot Scenario.store)) c
      ∧ .called 1 ⟨.try_backfill_lock, .ok false⟩ ∈ c.log ∧ c.world.backfill_lock = true
      ∧ ∃ o k, c.threads 0 = some (.call o k) := by
  have hrun : (Scenario.after Scenario.two_backfills).any (fun c =>
      c.log.any Scenario.refuses_second && decide (backfilling c.log = some 0)) = true := by decide +kernel
  obtain ⟨c, hc, hrun⟩ := Scenario.reach_after hrun
  obtain ⟨hrefused, hholder⟩ := Bool.and_eq_true_iff.mp hrun
  obtain ⟨e, hin, he⟩ := List.any_eq_true.mp hrefused
  obtain ⟨hlock, hlive, -, -⟩ := one_backfill_at_a_time hc
  refine ⟨c, hc, Scenario.refuses_second_iff he ▸ hin, ?_, hlive 0 (of_decide_eq_true hholder)⟩
  exact hlock.mpr ⟨0, of_decide_eq_true hholder⟩

end OpenChronicle
