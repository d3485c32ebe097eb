/-
What a tick dispatches.

The jobs of a tick are judged in one `try`. An interval that `timedelta` does not take raises when the
job is judged, `load_jobs` lets it through, and the jobs behind it are not looked at.

A tick is a fold over the names of the jobs, and a visit touches its own job only. So what a visit finds
is what the tick began with, unless an earlier visit has raised; and then it is not made. From this
follow both halves of the condition: a job that is ready is dispatched if every job before it can be
judged, and is not if one cannot. The order is that in which the jobs are listed, and no configuration
changes it.

Whether a job can be judged is decided by its interval and by whether there is anything to compare it
with. A job that has never run, and is not running, is due without a look at its interval, so that an
interval which is too long shows after the first run.
-/
import OpenChronicle.Maintenance.Exclusion

set_option autoImplicit false

namespace OpenChronicle.Maintenance.Loop

open PyStr

/-- The job is enabled and due, and no run of it is in flight. -/
structure Ready (l : Loop) (now : Instant) (name : String) : Prop where
  enabled : (l.job name).enabled = true
  due : is_due (l.job name) now = some true
  idle : (l.job name).lock.locked = false

/-- The job cannot be judged: its interval is too long for a `timedelta`, and either there is a
last run to add it to, or a first run in the slot whose overlap is not logged. -/
structure Raises (l : Loop) (name : String) : Prop where
  enabled : (l.job name).enabled = true
  overflow : timedelta_seconds (l.job name).interval_seconds = none
  asked : (l.job name).last_run_at ≠ none
    ∨ (l.job name).lock.locked = true ∧ (l.job name).started_at ≠ none
      ∧ (l.job name).overlap_logged = false

/-- The tick makes a task for the job. -/
def Dispatches (l : Loop) (now : Instant) (name : String) : Prop :=
  ∃ t, l.task t = none ∧ (l.tick now).task t = some { job := name }

/-! ## One job -/

section Visit

variable {l l' : Loop} {now : Instant} {name n : String}

/-- The judgement overflows only where there is a last run to add the interval to. -/
theorem is_due_eq_none {job : JobState} :
    is_due job now = none ↔ job.last_run_at ≠ none ∧ timedelta_seconds job.interval_seconds = none := by
  rw [is_due]
  split
  · next hnever => simp [hnever]
  · next s hlast => simp [hlast]

/-- And so does that of a running job, once its overlap is to be noted. -/
theorem note_eq_none {job : JobState} :
    note_in_flight job now = none ↔ job.started_at ≠ none ∧ job.overlap_logged = false
      ∧ timedelta_seconds job.interval_seconds = none := by
  rw [note_in_flight]
  split
  · next hqueued => simp [hqueued]
  · next s hstarted =>
      by_cases hlogged : job.overlap_logged = true
      · simp [hlogged]
      · simp [hlogged, hstarted]

/-- **A visit raises for a job that cannot be judged, and for no other one.** -/
theorem visit_eq_none : l.visit now name = none ↔ l.Raises name := by
  constructor
  · intro h
    rw [visit] at h
    split at h
    · cases h
    · next henabled =>
        have henabled : (l.job name).enabled = true := by simpa using henabled
        split at h
        · next hdue =>
            obtain ⟨hlast, hoverflow⟩ := is_due_eq_none.mp hdue
            exact ⟨henabled, hoverflow, .inl hlast⟩
        · cases h
        · split at h
          · next hlocked =>
              obtain ⟨hstarted, hlogged, hoverflow⟩ := note_eq_none.mp (Option.map_eq_none_iff.mp h)
              exact ⟨henabled, hoverflow, .inr ⟨hlocked, hstarted, hlogged⟩⟩
          · cases h
  · rintro ⟨henabled, hoverflow, hasked⟩
    by_cases hlast : (l.job name).last_run_at = none
    · obtain ⟨hlocked, hstarted, hlogged⟩ := hasked.resolve_left (not_not.mpr hlast)
      have hdue : is_due (l.job name) now = some true := by
        rw [is_due, hlast]
      have hnote : note_in_flight (l.job name) now = none :=
        note_eq_none.mpr ⟨hstarted, hlogged, hoverflow⟩
      simp [visit, henabled, hdue, hlocked, hnote]
    · have hdue : is_due (l.job name) now = none := is_due_eq_none.mpr ⟨hlast, hoverflow⟩
      simp [visit, henabled, hdue]

/-- A job that is ready gets its task. -/
theorem visit_ready (h : l.Ready now name) : l.visit now name = some (l.spawn name) := by
  simp [visit, h.enabled, h.due, h.idle]

/-- A visit leaves the other jobs alone. -/
theorem visit_job_of_ne (h : l.visit now name = some l') (hn : n ≠ name) : l'.job n = l.job n := by
  rcases visit_cases h with rfl | ⟨job, -, rfl⟩ | ⟨-, rfl⟩
  · rfl
  · exact modify_job_of_ne l hn _
  · rfl

/-- It makes one task at most, for its own job. -/
theorem visit_tasks (h : l.visit now name = some l') :
    (l'.task = l.task ∧ l'.count = l.count)
      ∨ (l'.task = Function.update l.task l.count (some { job := name }) ∧ l'.count = l.count + 1) := by
  rcases visit_cases h with rfl | ⟨job, -, rfl⟩ | ⟨-, rfl⟩
  · exact .inl ⟨rfl, rfl⟩
  · exact .inl ⟨rfl, rfl⟩
  · exact .inr ⟨rfl, rfl⟩

/-- Both depend on the job alone. -/
theorem raises_congr (h : l'.job n = l.job n) : l'.Raises n ↔ l.Raises n := by
  constructor
  · rintro ⟨henabled, hoverflow, hasked⟩
    rw [h] at henabled hoverflow hasked
    exact ⟨henabled, hoverflow, hasked⟩
  · rintro ⟨henabled, hoverflow, hasked⟩
    rw [← h] at henabled hoverflow hasked
    exact ⟨henabled, hoverflow, hasked⟩

theorem ready_congr (h : l'.job n = l.job n) (hready : l.Ready now n) : l'.Ready now n := by
  obtain ⟨henabled, hdue, hidle⟩ := hready
  rw [← h] at henabled hdue hidle
  exact ⟨henabled, hdue, hidle⟩

end Visit

/-! ## All jobs -/

section VisitAll

variable {l : Loop} {now : Instant} {name bad : String}

/-- What has been made in a tick stays. -/
theorem visit_all_task {t : ℕ} (ht : t < l.count) (names : List String) :
    (visit_all now l names).task t = l.task t := by
  refine (visit_all_keeps (P := fun l₁ => l₁.task t = l.task t ∧ l.count ≤ l₁.count) ?_ names
    ⟨rfl, Nat.le_refl _⟩).1
  rintro l₁ name l₂ ⟨htask, hcount⟩ hvisit
  rcases visit_tasks hvisit with ⟨htasks, hsame⟩ | ⟨htasks, hnext⟩
  · rw [htasks, hsame]
    exact ⟨htask, hcount⟩
  · rw [htasks, hnext, Function.update_of_ne (by omega)]
    exact ⟨htask, by omega⟩

/-- **A job that is ready is dispatched if every job before it can be judged.** -/
theorem visit_all_dispatches (before after : List String) (hready : l.Ready now name)
    (hnodup : (before ++ name :: after).Nodup) (hfine : ∀ m ∈ before, ¬ l.Raises m) :
    ∃ t, l.count ≤ t ∧ (visit_all now l (before ++ name :: after)).task t = some { job := name } := by
  induction before generalizing l with
  | nil =>
      refine ⟨l.count, Nat.le_refl _, ?_⟩
      rw [List.nil_append, visit_all, visit_ready hready]
      refine (visit_all_task (Nat.lt_succ_self _) after).trans ?_
      exact Function.update_self _ _ _
  | cons m before ih =>
      rw [List.cons_append] at hnodup ⊢
      obtain ⟨hm, hrest⟩ := List.nodup_cons.mp hnodup
      rcases hvisit : l.visit now m with _ | l₁
      · exact absurd (visit_eq_none.mp hvisit) (hfine m (by simp))
      · have hother : ∀ n ∈ before ++ name :: after, l₁.job n = l.job n := by
          intro n hn
          refine visit_job_of_ne hvisit ?_
          rintro rfl
          exact hm hn
        have hready₁ : l₁.Ready now name := ready_congr (hother name (by simp)) hready
        have hfine₁ : ∀ n ∈ before, ¬ l₁.Raises n := by
          intro n hn
          rw [raises_congr (hother n (by simp [hn]))]
          exact hfine n (by simp [hn])
        obtain ⟨t, ht, htask⟩ := ih hready₁ hrest hfine₁
        refine ⟨t, ?_, ?_⟩
        · rcases visit_tasks hvisit with ⟨-, hsame⟩ | ⟨-, hnext⟩
          · omega
          · omega
        · rw [visit_all, hvisit]
          exact htask

/-- Whatever is made in a tick is made for a job that it visits. -/
theorem visit_all_made (names : List String) {t : ℕ} (ht : l.count ≤ t) (hnew : l.task t = none)
    (hmade : (visit_all now l names).task t = some { job := name }) : name ∈ names := by
  induction names generalizing l with
  | nil =>
      rw [visit_all, hnew] at hmade
      cases hmade
  | cons m rest ih =>
      rw [visit_all] at hmade
      split at hmade
      · rw [hnew] at hmade
        cases hmade
      · next l₁ hvisit =>
          rcases visit_tasks hvisit with ⟨htasks, hsame⟩ | ⟨htasks, hnext⟩
          · refine List.mem_cons_of_mem m (ih ?_ ?_ hmade)
            · omega
            · rw [htasks]
              exact hnew
          · by_cases hfirst : t = l.count
            · -- the task of this visit
              rw [visit_all_task (by omega), htasks, hfirst, Function.update_self] at hmade
              have hname := congrArg Task.job (Option.some.inj hmade)
              simp only at hname
              simp [hname]
            · refine List.mem_cons_of_mem m (ih ?_ ?_ hmade)
              · omega
              · rw [htasks, Function.update_of_ne hfirst]
                exact hnew

/-- **The jobs behind one that cannot be judged are not looked at.** -/
theorem visit_all_stops (before after : List String) (hnodup : (before ++ bad :: after).Nodup)
    (hbad : l.Raises bad) : visit_all now l (before ++ bad :: after) = visit_all now l before := by
  induction before generalizing l with
  | nil => simp only [List.nil_append, visit_all, visit_eq_none.mpr hbad]
  | cons m before ih =>
      rw [List.cons_append] at hnodup ⊢
      obtain ⟨hm, hrest⟩ := List.nodup_cons.mp hnodup
      rw [visit_all, visit_all]
      split
      · rfl
      · next l₁ hvisit =>
          have hne : bad ≠ m := by
            rintro rfl
            exact hm (by simp)
          exact ih hrest ((raises_congr (visit_job_of_ne hvisit hne)).mpr hbad)

end VisitAll

/-! ## Reachable loops -/

section Reachable

variable {l l' : Loop} {a : Act}

/-- A configuration neither adds a job nor takes one away. -/
theorem load_jobs_names {int_of_str : Text → Option ℤ} {file_config : Json.Dict} {specs : List JobSpec}
    (hload : load_jobs int_of_str file_config = some specs) :
    specs.map JobSpec.name = DEFAULT_JOBS.map JobSpec.name := by
  have hnames : ∀ (defaults specs : List JobSpec),
      defaults.mapM (fun default =>
        load_job int_of_str (override (config_entries file_config) default.name) default) = some specs →
      specs.map JobSpec.name = defaults.map JobSpec.name := by
    intro defaults
    induction defaults with
    | nil =>
        intro specs h
        rw [← Option.some.inj h]
        rfl
    | cons default rest ih =>
        intro specs h
        rw [List.mapM_cons] at h
        obtain ⟨spec, hspec, h⟩ := Option.bind_eq_some_iff.mp h
        obtain ⟨specs₁, hrest, h⟩ := Option.bind_eq_some_iff.mp h
        rw [← Option.some.inj h]
        obtain ⟨interval, -, rfl⟩ := Option.map_eq_some_iff.mp hspec
        rw [List.map_cons, List.map_cons, ih specs₁ hrest]
  exact hnames DEFAULT_JOBS specs hload

/-- A name stands for one job. -/
theorem names_nodup {int_of_str : Text → Option ℤ} {file_config : Json.Dict} {specs : List JobSpec}
    (hload : load_jobs int_of_str file_config = some specs) {handlers : List String} {iso : Iso}
    {file : Option Json} (hr : Reaches ((start handlers specs).load_state iso file) l) :
    l.names.Nodup := by
  have hstart : ((start handlers specs).load_state iso file).names
      = (specs.map JobSpec.name).eraseDups := by
    unfold load_state
    split
    · rfl
    · rfl
  rw [reaches_names hr, hstart, load_jobs_names hload]
  decide

/-- **When a tick dispatches what it should**, for whatever configuration and state file, in
whatever state and at whatever time: no job that is ready may stand behind one that cannot be
judged. -/
theorem tick_dispatches_iff (int_of_str : Text → Option ℤ) (file_config : Json.Dict)
    {specs : List JobSpec} (hload : load_jobs int_of_str file_config = some specs) (iso : Iso)
    (file : Option Json) (handlers : List String)
    (hr : Reaches ((start handlers specs).load_state iso file) l) (now : Instant) :
    (∀ name ∈ l.names, l.Ready now name → l.Dispatches now name)
      ↔ ∀ before bad after, l.names = before ++ bad :: after → l.Raises bad →
        ∀ name ∈ after, ¬ l.Ready now name := by
  have hnodup := names_nodup hload hr
  obtain ⟨own, slot, hheld⟩ := (exclusive_loaded handlers specs iso file).reaches hr
  constructor
  · intro hall before bad after hsplit hbad name hname hready
    obtain ⟨t, hnew, hmade⟩ := hall name (by rw [hsplit]; simp [hname]) hready
    rw [tick, hsplit, visit_all_stops before after (hsplit ▸ hnodup) hbad] at hmade
    have hcount : l.count ≤ t := by
      by_contra hlt
      rw [visit_all_task (not_le.mp hlt), hnew] at hmade
      cases hmade
    have hbefore : name ∈ before := visit_all_made before hcount hnew hmade
    rw [hsplit] at hnodup
    exact (List.nodup_append.mp hnodup).2.2 name hbefore name (List.mem_cons_of_mem bad hname) rfl
  · intro hfine name hname hready
    obtain ⟨before, after, hsplit⟩ := List.append_of_mem hname
    rw [hsplit] at hnodup
    have hjudged : ∀ m ∈ before, ¬ l.Raises m := by
      intro m hm hraises
      obtain ⟨before₁, after₁, hsplit₁⟩ := List.append_of_mem hm
      refine hfine before₁ m (after₁ ++ name :: after) ?_ hraises name (by simp) hready
      rw [hsplit, hsplit₁]
      simp
    obtain ⟨t, ht, hmade⟩ := visit_all_dispatches before after hready hnodup hjudged
    refine ⟨t, hheld.fresh t ht, ?_⟩
    rw [tick, hsplit]
    exact hmade

end Reachable

/-! ### A vacuum that is too rare -/

namespace Overlong

/-- `{"maintenance": {"jobs": [{"name": "db_vacuum", "interval_seconds": 100000000000000}]}}`. -/
def file_config : Json.Dict :=
  [("maintenance", .dict [("jobs", .list [.dict [("name", .str "db_vacuum"),
    ("interval_seconds", .int 100000000000000)]])])]

/-- `{"last_run_at": {"db_vacuum": "1970-01-01T00:00:00+00:00"}}`. -/
def state : Json :=
  .dict [("last_run_at", .dict [("db_vacuum", .str "1970-01-01T00:00:00+00:00")])]

/-- The defaults, with the vacuum of the configuration. -/
def specs : List JobSpec := ⟨"db_vacuum", 100000000000000, true⟩ :: DEFAULT_JOBS.tail

def loop (specs : List JobSpec) : Loop := (start HANDLERS specs).load_state epoch_clock (some state)

/-- A backup that is due at the next tick is not made. -/
theorem overlong_interval_starves_backup :
    load_jobs (fun _ => none) file_config = some specs
      ∧ "db_backup" ∈ (loop specs).names ∧ (loop specs).Ready 1000000 "db_backup"
      ∧ ¬ (loop specs).Dispatches 1000000 "db_backup" := by
  refine ⟨by decide +kernel, by decide +kernel, ⟨by decide +kernel, by decide +kernel, by decide +kernel⟩, ?_⟩
  rintro ⟨t, -, hmade⟩
  have hraises : (loop specs).Raises "db_vacuum" := ⟨by decide +kernel, by decide +kernel, .inl (by decide +kernel)⟩
  have hnames : (loop specs).names = [] ++ "db_vacuum" :: DEFAULT_JOBS.tail.map JobSpec.name := by
    decide +kernel
  rw [tick, hnames, visit_all_stops [] _ (by decide) hraises] at hmade
  cases hmade

/-- Without that entry every job that is ready is dispatched. -/
theorem tick_dispatches_iff_defaults :
    load_jobs (fun _ => none) [] = some DEFAULT_JOBS
      ∧ ∀ name ∈ (loop DEFAULT_JOBS).names, (loop DEFAULT_JOBS).Ready 1000000 name →
        (loop DEFAULT_JOBS).Dispatches 1000000 name := by
  have hload : load_jobs (fun _ => none) [] = some DEFAULT_JOBS := by decide +kernel
  refine ⟨hload, ?_⟩
  refine (tick_dispatches_iff (fun _ => none) [] hload epoch_clock (some state) HANDLERS .refl 1000000).mpr ?_
  intro before bad after hsplit hraises
  have hfine : ∀ name ∈ (loop DEFAULT_JOBS).names,
      timedelta_seconds ((loop DEFAULT_JOBS).job name).interval_seconds ≠ none := by
    decide +kernel
  have hbad : bad ∈ (loop DEFAULT_JOBS).names := by
    rw [loop, hsplit]
    simp
  exact absurd hraises.overflow (hfine bad hbad)

end Overlong

end OpenChronicle.Maintenance.Loop
