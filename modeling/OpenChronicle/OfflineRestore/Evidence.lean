/-
What a recorded write probe stands for.

A record that says `ok` was written by a probe of its own: the probe ran in the phase that the record
names, on the database that the phase had installed, and nothing has touched the record since, its
retirement apart. Between calls anybody may do anything outside of the recovery directory of the
operation; the calls themselves are finished or stopped at any step.

The danger is a result that is inherited. A call reads the record, changes its phase and writes it
again, and a result that stood in it would then speak for a database that was never probed. So what has
to be shown of each call is that it leaves the record as it was, writes one without a result, or writes
the result of a probe that it has run itself (`call_ran`). The induction over the life of the operation
then finds the call (`probed_of_lives`).

The swap is found by another induction, over the same life: a phase in which something is installed can
be entered only by a call that installs it (`swapped_of_lives`). The two are joined at the probe, where
the database had the digest of what the phase installs.
-/
import Mathlib.Logic.Relation
import OpenChronicle.OfflineRestore.Custody

set_option autoImplicit false

namespace OpenChronicle.OfflineRestore

open Program

/-! ## The life of an operation -/

/-- A call for the operation, finished or stopped, or anything else that leaves its recovery
directory alone. -/
inductive Acts (sha256 : Bytes → Digest) (op : String) (w : Volume) : Volume → Prop
  | call (t : Task) (hop : t.operation_id = op) (cs : List Choice) : Acts sha256 op w (after sha256 t cs w)
  | outside {w' : Volume} (h : ∀ p : Path, p.owner = some op → w' p = w p) : Acts sha256 op w w'

/-- The life of an operation, from the first thing that happens to it. -/
abbrev Lives (sha256 : Bytes → Digest) (op : String) : Volume → Volume → Prop :=
  Relation.ReflTransGen (Acts sha256 op)

/-- Nothing of the operation is there yet. -/
def Unbegun (op : String) (w : Volume) : Prop := ∀ p : Path, p.owner = some op → w p = none

/-- What is in the directories of the operation is there with them. -/
structure Rooted (op : String) (w : Volume) : Prop where
  state : w (.recovery op) = none → w (.state op) = none
  forward : w (.forward_state op) = none → ∀ m, w (.forward_displaced op m) = none

section Rooted

variable {sha256 : Bytes → Digest} {op : String} {w w' : Volume}

/-- The directories are as they were. -/
theorem Rooted.same (h : Rooted op w) (hstate : w' (.recovery op) = none → w' (.state op) = none)
    (hforward : w' (.forward_state op) = w (.forward_state op))
    (hdisplaced : ∀ m, w' (.forward_displaced op m) = w (.forward_displaced op m)) : Rooted op w' := by
  refine ⟨hstate, ?_⟩
  rw [hforward]
  intro hnone m
  rw [hdisplaced, h.forward hnone]

/-- A record stands in a directory. -/
theorem Rooted.recovery_ne (h : Rooted op w) {s : State} (hstate : w (.state op) = some (.json s)) :
    w (.recovery op) ≠ none := by
  intro hnone
  rw [h.state hnone] at hstate
  cases hstate

/-- A call that finds a record leaves the recovery directory where it is. -/
theorem Rooted.recorded (h : Rooted op w) {s : State} (hstate : w (.state op) = some (.json s))
    (hrecovery : w' (.recovery op) = w (.recovery op)) :
    w' (.recovery op) = none → w' (.state op) = none := by
  intro hnone
  rw [hrecovery] at hnone
  exact absurd hnone (h.recovery_ne hstate)

/-- Each call keeps the directories in order, also when it is stopped. -/
theorem Activation.rooted {candidate : String} {expected : Expected} (hroot : Rooted op w)
    (h : Activation sha256 candidate expected op w w') : Rooted op w' := by
  have hfresh : found (w' (.recovery op)) = true → w' (.recovery op) = none → w' (.state op) = none := by
    intro hdir hnone
    rw [hnone] at hdir
    cases hdir
  cases h with
  | untouched hagree =>
      refine hroot.same ?_ (hagree _ (by simp)) fun m => hagree _ (by simp)
      rw [hagree _ (by simp), hagree _ (by simp)]
      exact hroot.state
  | archiving hnew h =>
      exact hroot.same (hfresh h.dir) (h.agree _ (by simp [work, Path.owner, Path.is_forward]))
        fun m => h.agree _ (by simp [work, Path.owner, Path.is_forward])
  | swapping hnew hpassed h =>
      exact hroot.same (hfresh h.dir) (h.agree _ (by simp [work, Path.owner, Path.is_forward]))
        fun m => h.agree _ (by simp [work, Path.owner, Path.is_forward])

theorem RollingBack.rooted (hroot : Rooted op w) (h : RollingBack sha256 op w w') : Rooted op w' := by
  have hdir : ∀ {w' : Volume}, w' (.forward_state op) = some .dir →
      w' (.forward_state op) = none → ∀ m, w' (.forward_displaced op m) = none := by
    intro w' hdir hnone
    rw [hdir] at hnone
    cases hnone
  cases h with
  | untouched h => exact h ▸ hroot
  | abandoning hstate _ hagree _ =>
      exact hroot.same (hroot.recorded hstate (hagree _ (by simp))) (hagree _ (by simp))
        fun m => hagree _ (by simp)
  | archiving hstate _ _ hagree hforward =>
      exact ⟨hroot.recorded hstate (hagree _ (by simp [forwards])), hdir hforward⟩
  | @installing s s₁ d old wa hstate _ _ _ _ _ _ hopens h =>
      -- both kinds of attempt start from a forward archive
      have hopened : wa (.recovery op) = w (.recovery op) ∧ wa (.forward_state op) = some .dir := by
        cases hopens with
        | first _ hbegun => exact ⟨hbegun.agree _ (by simp [forwards]), hbegun.dir⟩
        | again _ hchecked => exact ⟨rfl, hchecked.dir⟩
      have hagree : Agree (exchanged op ∪ {.state op, .incoming op}) wa w' := by
        rcases h with h | h
        · exact h.agree.mono Set.subset_union_left
        · exact h.agree
      refine ⟨hroot.recorded hstate ?_, hdir ?_⟩
      · rw [hagree _ (by simp [exchanged]), hopened.1]
      · rw [hagree _ (by simp [exchanged]), hopened.2]

theorem Done.rooted {t : Task} (hroot : Rooted t.operation_id w) (h : Done sha256 w w' t) :
    Rooted t.operation_id w' := by
  cases t with
  | activate candidate operation_id expected apply => exact Activation.rooted hroot h
  | rollback operation_id apply => exact RollingBack.rooted hroot h
  | probe operation_id =>
      cases h with
      | untouched h => exact h ▸ hroot
      | stale hstate h =>
          exact hroot.same (hroot.recorded hstate (h.1 _ (by simp))) (h.1 _ (by simp))
            fun m => h.1 _ (by simp)
      | probing hstate _ _ _ _ h =>
          exact hroot.same (hroot.recorded hstate (h.agree _ (by simp))) (h.agree _ (by simp))
            fun m => h.agree _ (by simp)
  | retire_stage operation_id apply =>
      cases h with
      | untouched h => exact h ▸ hroot
      | retiring hstate hagree _ =>
          exact hroot.same (hroot.recorded hstate (hagree _ (by simp))) (hagree _ (by simp))
            fun m => hagree _ (by simp)

/-- A call in the life of an operation. -/
theorem Rooted.done {t : Task} (hroot : Rooted op w) (hop : t.operation_id = op) (cs : List Choice) :
    Done sha256 w (after sha256 t cs w) t := by
  refine Prog.leads_sound (leads_helper ?_) cs
  rw [hop]
  exact hroot.forward

/-- So they are in order at every point of the life. -/
theorem rooted_of_lives {w₀ : Volume} (hnew : Unbegun op w₀) (h : Lives sha256 op w₀ w) :
    Rooted op w := by
  induction h with
  | refl => exact ⟨fun _ => hnew _ rfl, fun _ m => hnew _ rfl⟩
  | tail _ hact ih =>
      cases hact with
      | call t hop cs =>
          subst hop
          exact (ih.done rfl cs).rooted ih
      | outside hsame =>
          refine ih.same ?_ (hsame _ rfl) fun m => hsame _ rfl
          rw [hsame _ rfl, hsame _ rfl]
          exact ih.state

end Rooted

/-! ## Swaps -/

/-- The call from `w` to `w'` takes the operation into the phase of `s`, and installs the database
that this phase stands for. -/
structure Swap (sha256 : Bytes → Digest) (op : String) (s : State) (w w' : Volume) : Prop where
  /-- The phase is a new one for the operation. -/
  enters : ∀ s₀, w (.state op) = some (.json s₀) → s₀.phase ≠ s.phase
  entered : ∃ s', w' (.state op) = some (.json s') ∧ s'.phase = s.phase
  installs : ∃ b, w' (.live .main) = some (.file b) ∧ sha256 b = s.installed
    ∧ (s.phase = .activated → ∃ name, w (.staged name) = some (.file b))
    ∧ (s.phase = .rolled_back → w (.old_consistent op) = some (.file b))

section Swaps

variable {sha256 : Bytes → Digest} {op : String} {w w' : Volume} {s s' : State}

/-- A swap is known by the phase and by what is installed. -/
theorem Swap.congr (h : Swap sha256 op s w w') (hphase : s.phase = s'.phase)
    (hinstalled : s.installed = s'.installed) : Swap sha256 op s' w w' := by
  obtain ⟨henters, hentered, hinstalls⟩ := h
  rw [hphase] at henters hentered hinstalls
  rw [hinstalled] at hinstalls
  exact ⟨henters, hentered, hinstalls⟩

/-- The operation was in the phase already, with the same database installed. -/
def Kept (op : String) (s' : State) (w : Volume) : Prop :=
  ∃ s, w (.state op) = some (.json s) ∧ s.phase = s'.phase ∧ s.installed = s'.installed

/-- A call that has not written the record. -/
theorem kept_of_same (hs' : w' (.state op) = some (.json s')) (hsame : w' (.state op) = w (.state op)) :
    Kept op s' w := ⟨s', by rw [← hsame, hs'], rfl, rfl⟩

/-- The record differs from the old one in what names no database. -/
theorem kept_of_record {s₁ : State} (hs : w (.state op) = some (.json s))
    (hs₁ : w' (.state op) = some (.json s₁)) (hs' : w' (.state op) = some (.json s'))
    (hphase : s₁.phase = s.phase) (hinstalled : s₁.installed = s.installed) : Kept op s' w := by
  rw [hs₁] at hs'
  obtain rfl := Node.json.inj (Option.some.inj hs')
  exact ⟨s, hs, hphase.symm, hinstalled.symm⟩

/-- An activation enters its phase with the candidate installed, or has not entered it. -/
theorem Activation.swap {candidate : String} {expected : Expected} (hroot : Rooted op w)
    (h : Activation sha256 candidate expected op w w') (hs' : w' (.state op) = some (.json s'))
    (hphase : s'.phase = .activated ∨ s'.phase = .rolled_back) :
    Kept op s' w ∨ Swap sha256 op s' w w' := by
  cases h with
  | untouched hagree => exact .inl (kept_of_same hs' (hagree _ (by simp)))
  | archiving hnew h =>
      rcases h.record with hsame | ⟨s, hs, harchiving, -⟩
      · exact .inl (kept_of_same hs' hsame)
      · rw [hs] at hs'
        obtain rfl := Node.json.inj (Option.some.inj hs')
        rw [harchiving] at hphase
        simp at hphase
  | @swapping hnew name info b hpassed h =>
      obtain ⟨s, hs, hdigest, hprepared | ⟨hactivated, hmain⟩⟩ := h.record
      · rw [hs] at hs'
        obtain rfl := Node.json.inj (Option.some.inj hs')
        rw [hprepared] at hphase
        simp at hphase
      · rw [hs] at hs'
        obtain rfl := Node.json.inj (Option.some.inj hs')
        refine .inr ⟨?_, ⟨s, hs, rfl⟩, b, hmain, ?_, fun _ => ⟨name, hpassed.staged⟩, ?_⟩
        · intro s₀ hs₀
          rw [hroot.state hnew] at hs₀
          cases hs₀
        · rw [State.installed, hactivated]
          exact hdigest.symm
        · intro hrolled
          rw [hactivated] at hrolled
          cases hrolled

/-- A rollback does so with the old database. -/
theorem RollingBack.swap (h : RollingBack sha256 op w w') (hs' : w' (.state op) = some (.json s'))
    (hphase : s'.phase = .activated ∨ s'.phase = .rolled_back) :
    Kept op s' w ∨ Swap sha256 op s' w w' := by
  cases h with
  | untouched h => exact .inl (kept_of_same hs' (by rw [h]))
  | abandoning _ _ _ hrecord =>
      rcases hrecord with hsame | hnew
      · exact .inl (kept_of_same hs' hsame)
      · rw [hnew] at hs'
        obtain rfl := Node.json.inj (Option.some.inj hs')
        simp at hphase
  | archiving _ _ _ hagree _ => exact .inl (kept_of_same hs' (hagree _ (by simp [forwards])))
  | @installing s s₁ d old wa hstate _ _ hassessed _ hold hdigest hopens h =>
      obtain ⟨hrolling, hassessed₁, hnot⟩ := hopens.rolling
      rcases h with h | h
      · -- until the swap is recorded the phase is `rolling_back`
        rw [h.agree _ (by simp [exchanged]), hopens.state hstate] at hs'
        obtain rfl := Node.json.inj (Option.some.inj hs')
        rw [hrolling] at hphase
        simp at hphase
      · obtain ⟨probed, hrecord⟩ := h.state
        rw [hrecord] at hs'
        obtain rfl := Node.json.inj (Option.some.inj hs')
        refine .inr ⟨?_, ⟨_, hrecord, rfl⟩, old, h.main, ?_, ?_, fun _ => hold⟩
        · intro s₀ hs₀
          rw [hstate] at hs₀
          obtain rfl := Node.json.inj (Option.some.inj hs₀)
          exact hnot
        · rw [hdigest, State.installed, hassessed₁, hassessed]
          rfl
        · intro hactivated
          cases hactivated

/-- **A phase in which something is installed is entered by a swap.** -/
theorem Done.swap {t : Task} (hroot : Rooted t.operation_id w) (h : Done sha256 w w' t)
    (hs' : w' (.state t.operation_id) = some (.json s'))
    (hphase : s'.phase = .activated ∨ s'.phase = .rolled_back) :
    Kept t.operation_id s' w ∨ Swap sha256 t.operation_id s' w w' := by
  cases t with
  | activate candidate operation_id expected apply => exact Activation.swap hroot h hs' hphase
  | rollback operation_id apply => exact RollingBack.swap h hs' hphase
  | probe operation_id =>
      left
      cases h with
      | untouched h => exact kept_of_same hs' (by rw [h])
      | stale hstate h =>
          rcases h.2 with hsame | hnew
          · exact kept_of_same hs' hsame
          · exact kept_of_record hstate hnew hs' rfl rfl
      | probing hstate _ _ _ _ h =>
          rcases h.record with hsame | ⟨text, hnew⟩
          · exact kept_of_same hs' hsame
          · exact kept_of_record hstate hnew hs' rfl rfl
  | retire_stage operation_id apply =>
      left
      cases h with
      | untouched h => exact kept_of_same hs' (by rw [h])
      | retiring hstate _ hrecord =>
          obtain ⟨retirement, hnew⟩ := hrecord
          exact kept_of_record hstate hnew hs' rfl rfl

/-- The call by which an operation has come into its phase. -/
theorem swapped_of_lives {w₀ : Volume} (hnew : Unbegun op w₀) (h : Lives sha256 op w₀ w)
    (hs : w (.state op) = some (.json s)) (hphase : s.phase = .activated ∨ s.phase = .rolled_back) :
    ∃ wa t cs, Lives sha256 op w₀ wa ∧ t.operation_id = op ∧ Swap sha256 op s wa (after sha256 t cs wa)
      ∧ Lives sha256 op (after sha256 t cs wa) w := by
  induction h generalizing s with
  | refl =>
      rw [hnew _ rfl] at hs
      cases hs
  | @tail w₁ w₂ hlives hact ih =>
      have hroot := rooted_of_lives hnew hlives
      have hearlier : Kept op s w₁ → ∃ wa t cs, Lives sha256 op w₀ wa ∧ t.operation_id = op
          ∧ Swap sha256 op s wa (after sha256 t cs wa) ∧ Lives sha256 op (after sha256 t cs wa) w₂ := by
        rintro ⟨s₁, hs₁, hphase₁, hinstalled₁⟩
        obtain ⟨wa, t, cs, hwa, hop, hswap, hafter⟩ := ih hs₁ (by rw [hphase₁]; exact hphase)
        exact ⟨wa, t, cs, hwa, hop, hswap.congr hphase₁ hinstalled₁, hafter.tail hact⟩
      cases hact with
      | call t hop cs =>
          subst hop
          rcases (hroot.done rfl cs).swap hroot hs hphase with hkept | hswap
          · exact hearlier hkept
          · exact ⟨w₁, t, cs, hlives, rfl, hswap, .refl⟩
      | outside hsame => exact hearlier (kept_of_same hs (hsame _ rfl))

end Swaps

/-! ## Probes -/

/-- In the call of `t` from `w` a write probe runs on what `before` has installed, answers `ok`,
and this is what the call has recorded in the end. -/
structure Probes (sha256 : Bytes → Digest) (op : String) (before : State) (t : Task)
    (cs : List Choice) (w : Volume) : Prop where
  ran : ∃ cs₁ cs₂ cs₃ wp wq, cs = cs₁ ++ (cs₂ ++ cs₃) ∧ after sha256 t cs₁ w = wp
    ∧ Probable sha256 op before wp ∧ probe_writable.run_until exec cs₂ wp = (some (.ok "ok"), wq)
    ∧ after sha256 t (cs₁ ++ cs₂) w = wq
  recorded : after sha256 t cs w (.state op) = some (.json { before with write_probe := some "ok" })

section Probes

variable {sha256 : Bytes → Digest} {op : String} {w : Volume}

/-- A run of `require_writable` leaves the record, or writes what its probe has answered. -/
theorem require_writable_ran (s : State) (next : String)
    (hquiet : has_frames (w (.live .wal)) = false) (cs : List Choice) :
    ((require_writable op s next).run_until exec cs w).2 (.state op) = w (.state op)
      ∨ ∃ cs₁ cs₂ text wq, cs = cs₁ ++ cs₂ ∧ probe_writable.run_until exec cs₁ w = (some (.ok text), wq)
        ∧ ((require_writable op s next).run_until exec cs₁ w).2 = wq
        ∧ ((require_writable op s next).run_until exec cs w).2 (.state op)
          = some (.json { s with write_probe := some text }) := by
  have hprobe : probe_writable.Leads exec (fun w' => w' (.state op) = w (.state op))
      (fun _ w' => w' (.state op) = w (.state op)) w :=
    leads_probe_writable hquiet (fun w' h _ => h _ (by simp)) fun _ w' h _ => h _ (by simp)
  rcases Prog.run_until_bind probe_writable _ cs w with ⟨hrun, hstop⟩ | ⟨cs₁, cs₂, text, wq, rfl, hrun, hrest⟩
  · left
    rw [require_writable, hrun]
    exact Prog.leads_stops hprobe hstop
  · have hsame : wq (.state op) = w (.state op) := Prog.leads_returns hprobe hrun
    have hpoint : ((require_writable op s next).run_until exec cs₁ w).2 = wq := by
      have hnil := hrest []
      rw [List.append_nil] at hnil
      rw [require_writable, hnil, Prog.run_until_nil]
    -- the record is saved, and what follows changes nothing
    have hsaved : ((require_writable op s next).run_until exec (cs₁ ++ cs₂) w).2 (.state op)
          = wq (.state op)
        ∨ ((require_writable op s next).run_until exec (cs₁ ++ cs₂) w).2 (.state op)
          = some (.json { s with write_probe := some text }) := by
      rw [require_writable, hrest cs₂]
      refine (Prog.leads_sound (I := Saving op { s with write_probe := some text } wq)
        (Prog.leads_bind.mpr (leads_save_state (fun _ => id) ?_)) cs₂).2
      intro w' hsave _
      split
      · exact leads_pure hsave
      · split
        · exact leads_refuse hsave
        · exact leads_refuse hsave
    rcases hsaved with hkept | hnew
    · exact .inl (hkept.trans hsame)
    · exact .inr ⟨cs₁, cs₂, text, wq, rfl, hrun, hpoint, hnew⟩

/-- A call leaves an unproved record, unless its own probe has run. -/
theorem finished_ran {steps : Helper Plan} {I : Volume → Prop} {t : Task}
    (hhelper : helper sha256 t = steps >>= finish op)
    (hleads : steps.Leads exec (fun w' => I w' ∧ Unproved op w w')
      (fun plan w' => Unproved op w w' ∧ plan.Fit sha256 op I w') w) (cs : List Choice) :
    Unproved op w (after sha256 t cs w) ∨ ∃ before, Probes sha256 op before t cs w := by
  have hafter : ∀ cs, after sha256 t cs w = ((steps >>= finish op).run_until exec cs w).2 := by
    intro cs
    rw [after, after_call, hhelper]
  rcases Prog.run_until_bind steps (finish op) cs w with ⟨hrun, hstop⟩ | ⟨cs₁, cs₂, plan, wp, rfl, hrun, hrest⟩
  · left
    rw [hafter, hrun]
    exact (Prog.leads_stops hleads hstop).2
  obtain ⟨hunproved, hfit⟩ := Prog.leads_returns hleads hrun
  have hpoint : after sha256 t cs₁ w = wp := by
    have hnil := hrest []
    rw [List.append_nil] at hnil
    rw [hafter, hnil, Prog.run_until_nil]
  rcases plan with r | ⟨s, next, answer⟩
  · left
    rw [hafter, hrest cs₂]
    exact hunproved
  have hwritable : ∀ rest, after sha256 t (cs₁ ++ rest) w
      = ((require_writable op s next).run_until exec rest wp).2 := by
    intro rest
    rw [hafter, hrest rest]
    exact Prog.run_until_pure (require_writable op s next) answer rest wp
  rcases require_writable_ran s next hfit.1.quiet cs₂ with
    hsame | ⟨cs₃, cs₄, text, wq, rfl, hprobe, hend, hnew⟩
  · left
    rw [Unproved, hwritable, hsame]
    exact hunproved
  · rw [← hwritable] at hend hnew
    by_cases hok : text = "ok"
    · subst hok
      exact .inr ⟨s, ⟨cs₁, cs₃, cs₄, wp, wq, rfl, hpoint, hfit.1, hprobe, hend⟩, hnew⟩
    · exact .inl (unproved_of_ne hnew fun h => hok (Option.some.inj h))

/-- The two records differ in the retirement of the stage only. -/
def Rests (op : String) (w w' : Volume) : Prop :=
  ∃ s retirement, w (.state op) = some (.json s)
    ∧ w' (.state op) = some (.json { s with stage_retirement := retirement })

/-- What a call leaves as its record, for each of the four. -/
theorem call_ran {t : Task} (hroot : Rooted t.operation_id w) (cs : List Choice) :
    Unproved t.operation_id w (after sha256 t cs w) ∨ Rests t.operation_id w (after sha256 t cs w)
      ∨ ∃ before, Probes sha256 t.operation_id before t cs w := by
  cases t with
  | activate candidate operation_id expected apply =>
      exact (finished_ran rfl leads_activate_steps cs).imp id .inr
  | rollback operation_id apply =>
      exact (finished_ran rfl (leads_rollback_steps hroot.forward) cs).imp id .inr
  | probe operation_id => exact (finished_ran rfl leads_probe_steps cs).imp id .inr
  | retire_stage operation_id apply =>
      have hdone : Retiring operation_id w (after sha256 (.retire_stage operation_id apply) cs w) :=
        hroot.done (t := .retire_stage operation_id apply) rfl cs
      cases hdone with
      | untouched h => exact .inl (.inl (by rw [h]))
      | retiring hstate _ hrecord =>
          obtain ⟨retirement, hnew⟩ := hrecord
          exact .inr (.inl ⟨_, retirement, hstate, hnew⟩)

end Probes

/-! ## The record -/

/-- Something happens that leaves the record alone, its retirement apart. -/
def Stands (sha256 : Bytes → Digest) (op : String) (w w' : Volume) : Prop :=
  Acts sha256 op w w' ∧ Rests op w w'

section Record

variable {sha256 : Bytes → Digest} {op : String} {w₀ w : Volume} {s : State}

theorem rests_of_same {w' : Volume} (hs : w' (.state op) = some (.json s))
    (hsame : w' (.state op) = w (.state op)) : Rests op w w' :=
  ⟨s, s.stage_retirement, by rw [← hsame, hs], hs⟩

/-- The call whose probe wrote the record. The induction is on the life of the operation: each
step leaves the record as it was, or writes one that is unproved, or is that call. -/
theorem probed_of_lives (hnew : Unbegun op w₀) (h : Lives sha256 op w₀ w)
    (hs : w (.state op) = some (.json s)) (hok : s.write_probe = some "ok") :
    (s.phase = .activated ∨ s.phase = .rolled_back) ∧ ∃ w₁ t cs before, Lives sha256 op w₀ w₁
      ∧ t.operation_id = op ∧ Probes sha256 op before t cs w₁
      ∧ s = { before with write_probe := some "ok", stage_retirement := s.stage_retirement }
      ∧ Relation.ReflTransGen (Stands sha256 op) (after sha256 t cs w₁) w := by
  induction h generalizing s with
  | refl =>
      rw [hnew _ rfl] at hs
      cases hs
  | @tail w₁ w₂ hlives hact ih =>
      -- as long as the record rests, what was found for it before is found still
      have hearlier : Rests op w₁ w₂ → (s.phase = .activated ∨ s.phase = .rolled_back)
          ∧ ∃ w₃ t cs before, Lives sha256 op w₀ w₃ ∧ t.operation_id = op
            ∧ Probes sha256 op before t cs w₃
            ∧ s = { before with write_probe := some "ok", stage_retirement := s.stage_retirement }
            ∧ Relation.ReflTransGen (Stands sha256 op) (after sha256 t cs w₃) w₂ := by
        intro hrests
        obtain ⟨s₁, retirement, hs₁, hs₂⟩ := hrests
        rw [hs] at hs₂
        obtain rfl := Node.json.inj (Option.some.inj hs₂)
        obtain ⟨hphase, w₃, t, cs, before, h₃, hop, hprobes, heq, hchain⟩ := ih hs₁ hok
        refine ⟨hphase, w₃, t, cs, before, h₃, hop, hprobes, ?_, hchain.tail ⟨hact, s₁, retirement, hs₁, hs⟩⟩
        rw [heq]
      cases hact with
      | outside hsame => exact hearlier (rests_of_same hs (hsame _ rfl))
      | call t hop cs =>
          subst hop
          rcases @call_ran sha256 _ t (rooted_of_lives hnew hlives) cs with
            (hsame | ⟨s₂, hs₂, hinherits⟩) | hrests | ⟨before, hprobes⟩
          · exact hearlier (rests_of_same hs hsame)
          · -- nothing was proved in a phase without a database
            rw [hs] at hs₂
            obtain rfl := Node.json.inj (Option.some.inj hs₂)
            obtain ⟨s₀, hs₀, hok₀, hnot, hnot'⟩ := hinherits hok
            rcases (ih hs₀ hok₀).1 with hphase | hphase
            · exact absurd hphase hnot
            · exact absurd hphase hnot'
          · exact hearlier hrests
          · -- the call that wrote the result is the one that ran the probe
            have hrecorded := hprobes.recorded
            rw [hs] at hrecorded
            obtain rfl := Node.json.inj (Option.some.inj hrecorded)
            obtain ⟨cs₁, cs₂, cs₃, wp, wq, -, -, hprobable, -⟩ := hprobes.ran
            exact ⟨hprobable.phase, w₁, t, cs, before, hlives, rfl, hprobes, rfl, .refl⟩

/-- **A recorded write probe is never inherited.**

In the life of an operation, a record that says `ok` is in the phase `activated` or `rolled_back`.
A call `ta` from `wa` took the operation into that phase, and installed the candidate that was
staged there, or the consolidated old database. In that call or in a later one, `t` from `w₁`, the
write probe ran: when it began, the phase was recorded, the database had the digest of what the
phase installs, and its `-wal` was empty or missing. The call recorded the result, and the record
has been left alone since. -/
theorem recorded_ok_is_probed (hnew : Unbegun op w₀) (h : Lives sha256 op w₀ w)
    (hs : w (.state op) = some (.json s)) (hok : s.write_probe = some "ok") :
    (s.phase = .activated ∨ s.phase = .rolled_back) ∧ ∃ wa ta csa w₁ t cs before,
      Lives sha256 op w₀ wa ∧ ta.operation_id = op ∧ t.operation_id = op
      ∧ Swap sha256 op s wa (after sha256 ta csa wa)
      ∧ ((w₁ = wa ∧ t = ta ∧ cs = csa) ∨ Lives sha256 op (after sha256 ta csa wa) w₁)
      ∧ before.phase = s.phase ∧ before.installed = s.installed ∧ Probes sha256 op before t cs w₁
      ∧ Relation.ReflTransGen (Stands sha256 op) (after sha256 t cs w₁) w := by
  obtain ⟨hphase, w₁, t, cs, before, h₁, hop, hprobes, heq, hchain⟩ := probed_of_lives hnew h hs hok
  have hbefore : before.phase = s.phase ∧ before.installed = s.installed := by
    rw [heq]
    exact ⟨rfl, rfl⟩
  refine ⟨hphase, ?_⟩
  subst hop
  have hroot := rooted_of_lives hnew h₁
  rcases (hroot.done rfl cs).swap hroot hprobes.recorded (by rw [← hbefore.1] at hphase; exact hphase) with
    ⟨s₁, hs₁, hphase₁, hinstalled₁⟩ | hswap
  · -- the phase was entered before this call
    have hphase' : s₁.phase = s.phase := hphase₁.trans hbefore.1
    have hinstalled' : s₁.installed = s.installed := hinstalled₁.trans hbefore.2
    obtain ⟨wa, ta, csa, hwa, hopa, hswap, hafter⟩ :=
      swapped_of_lives hnew h₁ hs₁ (by rw [hphase']; exact hphase)
    exact ⟨wa, ta, csa, w₁, t, cs, before, hwa, hopa, rfl, hswap.congr hphase' hinstalled', .inr hafter,
      hbefore.1, hbefore.2, hprobes, hchain⟩
  · exact ⟨w₁, t, cs, w₁, t, cs, before, h₁, rfl, rfl, hswap.congr hbefore.1 hbefore.2,
      .inl ⟨rfl, rfl, rfl⟩, hbefore.1, hbefore.2, hprobes, hchain⟩

end Record

/-! ## A candidate activated, and the service started -/

namespace Served

open Sample Restarted

def activated : Volume := after sha256 (activation "op-2") (List.replicate 95 go) volume

/-- The service has written to the database. -/
def served : Volume := Function.update activated (.live .main) (some (.file [8]))

def recorded : State :=
  { operation_id := "op-2", phase := .activated, db := DB
    candidate := "/data/.restore-stage/" ++ name, candidate_info := ⟨sha256 [9], 5, "", 0, 0, 0⟩
    raw_files := [(.main, sha256 [1]), (.wal, sha256 [2])]
    old_state := some (.readable { sha256 := sha256 [3], size_bytes := 1, integrity := "ok"
                                   foreign_keys := "ok", identity := .inr ⟨5, "", 0, 0, 0⟩ })
    write_probe := some "ok" }

/-- The record still says `ok`, and the probe ran before the service wrote. -/
theorem recorded_ok_is_probed_served :
    served (.state "op-2") = some (.json recorded) ∧ ∃ w₁ t cs before,
      Probes sha256 "op-2" before t cs w₁ ∧ before.installed = sha256 [9]
        ∧ Relation.ReflTransGen (Stands sha256 "op-2") (after sha256 t cs w₁) served := by
  have hlives : Lives sha256 "op-2" volume served := by
    refine (Relation.ReflTransGen.single (.call (activation "op-2") rfl (List.replicate 95 go))).tail ?_
    refine .outside fun p hp => Function.update_of_ne ?_ _ _
    rintro rfl
    cases hp
  have hnew : Unbegun "op-2" volume := by
    intro p hp
    cases p <;> first | rfl | cases hp
  have hstate : served (.state "op-2") = some (.json recorded) := by decide +kernel
  obtain ⟨-, -, -, -, w₁, t, cs, before, -, -, -, -, -, -, hinstalled, hprobes, hchain⟩ :=
    recorded_ok_is_probed hnew hlives hstate rfl
  exact ⟨hstate, w₁, t, cs, before, hprobes, hinstalled, hchain⟩

end Served

end OpenChronicle.OfflineRestore
