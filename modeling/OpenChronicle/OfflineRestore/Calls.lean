/-
`probe` and `retire_stage`, and what any call of the helper may have done to the volume.

`probe` changes the family only where SQLite has nothing to check point: there is no sidecar, or the
`-wal` is empty. `retire_stage` removes the staged file and the incoming copy.

`Done` gathers the four calls into one relation between the volume before and after. It holds wherever
the call stopped, so it is the only thing that the files about runs need to know of a program: they go
through the cases of `Done`, and each case says what was found, how far the call came, and where the
files may be then.

All calls but retirement end in a write probe, which is split off here. The steps before it lead to a
plan, and what the plan still has to do is the same for all of them (`leads_finished`).
-/
import OpenChronicle.OfflineRestore.Rollback

set_option autoImplicit false

namespace OpenChronicle.OfflineRestore

open Program

/-! ## Probe -/

/-- What a call of `probe` may have done. -/
inductive Probing (sha256 : Bytes → Digest) (op : String) (w w' : Volume) : Prop
  | untouched (h : w' = w)
  /-- The database is not what was installed, and the record says so. -/
  | stale {s : State} (hstate : w (.state op) = some (.json s))
      (h : Saving op { s with write_probe := some PROBE_STALE } w w')
  | probing {s : State} {b : Bytes} (hstate : w (.state op) = some (.json s))
      (hphase : s.phase = .activated ∨ s.phase = .rolled_back)
      (hmain : w (.live .main) = some (.file b)) (hdigest : sha256 b = s.installed)
      (hquiet : (w (.live .wal) = none ∧ w (.live .shm) = none) ∨ w (.live .wal) = some (.file []))
      (h : Recording op s w w')

section Probe

variable {I : Volume → Prop} {w : Volume} {sha256 : Bytes → Digest} {op : String}

/-- A `-shm` without a `-wal`, or a link, is not SQLite's, and the probe is not run beside it. -/
theorem leads_foreign_sidecar {R : Option Member → Volume → Prop} (hI : I w)
    (hsome : ∀ m, R (some m) w)
    (hnone : is_symlink (w (.live .wal)) = false → (w (.live .wal) = none → w (.live .shm) = none) →
      R none w) :
    foreign_sidecar.Leads exec I R w := by
  refine Prog.leads_bind.mpr (leads_look hI ?_)
  refine Prog.leads_bind.mpr (leads_look hI ?_)
  split
  · exact hsome .shm
  split
  · exact hsome .wal
  next hwal =>
  split
  · exact hsome .shm
  next hshm =>
  refine hnone (by simpa using hwal) ?_
  intro hgone
  rw [hgone] at hshm
  simpa using hshm

/-- The database is compared by digest with what the swap had installed. -/
theorem leads_unchanged_since_swap {expected_sha : Digest} {R : Bool → Volume → Prop} (hI : I w)
    (hno : R false w)
    (hyes : ∀ b, w (.live .main) = some (.file b) → sha256 b = expected_sha →
      (found (w (.live .wal)) = true → size (w (.live .wal)) = 0) → R true w) :
    (unchanged_since_swap sha256 expected_sha).Leads exec I R w := by
  unfold unchanged_since_swap
  split
  · exact hno
  refine Prog.leads_bind.mpr (leads_look hI ?_)
  split
  · exact hno
  next hwal =>
  refine Prog.leads_bind.mpr (leads_sha256_of hI ?_)
  intro b hb
  by_cases hsame : sha256 b = expected_sha
  · have hempty : found (w (.live .wal)) = true → size (w (.live .wal)) = 0 := by
      intro hfound
      simpa [hfound] using hwal
    have hdecide : decide (sha256 b = expected_sha) = true := decide_eq_true hsame
    exact leads_pure (hdecide ▸ hyes b hb hsame hempty)
  · have hdecide : decide (sha256 b = expected_sha) = false := decide_eq_false hsame
    exact leads_pure (hdecide ▸ hno)

/-- A `-wal` that is empty, or is not there. -/
theorem eq_empty_of_size {n : Option Node} (hlink : is_symlink n = false)
    (hsize : found n = true → size n = 0) : n = none ∨ n = some (.file []) := by
  rcases n with _ | (b | s | _ | r)
  · exact .inl rfl
  · rw [List.length_eq_zero_iff.mp (hsize rfl)]
    exact .inr rfl
  · exact absurd (hsize rfl) one_ne_zero
  · exact absurd (hsize rfl) one_ne_zero
  · cases hlink

/-- The probe is run only on what was installed and only when nothing waits in the `-wal`. -/
theorem leads_probe_installed {s : State} (hstate : w (.state op) = some (.json s))
    (hphase : s.phase = .activated ∨ s.phase = .rolled_back) :
    (probe_installed sha256 op s s.installed).Leads exec
      (fun w' => Probing sha256 op w w' ∧ Unproved op w w')
      (fun plan w' => Unproved op w w' ∧ plan.Fit sha256 op (Probing sha256 op w) w') w := by
  have hsame : Probing sha256 op w w ∧ Unproved op w w := ⟨.untouched rfl, .inl rfl⟩
  refine Prog.leads_bind.mpr (leads_foreign_sidecar hsame (fun _ => hsame) ?_)
  intro hlink hlone
  refine Prog.leads_bind.mpr (leads_unchanged_since_swap hsame ?_ ?_)
  · have hstale : ∀ w', Saving op { s with write_probe := some PROBE_STALE } w w' →
        Probing sha256 op w w' ∧ Unproved op w w' := by
      intro w' h
      refine ⟨.stale hstate h, ?_⟩
      rcases h.2 with hkept | hnew
      · exact .inl hkept
      · have hne : some PROBE_STALE ≠ some "ok" := by decide
        exact unproved_of_ne hnew hne
    exact Prog.leads_bind.mpr (leads_save_state hstale fun w' h _ => hstale w' h)
  · intro b hb hdigest hsize
    have hwal := eq_empty_of_size hlink hsize
    have hsides : (w (.live .wal) = none ∧ w (.live .shm) = none)
        ∨ w (.live .wal) = some (.file []) := hwal.imp (fun hnone => ⟨hnone, hlone hnone⟩) id
    refine leads_pure ⟨.inl rfl, ⟨hstate, hphase, ⟨b, hb, hdigest⟩, hwal⟩, ?_⟩
    exact fun w' h => .probing hstate hphase hb hdigest hsides h

/-- **What `probe` may have done** before its write probe, when it is stopped, raises or comes to
the probe. -/
theorem leads_probe_steps :
    (probe_steps sha256 op).Leads exec
      (fun w' => Probing sha256 op w w' ∧ Unproved op w w')
      (fun plan w' => Unproved op w w' ∧ plan.Fit sha256 op (Probing sha256 op w) w') w := by
  have hsame : Probing sha256 op w w ∧ Unproved op w w := ⟨.untouched rfl, .inl rfl⟩
  refine Prog.leads_bind.mpr (leads_refuse_root hsame ?_)
  refine Prog.leads_bind.mpr (leads_regular hsame ?_)
  intro _ _
  refine Prog.leads_bind.mpr (leads_load_own_state hsame ?_)
  intro s hstate _
  split
  · next hphase =>
      have hinstalled : s.candidate_info.sha256 = s.installed := by rw [State.installed, hphase]
      rw [hinstalled]
      exact leads_probe_installed hstate (.inl hphase)
  · next hphase =>
      have hinstalled : s.old_state.elim "" OldState.sha256 = s.installed := by
        rw [State.installed, hphase]
      rw [hinstalled]
      exact leads_probe_installed hstate (.inr hphase)
  · exact hsame

end Probe

/-! ## Retirement -/

/-- What a call of `retire_stage` may have done. -/
inductive Retiring (op : String) (w w' : Volume) : Prop
  | untouched (h : w' = w)
  | retiring {s : State} {name : String} (hstate : w (.state op) = some (.json s))
      (hagree : Agree {.state op, .state_temp op, .staged name, .incoming op} w w')
      (hrecord : ∃ retirement, w' (.state op)
        = some (.json { s with stage_retirement := retirement }))

section Retire

variable {I : Volume → Prop} {w : Volume} {sha256 : Bytes → Digest} {op : String}

/-- What is to be retired must be the file that was installed. -/
theorem leads_check_staged {name : String} {s : State} {R : Unit → Volume → Prop} (hI : I w)
    (hR : R () w) : (check_staged sha256 name s).Leads exec I R w := by
  refine Prog.leads_bind.mpr (leads_path_exists hI ?_)
  split
  · refine Prog.leads_bind.mpr (leads_inspect hI ?_)
    intro _ _ _ _ _
    split
    · exact hI
    · exact hR
  · split
    · exact hI
    · exact hR

/-- **What `retire_stage` may have done** when it ends, raises or is stopped. -/
theorem wp_retire_stage {apply : Bool} :
    (retire_stage sha256 op apply).Leads exec (Retiring op w) (fun _ => Retiring op w) w := by
  have hsame : Retiring op w w := .untouched rfl
  refine Prog.leads_bind.mpr (leads_load_own_state hsame ?_)
  intro s hstate _
  split
  · exact hsame
  refine Prog.leads_bind.mpr (leads_look hsame ?_)
  split
  · exact hsame
  next name hname =>
  split
  · exact hsame
  split
  · refine Prog.leads_bind.mpr (leads_path_exists hsame ?_)
    split
    · exact hsame
    · exact hsame
  refine Prog.leads_bind.mpr (leads_check_staged hsame ?_)
  split
  · exact hsame
  -- from here on the record is the old one with another retirement
  set T : Set Path := {.state op, .state_temp op, .staged name, .incoming op} with hT
  have hstep : ∀ {w₁ w₂ : Volume} {r r' : Option Retirement}, Agree T w w₁ →
      w₁ (.state op) = some (.json { s with stage_retirement := r }) →
      Saving op { s with stage_retirement := r' } w₁ w₂ → Retiring op w w₂ := by
    intro w₁ w₂ r r' hagree hrecord hsave
    refine .retiring hstate (hagree.trans (hsave.1.mono ?_)) ?_
    · rintro p (rfl | rfl) <;> simp [hT]
    · rcases hsave.2 with hkept | hnew
      · exact ⟨r, hkept.trans hrecord⟩
      · exact ⟨r', hnew⟩
  have hsaved : ∀ {w₁ w₂ : Volume} {s' : State}, Agree T w w₁ → Saving op s' w₁ w₂ → Agree T w w₂ := by
    intro w₁ w₂ s' hagree hsave
    refine hagree.trans (hsave.1.mono ?_)
    rintro p (rfl | rfl) <;> simp [hT]
  have hstart : w (.state op) = some (.json { s with stage_retirement := s.stage_retirement }) := hstate
  refine Prog.leads_bind.mpr (leads_save_state (fun w' h => hstep (Agree.refl _ w) hstart h) ?_)
  intro w₁ hsave₁ hrecord₁
  have hagree₁ := hsaved (Agree.refl T w) hsave₁
  refine Prog.leads_bind.mpr (leads_unlink (.retiring hstate hagree₁ ⟨_, hrecord₁⟩) ?_)
  have hagree₂ : Agree T w (Function.update w₁ (.staged name) none) :=
    hagree₁.trans (agree_update (by simp [hT]) w₁ _)
  have hrecord₂ : Function.update w₁ (.staged name) none (.state op)
      = some (.json { s with stage_retirement := some .in_progress }) := by
    rw [Function.update_of_ne (by simp), hrecord₁]
  refine Prog.leads_bind.mpr (leads_save_state (fun w' h => hstep hagree₂ hrecord₂ h) ?_)
  intro w₃ hsave₃ hrecord₃
  have hagree₃ := hsaved hagree₂ hsave₃
  have hcleaned : ∀ w₄, Agree {.incoming op} w₃ w₄ → Retiring op w w₄ := by
    intro w₄ h₄
    refine .retiring hstate (hagree₃.trans (h₄.mono ?_)) ⟨_, (h₄ _ (by simp)).trans hrecord₃⟩
    rintro p rfl
    simp [hT]
  refine Prog.leads_bind.mpr (leads_part (touches_remove_incoming op _) (Prog.leads_trivial _ _)
    hcleaned ?_)
  exact fun _ w₄ h₄ _ => leads_pure (hcleaned w₄ h₄)

end Retire

/-! ## Any call -/

/-- The operation that a call is for. -/
def Task.operation_id : Task → String
  | activate _ operation_id _ _ => operation_id
  | rollback operation_id _ => operation_id
  | probe operation_id => operation_id
  | retire_stage operation_id _ => operation_id

/-- What a call of the helper may have done. -/
def Done (sha256 : Bytes → Digest) (w w' : Volume) : Task → Prop
  | .activate candidate operation_id expected _ =>
      Activation sha256 candidate expected operation_id w w'
  | .rollback operation_id _ => RollingBack sha256 operation_id w w'
  | .probe operation_id => Probing sha256 operation_id w w'
  | .retire_stage operation_id _ => Retiring operation_id w w'

/-- What is in a directory that is not there is not there either. -/
structure Tree (w : Volume) : Prop where
  recovery : ∀ op, found (w (.recovery op)) = false →
    ∀ p : Path, p.owner = some op → p ≠ .recovery op → w p = none
  forward : ∀ op, found (w (.forward_state op)) = false →
    ∀ m, w (.forward op m) = none ∧ w (.forward_displaced op m) = none

section Any

variable {w : Volume} {sha256 : Bytes → Digest}

/-- The write probe comes last. -/
theorem leads_finished {op : String} {steps : Helper Plan} {I : Volume → Prop}
    (h : steps.Leads exec (fun w' => I w' ∧ Unproved op w w')
      (fun plan w' => Unproved op w w' ∧ plan.Fit sha256 op I w') w) :
    (steps >>= finish op).Leads exec I (fun _ => I) w := by
  refine Prog.leads_bind.mpr (Prog.wp_mono h (fun _ hI => hI.1) ?_)
  rintro (e | plan) w' hend
  · exact hend.1
  · exact leads_finish hend.2

/-- Any call: its steps, and then its plan. -/
theorem leads_helper {t : Task} (htree : w (.forward_state t.operation_id) = none →
      ∀ m, w (.forward_displaced t.operation_id m) = none) :
    (helper sha256 t).Leads exec (fun w' => Done sha256 w w' t) (fun _ w' => Done sha256 w w' t) w := by
  cases t with
  | activate candidate operation_id expected apply => exact leads_finished leads_activate_steps
  | rollback operation_id apply => exact leads_finished (leads_rollback_steps htree)
  | probe operation_id => exact leads_finished leads_probe_steps
  | retire_stage operation_id apply => exact wp_retire_stage

variable (sha256) in
/-- The volume after a call, finished or stopped. -/
abbrev after : Task → List Choice → Volume → Volume := after_call exec (helper sha256)

variable (sha256) in
/-- The second volume is one that calls lead to from the first. -/
abbrev Run : Volume → Volume → Prop := Reaches exec (helper sha256)

/-- The volume that a call leaves. -/
theorem after_call_done (htree : Tree w) (t : Task) (cs : List Choice) :
    Done sha256 w (after sha256 t cs w) t := by
  refine Prog.leads_sound (leads_helper ?_) cs
  intro hnone m
  exact (htree.forward t.operation_id (by rw [hnone]; rfl) m).2

end Any

namespace Sample

/-- Stands for SHA-256 on concrete volumes: the bytes themselves, written as characters. -/
def sha256 (b : Bytes) : Digest := String.ofList (b.map Char.ofUInt8)

/-- So that in the examples a digest stands for one file. -/
theorem sha256_injective : Function.Injective sha256 := by
  have hchar : Function.Injective Char.ofUInt8 := by
    intro x y h
    have hval : x.toUInt32 = y.toUInt32 := congrArg Char.val h
    exact UInt8.toUInt32_inj.mp hval
  intro b c h
  exact List.map_injective_iff.mpr hchar (String.ofList_injective h)

end Sample

end OpenChronicle.OfflineRestore
