/-
A store brought up to date by steps that apply completely or not at all.

`apply_all` takes steps in order and stops at the first that fails, so what it leaves is
the store after completely applying the ones before. When each step has a version and
the store knows the highest one it has had, the steps that are pending are read off the
store, and it no longer matters how many calls brought it there: `upgrade_of_applied`
says that an upgrade from any point on the way ends where the upgrade from the start
does.
-/
import Mathlib.Tactic.Common

set_option autoImplicit false

namespace Upgrade

variable {μ σ τ ε : Type}

/-! ## Steps in order -/

/-- What the steps leave, and the first that failed. -/
def apply_all (step : μ → σ → Except ε σ) : List μ → σ → σ × Option (μ × ε)
  | [], s => (s, none)
  | m :: rest, s =>
      match step m s with
      | .ok s' => apply_all step rest s'
      | .error e => (s, some (m, e))

/-- Every step of the list applied, each to what the one before left. -/
inductive Applied (step : μ → σ → Except ε σ) : List μ → σ → σ → Prop where
  | nil (s : σ) : Applied step [] s s
  | cons {m : μ} {rest : List μ} {s s' s'' : σ} (hstep : step m s = .ok s')
      (hrest : Applied step rest s' s'') : Applied step (m :: rest) s s''

section Steps

variable {step : μ → σ → Except ε σ}

theorem apply_all_of_applied {done : List μ} {s s' : σ} (h : Applied step done s s')
    (rest : List μ) : apply_all step (done ++ rest) s = apply_all step rest s' := by
  induction h with
  | nil s => rfl
  | cons hstep _ ih =>
      rw [List.cons_append, apply_all, hstep]
      exact ih

/-- A list of steps applies as a prefix: all of it, or up to the step that failed. -/
theorem apply_all_spec (ms : List μ) (s : σ) :
    ∃ done rest, ms = done ++ rest ∧ Applied step done s (apply_all step ms s).1
      ∧ ((rest = [] ∧ (apply_all step ms s).2 = none)
        ∨ ∃ m rest' e, rest = m :: rest' ∧ step m (apply_all step ms s).1 = .error e
          ∧ (apply_all step ms s).2 = some (m, e)) := by
  induction ms generalizing s with
  | nil => exact ⟨[], [], rfl, .nil s, Or.inl ⟨rfl, rfl⟩⟩
  | cons m ms ih =>
      rw [apply_all]
      rcases hstep : step m s with e | s'
      · exact ⟨[], m :: ms, rfl, .nil s, Or.inr ⟨m, ms, e, rfl, hstep, rfl⟩⟩
      · obtain ⟨done, rest, rfl, happlied, hend⟩ := ih s'
        exact ⟨m :: done, rest, rfl, .cons hstep happlied, hend⟩

/-- Steps that do what other steps do to a view of the store. -/
theorem Applied.map {step' : μ → τ → Except ε τ} {f : σ → τ}
    (h : ∀ m s s', step m s = .ok s' → step' m (f s) = .ok (f s')) {done : List μ} {s s' : σ}
    (happlied : Applied step done s s') : Applied step' done (f s) (f s') := by
  induction happlied with
  | nil s => exact .nil (f s)
  | cons hstep _ ih => exact .cons (h _ _ _ hstep) ih

theorem apply_all_map {step' : μ → τ → Except ε τ} {f : σ → τ}
    (h : ∀ m s, (step m s).map f = step' m (f s)) (ms : List μ) (s : σ) :
    apply_all step' ms (f s) = (f (apply_all step ms s).1, (apply_all step ms s).2) := by
  induction ms generalizing s with
  | nil => rfl
  | cons m ms ih =>
      rw [apply_all, apply_all, ← h]
      cases step m s with
      | error e => rfl
      | ok s' => exact ih s'

end Steps

/-! ## Versions -/

section Versions

variable (version : μ → ℕ) (level : σ → ℕ)

/-- The steps above what the store has had. -/
def pending (ms : List μ) (s : σ) : List μ := ms.filter fun m => decide (level s < version m)

def upgrade (step : μ → σ → Except ε σ) (ms : List μ) (s : σ) : σ × Option (μ × ε) :=
  apply_all step (pending version level ms s) s

/-- Increasing versions. -/
def Increasing (ms : List μ) : Prop := ms.Pairwise fun m m' => version m < version m'

/-- A step that applied is recorded. -/
def Records (step : μ → σ → Except ε σ) : Prop :=
  ∀ m s s', step m s = .ok s' → level s' = max (level s) (version m)

variable {version level} {step : μ → σ → Except ε σ}

theorem level_of_applied (hrec : Records version level step) {done : List μ} {s s' : σ}
    (h : Applied step done s s') :
    level s ≤ level s' ∧ (∀ m ∈ done, version m ≤ level s')
      ∧ (level s' = level s ∨ ∃ m ∈ done, level s' = version m) := by
  induction h with
  | nil s => exact ⟨Nat.le_refl _, by simp, Or.inl rfl⟩
  | @cons m rest s s' s'' hstep _ ih =>
      obtain ⟨hle, hdone, hlast⟩ := ih
      have hlevel := hrec m s s' hstep
      refine ⟨by omega, ?_, ?_⟩
      · intro m' hm'
        rcases List.mem_cons.mp hm' with rfl | hm'
        · omega
        · exact hdone m' hm'
      · rcases hlast with hlast | ⟨m', hm', hlast⟩
        · by_cases hv : version m ≤ level s
          · exact Or.inl (by omega)
          · exact Or.inr ⟨m, List.mem_cons_self, by omega⟩
        · exact Or.inr ⟨m', List.mem_cons_of_mem m hm', hlast⟩

/-- After a prefix of the pending steps, exactly the others are pending. -/
theorem pending_of_applied (hrec : Records version level step) {ms done rest : List μ} {s s' : σ}
    (hincr : Increasing version ms) (hsplit : pending version level ms s = done ++ rest)
    (h : Applied step done s s') : pending version level ms s' = rest := by
  obtain ⟨hle, hdone, hlast⟩ := level_of_applied hrec h
  have hmem : ∀ m ∈ done ++ rest, level s < version m := by
    intro m hm
    rw [← hsplit] at hm
    exact of_decide_eq_true (List.mem_filter.mp hm).2
  have hsorted : Increasing version (done ++ rest) := by
    rw [← hsplit]
    exact hincr.filter _
  -- what is above the new level is above the old one
  have hnested : pending version level ms s'
      = (done ++ rest).filter fun m => decide (level s' < version m) := by
    rw [← hsplit, pending, pending, List.filter_filter]
    refine List.filter_congr ?_
    intro m _
    by_cases hm : level s' < version m
    · rw [decide_eq_true hm, decide_eq_true (by omega : level s < version m)]
      rfl
    · rw [decide_eq_false hm]
      rfl
  rw [hnested, List.filter_append]
  have hnone : (done.filter fun m => decide (level s' < version m)) = [] := by
    rw [List.filter_eq_nil_iff]
    intro m hm
    have := hdone m hm
    simp only [decide_eq_true_eq]
    omega
  have hall : (rest.filter fun m => decide (level s' < version m)) = rest := by
    rw [List.filter_eq_self]
    intro m hm
    refine decide_eq_true ?_
    rcases hlast with hlast | ⟨m', hm', hlast⟩
    · have := hmem m (List.mem_append_right _ hm)
      omega
    · have := (List.pairwise_append.mp hsorted).2.2 m' hm' m hm
      omega
  rw [hnone, hall, List.nil_append]

/-- In increasing order, what the store has had comes before what is pending. -/
theorem had_append_pending {ms : List μ} (hincr : Increasing version ms) (s : σ) :
    (ms.filter fun m => decide (version m ≤ level s)) ++ pending version level ms s = ms := by
  rw [pending]
  induction ms with
  | nil => rfl
  | cons m ms ih =>
      obtain ⟨hfirst, hrest⟩ := List.pairwise_cons.mp hincr
      rw [List.filter_cons, List.filter_cons]
      by_cases hm : version m ≤ level s
      · rw [if_pos (decide_eq_true hm), if_neg (by simpa only [decide_eq_true_eq, Nat.not_lt] using hm),
          List.cons_append, ih hrest]
      · -- all the versions after this one are pending too
        have hnone : (ms.filter fun m => decide (version m ≤ level s)) = [] := by
          rw [List.filter_eq_nil_iff]
          intro m' hm'
          have := hfirst m' hm'
          simp only [decide_eq_true_eq]
          omega
        have hlater := ih hrest
        rw [hnone, List.nil_append] at hlater
        rw [if_neg (by simpa only [decide_eq_true_eq] using hm), hnone,
          if_pos (by simpa only [decide_eq_true_eq, Nat.not_le] using hm), hlater, List.nil_append]

/-- Going on from a point on the way ends where going from the start does. -/
theorem upgrade_of_applied (hrec : Records version level step) {ms done rest : List μ} {s s' : σ}
    (hincr : Increasing version ms) (hsplit : pending version level ms s = done ++ rest)
    (h : Applied step done s s') :
    upgrade version level step ms s' = upgrade version level step ms s := by
  rw [upgrade, upgrade, pending_of_applied hrec hincr hsplit h, hsplit, apply_all_of_applied h]

/-- A call that knew only the first steps, and may have been cut short by failures the step
itself does not have, does not change where the upgrade ends. `f` is what counts of the
store the call worked on. -/
theorem upgrade_after_call (hrec : Records version level step) {step' : μ → τ → Except ε τ}
    {f : τ → σ} (hfewer : ∀ m s s', step' m s = .ok s' → step m (f s) = .ok (f s'))
    {ms full : List μ} (hincr : Increasing version full) (hinitial : ms <+: full) (s : τ) :
    upgrade version level step full (f (upgrade version (fun s => level (f s)) step' ms s).1)
      = upgrade version level step full (f s) := by
  obtain ⟨done, rest, hsplit, happlied, -⟩ :=
    @apply_all_spec μ τ ε step' (pending version (fun s => level (f s)) ms s) s
  obtain ⟨later, rfl⟩ := hinitial
  have hpending : pending version level (ms ++ later) (f s)
      = done ++ (rest ++ pending version level later (f s)) := by
    rw [pending, List.filter_append, ← List.append_assoc, ← hsplit]
    rfl
  exact upgrade_of_applied hrec hincr hpending (happlied.map hfewer)

end Versions

end Upgrade
