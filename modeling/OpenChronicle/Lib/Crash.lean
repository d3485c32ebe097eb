/-
Programs that may stop at any point.

A program runs against a handler that may go several ways: each call takes the next of a list of
choices. If the list is used up before the program is done, the run stops there, as on a power loss. So
the runs over all lists stop at every point of every execution.

`wp` asks what holds at those points and at the end, one call at a time. `Leads` is its use for a
program whose exceptions are handled like a stop. `wp_frame` adds what no single call can break, so that
a specification has to say only what its program establishes.

`Total` and `Via` are about runs that are not stopped. If the choices are good, such a run has a result,
and on its way it passes the point that it is to pass. They are for the other half of a recovery, where
a call on what a stopped one left does its work. `Reaches` is the closure over calls, each of them
finished or stopped.
-/
import OpenChronicle.Lib.Interleave

set_option autoImplicit false

namespace Program

variable {S : Sig} {ε α β W C T : Type}

namespace Prog

variable (exec : (o : S.Op) → C → W → Except ε (S.Resp o) × W)

/-- What the program answers, or `none` if it is stopped, and the world it leaves. -/
def run_until : Prog S ε α → List C → W → Option (Except ε α) × W
  | ret a, _, w => (some (.ok a), w)
  | raise e, _, w => (some (.error e), w)
  | call _ _, [], w => (none, w)
  | call o k, c :: cs, w => (k (exec o c w).1).run_until cs (exec o c w).2

/-- The program is in `I` before each of its calls, whatever is chosen, and it ends in `Q`. -/
def wp (I : W → Prop) : Prog S ε α → (Except ε α → W → Prop) → W → Prop
  | ret a, Q, w => Q (.ok a) w
  | raise e, Q, w => Q (.error e) w
  | call o k, Q, w => I w ∧ ∀ c, (k (exec o c w).1).wp I Q (exec o c w).2

variable {exec} {I I' : W → Prop} {Q Q' : Except ε α → W → Prop} {w : W}

/-- Where a run may stop, and how it may end. -/
theorem wp_sound {p : Prog S ε α} (h : p.wp exec I Q w) (cs : List C) :
    match p.run_until exec cs w with
    | (none, w') => I w'
    | (some r, w') => Q r w' := by
  induction p generalizing w cs with
  | ret a => exact h
  | raise e => exact h
  | call o k ih =>
      rcases cs with _ | ⟨c, cs⟩
      · exact h.1
      · exact ih _ (h.2 c) cs

/-- What holds wherever a run may stop or end. -/
theorem wp_stands {p : Prog S ε α} (h : p.wp exec I (fun _ => I) w) (cs : List C) :
    I (p.run_until exec cs w).2 := by
  have hsound := wp_sound h cs
  split at hsound
  · next w' hrun =>
      rw [hrun]
      exact hsound
  · next r w' hrun =>
      rw [hrun]
      exact hsound

/-- Stopped before the first call. -/
theorem run_until_nil (p : Prog S ε α) (w : W) : (p.run_until exec [] w).2 = w := by
  cases p with
  | ret a => rfl
  | raise e => rfl
  | call o k => rfl

/-- A run of two programs stops in the first, or passes the point where the second begins. -/
theorem run_until_bind (p : Prog S ε α) (f : α → Prog S ε β) (cs : List C) (w : W) :
    (((p >>= f).run_until exec cs w).2 = (p.run_until exec cs w).2
        ∧ ∀ a, (p.run_until exec cs w).1 ≠ some (.ok a))
      ∨ ∃ cs₁ cs₂ a w₁, cs = cs₁ ++ cs₂ ∧ p.run_until exec cs₁ w = (some (.ok a), w₁)
        ∧ ∀ rest, (p >>= f).run_until exec (cs₁ ++ rest) w = (f a).run_until exec rest w₁ := by
  induction p generalizing w cs with
  | ret a => exact .inr ⟨[], cs, a, w, rfl, rfl, fun _ => rfl⟩
  | raise e => exact .inl ⟨rfl, nofun⟩
  | call o k ih =>
      rcases cs with _ | ⟨c, cs⟩
      · exact .inl ⟨rfl, nofun⟩
      · rcases ih (exec o c w).1 cs (exec o c w).2 with hfirst | ⟨cs₁, cs₂, a, w₁, rfl, hp, hrun⟩
        · exact .inl hfirst
        · exact .inr ⟨c :: cs₁, cs₂, a, w₁, rfl, hp, hrun⟩

/-- An answer changes nothing. -/
theorem run_until_pure (p : Prog S ε α) (f : α → β) (cs : List C) (w : W) :
    ((p >>= fun a => pure (f a)).run_until exec cs w).2 = (p.run_until exec cs w).2 := by
  induction p generalizing w cs with
  | ret a => rfl
  | raise e => rfl
  | call o k ih =>
      rcases cs with _ | ⟨c, cs⟩
      · rfl
      · exact ih _ cs _

/-- A run that has ended does not use up more choices. -/
theorem run_until_append {p : Prog S ε α} {cs : List C} {r : Except ε α} {w' : W}
    (h : p.run_until exec cs w = (some r, w')) (more : List C) :
    p.run_until exec (cs ++ more) w = (some r, w') := by
  induction p generalizing w cs with
  | ret a => exact h
  | raise e => exact h
  | call o k ih =>
      rcases cs with _ | ⟨c, cs⟩
      · cases h
      · exact ih _ h

/-- A run that came to its end is not changed by further choices. -/
theorem run_until_unique {p : Prog S ε α} {cs : ℕ → C} {n n' : ℕ} {r r' : Except ε α} {w' w'' : W}
    (h : p.run_until exec ((List.range n).map cs) w = (some r, w'))
    (h' : p.run_until exec ((List.range n').map cs) w = (some r', w'')) : r = r' ∧ w' = w'' := by
  wlog hle : n ≤ n' generalizing n n' r r' w' w''
  · obtain ⟨hr, hw⟩ := this h' h (by omega)
    exact ⟨hr.symm, hw.symm⟩
  obtain ⟨k, rfl⟩ := Nat.exists_eq_add_of_le hle
  rw [List.range_add, List.map_append, run_until_append h] at h'
  obtain ⟨hr, hw⟩ := Prod.mk.inj h'
  exact ⟨Option.some.inj hr, hw⟩

/-- Weaker is easier. -/
theorem wp_mono {p : Prog S ε α} (h : p.wp exec I Q w) (hI : ∀ w, I w → I' w)
    (hQ : ∀ r w, Q r w → Q' r w) : p.wp exec I' Q' w := by
  induction p generalizing w with
  | ret a => exact hQ _ _ h
  | raise e => exact hQ _ _ h
  | call o k ih => exact ⟨hI w h.1, fun c => ih _ (h.2 c)⟩

/-- One program and then another; in between the invariant of the first holds. -/
theorem wp_bind {p : Prog S ε α} {f : α → Prog S ε β} {Q : Except ε β → W → Prop} :
    (p >>= f).wp exec I Q w ↔ p.wp exec I (fun r w' => match r with
      | .ok a => (f a).wp exec I Q w'
      | .error e => Q (.error e) w') w := by
  induction p generalizing w with
  | ret a => exact Iff.rfl
  | raise e => exact Iff.rfl
  | call o k ih => exact and_congr_right fun _ => forall_congr' fun c => ih _

/-- A single call: the invariant before it, and the two ways behind it. -/
theorem wp_op {o : S.Op} {Q : Except ε (S.Resp o) → W → Prop} :
    (op o : Prog S ε (S.Resp o)).wp exec I Q w
      ↔ I w ∧ ∀ c, Q (exec o c w).1 (exec o c w).2 := by
  refine and_congr_right fun _ => forall_congr' fun c => ?_
  rcases (exec o c w).1 with e | r
  · exact Iff.rfl
  · exact Iff.rfl

/-- The body of a `try`. -/
theorem wp_attempt {p : Prog S ε α} {Q : Except ε (Except ε α) → W → Prop} :
    p.attempt.wp exec I Q w ↔ p.wp exec I (fun r w' => Q (.ok r) w') w := by
  induction p generalizing w with
  | ret a => exact Iff.rfl
  | raise e => exact Iff.rfl
  | call o k ih => exact and_congr_right fun _ => forall_congr' fun c => ih _

/-- The last part runs however the first one ends. -/
theorem wp_tryFinally {p : Prog S ε α} {fin : Prog S ε Unit}
    (h : p.wp exec I (fun r w' => fin.wp exec I (fun u w'' => match u with
      | .ok _ => Q r w''
      | .error e => Q (.error e) w'') w') w) : (p.tryFinally fin).wp exec I Q w := by
  refine wp_bind.mpr (wp_attempt.mpr (wp_mono h (fun _ => id) ?_))
  intro r w' hfin
  rcases r with e | a
  · refine wp_bind.mpr (wp_mono hfin (fun _ => id) ?_)
    rintro (e' | u) w'' hu
    · exact hu
    · exact hu
  · refine wp_bind.mpr (wp_mono hfin (fun _ => id) ?_)
    rintro (e' | u) w'' hu
    · exact hu
    · exact hu

/-- `wp_tryFinally`, with the outcome as one term. -/
theorem wp_finally {p : Prog S ε α} {fin : Prog S ε Unit}
    (h : p.wp exec I (fun r w' => fin.wp exec I (fun u w'' => Q (u.bind fun _ => r) w'') w') w) :
    (p.tryFinally fin).wp exec I Q w := by
  refine wp_tryFinally (wp_mono h (fun _ => id) ?_)
  intro r w' hfin
  refine wp_mono hfin (fun _ => id) ?_
  rintro (e | u) w'' hQ
  · exact hQ
  · exact hQ

/-- What holds of two specifications of a program holds together. -/
theorem wp_and {p : Prog S ε α} (h : p.wp exec I Q w) (h' : p.wp exec I' Q' w) :
    p.wp exec (fun w => I w ∧ I' w) (fun r w => Q r w ∧ Q' r w) w := by
  induction p generalizing w with
  | ret a => exact ⟨h, h'⟩
  | raise e => exact ⟨h, h'⟩
  | call o k ih => exact ⟨⟨h.1, h'.1⟩, fun c => ih _ (h.2 c) (h'.2 c)⟩

section Frame

variable {R : W → W → Prop}

/-- What each call of the program keeps, the program keeps. -/
theorem wp_of_makes (hrefl : ∀ w, R w w) (htrans : ∀ w₁ w₂ w₃, R w₁ w₂ → R w₂ w₃ → R w₁ w₃)
    {p : Prog S ε α} (hp : p.Makes fun o => ∀ c w, R w (exec o c w).2) :
    p.wp exec (R w) (fun _ => R w) w := by
  induction p generalizing w with
  | ret a => exact hrefl w
  | raise e => exact hrefl w
  | call o k ih =>
      refine ⟨hrefl w, ?_⟩
      intro c
      have hstep : R w (exec o c w).2 := hp.1 c w
      refine wp_mono (ih _ (hp.2 _)) ?_ ?_
      · intro w' hw'
        exact htrans _ _ _ hstep hw'
      · intro _ w' hw'
        exact htrans _ _ _ hstep hw'

/-- **Frame.** A specification, together with what each call keeps. -/
theorem wp_frame (hrefl : ∀ w, R w w) (htrans : ∀ w₁ w₂ w₃, R w₁ w₂ → R w₂ w₃ → R w₁ w₃)
    {p : Prog S ε α} (hp : p.Makes fun o => ∀ c w, R w (exec o c w).2) (h : p.wp exec I Q w) :
    p.wp exec (fun w' => I w' ∧ R w w') (fun r w' => Q r w' ∧ R w w') w :=
  wp_and h (wp_of_makes hrefl htrans hp)

end Frame

/-- The end of a program whose exceptions are handled like a stop. -/
def Ends (I : W → Prop) (R : α → W → Prop) : Except ε α → W → Prop
  | .ok a, w => R a w
  | .error _, w => I w

variable (exec I) in
/-- The program is in `I` before each of its calls and if it raises, and what it returns
satisfies `R`. -/
def Leads (p : Prog S ε α) (R : α → W → Prop) (w : W) : Prop := p.wp exec I (Ends I R) w

/-- In sequence, -/
theorem leads_bind {p : Prog S ε α} {f : α → Prog S ε β} {R : β → W → Prop} :
    (p >>= f).Leads exec I R w ↔ p.Leads exec I (fun a w' => (f a).Leads exec I R w') w := by
  have hsame : (fun (r : Except ε α) w' => match r with
      | .ok a => (f a).wp exec I (Ends I R) w'
      | .error e => Ends I R (.error e) w')
      = Ends I fun a w' => (f a).Leads exec I R w' := by
    funext r w'
    rcases r with e | a
    · rfl
    · rfl
  unfold Leads
  rw [wp_bind, hsame]
  rfl

/-- and weakened. -/
theorem leads_mono {p : Prog S ε α} {R R' : α → W → Prop} (h : p.Leads exec I R w)
    (hR : ∀ a w, R a w → R' a w) : p.Leads exec I R' w := by
  refine wp_mono h (fun _ => id) ?_
  intro r w' hr
  rcases r with e | a
  · exact hr
  · exact hR a w' hr

/-- Where a run stops or ends. -/
theorem leads_sound {p : Prog S ε α} (h : p.Leads exec I (fun _ => I) w) (cs : List C) :
    I (p.run_until exec cs w).2 := by
  refine wp_stands (wp_mono h (fun _ => id) ?_) cs
  rintro (e | a) w' hend
  · exact hend
  · exact hend

/-- What a run that returns has established. -/
theorem leads_returns {p : Prog S ε α} {R : α → W → Prop} (h : p.Leads exec I R w) {cs : List C}
    {a : α} {w' : W} (hrun : p.run_until exec cs w = (some (.ok a), w')) : R a w' := by
  have hsound := wp_sound h cs
  rw [hrun] at hsound
  exact hsound

/-- Where a run that has not returned stops. -/
theorem leads_stops {p : Prog S ε α} {R : α → W → Prop} (h : p.Leads exec I R w) {cs : List C}
    (hrun : ∀ a, (p.run_until exec cs w).1 ≠ some (.ok a)) : I (p.run_until exec cs w).2 := by
  have hsound := wp_sound h cs
  rcases hend : p.run_until exec cs w with ⟨_ | (e | a), w'⟩
  · rw [hend] at hsound
    exact hsound
  · rw [hend] at hsound
    exact hsound
  · rw [hend] at hrun
    exact absurd rfl (hrun a)

/-- Nothing is asked of the program. -/
theorem leads_trivial (p : Prog S ε α) (w : W) :
    p.Leads exec (fun _ => True) (fun _ _ => True) w := by
  induction p generalizing w with
  | ret a => trivial
  | raise e => trivial
  | call o k ih => exact ⟨trivial, fun c => ih _ _⟩

/-! ### Runs that go well

The other half of a specification: when every choice is a good one, the program comes to an
end, and the end is as wanted. `Via` also asks for a point that the run passes. -/

section Total

/-- The end of a program, by the way it ends. -/
def Outcome (R : α → W → Prop) (E : ε → W → Prop) : Except ε α → W → Prop
  | .ok a, w => R a w
  | .error e, w => E e w

variable (exec) (good : C → Prop)

/-- If its choices are good, the program ends, with `R` if it returns and `E` if it raises. -/
def Total (p : Prog S ε α) (R : α → W → Prop) (E : ε → W → Prop) (w : W) : Prop :=
  p.wp (fun o (c : {c // good c}) w => exec o c.val w) (fun _ => True) (Outcome R E) w

/-- If its choices are good, the program passes a point in `X` and then ends likewise. -/
def Via (X : W → Prop) (R : α → W → Prop) (E : ε → W → Prop) : Prog S ε α → W → Prop
  | ret a, w => X w ∧ R a w
  | raise e, w => X w ∧ E e w
  | call o k, w => (X w ∧ (call o k).Total exec good R E w)
      ∨ ∀ c, good c → (k (exec o c w).1).Via X R E (exec o c w).2

variable {exec good} {X : W → Prop} {E : ε → W → Prop}

/-- Forgetting the points on the way: where the program raises, the invariant says what is asked there. -/
theorem total_of_leads {p : Prog S ε α} {R : α → W → Prop} (h : p.Leads exec I R w)
    (hE : ∀ e w', I w' → E e w') : p.Total exec good R E w := by
  induction p generalizing w with
  | ret a => exact h
  | raise e => exact hE e w h
  | call o k ih => exact ⟨trivial, fun c => ih _ (h.2 c.val)⟩

/-- Two facts about one end. -/
theorem total_and {p : Prog S ε α} {R R' : α → W → Prop} {E' : ε → W → Prop}
    (h : p.Total exec good R E w) (h' : p.Total exec good R' E' w) :
    p.Total exec good (fun a w => R a w ∧ R' a w) (fun e w => E e w ∧ E' e w) w := by
  refine wp_mono (wp_and h h') (fun _ _ => trivial) ?_
  rintro (e | a) w' h
  · exact h
  · exact h

theorem total_mono {p : Prog S ε α} {R R' : α → W → Prop} {E' : ε → W → Prop}
    (h : p.Total exec good R E w) (hR : ∀ a w, R a w → R' a w) (hE : ∀ e w, E e w → E' e w) :
    p.Total exec good R' E' w := by
  refine wp_mono h (fun _ => id) ?_
  rintro (e | a) w' h
  · exact hE e w' h
  · exact hR a w' h

/-- In sequence; the good choices of the first leave a state in which those of the second are looked at. -/
theorem total_bind {p : Prog S ε α} {f : α → Prog S ε β} {R : β → W → Prop}
    (h : p.Total exec good (fun a w' => (f a).Total exec good R E w') E w) :
    (p >>= f).Total exec good R E w := by
  refine wp_bind.mpr (wp_mono h (fun _ => id) ?_)
  rintro (e | a) w' h
  · exact h
  · exact h

/-- A single call, over its good choices. -/
theorem total_op {o : S.Op} {R : S.Resp o → W → Prop}
    (h : ∀ c, good c → Outcome R E (exec o c w).1 (exec o c w).2) :
    (op o : Prog S ε (S.Resp o)).Total exec good R E w :=
  wp_op.mpr ⟨trivial, fun c => h c.val c.property⟩

/-- What is to be passed may hold already. -/
theorem via_now {p : Prog S ε α} {R : α → W → Prop} (hX : X w) (h : p.Total exec good R E w) :
    p.Via exec good X R E w := by
  cases p with
  | ret a => exact ⟨hX, h⟩
  | raise e => exact ⟨hX, h⟩
  | call o k => exact .inl ⟨hX, h⟩

/-- The point comes after the first part. -/
theorem via_bind {p : Prog S ε α} {f : α → Prog S ε β} {R : β → W → Prop}
    (h : p.Total exec good (fun a w' => (f a).Via exec good X R E w') (fun e w' => X w' ∧ E e w') w) :
    (p >>= f).Via exec good X R E w := by
  induction p generalizing w with
  | ret a => exact h
  | raise e => exact h
  | call o k ih => exact .inr fun c hc => ih _ (h.2 ⟨c, hc⟩)

/-- The point comes before the second part. -/
theorem via_then {p : Prog S ε α} {f : α → Prog S ε β} {R : β → W → Prop}
    (h : p.Via exec good X (fun a w' => (f a).Total exec good R E w') E w) :
    (p >>= f).Via exec good X R E w := by
  induction p generalizing w with
  | ret a => exact via_now h.1 h.2
  | raise e => exact h
  | call o k ih =>
      rcases h with ⟨hX, htotal⟩ | hlater
      · exact .inl ⟨hX, total_bind htotal⟩
      · exact .inr fun c hc => ih _ (hlater c hc)

theorem map_range_succ (cs : ℕ → C) (n : ℕ) :
    (List.range (n + 1)).map cs = cs 0 :: (List.range n).map fun i => cs (i + 1) := by
  rw [List.range_succ_eq_map, List.map_cons, List.map_map]
  rfl

/-- A program comes to its end, if it is given choices enough. -/
theorem wp_ends {p : Prog S ε α} (h : p.wp exec I Q w) (cs : ℕ → C) :
    ∃ n r w', p.run_until exec ((List.range n).map cs) w = (some r, w') ∧ Q r w' := by
  induction p generalizing w cs with
  | ret a => exact ⟨0, _, _, rfl, h⟩
  | raise e => exact ⟨0, _, _, rfl, h⟩
  | call o k ih =>
      obtain ⟨n, r, w', hrun, hr⟩ := ih _ (h.2 (cs 0)) fun i => cs (i + 1)
      refine ⟨n + 1, r, w', ?_, hr⟩
      rw [map_range_succ]
      exact hrun

/-- **The program ends.** The induction is on the program, so that there is an end at all. -/
theorem total_ends {p : Prog S ε α} {R : α → W → Prop} (h : p.Total exec good R E w) (cs : ℕ → C)
    (hcs : ∀ n, good (cs n)) :
    ∃ n r w', p.run_until exec ((List.range n).map cs) w = (some r, w') ∧ Outcome R E r w' := by
  induction p generalizing w cs with
  | ret a => exact ⟨0, _, _, rfl, h⟩
  | raise e => exact ⟨0, _, _, rfl, h⟩
  | call o k ih =>
      obtain ⟨n, r, w', hrun, hr⟩ := ih _ (h.2 ⟨cs 0, hcs 0⟩) (fun i => cs (i + 1)) fun i => hcs (i + 1)
      refine ⟨n + 1, r, w', ?_, hr⟩
      rw [map_range_succ]
      exact hrun

/-- The run that passes it, and where it stands when it does. -/
theorem via_ends {p : Prog S ε α} {R : α → W → Prop} (h : p.Via exec good X R E w) (cs : ℕ → C)
    (hcs : ∀ n, good (cs n)) :
    ∃ k n r w', k ≤ n ∧ X (p.run_until exec ((List.range k).map cs) w).2
      ∧ p.run_until exec ((List.range n).map cs) w = (some r, w') ∧ Outcome R E r w' := by
  induction p generalizing w cs with
  | ret a => exact ⟨0, 0, _, _, Nat.le_refl 0, h.1, rfl, h.2⟩
  | raise e => exact ⟨0, 0, _, _, Nat.le_refl 0, h.1, rfl, h.2⟩
  | call o k ih =>
      rcases h with ⟨hX, htotal⟩ | hlater
      · obtain ⟨n, r, w', hrun, hr⟩ := total_ends htotal cs hcs
        exact ⟨0, n, r, w', Nat.zero_le n, hX, hrun, hr⟩
      · obtain ⟨j, n, r, w', hle, hX, hrun, hr⟩ :=
          ih _ (hlater (cs 0) (hcs 0)) (fun i => cs (i + 1)) fun i => hcs (i + 1)
        refine ⟨j + 1, n + 1, r, w', Nat.succ_le_succ hle, ?_, ?_, hr⟩
        · rw [map_range_succ]
          exact hX
        · rw [map_range_succ]
          exact hrun

end Total

end Prog

/-! ## Calls one after the other -/

section Runs

variable (exec : (o : S.Op) → C → W → Except ε (S.Resp o) × W) (prog : T → Prog S ε α)

/-- The world after one call, finished or stopped. -/
def after_call (t : T) (cs : List C) (w : W) : W := ((prog t).run_until exec cs w).2

/-- What calls lead to, each of them started where the last one ended or was stopped. -/
inductive Reaches (w : W) : W → Prop
  | refl : Reaches w w
  | call {w' : W} (h : Reaches w w') (t : T) (cs : List C) : Reaches w (after_call exec prog t cs w')

/-- The same, through worlds in which `P` holds whenever a call is started. -/
inductive ReachesWhile (P : W → Prop) (w : W) : W → Prop
  | refl : ReachesWhile P w w
  | call {w' : W} (h : ReachesWhile P w w') (hw' : P w') (t : T) (cs : List C) :
      ReachesWhile P w (after_call exec prog t cs w')

variable {exec prog}

/-- Forgetting what held on the way. -/
theorem ReachesWhile.reaches {P : W → Prop} {w w' : W} (h : ReachesWhile exec prog P w w') :
    Reaches exec prog w w' := by
  induction h with
  | refl => exact .refl
  | call _ _ t cs ih => exact ih.call t cs

/-- One sequence of calls after another. -/
theorem ReachesWhile.trans {P : W → Prop} {w₁ w₂ w₃ : W} (h₁ : ReachesWhile exec prog P w₁ w₂)
    (h₂ : ReachesWhile exec prog P w₂ w₃) : ReachesWhile exec prog P w₁ w₃ := by
  induction h₂ with
  | refl => exact h₁
  | call _ hw' t cs ih => exact ih.call hw' t cs

/-- What every call keeps where `P` holds, holds from then on. -/
theorem ReachesWhile.keeps {P I : W → Prop} {w w' : W} (h : ReachesWhile exec prog P w w')
    (hcall : ∀ t cs w'', Reaches exec prog w w'' → P w'' → I w'' → I (after_call exec prog t cs w''))
    (hw : I w) : I w' := by
  induction h with
  | refl => exact hw
  | call hr hw' t cs ih => exact hcall t cs _ hr.reaches hw' ih

theorem Reaches.trans {w₁ w₂ w₃ : W} (h₁ : Reaches exec prog w₁ w₂) (h₂ : Reaches exec prog w₂ w₃) :
    Reaches exec prog w₁ w₃ := by
  induction h₂ with
  | refl => exact h₁
  | call _ t cs ih => exact ih.call t cs

/-- What every call keeps holds from then on. -/
theorem Reaches.keeps {I : W → Prop} {w w' : W} (h : Reaches exec prog w w')
    (hcall : ∀ t cs w'', Reaches exec prog w w'' → I w'' → I (after_call exec prog t cs w''))
    (hw : I w) : I w' := by
  induction h with
  | refl => exact hw
  | call hr t cs ih => exact hcall t cs _ hr ih

end Runs

end Program
