/-
A lock that the threads of a machine share.

The world knows only whether the lock is free. Who holds it is told by the log: `holder`. A thread knows
its own calls, and from them whether it holds the lock: `holds`. `Mutex` lists what single steps owe to
the lock, and `Bracketed` what a program owes to it; then the two accounts agree in every run, so that
what a program does between taking the lock and giving it back is done by one thread at a time,
whichever way the threads interleave.

An instance has three things to give: the operations of its machine that ask for the lock and give it
back, a proof for single steps that nothing else moves it, and a proof for each task, over its program
text, that it asks only when it does not hold the lock and gives back only when it does. The last is
`Bracketed`, and `sat_under` and `sat_outside` cover the long parts of a program that have nothing to do
with the lock. The run lemma `reach_agreed` is then used as it is.

A lock that is asked for without waiting is covered too: who asks in vain has an answer that says so,
and goes on without the lock.
-/
import OpenChronicle.Lib.Interleave

set_option autoImplicit false

namespace Program

open Machine

variable {S : Sig} {ε : Type}

/-- A lock of the world: which operations ask for it and by which answer they get it, which give it back, and that
no step does anything else to it. Who asks in vain has found it taken; an act that ends every thread frees it. -/
structure Mutex (M : Machine S ε) where
  asks : S.Op → Bool
  won : Call S ε → Bool
  gives : S.Op → Bool
  free : M.World → Prop
  taken : ∀ {t o choice w r w'}, M.exec t o choice w = some (r, w') → asks o = true → won ⟨o, r⟩ = true →
    free w ∧ ¬ free w'
  refused : ∀ {t o choice w r w'}, M.exec t o choice w = some (r, w') → asks o = true → won ⟨o, r⟩ = false →
    ¬ free w ∧ ¬ free w'
  given : ∀ {t o choice w r w'}, M.exec t o choice w = some (r, w') → gives o = true → free w'
  passed : ∀ {t o choice w r w'}, M.exec t o choice w = some (r, w') → asks o = false → gives o = false →
    (free w' ↔ free w)
  launched : ∀ {task w w'}, M.launch task w = some w' → (free w' ↔ free w)
  killed : ∀ {e} (w : M.World), M.kills e = true → free (M.env e w)
  lived : ∀ {e} (w : M.World), M.kills e = false → (free (M.env e w) ↔ free w)

namespace Mutex

variable {M : Machine S ε} (L : Mutex M)

/-- The call asked for the lock and got it. -/
def takes (c : Call S ε) : Bool := L.asks c.op && L.won c

/-- Asked, and got it. -/
theorem takes_iff {c : Call S ε} : L.takes c = true ↔ L.asks c.op = true ∧ L.won c = true := Bool.and_eq_true_iff

/-- Who does not ask does not get. -/
theorem not_takes {c : Call S ε} (hc : L.asks c.op = false) : L.takes c = false := by
  rw [takes, hc, Bool.false_and]

section Step

variable {t : ℕ} {o : S.Op} {choice : M.Choice} {w w' : M.World} {r : Except ε (S.Resp o)}

/-- The lock is given out only when it is free, and is not free afterwards. -/
theorem free_of_takes (hx : M.exec t o choice w = some (r, w')) (ht : L.takes ⟨o, r⟩ = true) :
    L.free w ∧ ¬ L.free w' := by
  obtain ⟨hasks, hwon⟩ := L.takes_iff.mp ht
  exact L.taken hx hasks hwon

/-- Asking in vain is no more to the lock than any other call. -/
theorem free_iff_of_passes (hx : M.exec t o choice w = some (r, w')) (ht : L.takes ⟨o, r⟩ = false)
    (hg : L.gives o = false) : L.free w' ↔ L.free w := by
  cases hasks : L.asks o with
  | true =>
      rw [takes, hasks, Bool.true_and] at ht
      -- it was taken before, and is still
      obtain ⟨hbefore, hafter⟩ := L.refused hx hasks ht
      exact iff_of_false hafter hbefore
  | false => exact L.passed hx hasks hg

end Step

/-! ## Who holds the lock -/

/-- Whether a thread holds the lock after its own calls, the newest first. -/
def holds : List (Call S ε) → Bool
  | [] => false
  | c :: h => L.takes c || (!L.gives c.op && holds h)

/-- The thread that holds the lock, as the log tells it. -/
def holder : List M.Event → Option ℕ
  | [] => none
  | .started _ _ :: log => holder log
  | .called t c :: log => if L.takes c then some t else if L.gives c.op then none else holder log
  | .env e :: log => if M.kills e then none else holder log

/-- The three lemmas for the newest call: it takes the lock, -/
theorem holds_takes {c : Call S ε} (h : List (Call S ε)) (hc : L.takes c = true) : L.holds (c :: h) = true := by
  rw [holds, hc, Bool.true_or]

/-- or gives it back, -/
theorem holds_gives {c : Call S ε} (h : List (Call S ε)) (ht : L.takes c = false) (hg : L.gives c.op = true) :
    L.holds (c :: h) = false := by
  rw [holds, ht, hg]
  rfl

/-- or does neither, and then the calls before it decide. -/
theorem holds_passes {c : Call S ε} (h : List (Call S ε)) (ht : L.takes c = false) (hg : L.gives c.op = false) :
    L.holds (c :: h) = L.holds h := by
  rw [holds, ht, hg]
  rfl

/-! ## What a program owes -/

/-- The lock is asked for by a thread that does not hold it, given back by one that does, and the calls of `inside`
are made under it. -/
structure Respects (inside : S.Op → Prop) (h : List (Call S ε)) (c : Call S ε) : Prop where
  ask : L.asks c.op = true → L.holds h = false
  give : L.gives c.op = true → L.holds h = true
  inside : inside c.op → L.holds h = true

/-- Every task respects the lock, and none ends with it. -/
def Bracketed (inside : M.Task → S.Op → Prop) : Prop :=
  ∀ task, (M.prog task).Sat (L.Respects (inside task)) (fun h _ => L.holds h = false) []

/-- Operations that neither ask nor give. -/
def Passes (P : S.Op → Prop) : Prop := ∀ o, P o → L.asks o = false ∧ L.gives o = false

/-- A program that leaves the lock alone may make any call under it, -/
theorem sat_under {P : S.Op → Prop} (hP : L.Passes P) {α : Type} {p : Prog S ε α} (hp : p.Makes P)
    (inside : S.Op → Prop) {h : List (Call S ε)} (hh : L.holds h = true) :
    p.Sat (L.Respects inside) (fun h' _ => L.holds h' = true) h := by
  induction p generalizing h with
  | ret a => exact hh
  | raise e => exact hh
  | call o k ih =>
      intro r
      obtain ⟨ha, hg⟩ := hP o hp.1
      have hask : L.asks o = true → L.holds h = false := by
        intro htrue
        rw [ha] at htrue
        cases htrue
      refine ⟨⟨hask, fun _ => hh, fun _ => hh⟩, ih r (hp.2 r) ?_⟩
      rw [L.holds_passes h (L.not_takes ha) hg]
      exact hh

/-- and outside it the calls that are not of `inside`. -/
theorem sat_outside {P : S.Op → Prop} (hP : L.Passes P) {α : Type} {p : Prog S ε α} (hp : p.Makes P)
    {inside : S.Op → Prop} (hnone : ∀ o, P o → ¬ inside o) {h : List (Call S ε)} (hh : L.holds h = false) :
    p.Sat (L.Respects inside) (fun h' _ => L.holds h' = false) h := by
  induction p generalizing h with
  | ret a => exact hh
  | raise e => exact hh
  | call o k ih =>
      intro r
      obtain ⟨ha, hg⟩ := hP o hp.1
      have hgive : L.gives o = true → L.holds h = true := by
        intro htrue
        rw [hg] at htrue
        cases htrue
      refine ⟨⟨fun _ => hh, hgive, fun hin => absurd hin (hnone o hp.1)⟩, ih r (hp.2 r) ?_⟩
      rw [L.holds_passes h (L.not_takes ha) hg]
      exact hh

/-! ## Every run -/

/-- What the log says where a thread calls something of the lock: who gets it finds it free, who asks in vain finds
another thread with it, and who gives it back or makes a call of `inside` has it. -/
structure Exclusion (inside : M.Task → S.Op → Prop) (pre : List M.Event) (t : ℕ) (c : Call S ε) : Prop where
  take : L.takes c = true → L.holder pre = none
  refuse : L.asks c.op = true → L.won c = false → ∃ u, u ≠ t ∧ L.holder pre = some u
  give : L.gives c.op = true → L.holder pre = some t
  inside : ∀ task, .started t task ∈ pre → inside task c.op → L.holder pre = some t

/-- Of the events only calls have something to do with the lock. -/
def Exclusive (inside : M.Task → S.Op → Prop) (pre : List M.Event) : M.Event → Prop
  | .called t c => L.Exclusion inside pre t c
  | _ => True

/-- The world, the threads and the log agree on the lock. -/
structure Agreed (inside : M.Task → S.Op → Prop) (c : M.Conf) : Prop where
  free_iff : L.free c.world ↔ L.holder c.log = none
  holds_iff : ∀ t p, c.threads t = some p → (L.holds (own t c.log) = true ↔ L.holder c.log = some t)
  live : ∀ t, L.holder c.log = some t → ∃ p, c.threads t = some p
  each : Each (L.Exclusive inside) c.log

/-- The lock leaves a thread's hands only where the thread gives it back or every thread ends. -/
theorem holder_moves {inside : M.Task → S.Op → Prop} {pre log : List M.Event} {t : ℕ}
    (hlog : Each (L.Exclusive inside) log) (hpre : pre <:+ log) (ht : L.holder pre = some t)
    (hne : L.holder log ≠ some t) : ∃ e before, e :: before <:+ log ∧ pre <:+ before
      ∧ ((∃ c, e = .called t c ∧ L.gives c.op = true) ∨ ∃ a, e = .env a ∧ M.kills a = true) := by
  induction log with
  | nil =>
      rw [List.suffix_nil.mp hpre] at ht
      exact absurd ht hne
  | cons e log ih =>
      obtain ⟨hevent, hrest⟩ := each_cons.mp hlog
      rcases List.suffix_cons_iff.mp hpre with rfl | hpre
      · exact absurd ht hne
      by_cases hhere : L.holder log = some t
      · -- this is the event
        refine ⟨e, log, List.suffix_refl _, hpre, ?_⟩
        rcases e with ⟨u, task⟩ | ⟨u, c⟩ | a
        · exact absurd hhere hne
        · rw [holder] at hne
          cases htakes : L.takes c with
          | true =>
              rw [hevent.take htakes] at hhere
              cases hhere
          | false =>
              rw [htakes, if_neg Bool.false_ne_true] at hne
              cases hgives : L.gives c.op with
              | true =>
                  obtain rfl := Option.some.inj ((hevent.give hgives).symm.trans hhere)
                  exact .inl ⟨c, rfl, hgives⟩
              | false =>
                  rw [hgives, if_neg Bool.false_ne_true] at hne
                  exact absurd hhere hne
        · rw [holder] at hne
          cases hkill : M.kills a with
          | true => exact .inr ⟨a, rfl, hkill⟩
          | false =>
              rw [hkill, if_neg Bool.false_ne_true] at hne
              exact absurd hhere hne
      · obtain ⟨e', before, hsuf, hbefore, hmoved⟩ := ih hrest hpre hhere
        exact ⟨e', before, hsuf.trans (List.suffix_cons _ _), hbefore, hmoved⟩

section Steps

variable {inside : M.Task → S.Op → Prop} {Q : M.Task → List (Call S ε) → Except ε Unit → Prop} {c : M.Conf}

/-- No thread runs, and the lock is free. -/
theorem agreed_initial {w : M.World} (hw : L.free w) : L.Agreed inside (Conf.initial w) := by
  refine ⟨iff_of_true hw rfl, ?_, ?_, each_nil⟩
  · intro t p hp
    cases hp
  · intro t ht
    cases ht

/-- A thread starts outside. -/
theorem Agreed.start {L : Mutex M} (hc : L.Agreed inside c)
    (ho : InOrder (fun task => L.Respects (inside task)) Q c) {task : M.Task} {w : M.World}
    (hw : M.launch task c.world = some w) :
    L.Agreed inside { world := w, log := .started c.next task :: c.log,
                      threads := Function.update c.threads c.next (some (M.prog task)),
                      next := c.next + 1 } := by
  obtain ⟨hnone, hown⟩ := ho.unused c.next (Nat.le_refl _)
  -- nobody has this number yet, the holder least of all
  have hholder : L.holder c.log ≠ some c.next := by
    intro hh
    obtain ⟨p, hp⟩ := hc.live c.next hh
    rw [hnone] at hp
    cases hp
  refine ⟨(L.launched hw).trans hc.free_iff, ?_, ?_, each_cons.mpr ⟨trivial, hc.each⟩⟩
  · intro t p hp
    by_cases ht : t = c.next
    · subst ht
      dsimp only
      rw [own_started, hown]
      exact iff_of_false Bool.false_ne_true hholder
    · dsimp only at hp
      rw [Function.update_of_ne ht] at hp
      exact hc.holds_iff t p hp
  · intro t hh
    by_cases ht : t = c.next
    · exact absurd (ht ▸ hh) hholder
    · dsimp only
      rw [Function.update_of_ne ht]
      exact hc.live t hh

/-- A call moves the lock as its kind says. -/
theorem Agreed.call {L : Mutex M} (hc : L.Agreed inside c)
    (ho : InOrder (fun task => L.Respects (inside task)) Q c) {t : ℕ} {o : S.Op}
    {k : Except ε (S.Resp o) → Prog S ε Unit} (hk : c.threads t = some (.call o k)) {choice : M.Choice}
    {r : Except ε (S.Resp o)} {w : M.World} (hx : M.exec t o choice c.world = some (r, w)) :
    L.Agreed inside { c with world := w, log := .called t ⟨o, r⟩ :: c.log,
                             threads := Function.update c.threads t (some (k r)) } := by
  obtain ⟨task, hstarted, hsat⟩ := ho.live t _ hk
  have hcall := (hsat r).1
  have hmine := hc.holds_iff t _ hk
  -- the program's own history says what the call may be, the agreement who holds the lock
  have hexclusion : L.Exclusion inside c.log t ⟨o, r⟩ := by
    refine ⟨fun ht => hc.free_iff.mp (L.free_of_takes hx ht).1, ?_, fun hg => hmine.mp (hcall.give hg), ?_⟩
    · intro hasks hwon
      cases hholder : L.holder c.log with
      | none => exact absurd (hc.free_iff.mpr hholder) (L.refused hx hasks hwon).1
      | some u =>
          refine ⟨u, ?_, rfl⟩
          rintro rfl
          exact absurd ((hcall.ask hasks).symm.trans (hmine.mpr hholder)) Bool.false_ne_true
    · intro task' hstarted' hin
      -- a thread has one task
      rw [ho.once t task' task hstarted' hstarted] at hin
      exact hmine.mp (hcall.inside hin)
  have hlive : ∀ u p, c.threads u = some p → ∃ p', Function.update c.threads t (some (k r)) u = some p' := by
    intro u p hp
    by_cases hu : u = t
    · exact ⟨k r, by rw [hu, Function.update_self]⟩
    · exact ⟨p, by rw [Function.update_of_ne hu, hp]⟩
  refine ⟨?_, ?_, ?_, each_cons.mpr ⟨hexclusion, hc.each⟩⟩
  · dsimp only
    rw [holder]
    cases htakes : L.takes ⟨o, r⟩ with
    | true =>
        rw [if_pos rfl]
        exact iff_of_false (L.free_of_takes hx htakes).2 nofun
    | false =>
        rw [if_neg Bool.false_ne_true]
        cases hgives : L.gives o with
        | true =>
            rw [if_pos rfl]
            exact iff_of_true (L.given hx hgives) rfl
        | false =>
            rw [if_neg Bool.false_ne_true]
            exact (L.free_iff_of_passes hx htakes hgives).trans hc.free_iff
  · intro u p hp
    dsimp only at hp ⊢
    by_cases hu : u = t
    · -- the thread itself
      rw [hu, own_called_self, holder]
      cases htakes : L.takes ⟨o, r⟩ with
      | true =>
          rw [if_pos rfl, L.holds_takes _ htakes]
          exact iff_of_true rfl rfl
      | false =>
          rw [if_neg Bool.false_ne_true]
          cases hgives : L.gives o with
          | true =>
              rw [if_pos rfl, L.holds_gives _ htakes hgives]
              exact iff_of_false Bool.false_ne_true nofun
          | false =>
              rw [if_neg Bool.false_ne_true, L.holds_passes _ htakes hgives]
              exact hmine
    · -- another one, whose calls are as before: it did not hold what was taken or given back here
      rw [Function.update_of_ne hu] at hp
      have hother := hc.holds_iff u p hp
      rw [own_called_ne (Ne.symm hu), hother, holder]
      cases htakes : L.takes ⟨o, r⟩ with
      | true =>
          rw [if_pos rfl, hexclusion.take htakes]
          exact iff_of_false nofun fun h => hu (Option.some.inj h).symm
      | false =>
          rw [if_neg Bool.false_ne_true]
          cases hgives : L.gives o with
          | true =>
              rw [if_pos rfl, hexclusion.give hgives]
              exact iff_of_false (fun h => hu (Option.some.inj h).symm) nofun
          | false => rw [if_neg Bool.false_ne_true]
  · intro u hu
    dsimp only at hu ⊢
    rw [holder] at hu
    split at hu
    · obtain rfl := Option.some.inj hu
      exact hlive t _ hk
    · split at hu
      · cases hu
      · obtain ⟨p, hp⟩ := hc.live u hu
        exact hlive u p hp

/-- An act of the environment ends every thread and frees the lock, or touches neither. -/
theorem Agreed.env {L : Mutex M} (hc : L.Agreed inside c) (e : M.Env) :
    L.Agreed inside { c with world := M.env e c.world, log := .env e :: c.log,
                             threads := if M.kills e then fun _ => none else c.threads } := by
  cases hkill : M.kills e with
  | true =>
      have hholder : L.holder (.env e :: c.log) = none := by
        rw [holder, if_pos hkill]
      refine ⟨iff_of_true (L.killed _ hkill) hholder, ?_, ?_, each_cons.mpr ⟨trivial, hc.each⟩⟩
      · intro t p hp
        cases hp
      · intro t ht
        rw [hholder] at ht
        cases ht
  | false =>
      have hholder : L.holder (.env e :: c.log) = L.holder c.log := by
        rw [holder, hkill, if_neg Bool.false_ne_true]
      refine ⟨?_, ?_, ?_, each_cons.mpr ⟨trivial, hc.each⟩⟩
      · rw [hholder]
        exact (L.lived _ hkill).trans hc.free_iff
      · intro t p hp
        rw [hholder]
        exact hc.holds_iff t p hp
      · intro t ht
        rw [hholder] at ht
        exact hc.live t ht

end Steps

section Runs

variable {inside : M.Task → S.Op → Prop} {ok : M.Conf → M.Action → Prop} {w : M.World} {c : M.Conf}

/-- **Mutual exclusion.** In every run of programs that respect the lock. -/
theorem reach_agreed (hL : L.Bracketed inside) (hw : L.free w) (h : Reach ok (Conf.initial w) c) :
    L.Agreed inside c := by
  induction h with
  | init => exact L.agreed_initial hw
  | @step c c' a hr ha hs ih =>
      have ho := reach_inOrder hL hr
      obtain ⟨task, w, -, hw, rfl⟩ | ⟨t, choice, o, k, r, w, -, hk, hx, rfl⟩ | ⟨e, -, rfl⟩ := Conf.step_cases hs
      · exact ih.start ho hw
      · exact ih.call ho hk hx
      · exact ih.env e

/-- Who holds the lock is at a call of its program still: the lock does not outlast the program. -/
theorem holder_runs (hL : L.Bracketed inside) (hw : L.free w) (h : Reach ok (Conf.initial w) c) {t : ℕ}
    (ht : L.holder c.log = some t) : ∃ o k, c.threads t = some (.call o k) := by
  have hc := L.reach_agreed hL hw h
  obtain ⟨p, hp⟩ := hc.live t ht
  -- a program that has ended does not hold the lock
  have hholds : L.holds (own t c.log) = true := (hc.holds_iff t p hp).mpr ht
  obtain ⟨task, -, hsat⟩ := (reach_inOrder hL h).live t p hp
  cases p with
  | ret a => exact absurd (hsat.symm.trans hholds) Bool.false_ne_true
  | raise e => exact absurd (hsat.symm.trans hholds) Bool.false_ne_true
  | call o k => exact ⟨o, k, hp⟩

end Runs

end Mutex

end Program
