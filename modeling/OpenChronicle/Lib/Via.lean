/-
A program of one signature as a part of a program of another.

Each call becomes a program that stands for it. What holds of the program in its own world then holds of
it in the larger one.

This is for a function that is written against a small interface, like a port, and is run by a component
that has more to call. It is modelled once over the interface, and its specification is carried over by
`wp_via`: for each call it is to be shown that the program in its place does in the larger world what
the call does in the small one, and leaves the rest of that world as it was.
-/
import OpenChronicle.Lib.Crash

set_option autoImplicit false

namespace Program

namespace Prog

variable {S S' : Sig} {ε α C C' W W' : Type}

/-- The program with each of its calls made by another one. -/
def via (into : (o : S.Op) → Prog S' ε (S.Resp o)) : Prog S ε α → Prog S' ε α
  | ret a => ret a
  | raise e => raise e
  | call o k => (into o).attempt >>= fun r => (k r).via into

/-- The program makes the calls of its parts and no others. -/
theorem makes_via {P : S.Op → Prop} {P' : S'.Op → Prop} {into : (o : S.Op) → Prog S' ε (S.Resp o)} {p : Prog S ε α}
    (hp : p.Makes P) (hinto : ∀ o, P o → (into o).Makes P') : (p.via into).Makes P' := by
  induction p with
  | ret a => trivial
  | raise e => trivial
  | call o k ih => exact Makes.bind (hinto o hp.1).attempt fun r => ih r (hp.2 r)

variable {exec : (o : S.Op) → C → W → Except ε (S.Resp o) × W}
  {exec' : (o : S'.Op) → C' → W' → Except ε (S'.Resp o) × W'} {into : (o : S.Op) → Prog S' ε (S.Resp o)}
  {f : W' → W}

/-- A specification in the small world is one in the large world. -/
theorem wp_via
    (hinto : ∀ o w' (J : W' → Prop) (X : Except ε (S.Resp o) → W' → Prop), J w' →
      (∀ c w'', f w'' = (exec o c (f w')).2 → X (exec o c (f w')).1 w'') → (into o).wp exec' J X w')
    {I : W → Prop} {Q : Except ε α → W → Prop} {p : Prog S ε α} {w' : W'} (hp : p.wp exec I Q (f w')) :
    (p.via into).wp exec' (fun w'' => I (f w'')) (fun r w'' => Q r (f w'')) w' := by
  induction p generalizing w' with
  | ret a => exact hp
  | raise e => exact hp
  | call o k ih =>
      refine wp_bind.mpr (wp_attempt.mpr (hinto o w' _ _ hp.1 ?_))
      intro c w'' hf
      refine ih _ ?_
      rw [hf]
      exact hp.2 c

end Prog

end Program
