/-
Effectful programs as trees of calls.

A `Prog` is a program whose every interaction with the outside is a `call`: an
operation of a signature, followed by what the program does with each possible
answer. Between two calls it is pure, so a call is exactly one atomic step and
the whole of what another party can interleave with.

One program text serves four readings. `eval` runs it alone against a handler,
`Yields` asks what it may return when each operation may answer anything a
predicate allows (whatever the rest of the world does between the calls),
`Trace` keeps the calls themselves with their answers, and `Lib/Interleave.lean`
runs many of them on one shared state.
-/
import Mathlib.Tactic.Common

set_option autoImplicit false

namespace Program

/-- The operations a program may call, and what each answers. -/
structure Sig where
  Op : Type
  Resp : Op → Type

/-- A program over the signature `S` that may raise exceptions of type `ε`. An
operation answers a value or raises, and the continuation sees which. -/
inductive Prog (S : Sig) (ε : Type) (α : Type) : Type where
  | ret (a : α)
  | raise (e : ε)
  | call (op : S.Op) (k : Except ε (S.Resp op) → Prog S ε α)

namespace Prog

variable {S : Sig} {ε α β γ : Type}

/-- Sequencing: an exception skips what follows. -/
def bind : Prog S ε α → (α → Prog S ε β) → Prog S ε β
  | ret a, f => f a
  | raise e, _ => raise e
  | call op k, f => call op fun r => (k r).bind f

instance : Monad (Prog S ε) where
  pure := ret
  bind := bind

/-- One operation, its exception passed on. -/
def op (o : S.Op) : Prog S ε (S.Resp o) :=
  call o fun
    | .ok r => ret r
    | .error e => raise e

/-- Run `p` and hand its exception back as a value: the body of a `try`. -/
def attempt : Prog S ε α → Prog S ε (Except ε α)
  | ret a => ret (.ok a)
  | raise e => ret (.error e)
  | call op k => call op fun r => (k r).attempt

/-- `try: p finally: fin`. -/
def tryFinally (p : Prog S ε α) (fin : Prog S ε Unit) : Prog S ε α :=
  p.attempt.bind fun
    | .ok a => fin.bind fun _ => ret a
    | .error e => fin.bind fun _ => raise e

@[simp] theorem pure_eq (a : α) : (pure a : Prog S ε α) = ret a := rfl

@[simp] theorem ret_bind (a : α) (f : α → Prog S ε β) : (ret a >>= f) = f a := rfl

@[simp] theorem raise_bind (e : ε) (f : α → Prog S ε β) : (raise e >>= f) = raise e := rfl

@[simp] theorem call_bind (o : S.Op) (k : Except ε (S.Resp o) → Prog S ε α)
    (f : α → Prog S ε β) : (call o k >>= f) = call o fun r => k r >>= f := rfl

@[simp] theorem bind_eq (p : Prog S ε α) (f : α → Prog S ε β) : p.bind f = p >>= f := rfl

/-- Sequencing is associative, so a program may be cut anywhere. -/
theorem bind_assoc (p : Prog S ε α) (f : α → Prog S ε β) (g : β → Prog S ε γ) :
    (p >>= f) >>= g = p >>= fun a => f a >>= g := by
  induction p with
  | ret a => rfl
  | raise e => rfl
  | call o k ih => exact congrArg (call o) (funext ih)

/-- Returning what was computed adds nothing. -/
theorem bind_ret (p : Prog S ε α) : p >>= ret = p := by
  induction p with
  | ret a => rfl
  | raise e => rfl
  | call o k ih => exact congrArg (call o) (funext ih)

/-! ## Running alone

`eval` threads a state through a handler that answers each operation. -/

section Eval

variable {W : Type}

/-- Run a program against a handler; nothing else touches the state. -/
def eval (h : (o : S.Op) → W → Except ε (S.Resp o) × W) : Prog S ε α → W → Except ε α × W
  | ret a, w => (.ok a, w)
  | raise e, w => (.error e, w)
  | call o k, w => (k (h o w).1).eval h (h o w).2

variable (h : (o : S.Op) → W → Except ε (S.Resp o) × W)

@[simp] theorem eval_ret (a : α) (w : W) : (ret a : Prog S ε α).eval h w = (.ok a, w) := rfl

@[simp] theorem eval_raise (e : ε) (w : W) :
    (raise e : Prog S ε α).eval h w = (.error e, w) := rfl

@[simp] theorem eval_call (o : S.Op) (k : Except ε (S.Resp o) → Prog S ε α) (w : W) :
    (call o k).eval h w = (k (h o w).1).eval h (h o w).2 := rfl

/-- Running in sequence: the second starts where the first has ended, unless that raised. -/
theorem eval_bind (p : Prog S ε α) (f : α → Prog S ε β) (w : W) :
    (p >>= f).eval h w = match p.eval h w with
      | (.ok a, w') => (f a).eval h w'
      | (.error e, w') => (.error e, w') := by
  induction p generalizing w with
  | ret a => rfl
  | raise e => rfl
  | call o k ih => exact ih (h o w).1 (h o w).2

/-- A `try` runs its body and keeps the outcome. -/
theorem eval_attempt (p : Prog S ε α) (w : W) :
    p.attempt.eval h w = (.ok (p.eval h w).1, (p.eval h w).2) := by
  induction p generalizing w with
  | ret a => rfl
  | raise e => rfl
  | call o k ih => exact ih (h o w).1 (h o w).2

@[simp] theorem eval_op (o : S.Op) (w : W) :
    (op o : Prog S ε (S.Resp o)).eval h w = h o w := by
  rw [op, eval_call]
  cases hr : (h o w).1 <;> simp [← hr]

end Eval

/-! ## Running among others

`Yields A p res`: `p` may return `res` when every operation answers something `A`
allows. `A` says nothing about how the answers of two calls relate, so this is
what `p` may return whatever happens between its calls. -/

section Yields

variable (A : (o : S.Op) → Except ε (S.Resp o) → Prop)

def Yields : Prog S ε α → Except ε α → Prop
  | ret a, res => res = .ok a
  | raise e, res => res = .error e
  | call o k, res => ∃ r, A o r ∧ (k r).Yields res

variable {A}

@[simp] theorem yields_ret (a : α) (res : Except ε α) :
    (ret a : Prog S ε α).Yields A res ↔ res = .ok a := Iff.rfl

@[simp] theorem yields_raise (e : ε) (res : Except ε α) :
    (raise e : Prog S ε α).Yields A res ↔ res = .error e := Iff.rfl

theorem yields_pure_ok {a b : α} : (pure a : Prog S ε α).Yields A (.ok b) ↔ b = a := by
  rw [pure_eq, yields_ret, Except.ok.injEq]

/-- The inversion every `Yields` proof peels a program with: a normal return of a
sequence comes from normal returns of its two halves. -/
theorem yields_bind_ok {p : Prog S ε α} {f : α → Prog S ε β} {b : β} :
    (p >>= f).Yields A (.ok b) ↔ ∃ a, p.Yields A (.ok a) ∧ (f a).Yields A (.ok b) := by
  induction p with
  | ret a => simp
  | raise e => simp
  | call o k ih =>
      constructor
      · rintro ⟨r, hr, hk⟩
        obtain ⟨a, ha, hf⟩ := (ih r).mp hk
        exact ⟨a, ⟨r, hr, ha⟩, hf⟩
      · rintro ⟨a, ⟨r, hr, ha⟩, hf⟩
        exact ⟨r, hr, (ih r).mpr ⟨a, ha, hf⟩⟩

/-- Whatever the body may come to is a value of the `try`. -/
theorem yields_attempt {p : Prog S ε α} {x : Except ε α} :
    p.attempt.Yields A (.ok x) ↔ p.Yields A x := by
  induction p with
  | ret a => simp [attempt]
  | raise e => simp [attempt]
  | call o k ih => exact exists_congr fun r => and_congr_right fun _ => ih r

@[simp] theorem yields_op_ok {o : S.Op} {r : S.Resp o} :
    (op o : Prog S ε (S.Resp o)).Yields A (.ok r) ↔ A o (.ok r) := by
  constructor
  · rintro ⟨x, hx, hr⟩
    cases x with
    | ok y => rw [yields_ret, Except.ok.injEq] at hr; rwa [hr]
    | error e => simp at hr
  · intro h
    exact ⟨.ok r, h, rfl⟩

/-- Continuations that agree on whatever the first half may return make one program. -/
theorem bind_congr_yields {p : Prog S ε α} {f g : α → Prog S ε β}
    (h : ∀ a, p.Yields (fun _ _ => True) (.ok a) → f a = g a) : (p >>= f) = (p >>= g) := by
  induction p with
  | ret a => exact h a rfl
  | raise e => rfl
  | call o k ih =>
      rw [call_bind, call_bind]
      congr 1
      funext r
      exact ih r fun a ha => h a ⟨r, trivial, ha⟩

/-- What a program returns alone it may return among others, as long as the
handler's answers are among those allowed. -/
theorem yields_of_eval {W : Type} {h : (o : S.Op) → W → Except ε (S.Resp o) × W}
    (hA : ∀ o w, A o (h o w).1) (p : Prog S ε α) (w : W) : p.Yields A (p.eval h w).1 := by
  induction p generalizing w with
  | ret a => rfl
  | raise e => rfl
  | call o k ih => exact ⟨(h o w).1, hA o w, ih _ _⟩

end Yields

/-! ## What was asked

`Trace p t res`: answered as `t` says, `p` makes exactly the calls of `t`, in that order, and
ends in `res`. -/

section Trace

/-- A call and what it answered. -/
abbrev Answered (S : Sig) (ε : Type) : Type := (o : S.Op) × Except ε (S.Resp o)

def Trace : Prog S ε α → List (Answered S ε) → Except ε α → Prop
  | ret a, t, res => t = [] ∧ res = .ok a
  | raise e, t, res => t = [] ∧ res = .error e
  | call o k, t, res => ∃ r rest, t = ⟨o, r⟩ :: rest ∧ (k r).Trace rest res

@[simp] theorem trace_ret {a : α} {t : List (Answered S ε)} {res : Except ε α} :
    (ret a : Prog S ε α).Trace t res ↔ t = [] ∧ res = .ok a := Iff.rfl

@[simp] theorem trace_raise {e : ε} {t : List (Answered S ε)} {res : Except ε α} :
    (raise e : Prog S ε α).Trace t res ↔ t = [] ∧ res = .error e := Iff.rfl

/-- The inversion for a sequence: its first half ends it, or its trace is a first part. -/
theorem trace_bind {p : Prog S ε α} {f : α → Prog S ε β} {t : List (Answered S ε)} {res : Except ε β} :
    (p >>= f).Trace t res
      ↔ (∃ a t₁ t₂, t = t₁ ++ t₂ ∧ p.Trace t₁ (.ok a) ∧ (f a).Trace t₂ res)
        ∨ ∃ e, p.Trace t (.error e) ∧ res = .error e := by
  induction p generalizing t with
  | ret a => simp
  | raise e => simp
  | call o k ih =>
      constructor
      · rintro ⟨r, rest, rfl, h⟩
        rcases (ih r).mp h with ⟨a, t₁, t₂, rfl, h₁, h₂⟩ | ⟨e, he, rfl⟩
        · exact .inl ⟨a, ⟨o, r⟩ :: t₁, t₂, rfl, ⟨r, t₁, rfl, h₁⟩, h₂⟩
        · exact .inr ⟨e, ⟨r, rest, rfl, he⟩, rfl⟩
      · rintro (⟨a, t₁, t₂, rfl, ⟨r, rest, rfl, h₁⟩, h₂⟩ | ⟨e, ⟨r, rest, rfl, he⟩, rfl⟩)
        · exact ⟨r, rest ++ t₂, rfl, (ih r).mpr (.inl ⟨a, rest, t₂, rfl, h₁, h₂⟩)⟩
        · exact ⟨r, rest, rfl, (ih r).mpr (.inr ⟨e, he, rfl⟩)⟩

/-- The same where the first half is one operation. -/
theorem trace_op_bind {o : S.Op} {f : S.Resp o → Prog S ε β} {t : List (Answered S ε)} {res : Except ε β} :
    (op o >>= f).Trace t res
      ↔ (∃ r rest, t = ⟨o, .ok r⟩ :: rest ∧ (f r).Trace rest res)
        ∨ ∃ e, t = [⟨o, .error e⟩] ∧ res = .error e := by
  constructor
  · rintro ⟨r, rest, rfl, h⟩
    cases r with
    | ok r => exact .inl ⟨r, rest, rfl, h⟩
    | error e =>
        obtain ⟨rfl, rfl⟩ := h
        exact .inr ⟨e, rfl, rfl⟩
  · rintro (⟨r, rest, rfl, h⟩ | ⟨e, rfl, rfl⟩)
    · exact ⟨.ok r, rest, rfl, h⟩
    · exact ⟨.error e, [], rfl, rfl, rfl⟩

end Trace

end Prog

end Program
