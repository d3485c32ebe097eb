/-
Rules for traces of programs: what a `try` leaves in them, what an order of calls says of them, and
which calls a straight line makes.

`attempt` and `tryFinally` are inverted as `bind` is in `Lib/Program.lean`. `Sat.of_trace` reads an
order that the program text guarantees off one trace. `transcript` is the trace of a program whose
operations always answer the same, so that a concrete run can be computed.

The last part is about programs that make the calls of a list in order and stop at the first that fails
(`Along`), and about single calls made at most once (`Once`). For such a program it is enough to know
the list; which branch of the program a call belongs to need not be said.
-/
import OpenChronicle.Lib.Interleave

set_option autoImplicit false

namespace Program.Prog

variable {S : Sig} {ε α β : Type}

/-! ## `try` -/

/-- A `try` makes the calls of its body and never ends in an exception. -/
theorem trace_attempt {p : Prog S ε α} {t : List (Answered S ε)} {res : Except ε (Except ε α)} :
    p.attempt.Trace t res ↔ ∃ r, p.Trace t r ∧ res = .ok r := by
  induction p generalizing t with
  | ret a => simp [attempt, and_assoc]
  | raise e => simp [attempt, and_assoc]
  | call o k ih =>
      constructor
      · rintro ⟨x, rest, rfl, h⟩
        obtain ⟨r, hr, hres⟩ := (ih x).mp h
        exact ⟨r, ⟨x, rest, rfl, hr⟩, hres⟩
      · rintro ⟨r, ⟨x, rest, rfl, hr⟩, hres⟩
        exact ⟨x, rest, rfl, (ih x).mpr ⟨r, hr, hres⟩⟩

/-- Behind the body, however it ends, the `finally` runs; only its exception replaces the outcome. -/
theorem trace_tryFinally {p : Prog S ε α} {fin : Prog S ε Unit} {t : List (Answered S ε)} {res : Except ε α} :
    (p.tryFinally fin).Trace t res
      ↔ ∃ r fr t₁ t₂, t = t₁ ++ t₂ ∧ p.Trace t₁ r ∧ fin.Trace t₂ fr ∧ res = fr.bind fun _ => r := by
  -- the `finally`, and behind it an outcome that is settled already
  have hfin : ∀ (q : Prog S ε α) (r : Except ε α) (t₂ : List (Answered S ε)),
      (∀ x, q.Trace x res ↔ x = [] ∧ res = r) →
      ((fin >>= fun _ => q).Trace t₂ res ↔ ∃ fr, fin.Trace t₂ fr ∧ res = fr.bind fun _ => r) := by
    intro q r t₂ hq
    rw [trace_bind]
    constructor
    · rintro (⟨u, s₁, s₂, rfl, h₁, h₂⟩ | ⟨e, he, rfl⟩)
      · obtain ⟨rfl, rfl⟩ := (hq s₂).mp h₂
        rw [List.append_nil]
        exact ⟨.ok u, h₁, rfl⟩
      · exact ⟨.error e, he, rfl⟩
    · rintro ⟨fr, hfr, hres⟩
      cases fr with
      | ok u => exact .inl ⟨u, t₂, [], (List.append_nil _).symm, hfr, (hq []).mpr ⟨rfl, hres⟩⟩
      | error e => exact .inr ⟨e, hfr, hres⟩
  unfold tryFinally
  rw [bind_eq, trace_bind]
  constructor
  · rintro (⟨r, t₁, t₂, rfl, h₁, h₂⟩ | ⟨e, he, -⟩)
    · obtain ⟨r', hr, hok⟩ := trace_attempt.mp h₁
      cases hok
      cases r with
      | ok a =>
          obtain ⟨fr, hfr, hres⟩ := (hfin (ret a) (.ok a) t₂ fun x => trace_ret).mp h₂
          exact ⟨.ok a, fr, t₁, t₂, rfl, hr, hfr, hres⟩
      | error e =>
          obtain ⟨fr, hfr, hres⟩ := (hfin (raise e) (.error e) t₂ fun x => trace_raise).mp h₂
          exact ⟨.error e, fr, t₁, t₂, rfl, hr, hfr, hres⟩
    · obtain ⟨r, -, hr⟩ := trace_attempt.mp he
      cases hr
  · rintro ⟨r, fr, t₁, t₂, rfl, hr, hfr, hres⟩
    refine .inl ⟨r, t₁, t₂, rfl, trace_attempt.mpr ⟨r, hr, rfl⟩, ?_⟩
    cases r with
    | ok a => exact (hfin (ret a) (.ok a) t₂ fun x => trace_ret).mpr ⟨fr, hfr, hres⟩
    | error e => exact (hfin (raise e) (.error e) t₂ fun x => trace_raise).mpr ⟨fr, hfr, hres⟩

/-! ## From an order of calls to a trace

`Sat` is about histories, the newest call first; a trace has the first call first. -/

section Order

variable {Φ : List (Call S ε) → Call S ε → Prop} {Q : List (Call S ε) → Except ε α → Prop} {h : List (Call S ε)}

/-- The calls of a trace, the newest first. -/
def told (t : List (Answered S ε)) : List (Call S ε) := (t.map fun e => ⟨e.1, e.2⟩).reverse

/-- The call that was made first is the oldest of the history. -/
theorem told_cons (e : Answered S ε) (t : List (Answered S ε)) (h : List (Call S ε)) :
    told (e :: t) ++ h = told t ++ ⟨e.1, e.2⟩ :: h := by
  rw [told, List.map_cons, List.reverse_cons, List.append_assoc, List.singleton_append, ← told]

/-- One call, and what follows an answer. -/
theorem sat_op_bind {o : S.Op} {f : S.Resp o → Prog S ε α} (hΦ : ∀ r, Φ h ⟨o, r⟩)
    (herror : ∀ e, Q (⟨o, .error e⟩ :: h) (.error e)) (hok : ∀ r, (f r).Sat Φ Q (⟨o, .ok r⟩ :: h)) :
    (Prog.op o >>= f).Sat Φ Q h := by
  refine Sat.bind (sat_op fun r => ⟨hΦ r, ?_⟩)
  cases r with
  | ok r => exact hok r
  | error e => exact herror e

/-- `Sat.tryFinally`, with the outcome as one term. -/
theorem sat_finally {p : Prog S ε α} {fin : Prog S ε Unit}
    (hp : p.Sat Φ (fun h' r => fin.Sat Φ (fun h'' fr => Q h'' (fr.bind fun _ => r)) h') h) :
    (p.tryFinally fin).Sat Φ Q h := by
  refine Sat.tryFinally (hp.mono fun h' r _ hfin => hfin.mono fun h'' fr _ hq => ?_)
  cases r with
  | ok a => cases fr <;> exact hq
  | error e => cases fr <;> exact hq

/-- Calls of one kind keep what each of them keeps. -/
theorem Makes.keeps {P : S.Op → Prop} {I : List (Call S ε) → Prop} {p : Prog S ε α} (hp : p.Makes P)
    (hstep : ∀ h c, I h → P c.op → Φ h c ∧ I (c :: h)) (hI : I h) : p.Sat Φ (fun h' _ => I h') h := by
  induction p generalizing h with
  | ret a => exact hI
  | raise e => exact hI
  | call o k ih =>
      intro r
      obtain ⟨hΦ, hI'⟩ := hstep h ⟨o, r⟩ hI hp.1
      exact ⟨hΦ, ih r (hp.2 r) hI'⟩

/-- In every run each call stands in the order, and the run ends as the order says. -/
theorem Sat.of_trace {p : Prog S ε α} (hp : p.Sat Φ Q h) {t : List (Answered S ε)} {res : Except ε α}
    (htrace : p.Trace t res) :
    Q (told t ++ h) res ∧ ∀ before e after, t = before ++ e :: after → Φ (told before ++ h) ⟨e.1, e.2⟩ := by
  induction p generalizing h t with
  | ret a =>
      obtain ⟨rfl, rfl⟩ := htrace
      exact ⟨hp, fun before e after ht => absurd ht.symm (by simp)⟩
  | raise e =>
      obtain ⟨rfl, rfl⟩ := htrace
      exact ⟨hp, fun before e after ht => absurd ht.symm (by simp)⟩
  | call o k ih =>
      obtain ⟨r, rest, rfl, hrest⟩ := htrace
      obtain ⟨hend, hcalls⟩ := ih r (hp r).2 hrest
      rw [told_cons]
      refine ⟨hend, ?_⟩
      intro before e after ht
      rcases before with _ | ⟨first, before⟩
      · obtain ⟨rfl, -⟩ := List.cons.inj ht
        exact (hp r).1
      · obtain ⟨rfl, hafter⟩ := List.cons.inj ht
        rw [told_cons]
        exact hcalls before e after hafter

end Order

/-! ## A run that is computed -/

/-- The run against fixed answers. -/
def transcript (answer : (o : S.Op) → Except ε (S.Resp o)) : Prog S ε α → List (Answered S ε) × Except ε α
  | ret a => ([], .ok a)
  | raise e => ([], .error e)
  | call o k => (⟨o, answer o⟩ :: ((k (answer o)).transcript answer).1, ((k (answer o)).transcript answer).2)

theorem trace_transcript (answer : (o : S.Op) → Except ε (S.Resp o)) (p : Prog S ε α) :
    p.Trace (p.transcript answer).1 (p.transcript answer).2 := by
  induction p with
  | ret a => exact ⟨rfl, rfl⟩
  | raise e => exact ⟨rfl, rfl⟩
  | call o k ih => exact ⟨answer o, _, rfl, ih (answer o)⟩

theorem mem_transcript {answer : (o : S.Op) → Except ε (S.Resp o)} {p : Prog S ε α} {e : Answered S ε}
    (h : e ∈ (p.transcript answer).1) : e = ⟨e.1, answer e.1⟩ := by
  induction p with
  | ret a => cases h
  | raise x => cases h
  | call o k ih =>
      rcases List.mem_cons.mp h with rfl | hin
      · rfl
      · exact ih (answer o) hin

/-! ## In what order

`Along l p`: whatever is answered, the calls of `p` are the first of `l`. A program that may stop at any
call but never calls anything else is described by the list alone. -/

def Along : List S.Op → Prog S ε α → Prop
  | _, ret _ => True
  | _, raise _ => True
  | l, call o k => ∃ rest, l = o :: rest ∧ ∀ r, (k r).Along rest

theorem Along.of_trace {l : List S.Op} {p : Prog S ε α} (hp : p.Along l) {t : List (Answered S ε)}
    {res : Except ε α} (h : p.Trace t res) : t.map Sigma.fst <+: l := by
  induction p generalizing l t with
  | ret a =>
      rw [h.1]
      exact List.nil_prefix
  | raise e =>
      rw [h.1]
      exact List.nil_prefix
  | call o k ih =>
      obtain ⟨rest, rfl, hk⟩ := hp
      obtain ⟨r, t', rfl, ht'⟩ := h
      exact List.cons_prefix_cons.mpr ⟨rfl, ih r (hk r) ht'⟩

/-- Nothing more is called. -/
def Settled : Prog S ε α → Prop
  | ret _ => True
  | raise _ => True
  | call _ _ => False

/-- The program calls `o` and settles. -/
def Once (o : S.Op) : Prog S ε α → Prop
  | ret _ => False
  | raise _ => False
  | call o' k => o' = o ∧ ∀ r, (k r).Settled

variable {o : S.Op}

theorem Once.op : (Prog.op o : Prog S ε (S.Resp o)).Once o := by
  refine ⟨rfl, fun r => ?_⟩
  cases r with
  | ok r => trivial
  | error e => trivial

theorem Settled.attempt {p : Prog S ε α} (h : p.Settled) : p.attempt.Settled := by
  cases p with
  | ret a => trivial
  | raise e => trivial
  | call o k => exact h

theorem Settled.bind {p : Prog S ε α} {f : α → Prog S ε β} (h : p.Settled) (hf : ∀ a, (f a).Settled) :
    (p >>= f).Settled := by
  cases p with
  | ret a => exact hf a
  | raise e => trivial
  | call o k => exact h

theorem Settled.along {p : Prog S ε α} {l : List S.Op} (h : p.Settled) : p.Along l := by
  cases p with
  | ret a => trivial
  | raise e => trivial
  | call o k => exact h.elim

theorem Settled.bind_along {p : Prog S ε α} {f : α → Prog S ε β} {l : List S.Op} (h : p.Settled)
    (hf : ∀ a, (f a).Along l) : (p >>= f).Along l := by
  cases p with
  | ret a => exact hf a
  | raise e => trivial
  | call o k => exact h.elim

theorem Along.bind_settled {p : Prog S ε α} {f : α → Prog S ε β} {l : List S.Op} (h : p.Along l)
    (hf : ∀ a, (f a).Settled) : (p >>= f).Along l := by
  induction p generalizing l with
  | ret a => exact (hf a).along
  | raise e => trivial
  | call o k ih =>
      obtain ⟨rest, hl, hk⟩ := h
      exact ⟨rest, hl, fun r => ih r (hk r)⟩

theorem Once.attempt {p : Prog S ε α} (h : p.Once o) : p.attempt.Once o := by
  cases p with
  | ret a => exact h
  | raise e => exact h
  | call o' k => exact ⟨h.1, fun r => (h.2 r).attempt⟩

theorem Once.bind {p : Prog S ε α} {f : α → Prog S ε β} (h : p.Once o) (hf : ∀ a, (f a).Settled) :
    (p >>= f).Once o := by
  cases p with
  | ret a => exact h.elim
  | raise e => exact h.elim
  | call o' k => exact ⟨h.1, fun r => (h.2 r).bind hf⟩

/-- What follows a single call follows it in the list. -/
theorem Once.along {p : Prog S ε α} {f : α → Prog S ε β} {l : List S.Op} (h : p.Once o)
    (hf : ∀ a, (f a).Along l) : (p >>= f).Along (o :: l) := by
  cases p with
  | ret a => exact h.elim
  | raise e => exact h.elim
  | call o' k => exact ⟨l, by rw [h.1], fun r => (h.2 r).bind_along hf⟩

/-- The one call of such a program, with its answer. -/
theorem Once.of_trace {p : Prog S ε α} (hp : p.Once o) {t : List (Answered S ε)} {res : Except ε α}
    (h : p.Trace t res) : ∃ r, t = [⟨o, r⟩] := by
  cases p with
  | ret a => exact hp.elim
  | raise e => exact hp.elim
  | call o' k =>
      obtain ⟨rfl, hk⟩ := hp
      obtain ⟨r, rest, rfl, hrest⟩ := h
      refine ⟨r, ?_⟩
      have hr := hk r
      cases hkr : k r with
      | ret a =>
          rw [hkr] at hrest
          rw [hrest.1]
      | raise e =>
          rw [hkr] at hrest
          rw [hrest.1]
      | call o k' =>
          rw [hkr] at hr
          exact hr.elim

end Program.Prog
