/-
What a command may take for an option.

A caller that splices foreign text into the arguments of a command wants that text read as a value
or an operand, whatever it is. It does not have the command's parser, and each command has its own;
what the parsers share is that an option begins with a dash, that some options take the argument
after them, and that nothing behind `--` is an option. So what the caller can see to is where in its
vector an argument with a dash stands.

`Guarded` says that by positions: such an argument is an option that the caller wrote, or stands right
behind one of them that takes a value, or behind `--`. It is a statement about the vector alone and
claims nothing of the command.

`CommandLine` is how a caller comes to such a vector: one constructor for each way of putting one
more argument in front. A vector is spliced together from pieces, some of them there only for some
inputs, so the pieces are what proofs go by; `CommandLine.guarded` carries the result over to
positions once for all.
-/
import Mathlib.Tactic.Common

set_option autoImplicit false

namespace Argv

variable {α : Type}

/-- Every argument that begins with a dash is one of the caller's `own` options, or stands right behind
one of the `valued` ones, or behind `--`. -/
def Guarded (dash : α) (own valued : List (List α)) (argv : List (List α)) : Prop :=
  ∀ before a after, argv = before ++ a :: after → a.head? = some dash →
    a ∈ own ∨ (∃ o ∈ valued, before.getLast? = some o) ∨ [dash, dash] ∈ before

/-- An argument vector, put together from its end. -/
inductive CommandLine (dash : α) (own valued : List (List α)) : List (List α) → Prop
  | done : CommandLine dash own valued []
  /-- A word that cannot be taken for an option. -/
  | word {a : List α} {rest : List (List α)} (ha : a.head? ≠ some dash) :
      CommandLine dash own valued rest → CommandLine dash own valued (a :: rest)
  /-- An option of the caller. -/
  | option {a : List α} {rest : List (List α)} (ha : a ∈ own) :
      CommandLine dash own valued rest → CommandLine dash own valued (a :: rest)
  /-- An option with its value, which may be any text. -/
  | setting {a value : List α} {rest : List (List α)} (hown : a ∈ own) (hvalued : a ∈ valued) :
      CommandLine dash own valued rest → CommandLine dash own valued (a :: value :: rest)
  /-- The operands behind `--`, which may be any texts. -/
  | operands (hown : [dash, dash] ∈ own) (rest : List (List α)) :
      CommandLine dash own valued ([dash, dash] :: rest)

variable {dash : α} {own valued : List (List α)}

/-- One more argument in front: what stood behind it is guarded still. -/
theorem Guarded.cons {a : List α} {rest : List (List α)} (h : Guarded dash own valued rest)
    (ha : a.head? = some dash → a ∈ own) : Guarded dash own valued (a :: rest) := by
  intro before b after hsplit hb
  rcases before with _ | ⟨c, before⟩
  · obtain ⟨rfl, -⟩ := List.cons.inj hsplit
    exact .inl (ha hb)
  · obtain ⟨rfl, hrest⟩ := List.cons.inj hsplit
    rcases h before b after hrest hb with hown | ⟨o, ho, hlast⟩ | hend
    · exact .inl hown
    · refine .inr (.inl ⟨o, ho, ?_⟩)
      rw [List.getLast?_cons, hlast]
      rfl
    · exact .inr (.inr (List.mem_cons_of_mem _ hend))

/-- **A vector so put together is guarded.** -/
theorem CommandLine.guarded {argv : List (List α)} (h : CommandLine dash own valued argv) :
    Guarded dash own valued argv := by
  induction h with
  | done =>
      intro before a after hsplit
      exact absurd hsplit.symm (List.append_ne_nil_of_right_ne_nil _ (List.cons_ne_nil _ _))
  | word ha _ ih => exact ih.cons fun hdash => absurd hdash ha
  | option ha _ ih => exact ih.cons fun _ => ha
  | @setting a value rest hown hvalued _ ih =>
      -- the value is excused by its place, the rest by the induction
      intro before b after hsplit hb
      rcases before with _ | ⟨c, _ | ⟨d, before⟩⟩
      · obtain ⟨rfl, -⟩ := List.cons.inj hsplit
        exact .inl hown
      · obtain ⟨rfl, -⟩ := List.cons.inj hsplit
        exact .inr (.inl ⟨a, hvalued, rfl⟩)
      · obtain ⟨rfl, htail⟩ := List.cons.inj hsplit
        obtain ⟨rfl, hrest⟩ := List.cons.inj htail
        rcases ih before b after hrest hb with hin | ⟨o, ho, hlast⟩ | hend
        · exact .inl hin
        · refine .inr (.inl ⟨o, ho, ?_⟩)
          rw [List.getLast?_cons, List.getLast?_cons, hlast]
          rfl
        · exact .inr (.inr (List.mem_cons_of_mem _ (List.mem_cons_of_mem _ hend)))
  | operands hown rest =>
      intro before b after hsplit hb
      rcases before with _ | ⟨c, before⟩
      · obtain ⟨rfl, -⟩ := List.cons.inj hsplit
        exact .inl hown
      · obtain ⟨rfl, -⟩ := List.cons.inj hsplit
        exact .inr (.inr List.mem_cons_self)

end Argv
