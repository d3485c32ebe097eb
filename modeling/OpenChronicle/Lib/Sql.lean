/-
Three-valued conditions, as SQL evaluates them.

A comparison with NULL is neither true nor false, and a `WHERE` keeps a row only when its condition is
true. Negation is where the two readings part: `NOT` of an unknown is unknown, so a `NOT IN` over a list
that holds a NULL never selects a row. The lemmas say when a condition is as it would be over plain
booleans: always for a conjunction or a disjunction of what holds, under a negation only when nothing is
NULL.

`EXISTS` is never unknown, whatever its condition is on the rows, so a negated `EXISTS` is plain again.
That is the form in which a query can ask that no row has a property of a column that may be NULL.
-/
import Mathlib.Data.List.Basic

set_option autoImplicit false

namespace Sql

variable {α ρ : Type} [DecidableEq α]

/-- A truth value; `none` is unknown. -/
abbrev Truth : Type := Option Bool

/-- A `WHERE` keeps what is true. -/
def holds (t : Truth) : Bool := t = some true

/-! ## Operators -/

/-- `a = b`. -/
def equals : Option α → Option α → Truth
  | some x, some y => some (x = y)
  | _, _ => none

/-- `a IS NULL`. -/
def is_null (a : Option α) : Truth := some a.isNone

/-- `NOT t`. -/
def negation (t : Truth) : Truth := t.map (! ·)

/-- `s AND t`: false as soon as one is. -/
def conjunction : Truth → Truth → Truth
  | some false, _ => some false
  | _, some false => some false
  | some true, some true => some true
  | _, _ => none

/-- `s OR t`: true as soon as one is. -/
def disjunction : Truth → Truth → Truth
  | some true, _ => some true
  | _, some true => some true
  | some false, some false => some false
  | _, _ => none

/-- `x IN (SELECT …)`: some value is equal to it. -/
def is_in (x : Option α) : List (Option α) → Truth
  | [] => some false
  | y :: values => disjunction (equals x y) (is_in x values)

/-- `x NOT IN (SELECT …)`. -/
def not_in (x : Option α) (values : List (Option α)) : Truth := negation (is_in x values)

/-- `EXISTS (SELECT 1 FROM rows WHERE condition)`, which is never unknown. -/
def exists_where (rows : List ρ) (condition : ρ → Truth) : Truth :=
  some (rows.any fun r => holds (condition r))

/-- `WHERE 1=1 AND …`. -/
def all_of : List Truth → Truth
  | [] => some true
  | t :: rest => conjunction t (all_of rest)

/-! ## What holds -/

/-- A truth value that is known. -/
@[simp] theorem holds_some (b : Bool) : holds (some b) = b := by
  cases b <;> rfl

/-- An unknown does not hold, on either side. -/
@[simp] theorem holds_conjunction (s t : Truth) : holds (conjunction s t) = (holds s && holds t) := by
  rcases s with _ | _ | _ <;> rcases t with _ | _ | _ <;> rfl

/-- One side that holds is enough, whatever the other is. -/
@[simp] theorem holds_disjunction (s t : Truth) : holds (disjunction s t) = (holds s || holds t) := by
  rcases s with _ | _ | _ <;> rcases t with _ | _ | _ <;> rfl

@[simp] theorem holds_all_of (ts : List Truth) : holds (all_of ts) = ts.all holds := by
  induction ts with
  | nil => rfl
  | cons t rest ih => rw [all_of, holds_conjunction, ih, List.all_cons]

/-- A NULL is equal to nothing. -/
@[simp] theorem holds_equals (a : Option α) (y : α) : holds (equals a (some y)) = decide (a = some y) := by
  cases a with
  | none => rfl
  | some x => simp [equals]

/-- Some row for which the condition is true. -/
@[simp] theorem holds_exists_where (rows : List ρ) (condition : ρ → Truth) :
    holds (exists_where rows condition) = rows.any fun r => holds (condition r) := holds_some _

/-- No row for which it is. -/
@[simp] theorem holds_not_exists_where (rows : List ρ) (condition : ρ → Truth) :
    holds (negation (exists_where rows condition)) = !rows.any fun r => holds (condition r) := holds_some _

/-- Where nothing is NULL, membership is never unknown. -/
theorem is_in_of_known (x : α) (values : List α) : is_in (some x) (values.map some) = some (decide (x ∈ values)) := by
  induction values with
  | nil => rfl
  | cons y values ih =>
      rw [List.map_cons, is_in, ih, equals]
      by_cases hxy : x = y
      · simp [hxy, disjunction]
      · by_cases hin : x ∈ values
        · simp [hxy, hin, disjunction]
        · simp [hxy, hin, disjunction]

/-- Membership as it would be over plain values, -/
theorem holds_is_in_of_known (x : α) (values : List α) :
    holds (is_in (some x) (values.map some)) = decide (x ∈ values) := by
  rw [is_in_of_known, holds_some]

/-- and its negation. -/
theorem holds_not_in_of_known (x : α) (values : List α) :
    holds (not_in (some x) (values.map some)) = !decide (x ∈ values) := by
  rw [not_in, is_in_of_known, negation, Option.map_some, holds_some]

end Sql
