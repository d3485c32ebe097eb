/-
A connection to a store with transactions and savepoints, as SQLite documents them.

`file` is what is durable and what anyone else sees. Between `BEGIN` and `COMMIT` the connection works
on a copy, and each savepoint keeps what the copy was when it was set. A savepoint outside a transaction
opens one, and releasing the outermost such savepoint commits. Names may repeat: the most recent one is
meant. A statement outside any transaction commits by itself.

What a statement does is the business of the store; here it is a new state of the copy. An error of a
statement leaves the copy as it was and the transaction open. SQLite ends the transaction for some
errors, a full disk among them, and those are outside of this account.

`All` is how a property of stores gets through: it is asked of every copy that may become the current
one, and each operation of the connection keeps it.
-/
import Mathlib.Tactic.Common

set_option autoImplicit false

namespace Savepoints

variable {σ : Type}

/-- An open transaction: the working copy, the savepoints with the copy each would go
back to, innermost first, and whether `BEGIN` opened it. -/
structure Work (σ : Type) where
  now : σ
  marks : List (String × σ) := []
  begun : Bool := true

/-- The durable state, and the open transaction if there is one. -/
structure Conn (σ : Type) where
  file : σ
  work : Option (Work σ) := none

namespace Conn

/-- What a statement on this connection reads. -/
def view (c : Conn σ) : σ := (c.work.map (·.now)).getD c.file

/-- One statement that leaves `s` where it read `view`. -/
def put (c : Conn σ) (s : σ) : Conn σ :=
  match c.work with
  | none => { c with file := s }
  | some w => { c with work := some { w with now := s } }

/-- `BEGIN`; refused inside a transaction. -/
def begin (c : Conn σ) : Option (Conn σ) :=
  match c.work with
  | none => some { c with work := some { now := c.file } }
  | some _ => none

/-- `COMMIT`. -/
def commit (c : Conn σ) : Option (Conn σ) := c.work.map fun w => { file := w.now }

/-- `ROLLBACK`. -/
def rollback (c : Conn σ) : Option (Conn σ) := c.work.map fun _ => { file := c.file }

/-- `SAVEPOINT name`. -/
def savepoint (c : Conn σ) (name : String) : Conn σ :=
  match c.work with
  | none => { c with work := some { now := c.file, marks := [(name, c.file)], begun := false } }
  | some w => { c with work := some { w with marks := (name, w.now) :: w.marks } }

/-- The savepoint a name means, and those around it. -/
def find_mark (name : String) : List (String × σ) → Option (σ × List (String × σ))
  | [] => none
  | (n, s) :: rest => if n = name then some (s, rest) else find_mark name rest

/-- `RELEASE SAVEPOINT name`. -/
def release (c : Conn σ) (name : String) : Option (Conn σ) :=
  c.work.bind fun w => (find_mark name w.marks).map fun (_, rest) =>
    if rest.isEmpty && !w.begun then { file := w.now }
    else { c with work := some { w with marks := rest } }

/-- `ROLLBACK TO SAVEPOINT name`: the savepoint itself stays. -/
def rollback_to (c : Conn σ) (name : String) : Option (Conn σ) :=
  c.work.bind fun w => (find_mark name w.marks).map fun (s, rest) =>
    { c with work := some { w with now := s, marks := (name, s) :: rest } }

/-- `connection.commit()`: nothing happens outside a transaction. -/
def commit_open (c : Conn σ) : Conn σ := (c.commit).getD c

/-! ## Every copy at once

A property of stores that each statement keeps holds of the file, the working copy and
every savepoint, so no way of ending a transaction can break it. -/

/-- `P` holds of every copy the connection has. -/
structure All (P : σ → Prop) (c : Conn σ) : Prop where
  file : P c.file
  now : ∀ w, c.work = some w → P w.now
  marks : ∀ w, c.work = some w → ∀ m ∈ w.marks, P m.2

section All

variable {P : σ → Prop} {c c' : Conn σ}

/-- Outside a transaction there is one copy. -/
theorem All.closed {s : σ} (h : P s) : All P { file := s } := ⟨h, nofun, nofun⟩

/-- What a statement reads is one of the copies. -/
theorem All.view (h : All P c) : P c.view := by
  rw [Conn.view]
  rcases hw : c.work with _ | w
  · exact h.file
  · exact h.now w hw

/-- A statement that keeps the property. -/
theorem All.put (h : All P c) {s : σ} (hs : P s) : All P (c.put s) := by
  rw [Conn.put]
  split
  · next hw => exact ⟨hs, by simp [hw], by simp [hw]⟩
  · next w hw =>
      refine ⟨h.file, ?_, ?_⟩
      · rintro _ ⟨⟩
        exact hs
      · rintro _ ⟨⟩
        exact h.marks w hw

/-- The working copy starts as the file. -/
theorem All.begin (h : All P c) (hb : c.begin = some c') : All P c' := by
  rw [Conn.begin] at hb
  split at hb
  · cases hb
    refine ⟨h.file, ?_, ?_⟩
    · rintro _ ⟨⟩
      exact h.file
    · rintro _ ⟨⟩ m hm
      cases hm
  · cases hb

/-- The working copy becomes the file. -/
theorem All.commit (h : All P c) (hc : c.commit = some c') : All P c' := by
  obtain ⟨w, hw, rfl⟩ := Option.map_eq_some_iff.mp hc
  exact All.closed (h.now w hw)

/-- The file is what it was. -/
theorem All.rollback (h : All P c) (hr : c.rollback = some c') : All P c' := by
  obtain ⟨w, hw, rfl⟩ := Option.map_eq_some_iff.mp hr
  exact All.closed h.file

theorem All.commit_open (h : All P c) : All P c.commit_open := by
  rw [Conn.commit_open]
  rcases hc : c.commit with _ | c'
  · exact h
  · exact h.commit hc

/-- A savepoint is the working copy once more. -/
theorem All.savepoint (h : All P c) (name : String) : All P (c.savepoint name) := by
  rw [Conn.savepoint]
  split
  · refine ⟨h.file, ?_, ?_⟩
    · rintro _ ⟨⟩
      exact h.file
    · rintro _ ⟨⟩ m hm
      rw [List.mem_singleton.mp hm]
      exact h.file
  · next w hw =>
      refine ⟨h.file, ?_, ?_⟩
      · rintro _ ⟨⟩
        exact h.now w hw
      · rintro _ ⟨⟩ m hm
        rcases List.mem_cons.mp hm with rfl | hm
        · exact h.now w hw
        · exact h.marks w hw m hm

/-- What is gone back to is one of the savepoints, and so are those around it. -/
theorem mem_of_find_mark {name : String} {marks rest : List (String × σ)} {s : σ}
    (h : find_mark name marks = some (s, rest)) : (name, s) ∈ marks ∧ ∀ m ∈ rest, m ∈ marks := by
  induction marks with
  | nil => cases h
  | cons m marks ih =>
      obtain ⟨n, s'⟩ := m
      rw [find_mark] at h
      split at h
      · next hn =>
          cases h
          exact ⟨by simp [hn], fun m hm => List.mem_cons_of_mem _ hm⟩
      · obtain ⟨hin, hsub⟩ := ih h
        exact ⟨List.mem_cons_of_mem _ hin, fun m hm => List.mem_cons_of_mem _ (hsub m hm)⟩

/-- Savepoints are dropped, and at the outermost the copy becomes the file. -/
theorem All.release (h : All P c) {name : String} (hr : c.release name = some c') : All P c' := by
  obtain ⟨w, hw, hr⟩ := Option.bind_eq_some_iff.mp hr
  obtain ⟨⟨s, rest⟩, hfind, rfl⟩ := Option.map_eq_some_iff.mp hr
  obtain ⟨-, hsub⟩ := mem_of_find_mark hfind
  dsimp only
  split
  · exact All.closed (h.now w hw)
  · refine ⟨h.file, ?_, ?_⟩
    · rintro _ ⟨⟩
      exact h.now w hw
    · rintro _ ⟨⟩ m hm
      exact h.marks w hw m (hsub m hm)

theorem All.rollback_to (h : All P c) {name : String} (hr : c.rollback_to name = some c') :
    All P c' := by
  obtain ⟨w, hw, hr⟩ := Option.bind_eq_some_iff.mp hr
  obtain ⟨⟨s, rest⟩, hfind, rfl⟩ := Option.map_eq_some_iff.mp hr
  obtain ⟨hin, hsub⟩ := mem_of_find_mark hfind
  refine ⟨h.file, ?_, ?_⟩
  · rintro _ ⟨⟩
    exact h.marks w hw _ hin
  · rintro _ ⟨⟩ m hm
    rcases List.mem_cons.mp hm with rfl | hm
    · exact h.marks w hw _ hin
    · exact h.marks w hw m (hsub m hm)

end All

end Conn

end Savepoints
