/-
An index over rows that are stored somewhere else, kept by triggers.

The index holds one entry for each row and no copy of the row. So an entry is
not found by its key: whoever takes it out hands in what was indexed, and the
index believes it. As long as the triggers are given the stored values this
works out, and the entries stay those of the rows, up to their order. Once an
entry is missing it does not. What the index makes of a `'delete'` that it has
no entry for is not documented: it may report that it is damaged, and it may
go on and be damaged. `Delete` is such an index, of which only the documented
half is known, and every result below is for an index that is in step with
what is taken out of it.

Three operations use it, one for each kind of statement: `deletes` for the
rows a `DELETE` takes, `replace` for one row of an `UPDATE`, and an append for
an `INSERT`, which needs no lemma of its own.
-/
import Mathlib.Data.List.Perm.Basic

set_option autoImplicit false

namespace ContentIndex

/-- The `'delete'` command. Of an entry that is absent nothing is known. -/
structure Delete (ε α : Type) [DecidableEq α] where
  run : List α → α → Except ε (List α)
  run_of_mem : ∀ idx e, e ∈ idx → run idx e = .ok (idx.erase e)

namespace Delete

variable {ε α : Type} [DecidableEq α] (fts : Delete ε α)

/-- The trigger of a `DELETE` of many rows: one command for each. -/
def deletes : List α → List α → Except ε (List α)
  | idx, [] => .ok idx
  | idx, e :: gone =>
      match fts.run idx e with
      | .error x => .error x
      | .ok idx' => deletes idx' gone

/-- The trigger of one row of an `UPDATE`: the old entry goes, the new one comes. -/
def replace (idx : List α) (old new : α) : Except ε (List α) :=
  match fts.run idx old with
  | .error x => .error x
  | .ok idx' => .ok (idx' ++ [new])

/-- With an entry for every row that goes, what is left are the others. The induction is on
the rows that go, each of which finds its entry at the head of what is left up to order. -/
theorem deletes_of_perm {gone rest : List α} : ∀ {idx : List α}, idx.Perm (gone ++ rest) →
    ∃ idx', fts.deletes idx gone = .ok idx' ∧ idx'.Perm rest := by
  induction gone with
  | nil => exact fun h => ⟨_, rfl, h⟩
  | cons e gone ih =>
      intro idx h
      have hmem : e ∈ idx := h.mem_iff.mpr List.mem_cons_self
      have hrest : (idx.erase e).Perm (gone ++ rest) := by
        have herase := h.erase e
        rwa [List.cons_append, List.erase_cons_head] at herase
      obtain ⟨idx', hrun, hperm⟩ := ih hrest
      refine ⟨idx', ?_, hperm⟩
      rw [deletes, fts.run_of_mem idx e hmem]
      exact hrun

theorem replace_of_perm {idx rest : List α} {old : α} (new : α) (h : idx.Perm (old :: rest)) :
    ∃ idx', fts.replace idx old new = .ok idx' ∧ idx'.Perm (new :: rest) := by
  have hmem : old ∈ idx := h.mem_iff.mpr List.mem_cons_self
  have hrest : (idx.erase old).Perm rest := by
    have herase := h.erase old
    rwa [List.erase_cons_head] at herase
  refine ⟨idx.erase old ++ [new], ?_, ?_⟩
  · rw [replace, fts.run_of_mem idx old hmem]
  · exact (List.perm_append_singleton new _).trans (hrest.cons new)

end Delete

/-- An index that reports every absent entry, which the documentation allows. -/
def strict {ε α : Type} [DecidableEq α] (damaged : ε) : Delete ε α where
  run idx e := if e ∈ idx then .ok (idx.erase e) else .error damaged
  run_of_mem := by
    intro idx e h
    rw [if_pos h]

end ContentIndex
