/-
The clause builders as the SQL they build.

`Store/Query.lean` states each clause as a predicate on a row. Here it is the condition that is sent:
with columns that may be NULL, a doubly negated `NOT EXISTS … NOT IN` over the JSON array of the tags,
and three-valued truth. Both select the same rows, because the only column that may be NULL is never
under a negation and a JSON array of strings has no NULL among its values.

The builders return a text with `AND` at its front and the values to bind, and a caller joins several of
them behind `WHERE 1=1`. So a builder is a list of conditions here, an empty list where the source
returns an empty text, and joining is appending.

For each builder there is one lemma that says which rows it selects, and the proofs elsewhere use the
predicates.
-/
import OpenChronicle.Lib.Sql
import OpenChronicle.Store.Query

set_option autoImplicit false

namespace OpenChronicle

open Sql

/-- A part of a `WHERE`: the conditions it appends with `AND`; an empty text appends none. -/
abbrev WherePart : Type := List (MemoryItem → Truth)

/-- The row satisfies a `WHERE 1=1` followed by these parts. -/
def WherePart.selects (part : WherePart) (m : MemoryItem) : Bool := holds (all_of (part.map (· m)))

/-- `AND` between two parts. -/
theorem WherePart.selects_append (part part' : WherePart) (m : MemoryItem) :
    WherePart.selects (part ++ part') m = (WherePart.selects part m && WherePart.selects part' m) := by
  simp [WherePart.selects]

/-! ## Columns -/

/-- `pinned`, an integer. -/
def pinned_column (m : MemoryItem) : Option ℤ := some (if m.pinned then 1 else 0)

/-- `json_each(…)`'s `value` column: the strings of the array. -/
def json_each (tags : List PyStr.Text) : List (Option PyStr.Text) := tags.map some

/-- The column is `NOT NULL`, so the comparison is true or false. -/
theorem holds_pinned_column (m : MemoryItem) (b : Bool) :
    holds (equals (pinned_column m) (some (if b then 1 else 0))) = (m.pinned == b) := by
  rw [pinned_column, holds_equals]
  cases m.pinned <;> cases b <;> rfl

/-! ## `_pinned_clauses` and `_tags_clause` -/

/-- `_pinned_clauses`: the pinned clause and the scope clause. -/
def pinned_clauses (mode : PinnedMode) (project_id : Option String) : WherePart × WherePart :=
  match mode with
  | .exclude_pins =>
      ([fun m => equals (pinned_column m) (some 0)],
        match project_id with
        | none => []
        | some p => [fun m => equals m.project_id (some p)])
  | .only_pins =>
      ([fun m => equals (pinned_column m) (some 1)],
        match project_id with
        | none => []
        | some p => [fun m => disjunction (equals m.project_id (some p)) (is_null m.project_id)])
  | .include_pins =>
      ([],
        match project_id with
        | none => []
        | some p =>
            [fun m => disjunction (equals m.project_id (some p))
              (conjunction (equals (pinned_column m) (some 1)) (is_null m.project_id))])

/-- `_tags_clause`. -/
def tags_clauses (tags : Option (List PyStr.Text)) : WherePart :=
  if tags.getD [] = [] then []
  else
    [fun m => negation (exists_where (json_each (tags.getD [])) fun req => not_in req (json_each m.tags))]

/-- `_exclude_tags_clause`. -/
def exclude_tags_clauses (exclude_tags : Option (List PyStr.Text)) : WherePart :=
  if exclude_tags.getD [] = [] then []
  else
    [fun m => negation (exists_where (json_each m.tags) fun own => is_in own (json_each (exclude_tags.getD [])))]

/-! ## The rows they select -/

/-- The three modes. -/
theorem selects_pinned_clause (mode : PinnedMode) (project_id : Option String) (m : MemoryItem) :
    (pinned_clauses mode project_id).1.selects m = pinned_clause mode m := by
  have hzero := holds_pinned_column m false
  have hone := holds_pinned_column m true
  rw [if_neg (by decide)] at hzero
  rw [if_pos rfl] at hone
  cases mode with
  | exclude_pins => simp [pinned_clauses, WherePart.selects, pinned_clause, hzero]
  | include_pins => simp [pinned_clauses, WherePart.selects, pinned_clause]
  | only_pins => simp [pinned_clauses, WherePart.selects, pinned_clause, hone]

/-- Compared with NULL no project is the same; the two modes that want a row without one ask for it. -/
theorem selects_scope_clause (mode : PinnedMode) (project_id : Option String) (m : MemoryItem) :
    (pinned_clauses mode project_id).2.selects m = scope_clause mode project_id m := by
  have hone := holds_pinned_column m true
  rw [if_pos rfl] at hone
  have hnull : m.project_id.isNone = decide (m.project_id = none) := by cases m.project_id <;> rfl
  cases project_id with
  | none => cases mode <;> rfl
  | some p =>
      cases mode with
      | exclude_pins => simp [pinned_clauses, WherePart.selects, scope_clause]
      | include_pins =>
          simp [pinned_clauses, WherePart.selects, scope_clause, hone, is_null, hnull]
      | only_pins => simp [pinned_clauses, WherePart.selects, scope_clause, is_null, hnull]

/-- No wanted tag is missing from the row's. -/
theorem selects_tags_clause (tags : Option (List PyStr.Text)) (m : MemoryItem) :
    (tags_clauses tags).selects m = tags_clause tags m := by
  rw [tags_clauses, tags_clause]
  by_cases hnone : tags.getD [] = []
  · rw [if_pos hnone, hnone]
    rfl
  · -- no requested tag is missing: each of them is there
    rw [if_neg hnone, WherePart.selects, List.map_singleton, holds_all_of, List.all_cons, List.all_nil,
      Bool.and_true, holds_not_exists_where, json_each, List.any_map, json_each, List.not_any_eq_all_not]
    congr 1
    funext t
    rw [Function.comp_apply, holds_not_in_of_known, Bool.not_not]
    exact decide_eq_decide.mpr Iff.rfl

/-- No unwanted tag is among them. -/
theorem selects_exclude_tags_clause (exclude_tags : Option (List PyStr.Text)) (m : MemoryItem) :
    (exclude_tags_clauses exclude_tags).selects m = exclude_tags_clause exclude_tags m := by
  rw [exclude_tags_clauses, exclude_tags_clause]
  by_cases hnone : exclude_tags.getD [] = []
  · rw [if_pos hnone, hnone]
    simp [WherePart.selects]
  · rw [if_neg hnone, WherePart.selects, List.map_singleton, holds_all_of, List.all_cons, List.all_nil,
      Bool.and_true, holds_not_exists_where, json_each, List.any_map, json_each]
    congr 2
    funext t
    rw [Function.comp_apply, holds_is_in_of_known]
    exact decide_eq_decide.mpr Iff.rfl

/-- The `WHERE` of a search, less the match itself, as the engines send it. -/
def search_where (mode : PinnedMode) (project_id : Option String) (tags : Option (List PyStr.Text)) : WherePart :=
  (pinned_clauses mode project_id).1 ++ (pinned_clauses mode project_id).2 ++ tags_clauses tags

/-- **The rows a search looks at** are those of the predicates. -/
theorem selects_search_where (mode : PinnedMode) (project_id : Option String) (tags : Option (List PyStr.Text))
    (m : MemoryItem) : (search_where mode project_id tags).selects m = in_scope mode project_id tags m := by
  rw [search_where, WherePart.selects_append, WherePart.selects_append, selects_pinned_clause, selects_scope_clause,
    selects_tags_clause, in_scope]

/-- The `WHERE` of `eligible_memory_ids`, which drops the pinned clause. -/
def eligible_where (project_id : Option String) (tags : Option (List PyStr.Text)) : WherePart :=
  (pinned_clauses .include_pins project_id).2 ++ tags_clauses tags

/-- The scope of the semantic channel. -/
theorem selects_eligible_where (project_id : Option String) (tags : Option (List PyStr.Text)) (m : MemoryItem) :
    (eligible_where project_id tags).selects m
      = (scope_clause .include_pins project_id m && tags_clause tags m) := by
  rw [eligible_where, WherePart.selects_append, selects_scope_clause, selects_tags_clause]

end OpenChronicle
