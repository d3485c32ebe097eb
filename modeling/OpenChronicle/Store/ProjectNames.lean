/-
`list_projects(name_contains)`: the substring filter on project names.

The caller's text is escaped and put between two `%`, and SQLite's `LIKE ... ESCAPE` compares it with
each name. SQLite folds the case of ASCII letters only, which is what `Char.toLower` does. It refuses a
pattern above a fixed number of bytes, and it does so when it evaluates the operator: a table without
rows never does.

The order of the three replacements is the point of `escape_like`. The escape character comes first;
were it last, it would escape the ones that were put in. `like_name_pattern_iff` is the statement that
the pattern so built has no meaning but its text.
-/
import OpenChronicle.Lib.Like
import OpenChronicle.Store.Query

set_option autoImplicit false

namespace OpenChronicle

/-! ## The pattern -/

/-- `_LIKE_ESCAPE`. -/
def LIKE_ESCAPE : Char := '\\'

/-- `_escape_like`: the escape character first, so that it does not escape the ones added
after it. -/
def escape_like (value : List Char) : List Char :=
  [LIKE_ESCAPE, '%', '_'].foldl (fun value ch => Like.replace ch [LIKE_ESCAPE, ch] value) value

/-- `f"%{_escape_like(name_contains)}%"`. -/
def name_pattern (name_contains : String) : List Char :=
  '%' :: (escape_like name_contains.toList ++ ['%'])

/-! ## SQLite's `LIKE` -/

/-- `SQLITE_MAX_LIKE_PATTERN_LENGTH`, unless the library is built with another. -/
def MAX_LIKE_PATTERN_LENGTH : ℕ := 50000

/-- The wildcards of `LIKE`, with `ESCAPE '\'`. -/
def like_specials : Like.Specials Char := ⟨LIKE_ESCAPE, '%', '_'⟩

/-- Two characters `LIKE` does not tell apart. -/
def same_letter (c d : Char) : Bool := c.toLower == d.toLower

/-- `SELECT * FROM projects WHERE name LIKE ? ESCAPE ?`: the rows, or the error of a pattern that
is too long, where there is a row to evaluate it on. -/
def select_name_like (max_pattern : ℕ) (pattern : List Char) (rows : List Project) :
    Except Exc (List Project) :=
  if rows ≠ [] ∧ max_pattern < (String.ofList pattern).utf8ByteSize then .error .OperationalError
  else .ok (rows.filter fun p => Like.like like_specials same_letter pattern p.name.toList)

/-! ## The method -/

/-- `list_projects`. -/
def SqliteStore.list_projects {F : Type} (s : SqliteStore F) (max_pattern : ℕ)
    (name_contains : Option String) : Except Exc (List Project) :=
  match name_contains with
  | none => .ok s.db.list_projects
  | some v => do
      let rows ← select_name_like max_pattern (name_pattern v) s.db.projects
      -- `ORDER BY created_at DESC, id DESC`
      return rows.insertionSort fun a b => toLex (b.created_at, b.id) ≤ toLex (a.created_at, a.id)

/-! ## Literal search -/

/-- `v` occurs in `name`, up to the case of ASCII letters. -/
def contains_ignoring_case (v name : List Char) : Prop :=
  ∃ before found after, name = before ++ found ++ after ∧ found.map Char.toLower = v.map Char.toLower

/-- As an infix of the folded texts, which can be computed. -/
theorem contains_ignoring_case_iff {v name : List Char} :
    contains_ignoring_case v name ↔ v.map Char.toLower <:+: name.map Char.toLower := by
  constructor
  · intro h
    obtain ⟨before, found, after, rfl, hfound⟩ := h
    rw [List.map_append, List.map_append, hfound]
    exact List.infix_append _ _ _
  · intro h
    obtain ⟨before, after, h⟩ := h
    obtain ⟨start, rest, hname, hstart, hrest⟩ := List.map_eq_append_iff.mp h.symm
    obtain ⟨before', found, hsplit, -, hfound⟩ := List.map_eq_append_iff.mp hstart
    exact ⟨before', found, rest, by rw [hname, hsplit], hfound⟩

instance (v name : List Char) : Decidable (contains_ignoring_case v name) :=
  decidable_of_iff _ contains_ignoring_case_iff.symm

/-- Letter by letter. -/
theorem same_letter_run_iff {v found : List Char} :
    List.Forall₂ (fun c d => same_letter c d = true) v found
      ↔ found.map Char.toLower = v.map Char.toLower := by
  have hrun : (fun c d => same_letter c d = true) = fun c d : Char => c.toLower = d.toLower := by
    funext c d
    rw [same_letter, beq_iff_eq]
  rw [hrun, eq_comm, ← List.forall₂_eq_eq_eq, List.forall₂_map_left_iff, List.forall₂_map_right_iff]

/-- The pattern built from `v` looks for `v` as it stands. -/
theorem like_name_pattern_iff (v : String) (name : List Char) :
    Like.like like_specials same_letter (name_pattern v) name = true
      ↔ contains_ignoring_case v.toList name := by
  have hpattern : name_pattern v = '%' :: (Like.passes LIKE_ESCAPE [LIKE_ESCAPE, '%', '_'] v.toList ++ ['%']) :=
    rfl
  rw [hpattern]
  refine (Like.like_surrounded_iff like_specials same_letter (by decide) v.toList name).trans ?_
  simp only [contains_ignoring_case, same_letter_run_iff]

/-- **Name search is literal.** Within the pattern limit, the projects listed are those whose
name holds the caller's text, whatever wildcards and backslashes are in either, in the order of
an unfiltered listing. -/
theorem SqliteStore.list_projects_name_contains {F : Type} (s : SqliteStore F) (max_pattern : ℕ)
    (v : String) (hlimit : (String.ofList (name_pattern v)).utf8ByteSize ≤ max_pattern) :
    ∃ rows, s.list_projects max_pattern (some v) = .ok rows
      ∧ rows = (s.db.projects.filter fun p => contains_ignoring_case v.toList p.name.toList).insertionSort
          (fun a b => toLex (b.created_at, b.id) ≤ toLex (a.created_at, a.id))
      ∧ ∀ p, p ∈ rows ↔ p ∈ s.db.projects ∧ contains_ignoring_case v.toList p.name.toList := by
  refine ⟨_, ?_, rfl, ?_⟩
  · have hfits : ¬ (s.db.projects ≠ [] ∧ max_pattern < (String.ofList (name_pattern v)).utf8ByteSize) := by
      omega
    have hfilter : (fun p : Project => Like.like like_specials same_letter (name_pattern v) p.name.toList)
        = fun p => decide (contains_ignoring_case v.toList p.name.toList) := by
      funext p
      rw [Bool.eq_iff_iff, like_name_pattern_iff, decide_eq_true_iff]
    rw [SqliteStore.list_projects, select_name_like, if_neg hfits, hfilter]
    rfl
  · intro p
    rw [List.mem_insertionSort, List.mem_filter, decide_eq_true_iff]

/-- Names with every metacharacter. -/
def mixed_names : SqliteStore Unit where
  db :=
    { projects :=
        [{ id := "a", name := "50%_OFF\\now", created_at := 0 },
          { id := "b", name := "50x_off\\now", created_at := 0 },
          { id := "c", name := "50%yoff\\now", created_at := 0 },
          { id := "d", name := "50%_off now", created_at := 0 }]
      project_pk := by decide }
  fts5_active := true

/-- Every metacharacter at once, in the text and in the names. -/
theorem SqliteStore.list_projects_name_contains_sample :
    (∃ rows, mixed_names.list_projects MAX_LIKE_PATTERN_LENGTH (some "%_off\\N") = .ok rows
      ∧ rows = (mixed_names.db.projects.filter fun p =>
            contains_ignoring_case "%_off\\N".toList p.name.toList).insertionSort
          (fun a b => toLex (b.created_at, b.id) ≤ toLex (a.created_at, a.id))
      ∧ ∀ p, p ∈ rows ↔ p ∈ mixed_names.db.projects
          ∧ contains_ignoring_case "%_off\\N".toList p.name.toList)
      ∧ (mixed_names.db.projects.filter fun p =>
          contains_ignoring_case "%_off\\N".toList p.name.toList).map (·.id) = ["a"] := by
  have hfits : (String.ofList (name_pattern "%_off\\N")).utf8ByteSize ≤ MAX_LIKE_PATTERN_LENGTH := by
    decide +kernel
  exact ⟨mixed_names.list_projects_name_contains MAX_LIKE_PATTERN_LENGTH "%_off\\N" hfits,
    by decide +kernel⟩

end OpenChronicle
