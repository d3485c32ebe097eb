/-
Migration 005: every stored timestamp becomes UTC text, or nothing changes.

A check in Python reads the three columns first; the two `UPDATE`s then call the same
function from SQL, once to see whether a row needs it and once to set it. `Normal` is
what a text stands for, and both sides agree on it: the check passes exactly when every
text has a normal form, and then no call can raise and every row ends in normal form.

The second `UPDATE` does more than it says. A file that a process with FTS5 has
opened carries the trigger `memory_fts_au`, which fires for each row that the
statement writes, although no column of the index changes: the row's entry is
deleted and inserted again. On an index in step with the rows this is a change
of order. On one that lacks an entry FTS5 may report damage, and then the
migration fails on timestamps that are all in order. So the two halves of the
result are stated apart: what is refused for a timestamp, and what goes through
when nothing but a timestamp can be in the way.
-/
import OpenChronicle.Lib.ContentIndex
import OpenChronicle.Lib.Sql
import OpenChronicle.Store.Upgrades

set_option autoImplicit false

namespace OpenChronicle.Migrator

open PyStr Savepoints Upgrade

/-! ## The tables -/

/-- A row of `projects`. A `TEXT PRIMARY KEY` may be NULL. -/
structure ProjectRow where
  id : Option String
  name : String
  metadata : String
  created_at : String
  deriving DecidableEq, Repr

/-- A row of `memory_items`, with SQLite's implicit rowid. -/
structure MemoryRow where
  rowid : ℤ
  id : Option String
  content : String
  tags : String
  created_at : String
  pinned : ℤ
  project_id : Option String
  source : String
  updated_at : Option String
  deriving DecidableEq, Repr

/-- An entry of `memory_fts`. -/
structure FtsEntry where
  rowid : ℤ
  content : String
  tags : String
  deriving DecidableEq, Repr

/-- What a trigger writes to the index for a row. -/
def MemoryRow.fts (row : MemoryRow) : FtsEntry := ⟨row.rowid, row.content, row.tags⟩

/-- The database at version 4; `rest` is its other tables. The index is there, with its
triggers, once a process with FTS5 has opened the file. -/
structure Tables (R : Type) where
  projects : List ProjectRow
  memory_items : List MemoryRow
  memory_fts : Option (List FtsEntry)
  rest : R

/-- The index, where there is one, has one entry for each row and nothing else. -/
def Tables.InStep {R : Type} (t : Tables R) : Prop :=
  ∀ idx, t.memory_fts = some idx → idx.Perm (t.memory_items.map (·.fts))

variable {R : Type}

/-! ## `005_normalize_timestamps.sql` -/

/-- The text of the file, comments included; the splitter has to find its way through them. -/
def NORMALIZE_TIMESTAMPS : List Char :=
  "-- Normalize timestamp text to UTC without losing microseconds.
-- The Python migration runner registers oc_normalize_utc after rejecting
-- ambiguous or malformed legacy rows, inside the migration savepoint.

UPDATE projects
SET created_at = oc_normalize_utc(created_at)
WHERE created_at != oc_normalize_utc(created_at);

UPDATE memory_items
SET created_at = oc_normalize_utc(created_at),
    updated_at = oc_normalize_utc(updated_at)
WHERE created_at != oc_normalize_utc(created_at)
   OR (updated_at IS NOT NULL AND updated_at != oc_normalize_utc(updated_at));
".toList

def UPDATE_PROJECTS : List Char :=
  "UPDATE projects
SET created_at = oc_normalize_utc(created_at)
WHERE created_at != oc_normalize_utc(created_at)".toList

def UPDATE_MEMORY_ITEMS : List Char :=
  "UPDATE memory_items
SET created_at = oc_normalize_utc(created_at),
    updated_at = oc_normalize_utc(updated_at)
WHERE created_at != oc_normalize_utc(created_at)
   OR (updated_at IS NOT NULL AND updated_at != oc_normalize_utc(updated_at))".toList

set_option maxRecDepth 4000 in
/-- The splitter drops the comments and finds the two statements. -/
theorem split_normalize_timestamps :
    split_sql NORMALIZE_TIMESTAMPS = [UPDATE_PROJECTS, UPDATE_MEMORY_ITEMS] := by
  -- as lists of characters, so that nothing is decoded from UTF-8
  have hfile : NORMALIZE_TIMESTAMPS = _ := String.toList_ofList
  have hprojects : UPDATE_PROJECTS = _ := String.toList_ofList
  have hmemory : UPDATE_MEMORY_ITEMS = _ := String.toList_ofList
  rw [hfile, hprojects, hmemory]
  decide +kernel

set_option maxRecDepth 4000 in
/-- `sqlite` tells the two statements apart by their text. -/
theorem update_texts_ne : UPDATE_MEMORY_ITEMS ≠ UPDATE_PROJECTS := by
  have hprojects : UPDATE_PROJECTS = _ := String.toList_ofList
  have hmemory : UPDATE_MEMORY_ITEMS = _ := String.toList_ofList
  rw [hprojects, hmemory]
  decide +kernel

/-- `oc_normalize_utc(value)` in a statement. -/
def call_udf (f : Udf) (value : Option String) : Except String (Option String) :=
  match f value with
  | .ok result => .ok result
  | .error _ => .error "user-defined function raised exception"

/-- `a != b`. -/
def differs (a b : Option String) : Sql.Truth := Sql.negation (Sql.equals a b)

/-- The first `UPDATE`, on one row. -/
def update_project (f : Udf) (row : ProjectRow) : Except String ProjectRow :=
  match call_udf f (some row.created_at) with
  | .error e => .error e
  | .ok created =>
      if Sql.holds (differs (some row.created_at) created) then
        match created with
        | some created_at => .ok { row with created_at }
        | none => .error "NOT NULL constraint failed: projects.created_at"
      else .ok row

/-- The second `UPDATE`, on one row; `none` is a row that the `WHERE` passes over. -/
def update_memory_item (f : Udf) (row : MemoryRow) : Except String (Option MemoryRow) :=
  match call_udf f (some row.created_at) with
  | .error e => .error e
  | .ok created =>
      match call_udf f row.updated_at with
      | .error e => .error e
      | .ok updated =>
          if Sql.holds (Sql.disjunction (differs (some row.created_at) created)
              (Sql.conjunction (Sql.negation (Sql.is_null row.updated_at))
                (differs row.updated_at updated))) then
            match created with
            | some created_at => .ok (some { row with created_at, updated_at := updated })
            | none => .error "NOT NULL constraint failed: memory_items.created_at"
          else .ok none

/-- An `UPDATE` fails on the first row that does. -/
def update_rows {ρ : Type} (f : ρ → Except String ρ) : List ρ → Except String (List ρ)
  | [] => .ok []
  | row :: rest =>
      match f row with
      | .error e => .error e
      | .ok row' =>
          match update_rows f rest with
          | .error e => .error e
          | .ok rest' => .ok (row' :: rest')

variable (fts5 : ContentIndex.Delete String FtsEntry)

/-- `memory_fts_au`, once for each row that is written. -/
def memory_fts_au (old new : MemoryRow) :
    Option (List FtsEntry) → Except String (Option (List FtsEntry))
  | none => .ok none
  | some idx => (fts5.replace idx old.fts new.fts).map some

/-- The second `UPDATE` with its trigger. -/
def update_memory_rows (f : Udf) : List MemoryRow → Option (List FtsEntry) →
    Except String (List MemoryRow × Option (List FtsEntry))
  | [], fts => .ok ([], fts)
  | row :: rest, fts =>
      match update_memory_item f row with
      | .error e => .error e
      | .ok none => (update_memory_rows f rest fts).map fun r => (row :: r.1, r.2)
      | .ok (some row') =>
          match memory_fts_au fts5 row row' fts with
          | .error e => .error e
          | .ok fts' => (update_memory_rows f rest fts').map fun r => (row' :: r.1, r.2)

/-- Without the function the statement does not compile. -/
def with_udf {α : Type} (udf : Option Udf) (run : Udf → Except String α) : Except String α :=
  match udf with
  | none => .error "no such function: oc_normalize_utc"
  | some f => run f

/-- SQLite on these tables; `other` is what the other texts mean. -/
def sqlite (other : List Char → Statement (Tables R)) : Sqlite (Tables R) where
  statement stmt :=
    if stmt = UPDATE_PROJECTS then
      .change fun udf t => with_udf udf fun f =>
        (update_rows (update_project f) t.projects).map fun projects => { t with projects }
    else if stmt = UPDATE_MEMORY_ITEMS then
      .change fun udf t => with_udf udf fun f =>
        (update_memory_rows fts5 f t.memory_items t.memory_fts).map
          fun (memory_items, memory_fts) => { t with memory_items, memory_fts }
    else other stmt
  select t table column :=
    if (table, column) = ("projects", "created_at") then
      .ok (t.projects.map fun row => (row.id, some row.created_at))
    else if (table, column) = ("memory_items", "created_at") then
      .ok (t.memory_items.map fun row => (row.id, some row.created_at))
    else if (table, column) = ("memory_items", "updated_at") then
      .ok (t.memory_items.map fun row => (row.id, row.updated_at))
    else .error ("no such column: " ++ column)

/-- The `migrations/` of the repository; `older` is what the other files hold. -/
def migration_files (older : String → Except String (List Char)) : List Entry :=
  let file := fun name => ({ name, read_text := older name } : Entry)
  [file "001_initial.sql", file "002_embedding_identity.sql",
    file "003_embedding_space_fingerprint.sql", file "004_embedding_status.sql",
    { name := TIMESTAMP_MIGRATION, read_text := .ok NORMALIZE_TIMESTAMPS }, file "__init__.py"]

def migrations (older : String → Except String (List Char)) : Directory :=
  some (migration_files older)

/-! ## Normal forms -/

section Normal

variable {py : Python}

/-- `text` is the UTC text of the instant that `value` names. -/
def Normal (py : Python) (value text : String) : Prop :=
  ∃ d t, py.fromisoformat value = some d ∧ d.datetime = .aware t ∧ Storable t
    ∧ text = created_text t

/-- What the store would write for the instant is the normal form. -/
theorem stored_text_of_storable {d : PyDatetime} {t : Instant} (h : d.datetime = .aware t)
    (ht : Storable t) (field : String) : d.stored_text field = .ok (created_text t) := by
  rcases hstored : d.stored_text field with e | text
  · -- an error would be `require_utc`'s, and the instant is in range
    rw [PyDatetime.stored_text] at hstored
    rcases hconv : d.require_utc field with e' | converted
    · have herror := ((d.require_utc_datetime field).1 e').mp hconv
      rw [h, require_utc, if_pos (show MIN_INSTANT ≤ t ∧ t ≤ MAX_INSTANT from ht)] at herror
      cases herror
    · rw [hconv] at hstored
      cases hstored
  · obtain ⟨u, hu, -, rfl⟩ := stored_text_eq hstored
    rw [h] at hu
    rw [Datetime.aware.inj hu]

/-- The function answers the normal form, and raises when there is none. -/
theorem utc_timestamp_spec (value : String) :
    (∃ text, Normal py value text ∧ utc_timestamp py (some value) = .ok (some text))
      ∨ (∀ text, ¬ Normal py value text) ∧ ∃ e, utc_timestamp py (some value) = .error e := by
  rw [utc_timestamp]
  rcases hparse : py.fromisoformat value with _ | d
  · refine Or.inr ⟨?_, _, rfl⟩
    rintro text ⟨d, t, hd, -⟩
    rw [hparse] at hd
    cases hd
  · dsimp only
    rcases hstored : d.stored_text "timestamp" with e | text
    · refine Or.inr ⟨?_, e, rfl⟩
      rintro text ⟨d', t, hd, ht, hstorable, -⟩
      rw [hparse] at hd
      obtain rfl := Option.some.inj hd
      rw [stored_text_of_storable ht hstorable] at hstored
      cases hstored
    · obtain ⟨t, ht, hstorable, htext⟩ := stored_text_eq hstored
      exact Or.inl ⟨text, ⟨d, t, hparse, ht, hstorable, htext⟩, rfl⟩

/-- The direction that the updates use. -/
theorem utc_timestamp_of_normal {value text : String} (h : Normal py value text) :
    utc_timestamp py (some value) = .ok (some text) := by
  obtain ⟨d, t, hparse, ht, hstorable, rfl⟩ := h
  rw [utc_timestamp, hparse]
  dsimp only
  rw [stored_text_of_storable ht hstorable]

/-- A normal form is its own normal form. -/
theorem Normal.again {value text : String} (h : Normal py value text) : Normal py text text := by
  obtain ⟨d, t, -, -, hstorable, rfl⟩ := h
  obtain ⟨reading, htext, hmicros⟩ := created_text_of_storable hstorable
  refine ⟨.utc reading, t, ?_, ?_, hstorable, rfl⟩
  · rw [htext]
    exact py.fromisoformat_isoformat _
  · show Datetime.aware (reading.micros - 0 - EPOCH) = _
    rw [hmicros, Int.sub_zero, add_sub_cancel_right]

/-- A value or NULL in normal form has a normal form. -/
theorem legible_of_rel {value text : Option String} (h : Option.Rel (Normal py) value text) :
    ∀ v ∈ text, ∃ normal, Normal py v normal := by
  rintro v hv
  cases h with
  | none => cases hv
  | some hnormal =>
      cases hv
      exact ⟨_, hnormal.again⟩

/-- Column by column, NULL included. -/
theorem rel_again {value text : Option String} (h : Option.Rel (Normal py) value text) :
    Option.Rel (Normal py) text text := by
  cases h with
  | none => exact .none
  | some hnormal => exact .some hnormal.again

end Normal

/-! ## The check -/

/-- Every `created_at` and every `updated_at` that is not NULL has a normal form. -/
structure Legible (py : Python) (t : Tables R) : Prop where
  projects : ∀ row ∈ t.projects, ∃ text, Normal py row.created_at text
  memory_created : ∀ row ∈ t.memory_items, ∃ text, Normal py row.created_at text
  memory_updated : ∀ row ∈ t.memory_items, ∀ value ∈ row.updated_at, ∃ text, Normal py value text

section Check

variable {py : Python}

/-- `created_at` is `NOT NULL`, so there is a value to look at. -/
theorem check_row_created (table column : String) (id : Option String) (value : String) :
    check_row py table column (id, some value) = none ↔ ∃ text, Normal py value text := by
  rw [check_row]
  rcases @utc_timestamp_spec py value with ⟨text, hnormal, hcall⟩ | ⟨hnone, e, hcall⟩
  · dsimp only
    rw [hcall]
    exact ⟨fun _ => ⟨text, hnormal⟩, fun _ => rfl⟩
  · dsimp only
    rw [hcall]
    refine ⟨nofun, ?_⟩
    rintro ⟨text, hnormal⟩
    exact absurd hnormal (hnone text)

/-- NULL passes. -/
theorem check_row_updated (table : String) (id value : Option String) :
    check_row py table "updated_at" (id, value) = none
      ↔ ∀ v ∈ value, ∃ text, Normal py v text := by
  cases value with
  | none => exact ⟨fun _ => nofun, fun _ => rfl⟩
  | some value =>
      rw [check_row_created]
      constructor
      · rintro h _ ⟨⟩
        exact h
      · intro h
        exact h value rfl

/-- The check passes exactly the tables whose timestamps all have a normal form. -/
theorem check_legacy_iff (fts5 : ContentIndex.Delete String FtsEntry)
    (other : List Char → Statement (Tables R)) (t : Tables R) :
    check_legacy_timestamps py (sqlite fts5 other) t = .ok () ↔ Legible py t := by
  have hfind : find_invalid py (sqlite fts5 other) t LEGACY_COLUMNS
      = .ok ((t.projects.map fun row => (row.id, some row.created_at)).filterMap
            (check_row py "projects" "created_at")
          ++ ((t.memory_items.map fun row => (row.id, some row.created_at)).filterMap
            (check_row py "memory_items" "created_at")
          ++ ((t.memory_items.map fun row => (row.id, row.updated_at)).filterMap
            (check_row py "memory_items" "updated_at") ++ []))) := rfl
  rw [check_legacy_timestamps, hfind]
  dsimp only
  split
  · next hne =>
      refine ⟨nofun, ?_⟩
      intro h
      refine absurd ?_ hne
      rw [List.append_nil, List.append_eq_nil_iff, List.append_eq_nil_iff]
      simp only [List.filterMap_eq_nil_iff, List.mem_map, forall_exists_index, and_imp,
        forall_apply_eq_imp_iff₂]
      refine ⟨?_, ?_, ?_⟩
      · intro row hrow
        exact (check_row_created _ _ _ _).mpr (h.projects row hrow)
      · intro row hrow
        exact (check_row_created _ _ _ _).mpr (h.memory_created row hrow)
      · intro row hrow
        exact (check_row_updated _ _ _).mpr (h.memory_updated row hrow)
  · next heq =>
      refine ⟨fun _ => ?_, fun _ => rfl⟩
      rw [not_not, List.append_nil, List.append_eq_nil_iff, List.append_eq_nil_iff] at heq
      simp only [List.filterMap_eq_nil_iff, List.mem_map, forall_exists_index, and_imp,
        forall_apply_eq_imp_iff₂] at heq
      obtain ⟨hprojects, hcreated, hupdated⟩ := heq
      constructor
      · intro row hrow
        exact (check_row_created _ _ _ _).mp (hprojects row hrow)
      · intro row hrow
        exact (check_row_created _ _ _ _).mp (hcreated row hrow)
      · intro row hrow
        exact (check_row_updated _ _ _).mp (hupdated row hrow)

end Check

/-! ## The updates -/

/-- `row'` is `row` with its timestamp in normal form. -/
def ProjectRow.Normalized (py : Python) (row row' : ProjectRow) : Prop :=
  ∃ created_at, Normal py row.created_at created_at ∧ row' = { row with created_at }

/-- A NULL stays NULL. -/
def MemoryRow.Normalized (py : Python) (row row' : MemoryRow) : Prop :=
  ∃ created_at updated_at, Normal py row.created_at created_at
    ∧ Option.Rel (Normal py) row.updated_at updated_at
    ∧ row' = { row with created_at, updated_at }

/-- Row by row, in order, and the other tables as they were. An index stays, and stays in
step if it was. -/
structure Tables.Normalized (py : Python) (t t' : Tables R) : Prop where
  projects : List.Forall₂ (ProjectRow.Normalized py) t.projects t'.projects
  memory_items : List.Forall₂ (MemoryRow.Normalized py) t.memory_items t'.memory_items
  memory_fts : t'.memory_fts.isSome = t.memory_fts.isSome
  in_step : t.InStep → t'.InStep
  rest : t'.rest = t.rest

section Updates

variable {py : Python}

/-- On legible values the function does not raise, and so no statement fails for a timestamp. -/
theorem call_udf_of_normal {value text : String} (h : Normal py value text) :
    call_udf (utc_timestamp py) (some value) = .ok (some text) := by
  rw [call_udf, utc_timestamp_of_normal h]

/-- The same for a column that may be NULL. -/
theorem call_udf_of_rel {value text : Option String} (h : Option.Rel (Normal py) value text) :
    call_udf (utc_timestamp py) value = .ok text := by
  cases h with
  | none => rfl
  | some h => exact call_udf_of_normal h

/-- Between two texts that are there, `!=` is never NULL. -/
theorem differs_some (a b : String) : differs (some a) (some b) = some (decide (a ≠ b)) := by
  by_cases h : a = b
  · simp [differs, Sql.equals, Sql.negation, h]
  · simp [differs, Sql.equals, Sql.negation, h]

/-- A row the `WHERE` passes over is in normal form already. -/
theorem update_project_normal {row : ProjectRow} {text : String}
    (h : Normal py row.created_at text) :
    update_project (utc_timestamp py) row = .ok { row with created_at := text } := by
  rw [update_project, call_udf_of_normal h]
  dsimp only
  rw [differs_some]
  by_cases hsame : row.created_at = text
  · rw [← hsame]
    simp [Sql.holds]
  · simp [Sql.holds, hsame]

/-- A row with its timestamps in normal form is written unless it had them before. -/
theorem update_memory_item_normal {row : MemoryRow} {text : String} {updated : Option String}
    (h : Normal py row.created_at text) (hupdated : Option.Rel (Normal py) row.updated_at updated) :
    update_memory_item (utc_timestamp py) row
      = .ok (if row.created_at = text ∧ row.updated_at = updated then none
          else some { row with created_at := text, updated_at := updated }) := by
  rw [update_memory_item, call_udf_of_normal h, call_udf_of_rel hupdated]
  dsimp only
  rw [differs_some]
  obtain ⟨rowid, id, content, tags, created_at, pinned, project_id, source, updated_at⟩ := row
  dsimp only at hupdated ⊢
  by_cases hsame : created_at = text
  · -- only `updated_at` can select the row
    cases hupdated with
    | none => simp [Sql.holds, Sql.disjunction, Sql.conjunction, Sql.negation, Sql.is_null, hsame]
    | @some value normal hvalue =>
        rw [differs_some]
        by_cases hvalues : value = normal
        · simp [Sql.holds, Sql.disjunction, Sql.conjunction, Sql.negation, Sql.is_null, hsame,
            hvalues]
        · simp [Sql.holds, Sql.disjunction, Sql.conjunction, Sql.negation, Sql.is_null, hsame,
            hvalues]
  · simp [Sql.holds, Sql.disjunction, hsame]

/-- An `UPDATE` each of whose rows goes through goes through, row by row. -/
theorem update_rows_ok {ρ : Type} {P : ρ → ρ → Prop} {f : ρ → Except String ρ} {rows : List ρ}
    (h : ∀ row ∈ rows, ∃ row', f row = .ok row' ∧ P row row') :
    ∃ rows', update_rows f rows = .ok rows' ∧ List.Forall₂ P rows rows' := by
  induction rows with
  | nil => exact ⟨[], rfl, .nil⟩
  | cons row rest ih =>
      obtain ⟨row', hrow, hP⟩ := h row List.mem_cons_self
      obtain ⟨rest', hrest, hall⟩ := ih fun r hr => h r (List.mem_cons_of_mem row hr)
      refine ⟨row' :: rest', ?_, .cons hP hall⟩
      rw [update_rows, hrow, hrest]

/-- Timestamps that all name an instant. -/
def MemoryRow.Dated (py : Python) (row : MemoryRow) : Prop :=
  ∃ text updated, Normal py row.created_at text ∧ Option.Rel (Normal py) row.updated_at updated

/-- Of a row with legible timestamps the `WHERE` decides whether it is written; either way it ends in
normal form. -/
theorem memory_item_cases {row : MemoryRow} (h : row.Dated py) :
    (update_memory_item (utc_timestamp py) row = .ok none ∧ MemoryRow.Normalized py row row)
      ∨ ∃ row', update_memory_item (utc_timestamp py) row = .ok (some row')
        ∧ MemoryRow.Normalized py row row' := by
  obtain ⟨text, updated, hnormal, hrel⟩ := h
  have hrow := update_memory_item_normal hnormal hrel
  by_cases hsame : row.created_at = text ∧ row.updated_at = updated
  · rw [if_pos hsame] at hrow
    obtain ⟨rfl, rfl⟩ := hsame
    exact .inl ⟨hrow, _, _, hnormal, hrel, rfl⟩
  · rw [if_neg hsame] at hrow
    exact .inr ⟨_, hrow, text, updated, hnormal, hrel, rfl⟩

/-- A trigger neither makes an index nor drops one. -/
theorem memory_fts_au_isSome {old new : MemoryRow} {fts fts' : Option (List FtsEntry)}
    (h : memory_fts_au fts5 old new fts = .ok fts') : fts'.isSome = fts.isSome := by
  cases fts with
  | none =>
      cases h
      rfl
  | some idx =>
      rw [memory_fts_au] at h
      cases hrun : fts5.replace idx old.fts new.fts with
      | error e => rw [hrun] at h; cases h
      | ok idx' =>
          rw [hrun] at h
          cases h
          rfl

/-- The statement that goes through has written every row its normal form. -/
theorem update_memory_rows_ok {rows : List MemoryRow} (h : ∀ row ∈ rows, row.Dated py) :
    ∀ {fts : Option (List FtsEntry)} {r : List MemoryRow × Option (List FtsEntry)},
      update_memory_rows fts5 (utc_timestamp py) rows fts = .ok r →
      List.Forall₂ (MemoryRow.Normalized py) rows r.1 ∧ r.2.isSome = fts.isSome := by
  induction rows with
  | nil =>
      rintro fts r ⟨⟩
      exact ⟨.nil, rfl⟩
  | cons row rest ih =>
      intro fts r hrun
      have ih := @ih fun x hx => h x (List.mem_cons_of_mem row hx)
      rw [update_memory_rows] at hrun
      rcases memory_item_cases (h row List.mem_cons_self) with ⟨hrow, hn⟩ | ⟨row', hrow, hn⟩
      · simp only [hrow] at hrun
        cases hrest : update_memory_rows fts5 (utc_timestamp py) rest fts with
        | error e => rw [hrest] at hrun; cases hrun
        | ok r' =>
            rw [hrest] at hrun
            cases hrun
            obtain ⟨hall, hsome⟩ := ih hrest
            exact ⟨.cons hn hall, hsome⟩
      · simp only [hrow] at hrun
        cases hfire : memory_fts_au fts5 row row' fts with
        | error e => simp only [hfire] at hrun; cases hrun
        | ok fts' =>
            simp only [hfire] at hrun
            cases hrest : update_memory_rows fts5 (utc_timestamp py) rest fts' with
            | error e => rw [hrest] at hrun; cases hrun
            | ok r' =>
                rw [hrest] at hrun
                cases hrun
                obtain ⟨hall, hsome⟩ := ih hrest
                exact ⟨.cons hn hall, hsome.trans (memory_fts_au_isSome fts5 hfire)⟩

/-- On an index in step the trigger never fails. The induction keeps in `done` the entries of
the rows that the statement is through with. -/
theorem update_memory_rows_in_step {rows : List MemoryRow} (h : ∀ row ∈ rows, row.Dated py) :
    ∀ {fts : Option (List FtsEntry)} {done : List FtsEntry},
      (∀ idx, fts = some idx → idx.Perm (rows.map (·.fts) ++ done)) →
      ∃ r, update_memory_rows fts5 (utc_timestamp py) rows fts = .ok r
        ∧ ∀ idx, r.2 = some idx → idx.Perm (r.1.map (·.fts) ++ done) := by
  induction rows with
  | nil => exact fun hstep => ⟨_, rfl, hstep⟩
  | cons row rest ih =>
      intro fts done hstep
      have ih := @ih fun x hx => h x (List.mem_cons_of_mem row hx)
      have hmiddle : ∀ (e : FtsEntry) (l : List MemoryRow),
          (l.map (·.fts) ++ e :: done).Perm (e :: (l.map (·.fts) ++ done)) :=
        fun e l => List.perm_middle
      rw [update_memory_rows]
      rcases memory_item_cases (h row List.mem_cons_self) with ⟨hrow, -⟩ | ⟨row', hrow, -⟩
      · obtain ⟨r, hrest, hperm⟩ := @ih fts (row.fts :: done)
          fun idx hidx => (hstep idx hidx).trans (hmiddle _ _).symm
        refine ⟨(row :: r.1, r.2), ?_, fun idx hidx => (hperm idx hidx).trans (hmiddle _ _)⟩
        simp only [hrow, hrest]
        rfl
      · -- the old entry is there, and the new one takes its place
        obtain ⟨fts', hfire, hstep'⟩ : ∃ fts', memory_fts_au fts5 row row' fts = .ok fts'
            ∧ ∀ idx, fts' = some idx → idx.Perm (row'.fts :: (rest.map (·.fts) ++ done)) := by
          cases fts with
          | none => exact ⟨none, rfl, nofun⟩
          | some idx =>
              obtain ⟨idx', hreplace, hperm⟩ :=
                fts5.replace_of_perm row'.fts (hstep idx rfl)
              refine ⟨some idx', ?_, ?_⟩
              · rw [memory_fts_au, hreplace]
                rfl
              · rintro _ ⟨⟩
                exact hperm
        obtain ⟨r, hrest, hperm⟩ := @ih fts' (row'.fts :: done)
          fun idx hidx => (hstep' idx hidx).trans (hmiddle _ _).symm
        refine ⟨(row' :: r.1, r.2), ?_, fun idx hidx => (hperm idx hidx).trans (hmiddle _ _)⟩
        simp only [hrow, hfire, hrest]
        rfl

/-- What the run of the two statements comes to. -/
theorem run_updates_eq (other : List Char → Statement (Tables R)) (f : Udf)
    (db : Database (Tables R)) :
    run_all (sqlite fts5 other) no_fault (some f) 0 [UPDATE_PROJECTS, UPDATE_MEMORY_ITEMS] db
      = match update_rows (update_project f) db.tables.projects with
        | .error e => .error e
        | .ok projects =>
            match update_memory_rows fts5 f db.tables.memory_items db.tables.memory_fts with
            | .error e => .error e
            | .ok (memory_items, memory_fts) =>
                .ok { db with tables := { db.tables with projects, memory_items, memory_fts } } := by
  -- the two statements are told apart by their texts
  have hfirst : (sqlite fts5 other).statement UPDATE_PROJECTS
      = .change fun udf t => with_udf udf fun f =>
        (update_rows (update_project f) t.projects).map fun projects => { t with projects } := by
    rw [sqlite]
    dsimp only
    rw [if_pos rfl]
  have hsecond : (sqlite fts5 other).statement UPDATE_MEMORY_ITEMS
      = .change fun udf t => with_udf udf fun f =>
        (update_memory_rows fts5 f t.memory_items t.memory_fts).map
          fun (memory_items, memory_fts) => { t with memory_items, memory_fts } := by
    rw [sqlite]
    dsimp only
    rw [if_neg update_texts_ne, if_pos rfl]
  rw [run_all, statement_effect, hfirst]
  dsimp only [no_fault, or_fault, Statement.run, with_udf]
  cases update_rows (update_project f) db.tables.projects with
  | error e => rfl
  | ok projects =>
      dsimp only [Except.map]
      rw [run_all, statement_effect, hsecond]
      dsimp only [no_fault, or_fault, Statement.run, with_udf]
      cases update_memory_rows fts5 f db.tables.memory_items db.tables.memory_fts with
      | error e => rfl
      | ok r => rfl

/-- What the two statements make of legible tables; only the index can be in the way. -/
theorem run_updates (other : List Char → Statement (Tables R)) {db : Database (Tables R)}
    (h : Legible py db.tables) :
    (¬ db.tables.InStep ∧ ∃ e, run_all (sqlite fts5 other) no_fault (some (utc_timestamp py)) 0
        [UPDATE_PROJECTS, UPDATE_MEMORY_ITEMS] db = .error e)
      ∨ ∃ tables, Tables.Normalized py db.tables tables
        ∧ run_all (sqlite fts5 other) no_fault (some (utc_timestamp py)) 0
          [UPDATE_PROJECTS, UPDATE_MEMORY_ITEMS] db = .ok { db with tables } := by
  obtain ⟨projects, hprojects, hall⟩ := @update_rows_ok _ (ProjectRow.Normalized py)
    (update_project (utc_timestamp py)) db.tables.projects (by
      intro row hrow
      obtain ⟨text, hnormal⟩ := h.projects row hrow
      exact ⟨_, update_project_normal hnormal, text, hnormal, rfl⟩)
  -- every row that the second statement meets can be written
  have hdated : ∀ row ∈ db.tables.memory_items, row.Dated py := by
    intro row hrow
    obtain ⟨text, hnormal⟩ := h.memory_created row hrow
    rcases hvalue : row.updated_at with _ | value
    · exact ⟨text, none, hnormal, by rw [hvalue]; exact .none⟩
    · obtain ⟨normal, hupdated⟩ := h.memory_updated row hrow value hvalue
      exact ⟨text, some normal, hnormal, by rw [hvalue]; exact .some hupdated⟩
  -- on an index in step the triggers go through
  have hstep : db.tables.InStep → ∃ r, update_memory_rows fts5 (utc_timestamp py)
      db.tables.memory_items db.tables.memory_fts = .ok r
        ∧ ∀ idx, r.2 = some idx → idx.Perm (r.1.map (·.fts)) := by
    intro hin
    have hstart : ∀ idx, db.tables.memory_fts = some idx →
        idx.Perm (db.tables.memory_items.map (·.fts) ++ []) := by
      intro idx hidx
      rw [List.append_nil]
      exact hin idx hidx
    obtain ⟨r, hrun, hperm⟩ := update_memory_rows_in_step fts5 hdated hstart
    exact ⟨r, hrun, fun idx hidx => by simpa using hperm idx hidx⟩
  rw [run_updates_eq, hprojects]
  dsimp only
  rcases hmemory : update_memory_rows fts5 (utc_timestamp py) db.tables.memory_items
      db.tables.memory_fts with e | ⟨memory_items, memory_fts⟩
  · -- so where the statement fails, the index was not in step
    refine .inl ⟨?_, e, rfl⟩
    intro hin
    obtain ⟨r, hrun, -⟩ := hstep hin
    rw [hmemory] at hrun
    cases hrun
  · obtain ⟨hall', hsome⟩ := update_memory_rows_ok fts5 hdated hmemory
    refine .inr ⟨{ projects, memory_items, memory_fts, rest := db.tables.rest },
      ⟨hall, hall', hsome, ?_, rfl⟩, rfl⟩
    intro hin
    obtain ⟨r, hrun, hperm⟩ := hstep hin
    rw [hmemory] at hrun
    cases hrun
    exact hperm

/-- Every timestamp is its own normal form. -/
structure Settled (py : Python) (t : Tables R) : Prop where
  projects : ∀ row ∈ t.projects, Normal py row.created_at row.created_at
  memory_created : ∀ row ∈ t.memory_items, Normal py row.created_at row.created_at
  memory_updated : ∀ row ∈ t.memory_items, Option.Rel (Normal py) row.updated_at row.updated_at

/-- A text in normal form is legible. -/
theorem Settled.legible {t : Tables R} (h : Settled py t) : Legible py t where
  projects row hrow := ⟨_, h.projects row hrow⟩
  memory_created row hrow := ⟨_, h.memory_created row hrow⟩
  memory_updated row hrow := legible_of_rel (h.memory_updated row hrow)

/-- No row is written, so no trigger fires and the index does not matter. -/
theorem run_updates_settled (other : List Char → Statement (Tables R)) {db : Database (Tables R)}
    (h : Settled py db.tables) :
    run_all (sqlite fts5 other) no_fault (some (utc_timestamp py)) 0
      [UPDATE_PROJECTS, UPDATE_MEMORY_ITEMS] db = .ok db := by
  have hprojects : ∀ rows : List ProjectRow, (∀ row ∈ rows, Normal py row.created_at row.created_at) →
      update_rows (update_project (utc_timestamp py)) rows = .ok rows := by
    intro rows hrows
    induction rows with
    | nil => rfl
    | cons row rest ih =>
        rw [update_rows, update_project_normal (hrows row List.mem_cons_self),
          ih fun r hr => hrows r (List.mem_cons_of_mem row hr)]
  have hmemory : ∀ (rows : List MemoryRow) (fts : Option (List FtsEntry)),
      (∀ row ∈ rows, Normal py row.created_at row.created_at
        ∧ Option.Rel (Normal py) row.updated_at row.updated_at) →
      update_memory_rows fts5 (utc_timestamp py) rows fts = .ok (rows, fts) := by
    intro rows fts hrows
    induction rows with
    | nil => rfl
    | cons row rest ih =>
        obtain ⟨hcreated, hupdated⟩ := hrows row List.mem_cons_self
        have hrow := update_memory_item_normal hcreated hupdated
        rw [if_pos ⟨rfl, rfl⟩] at hrow
        simp only [update_memory_rows, hrow, ih fun r hr => hrows r (List.mem_cons_of_mem row hr)]
        rfl
  rw [run_updates_eq, hprojects _ h.projects]
  dsimp only
  rw [hmemory _ _ fun row hrow => ⟨h.memory_created row hrow, h.memory_updated row hrow⟩]

end Updates

/-! ## The files -/

section Files

variable {py : Python} (older : String → Except String (List Char))

/-- The file of migration 005. -/
def normalize_file : Entry where
  name := TIMESTAMP_MIGRATION
  read_text := .ok NORMALIZE_TIMESTAMPS

/-- The version in a name that starts with two zeros, a digit and an underscore. -/
theorem numbered_version {name : String} {digit : Char} {slug : List Char}
    (hname : name.toList = ['0', '0', digit] ++ '_' :: (slug ++ ".sql".toList))
    (hdigit : digit.toNat < 128 ∧ IsoText.is_digit digit = true) (hne : slug ≠ [])
    (hslug : ∀ c ∈ slug, is_slug_char c = true) :
    filename_version py name = some (digit.toNat - '0'.toNat) := by
  have hzero : py.decimal '0' = some 0 := by
    rw [py.ascii '0' (by decide)]
    rfl
  have hvalue : py.decimal digit = some (digit.toNat - '0'.toNat) := by
    rw [py.ascii digit hdigit.1, if_pos hdigit.2]
  rw [filename_version_of py hname (by simp) (by simp [hzero, hvalue]) hne hslug]
  simp [hzero, hvalue]

/-- The repository's migrations, in order. -/
theorem discover_repository :
    discover_migrations py (migrations older)
      = [(1, { name := "001_initial.sql", read_text := older "001_initial.sql" }),
        (2, { name := "002_embedding_identity.sql"
              read_text := older "002_embedding_identity.sql" }),
        (3, { name := "003_embedding_space_fingerprint.sql"
              read_text := older "003_embedding_space_fingerprint.sql" }),
        (4, { name := "004_embedding_status.sql", read_text := older "004_embedding_status.sql" }),
        (5, normalize_file)] := by
  have h1 : filename_version py "001_initial.sql" = some 1 :=
    @numbered_version py _ '1' "initial".toList (by decide) (by decide) (by decide)
      (List.all_eq_true.mp (by decide))
  have h2 : filename_version py "002_embedding_identity.sql" = some 2 :=
    @numbered_version py _ '2' "embedding_identity".toList (by decide) (by decide) (by decide)
      (List.all_eq_true.mp (by decide))
  have h3 : filename_version py "003_embedding_space_fingerprint.sql" = some 3 :=
    @numbered_version py _ '3' "embedding_space_fingerprint".toList (by decide) (by decide)
      (by decide) (List.all_eq_true.mp (by decide))
  have h4 : filename_version py "004_embedding_status.sql" = some 4 :=
    @numbered_version py _ '4' "embedding_status".toList (by decide) (by decide) (by decide)
      (List.all_eq_true.mp (by decide))
  have h5 : filename_version py TIMESTAMP_MIGRATION = some 5 :=
    @numbered_version py _ '5' "normalize_timestamps".toList (by decide) (by decide) (by decide)
      (List.all_eq_true.mp (by decide))
  have hinit : filename_version py "__init__.py" = none := by
    refine @filename_version_none py _ '_' "_init__.py".toList (by decide) ?_
    rw [py.ascii '_' (by decide)]
    rfl
  have hnames : ["001_initial.sql", "002_embedding_identity.sql",
      "003_embedding_space_fingerprint.sql", "004_embedding_status.sql", TIMESTAMP_MIGRATION,
      "__init__.py"].Pairwise (· ≤ ·) := by decide
  -- the files are in order already, by name and then by version
  have hsorted : (migration_files older).insertionSort (fun a b => a.name ≤ b.name)
      = migration_files older :=
    List.Pairwise.insertionSort_eq (@List.pairwise_map _ _ Entry.name _ _ |>.mp hnames)
  rw [migrations, discover_migrations, hsorted, migration_files]
  simp only [List.filterMap_cons, List.filterMap_nil, h1, h2, h3, h4, h5, hinit, if_true,
    Option.map_some, Option.map_none]
  refine List.Pairwise.insertionSort_eq ?_
  refine List.pairwise_map.mp (?_ : (List.map Prod.fst _).Pairwise (· ≤ ·))
  simp only [List.map_cons, List.map_nil]
  decide

end Files

/-! ## Normalizes or refuses -/

section Outcome

variable {py : Python} {fts5 : ContentIndex.Delete String FtsEntry}
  {other : List Char → Statement (Tables R)} {now : ℕ → String}
  {older : String → Except String (List Char)} {db : Database (Tables R)}

/-- At version 4 the call is migration 005 alone. -/
theorem apply_pending_at_four (hversion : db.read_current_version = 4) :
    apply_pending py (sqlite fts5 other) (fun _ => no_fault) now (migrations older) { file := db }
      = match migrate py (sqlite fts5 other) (fun _ => no_fault) now (5, normalize_file) db with
        | .ok db' => (.ok [5], { file := db' })
        | .error failure => (.error failure, { file := db }) := by
  have hpending : ((discover_migrations py (migrations older)).filter fun m =>
      decide (db.read_current_version < m.1)) = [(5, normalize_file)] := by
    rw [discover_repository, hversion]
    rfl
  have hview : (Conn.view { file := db } : Database (Tables R)) = db := rfl
  rw [apply_pending, hview, hpending, apply_loop, apply_one_eq]
  cases migrate py (sqlite fts5 other) (fun _ => no_fault) now (5, normalize_file) db with
  | ok db' => rfl
  | error failure => rfl

/-- The row of version 5 can be inserted after version 4. -/
theorem insert_five {tables : Tables R} (hversion : db.read_current_version = 4) :
    insert_version 5 (now 5) { db with tables }
      = .ok { tables, schema_version := db.schema_version.map (· ++ [⟨5, now 5⟩]) } := by
  rcases hrows : db.schema_version with _ | rows
  · simp [Database.read_current_version, Database.listed, hrows] at hversion
  · have hnew : 5 ∉ rows.map (·.version) := by
      intro hmem
      have hle := le_foldr_max hmem
      have hmax : (rows.map (·.version)).foldr max 0 = 4 := by
        rw [← hversion, Database.read_current_version, Database.listed, hrows]
        rfl
      omega
    rw [insert_version]
    dsimp only
    rw [if_neg (by decide), if_neg hnew]
    rfl

/-- Past the check, the migration is its statements. -/
theorem migrate_checked (h : Legible py db.tables) :
    migrate py (sqlite fts5 other) (fun _ => no_fault) now (5, normalize_file) db
      = match run_all (sqlite fts5 other) no_fault (some (utc_timestamp py)) 0
          [UPDATE_PROJECTS, UPDATE_MEMORY_ITEMS] db with
        | .error e => .error (config_error TIMESTAMP_MIGRATION e)
        | .ok db' =>
            match insert_version 5 (now 5) db' with
            | .error e => .error (config_error TIMESTAMP_MIGRATION e)
            | .ok db'' => .ok db'' := by
  have hprepare : prepare py (sqlite fts5 other) no_fault TIMESTAMP_MIGRATION db.tables
      = .ok (some (utc_timestamp py)) := by
    rw [prepare, if_pos rfl]
    dsimp only [no_fault, or_fault]
    rw [(check_legacy_iff fts5 other db.tables).mpr h]
  rw [migrate, normalize_file]
  dsimp only
  rw [migrate_text, hprepare, split_normalize_timestamps]
  dsimp only
  cases run_all (sqlite fts5 other) no_fault (some (utc_timestamp py)) 0
      [UPDATE_PROJECTS, UPDATE_MEMORY_ITEMS] db with
  | error e => rfl
  | ok db' =>
      dsimp only [no_fault, or_fault]
      cases insert_version 5 (now 5) db' with
      | error e => rfl
      | ok db'' => rfl

/-- The savepoint is rolled back, and the message names the file. -/
theorem migrate_stopped (h : Legible py db.tables) {e : String}
    (hrun : run_all (sqlite fts5 other) no_fault (some (utc_timestamp py)) 0
      [UPDATE_PROJECTS, UPDATE_MEMORY_ITEMS] db = .error e) :
    migrate py (sqlite fts5 other) (fun _ => no_fault) now (5, normalize_file) db
      = .error (config_error TIMESTAMP_MIGRATION e) := by
  rw [migrate_checked h, hrun]

/-- What the call comes to when no timestamp is in the way. With an index in step only the second case
is left. -/
theorem migrate_legible (hversion : db.read_current_version = 4) (h : Legible py db.tables) :
    (¬ db.tables.InStep ∧ ∃ message,
        migrate py (sqlite fts5 other) (fun _ => no_fault) now (5, normalize_file) db
          = .error (config_error TIMESTAMP_MIGRATION message))
      ∨ ∃ tables, Tables.Normalized py db.tables tables
        ∧ migrate py (sqlite fts5 other) (fun _ => no_fault) now (5, normalize_file) db
          = .ok { tables, schema_version := db.schema_version.map (· ++ [⟨5, now 5⟩]) } := by
  rcases run_updates fts5 other h with ⟨hout, e, hrun⟩ | ⟨tables, hnormalized, hrun⟩
  · exact .inl ⟨hout, e, migrate_stopped h hrun⟩
  · refine .inr ⟨tables, hnormalized, ?_⟩
    rw [migrate_checked h, hrun]
    dsimp only
    rw [insert_five hversion]

/-- Tables in normal form go through as they are. -/
theorem migrate_settled (hversion : db.read_current_version = 4) (h : Settled py db.tables) :
    migrate py (sqlite fts5 other) (fun _ => no_fault) now (5, normalize_file) db
      = .ok { tables := db.tables
              schema_version := db.schema_version.map (· ++ [⟨5, now 5⟩]) } := by
  have hinsert : insert_version 5 (now 5) db = _ := @insert_five R now db db.tables hversion
  rw [migrate_checked h.legible, run_updates_settled fts5 other h]
  dsimp only
  rw [hinsert]

/-- The check finds a value, and nothing was written before it. -/
theorem migrate_illegible (h : ¬ Legible py db.tables) :
    ∃ message, migrate py (sqlite fts5 other) (fun _ => no_fault) now (5, normalize_file) db
      = .error (config_error TIMESTAMP_MIGRATION message) := by
  rcases hcheck : check_legacy_timestamps py (sqlite fts5 other) db.tables with message | u
  · refine ⟨message, ?_⟩
    have hprepare : prepare py (sqlite fts5 other) no_fault TIMESTAMP_MIGRATION db.tables
        = .error message := by
      rw [prepare, if_pos rfl]
      dsimp only [no_fault, or_fault]
      rw [hcheck]
    rw [migrate, normalize_file]
    dsimp only
    rw [migrate_text, hprepare]
  · exact absurd ((check_legacy_iff fts5 other db.tables).mp hcheck) h

/-- Every row that is there afterwards comes from one that was there before. -/
theorem exists_of_forall₂_right {ρ : Type} {P : ρ → ρ → Prop} {rows rows' : List ρ}
    (h : List.Forall₂ P rows rows') {row' : ρ} (hrow' : row' ∈ rows') :
    ∃ row ∈ rows, P row row' := by
  induction h with
  | nil => cases hrow'
  | @cons row first rest rest' hP _ ih =>
      rcases List.mem_cons.mp hrow' with rfl | hrow'
      · exact ⟨row, List.mem_cons_self, hP⟩
      · obtain ⟨r, hr, hPr⟩ := ih hrow'
        exact ⟨r, List.mem_cons_of_mem row hr, hPr⟩

/-- Normalized tables are in normal form. -/
theorem settled_of_normalized {t t' : Tables R} (h : Tables.Normalized py t t') : Settled py t' where
  projects := by
    intro row' hrow'
    obtain ⟨row, -, text, hnormal, rfl⟩ := exists_of_forall₂_right h.projects hrow'
    exact hnormal.again
  memory_created := by
    intro row' hrow'
    obtain ⟨row, -, text, updated, hnormal, -, rfl⟩ := exists_of_forall₂_right h.memory_items hrow'
    exact hnormal.again
  memory_updated := by
    intro row' hrow'
    obtain ⟨row, -, text, updated, -, hrel, rfl⟩ := exists_of_forall₂_right h.memory_items hrow'
    exact rel_again hrel

end Outcome

/-- What the call does to a database at version 4 whose timestamps are all legible: every one
is replaced by the UTC text of its instant and nothing else changes but the row for version 5,
and applied to its own result it changes nothing. -/
def Normalizes (py : Python) (fts5 : ContentIndex.Delete String FtsEntry)
    (other : List Char → Statement (Tables R)) (older : String → Except String (List Char))
    (now : ℕ → String) (db : Database (Tables R)) : Prop :=
  ∃ tables, Tables.Normalized py db.tables tables
    ∧ apply_pending py (sqlite fts5 other) (fun _ => no_fault) now (migrations older) { file := db }
      = (.ok [5], { file :=
          { tables, schema_version := db.schema_version.map (· ++ [⟨5, now 5⟩]) } })
    ∧ ∀ now', apply_pending py (sqlite fts5 other) (fun _ => no_fault) now' (migrations older)
        { file := { db with tables } }
      = (.ok [5], { file :=
          { tables, schema_version := db.schema_version.map (· ++ [⟨5, now' 5⟩]) } })

/-- The call raises and the database is as it was. -/
def Refuses (py : Python) (fts5 : ContentIndex.Delete String FtsEntry)
    (other : List Char → Statement (Tables R)) (older : String → Except String (List Char))
    (now : ℕ → String) (db : Database (Tables R)) : Prop :=
  ∃ message,
    apply_pending py (sqlite fts5 other) (fun _ => no_fault) now (migrations older) { file := db }
      = (.error (config_error TIMESTAMP_MIGRATION message), { file := db })

/-- **Migration 005 normalizes or refuses.** From any database at version 4: if some
`created_at` or some `updated_at` that is not NULL does not name an instant, or not one that
UTC can hold, it refuses. Otherwise it normalizes, unless there is an index that is not in
step with the rows; then it does the one or the other, as FTS5 has it. -/
theorem normalize_or_refuse (py : Python) (fts5 : ContentIndex.Delete String FtsEntry)
    (other : List Char → Statement (Tables R)) (older : String → Except String (List Char))
    (now : ℕ → String) (db : Database (Tables R)) (hversion : db.read_current_version = 4) :
    (¬ Legible py db.tables → Refuses py fts5 other older now db)
      ∧ (Legible py db.tables → db.tables.InStep → Normalizes py fts5 other older now db)
      ∧ (Legible py db.tables →
        Refuses py fts5 other older now db ∨ Normalizes py fts5 other older now db) := by
  have hlegible : Legible py db.tables →
      ¬ db.tables.InStep ∧ Refuses py fts5 other older now db
        ∨ Normalizes py fts5 other older now db := by
    intro h
    rcases @migrate_legible R py fts5 other now db hversion h with
      ⟨hout, message, hmigrate⟩ | ⟨tables, hnormalized, hmigrate⟩
    · refine .inl ⟨hout, message, ?_⟩
      rw [apply_pending_at_four hversion, hmigrate]
    · refine .inr ⟨tables, hnormalized, ?_, ?_⟩
      · rw [apply_pending_at_four hversion, hmigrate]
      · intro now'
        have hagain := @migrate_settled R py fts5 other now' { db with tables } hversion
          (settled_of_normalized hnormalized)
        have hcall := @apply_pending_at_four R py fts5 other now' older { db with tables } hversion
        rw [hcall, hagain]
  refine ⟨?_, ?_, ?_⟩
  · intro h
    obtain ⟨message, hmigrate⟩ := @migrate_illegible R py fts5 other now db h
    refine ⟨message, ?_⟩
    rw [apply_pending_at_four hversion, hmigrate]
  · intro h hin
    rcases hlegible h with ⟨hout, -⟩ | hnormalizes
    · exact absurd hin hout
    · exact hnormalizes
  · exact fun h => (hlegible h).imp_left And.right

/-! ## Instances -/

/-- One row written at an offset of two hours, one without `updated_at`; FTS5 is in use. -/
def legacy (memory_fts : Option (List FtsEntry)) : Database (Tables Unit) where
  tables :=
    { projects := [⟨some "p", "alpha", "\x7b\x7d", "2026-01-01T02:00:00+02:00"⟩]
      memory_items := [⟨1, some "m", "text", "[]", "2026-01-01T02:00:00+02:00", 0, some "p", "test", none⟩]
      memory_fts
      rest := () }
  schema_version := some [⟨4, "2026-01-01T00:00:00+00:00"⟩]

/-- FTS5 reporting an entry that it lacks. -/
def malformed : ContentIndex.Delete String FtsEntry :=
  ContentIndex.strict "database disk image is malformed"

/-- Both offsets are understood, and NULL is left alone. -/
theorem legacy_legible (memory_fts : Option (List FtsEntry)) :
    Legible sample_python (legacy memory_fts).tables := by
  have hcheck : check_legacy_timestamps sample_python
      (sqlite malformed fun _ => .change fun _ _ => .error "syntax error")
      (legacy none).tables = .ok () := by
    decide +kernel
  obtain ⟨hprojects, hcreated, hupdated⟩ := (check_legacy_iff _ _ _).mp hcheck
  exact ⟨hprojects, hcreated, hupdated⟩

theorem normalize_or_refuse_sample :
    Normalizes sample_python malformed (fun _ => .change fun _ _ => .error "syntax error")
      (fun _ => .error "not read") (fun _ => "") (legacy (some [⟨1, "text", "[]"⟩])) := by
  refine (normalize_or_refuse sample_python malformed
    (fun _ => .change fun _ _ => .error "syntax error") (fun _ => .error "not read") (fun _ => "")
    (legacy (some [⟨1, "text", "[]"⟩])) (by decide)).2.1 (legacy_legible _) ?_
  rintro _ ⟨⟩
  exact List.Perm.refl _

/-- The index was created over the row and never filled: the timestamps are all legible, and
the update of the row fails on the entry that is not there. -/
theorem unfilled_index_refuses :
    Legible sample_python (legacy (some [])).tables
      ∧ apply_pending sample_python
          (sqlite malformed fun _ => .change fun _ _ => .error "syntax error") (fun _ => no_fault)
          (fun _ => "") (migrations fun _ => .error "not read") { file := legacy (some []) }
        = (.error (config_error TIMESTAMP_MIGRATION "database disk image is malformed"),
          { file := legacy (some []) }) := by
  have hlegible := legacy_legible (some [])
  refine ⟨hlegible, ?_⟩
  have hversion : (legacy (some [])).read_current_version = 4 := by decide
  have hprojects : update_rows (update_project (utc_timestamp sample_python))
      (legacy (some [])).tables.projects
        = .ok [⟨some "p", "alpha", "\x7b\x7d", "2026-01-01T00:00:00+00:00"⟩] := by decide +kernel
  have hmemory : update_memory_rows malformed (utc_timestamp sample_python)
      (legacy (some [])).tables.memory_items (legacy (some [])).tables.memory_fts
        = .error "database disk image is malformed" := by decide +kernel
  have hrun : run_all (sqlite malformed fun _ => .change fun _ _ => .error "syntax error") no_fault
      (some (utc_timestamp sample_python)) 0 [UPDATE_PROJECTS, UPDATE_MEMORY_ITEMS] (legacy (some []))
        = .error "database disk image is malformed" := by
    rw [run_updates_eq, hprojects]
    dsimp only
    rw [hmemory]
  rw [apply_pending_at_four hversion, migrate_stopped hlegible hrun]

end OpenChronicle.Migrator
