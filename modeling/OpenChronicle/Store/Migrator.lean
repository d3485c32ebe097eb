/-
`migrator.apply_pending`: versioned SQL files, each applied inside a savepoint.

SQLite is a parameter: what the text of a statement does to the tables, and what a `SELECT` answers. A
statement is DDL or DML, so it changes what the connection sees or fails and changes nothing;
`schema_version` is the runner's, and a migration only creates it. Any call the runner makes between
`SAVEPOINT` and `RELEASE` may fail besides, as `fault` says. `migrate` is one migration without
savepoints: all of it, or why it failed.

The two levels are connected by `apply_pending_eq`: the run with savepoints on a connection is the run
of `migrate` over what is pending, and leaves the connection outside any transaction. What is then said
about runs is said about `migrate`.

A file name is matched as in the source, by a regular expression, and its version is read with the
digits of any script, since `\d` and `int` both take them. Files are looked at in the order of their
names, and applied in the order of their versions.
-/
import Mathlib.Data.List.Sort
import OpenChronicle.Lib.Delimited
import OpenChronicle.Lib.Regex
import OpenChronicle.Lib.Savepoints
import OpenChronicle.Lib.Upgrade
import OpenChronicle.Store.Timestamps

set_option autoImplicit false

namespace OpenChronicle.Migrator

open PyStr Savepoints Upgrade

/-! ## The database -/

structure VersionRow where
  version : ℕ
  applied_at : String
  deriving DecidableEq, Repr

/-- `schema_version`, if the table is there, and the rest of the database. -/
structure Database (D : Type) where
  tables : D
  schema_version : Option (List VersionRow) := none

variable {D : Type}

namespace Database

/-- The versions `schema_version` lists. -/
def listed (db : Database D) : List ℕ := (db.schema_version.getD []).map (·.version)

/-- `_read_current_version`: `MAX(version)`, and 0 without a table or without a row. -/
def read_current_version (db : Database D) : ℕ := db.listed.foldr max 0

end Database

/-- `oc_normalize_utc`. -/
abbrev Udf := Option String → Except Exc (Option String)

/-- What the text of a statement means; `run` is given the function if it is registered. -/
inductive Statement (D : Type) where
  | create_schema_version (if_not_exists : Bool)
  | change (run : Option Udf → D → Except String D)

/-- SQLite; its errors are the texts of their exceptions. -/
structure Sqlite (D : Type) where
  statement : List Char → Statement D
  /-- `SELECT id, column FROM table`. -/
  select : D → (table column : String) → Except String (List (Option String × Option String))

/-- Python's part. -/
structure Python where
  /-- `datetime.fromisoformat`; `none` is its `ValueError`. -/
  fromisoformat : String → Option PyDatetime
  /-- The documented inverse. -/
  fromisoformat_isoformat : ∀ value, fromisoformat value.isoformat = some value
  repr : Option String → String
  /-- The table of decimal digits, of which the ASCII part is known. -/
  decimal : Char → Option ℕ
  ascii : ∀ c : Char, c.toNat < 128 →
    decimal c = if IsoText.is_digit c then some (c.toNat - '0'.toNat) else none

/-- A statement that asks for the function fails where it is not registered. -/
def Statement.run (udf : Option Udf) (db : Database D) : Statement D → Except String (Database D)
  | create_schema_version if_not_exists =>
      match db.schema_version with
      | none => .ok { db with schema_version := some [] }
      | some _ => if if_not_exists then .ok db else .error "table schema_version already exists"
  | change run => (run udf db.tables).map fun tables => { db with tables }

/-- `INSERT INTO schema_version`; SQLite integers have 64 bits. -/
def insert_version (version : ℕ) (applied_at : String) (db : Database D) :
    Except String (Database D) :=
  match db.schema_version with
  | none => .error "no such table: schema_version"
  | some rows =>
      if 2 ^ 63 ≤ version then .error "Python int too large to convert to SQLite INTEGER"
      else if version ∈ rows.map (·.version) then
        .error "UNIQUE constraint failed: schema_version.version"
      else .ok { db with schema_version := some (rows ++ [⟨version, applied_at⟩]) }

/-! ## Files -/

/-- A directory entry; a file that cannot be read raises. -/
structure Entry where
  name : String
  is_file : Bool := true
  read_text : Except String (List Char)

/-- What `iterdir()` yields in some order; `none` is no directory. -/
abbrev Directory := Option (List Entry)

/-- A version and its file. -/
abbrev Migration := ℕ × Entry

variable (py : Python)

/-- `[A-Za-z0-9_]`. -/
def is_slug_char (c : Char) : Bool :=
  ('A' ≤ c && c ≤ 'Z') || ('a' ≤ c && c ≤ 'z') || ('0' ≤ c && c ≤ '9') || c == '_'

/-- `_MIGRATION_FILENAME_RE` between `^` and `$`. -/
def MIGRATION_FILENAME_RE : Regex Char :=
  let digit := Regex.char fun c => (py.decimal c).isSome
  .seq digit (.seq digit (.seq digit (.seq (.star digit)
    (.seq (Regex.lit ['_']) (.seq (Regex.plus is_slug_char) (Regex.lit ".sql".toList))))))

/-- The first group as an integer. `_` is not a digit, so the group is every leading digit. -/
def filename_version (name : String) : Option ℕ :=
  if Regex.match_dollar '\n' (MIGRATION_FILENAME_RE py) name.toList then
    some (((name.toList.takeWhile fun c => (py.decimal c).isSome).filterMap py.decimal).foldl
      (fun n d => 10 * n + d) 0)
  else none

/-- A name of the shape `NNN_<slug>.sql`. -/
theorem filename_version_of {name : String} {digits slug : List Char}
    (hname : name.toList = digits ++ '_' :: (slug ++ ".sql".toList)) (hlen : 3 ≤ digits.length)
    (hdigits : ∀ c ∈ digits, (py.decimal c).isSome) (hne : slug ≠ [])
    (hslug : ∀ c ∈ slug, is_slug_char c = true) :
    filename_version py name
      = some ((digits.filterMap py.decimal).foldl (fun n d => 10 * n + d) 0) := by
  obtain ⟨a, b, c, more, rfl⟩ : ∃ a b c more, digits = a :: b :: c :: more := by
    match digits, hlen with
    | a :: b :: c :: more, _ => exact ⟨a, b, c, more, rfl⟩
  have hmore : ∀ d ∈ more, (py.decimal d).isSome := by
    intro d hd
    exact hdigits d (by simp [hd])
  have hslug' : slug ∈ (Regex.plus is_slug_char).lang := Regex.mem_plus.mpr ⟨hne, hslug⟩
  have hmatch : name.toList ∈ (MIGRATION_FILENAME_RE py).lang := by
    rw [hname, MIGRATION_FILENAME_RE]
    refine Regex.mem_seq_char.mpr ⟨a, _, hdigits a (by simp), ?_, rfl⟩
    refine Regex.mem_seq_char.mpr ⟨b, _, hdigits b (by simp), ?_, rfl⟩
    refine Regex.mem_seq_char.mpr ⟨c, _, hdigits c (by simp), ?_, rfl⟩
    refine Regex.mem_seq.mpr ⟨more, Regex.mem_star_char.mpr hmore, _, ?_, rfl⟩
    refine Regex.mem_seq.mpr ⟨['_'], Regex.mem_lit.mpr rfl, _, ?_, rfl⟩
    exact Regex.mem_seq.mpr ⟨slug, hslug', _, Regex.mem_lit.mpr rfl, rfl⟩
  have hunderscore : (py.decimal '_').isSome = false := by
    rw [py.ascii '_' (by decide)]
    rfl
  have hgroup : name.toList.takeWhile (fun c => (py.decimal c).isSome) = a :: b :: c :: more := by
    rw [hname, List.takeWhile_append_of_pos hdigits,
      List.takeWhile_cons_of_neg (by rw [hunderscore]; exact Bool.false_ne_true), List.append_nil]
  rw [filename_version, if_pos (Regex.match_dollar_iff.mpr (Or.inl hmatch)), hgroup]

/-- A name that does not begin with a digit. -/
theorem filename_version_none {name : String} {c : Char} {rest : List Char}
    (hname : name.toList = c :: rest) (hc : py.decimal c = none) :
    filename_version py name = none := by
  rw [filename_version, if_neg]
  intro hmatch
  have hfirst : ∀ w ∈ (MIGRATION_FILENAME_RE py).lang, ∀ c' rest', w = c' :: rest' →
      py.decimal c' ≠ none := by
    intro w hw c' rest' heq
    obtain ⟨d, v, hd, -, rfl⟩ := Regex.mem_seq_char.mp hw
    obtain ⟨rfl, rfl⟩ := List.cons.inj heq
    exact Option.isSome_iff_ne_none.mp hd
  rcases Regex.match_dollar_iff.mp hmatch with hw | ⟨w, hw, heq⟩
  · exact hfirst _ hw c rest hname hc
  · -- before a final newline there is a digit too
    obtain ⟨d, v, hd, -, rfl⟩ := Regex.mem_seq_char.mp hw
    rw [hname] at heq
    obtain ⟨rfl, -⟩ := List.cons.inj heq
    exact Option.isSome_iff_ne_none.mp hd hc

/-- `_discover_migrations`. -/
def discover_migrations : Directory → List Migration
  | none => []
  | some entries =>
      let sorted := entries.insertionSort fun a b => a.name ≤ b.name
      let found := sorted.filterMap fun entry =>
        if entry.is_file then (filename_version py entry.name).map fun version => (version, entry)
        else none
      found.insertionSort fun a b => a.1 ≤ b.1

/-- `_split_sql`. -/
def split_sql (script : List Char) : List (List Char) :=
  let cleaned := (splitlines script).map fun raw_line =>
    match partition ['-', '-'] raw_line with
    | some (code, _) => code
    | none => raw_line
  let body := join ['\n'] cleaned
  ((split_on [';'] body).map strip).filter (· ≠ [])

/-! ## Migration 005's check -/

/-- `_TIMESTAMP_MIGRATION`. -/
def TIMESTAMP_MIGRATION : String := "005_normalize_timestamps.sql"

/-- `_utc_timestamp`. -/
def utc_timestamp : Udf
  | none => .ok none
  | some value =>
      match py.fromisoformat value with
      | none => .error .Other
      | some d =>
          match d.stored_text "timestamp" with
          | .ok text => .ok (some text)
          | .error e => .error e

def LEGACY_COLUMNS : List (String × String) :=
  [("projects", "created_at"), ("memory_items", "created_at"), ("memory_items", "updated_at")]

/-- One row of a column: the entry it adds to `invalid`. -/
def check_row (table column : String) (row : Option String × Option String) : Option String :=
  let entry := table ++ "." ++ column ++ " id=" ++ py.repr row.1
  match row.2 with
  | none => if column = "updated_at" then none else some entry
  | some value =>
      match utc_timestamp py (some value) with
      | .ok _ => none
      | .error _ => some entry

variable (sql : Sqlite D)

/-- The loop of the check: `invalid`. -/
def find_invalid (tables : D) : List (String × String) → Except String (List String)
  | [] => .ok []
  | (table, column) :: rest =>
      match sql.select tables table column with
      | .error e => .error e
      | .ok rows =>
          match find_invalid tables rest with
          | .error e => .error e
          | .ok invalid => .ok (rows.filterMap (check_row py table column) ++ invalid)

def invalid_message (invalid : List String) : String :=
  let sample := ", ".intercalate (invalid.take 10)
  let suffix_text := if invalid.length > 10 then " ..." else ""
  toString invalid.length ++ " naive, malformed or out-of-range timestamp(s): " ++ sample
    ++ suffix_text

/-- `_check_legacy_timestamps`. -/
def check_legacy_timestamps (tables : D) : Except String Unit :=
  match find_invalid py sql tables LEGACY_COLUMNS with
  | .error e => .error e
  | .ok invalid => if invalid ≠ [] then .error (invalid_message invalid) else .ok ()

/-! ## `apply_pending` -/

/-- The calls inside the `try` of a migration. -/
inductive Call where
  | check
  | create_function
  | statement (index : ℕ)
  | insert
  | release
  deriving DecidableEq, Repr

/-- What a call raises for a reason of its own, such as a statement that is interrupted.
An error that makes SQLite end the transaction, as a full disk may, is not among them. -/
abbrev Fault := Call → Option String

def no_fault : Fault := fun _ => none

inductive Failure where
  /-- `ConfigError` with `CONFIG_ERROR`. -/
  | ConfigError (message : String)
  /-- Any other exception. -/
  | raised (text : String)
  deriving DecidableEq, Repr

/-- `ConfigError(f"Migration {path.name} failed: {exc}")`. -/
def config_error (name exc : String) : Failure :=
  .ConfigError ("Migration " ++ name ++ " failed: " ++ exc)

def or_fault {α : Type} (fault : Option String) (run : Except String α) : Except String α :=
  match fault with
  | some e => .error e
  | none => run

/-- The `if has_timestamp_udf:` block; the function is registered for this file alone. -/
def prepare (fault : Fault) (name : String) (tables : D) : Except String (Option Udf) :=
  if name = TIMESTAMP_MIGRATION then
    match or_fault (fault .check) (check_legacy_timestamps py sql tables) with
    | .error e => .error e
    | .ok () => or_fault (fault .create_function) (.ok (some (utc_timestamp py)))
  else .ok none

/-- One `conn.execute` that changes the database. -/
def execute (f : Database D → Except String (Database D)) (c : Conn (Database D)) :
    Except String Unit × Conn (Database D) :=
  match f c.view with
  | .ok db => (.ok (), c.put db)
  | .error e => (.error e, c)

def statement_effect (fault : Fault) (udf : Option Udf) (index : ℕ) (stmt : List Char)
    (db : Database D) : Except String (Database D) :=
  or_fault (fault (.statement index)) ((sql.statement stmt).run udf db)

/-- `for stmt in statements`. -/
def execute_all (fault : Fault) (udf : Option Udf) :
    ℕ → List (List Char) → Conn (Database D) → Except String Unit × Conn (Database D)
  | _, [], c => (.ok (), c)
  | index, stmt :: rest, c =>
      match execute (statement_effect sql fault udf index stmt) c with
      | (.ok (), c') => execute_all fault udf (index + 1) rest c'
      | (.error e, c') => (.error e, c')

/-- `f"mig_\x7bversion\x7d"`. -/
def savepoint_name (version : ℕ) : String := "mig_" ++ toString version

def release_savepoint (fault : Fault) (version : ℕ) (c : Conn (Database D)) :
    Except String Unit × Conn (Database D) :=
  match fault .release with
  | some e => (.error e, c)
  | none =>
      match c.release (savepoint_name version) with
      | some c' => (.ok (), c')
      | none => (.error "no such savepoint", c)

/-- The `try` body. -/
def try_body (fault : Fault) (applied_at : String) (version : ℕ) (path : Entry)
    (statements : List (List Char)) (c : Conn (Database D)) :
    Except String Unit × Conn (Database D) :=
  match prepare py sql fault path.name c.view.tables with
  | .error e => (.error e, c)
  | .ok udf =>
      match execute_all sql fault udf 0 statements c with
      | (.error e, c') => (.error e, c')
      | (.ok (), c') =>
          match execute (fun db => or_fault (fault .insert) (insert_version version applied_at db))
              c' with
          | (.error e, c'') => (.error e, c'')
          | (.ok (), c'') => release_savepoint fault version c''

/-- One round of the loop. The file is read before the savepoint is set. -/
def apply_one (fault : ℕ → Fault) (now : ℕ → String) (m : Migration) (c : Conn (Database D)) :
    Except Failure Unit × Conn (Database D) :=
  match m.2.read_text with
  | .error e => (.error (.raised e), c)
  | .ok text =>
      let name := savepoint_name m.1
      match try_body py sql (fault m.1) (now m.1) m.1 m.2 (split_sql text) (c.savepoint name) with
      | (.ok (), c') => (.ok (), c')
      | (.error exc, c') =>
          match (c'.rollback_to name).bind (·.release name) with
          | some c'' => (.error (config_error m.2.name exc), c'')
          | none => (.error (.raised "no such savepoint"), c')

/-- The loop; `applied` is what it has applied so far. -/
def apply_loop (fault : ℕ → Fault) (now : ℕ → String) (applied : List ℕ) :
    List Migration → Conn (Database D) → Except Failure (List ℕ) × Conn (Database D)
  | [], c => (.ok applied, c)
  | m :: rest, c =>
      match apply_one py sql fault now m c with
      | (.ok (), c') => apply_loop fault now (applied ++ [m.1]) rest c'
      | (.error e, c') => (.error e, c')

/-- `apply_pending`; `now` is the text of `utc_now()` as each version is recorded. -/
def apply_pending (fault : ℕ → Fault) (now : ℕ → String) (directory : Directory)
    (c : Conn (Database D)) : Except Failure (List ℕ) × Conn (Database D) :=
  let current := c.view.read_current_version
  let pending := (discover_migrations py directory).filter fun m => decide (current < m.1)
  apply_loop py sql fault now [] pending c

/-! ## One migration without savepoints -/

/-- What the statements make of the database. -/
def run_all (fault : Fault) (udf : Option Udf) :
    ℕ → List (List Char) → Database D → Except String (Database D)
  | _, [], db => .ok db
  | index, stmt :: rest, db =>
      match statement_effect sql fault udf index stmt db with
      | .ok db' => run_all fault udf (index + 1) rest db'
      | .error e => .error e

/-- The statements and the row of `schema_version` together. -/
def migrate_text (fault : Fault) (applied_at : String) (version : ℕ) (name : String)
    (statements : List (List Char)) (db : Database D) : Except String (Database D) :=
  match prepare py sql fault name db.tables with
  | .error e => .error e
  | .ok udf =>
      match run_all sql fault udf 0 statements db with
      | .error e => .error e
      | .ok db' =>
          match or_fault (fault .insert) (insert_version version applied_at db') with
          | .error e => .error e
          | .ok db'' => or_fault (fault .release) (.ok db'')

/-- One migration: all of it, or what the runner raises instead. -/
def migrate (fault : ℕ → Fault) (now : ℕ → String) (m : Migration) (db : Database D) :
    Except Failure (Database D) :=
  match m.2.read_text with
  | .error e => .error (.raised e)
  | .ok text =>
      match migrate_text py sql (fault m.1) (now m.1) m.1 m.2.name (split_sql text) db with
      | .ok db' => .ok db'
      | .error exc => .error (config_error m.2.name exc)

/-! ## The savepoint -/

/-- The connection inside the savepoint of a migration: `db` is what it sees. -/
def inside (file : Database D) (version : ℕ) (db : Database D) : Conn (Database D) where
  file
  work := some { now := db, marks := [(savepoint_name version, file)], begun := false }

section Savepoint

variable (file : Database D) (version : ℕ)

theorem savepoint_opens :
    Conn.savepoint { file } (savepoint_name version) = inside file version file := rfl

/-- `ROLLBACK TO` and `RELEASE` end the transaction with the file as it was. -/
theorem rolled_back (db : Database D) :
    ((inside file version db).rollback_to (savepoint_name version)).bind
      (·.release (savepoint_name version)) = some { file } := by
  simp [inside, Conn.rollback_to, Conn.release, Conn.find_mark]

theorem released (db : Database D) :
    (inside file version db).release (savepoint_name version) = some { file := db } := by
  simp [inside, Conn.release, Conn.find_mark]

theorem execute_inside (f : Database D → Except String (Database D)) (db : Database D) :
    execute f (inside file version db) = match f db with
      | .ok db' => (.ok (), inside file version db')
      | .error e => (.error e, inside file version db) := rfl

/-- The statements leave the connection inside the savepoint, wherever they stop. -/
theorem execute_all_inside (fault : Fault) (udf : Option Udf) (statements : List (List Char)) :
    ∀ (index : ℕ) (db : Database D), ∃ left,
      execute_all sql fault udf index statements (inside file version db)
          = ((run_all sql fault udf index statements db).map fun _ => (), inside file version left)
        ∧ ∀ db', run_all sql fault udf index statements db = .ok db' → left = db' := by
  induction statements with
  | nil =>
      intro index db
      refine ⟨db, rfl, ?_⟩
      rintro _ ⟨⟩
      rfl
  | cons stmt rest ih =>
      intro index db
      rw [execute_all, run_all, execute_inside]
      rcases statement_effect sql fault udf index stmt db with e | db'
      · exact ⟨db, rfl, nofun⟩
      · exact ih (index + 1) db'

/-- The `try` body stays inside the savepoint when it raises and releases it otherwise. -/
theorem try_body_inside (fault : Fault) (applied_at : String) (path : Entry)
    (statements : List (List Char)) :
    match migrate_text py sql fault applied_at version path.name statements file with
    | .ok db => try_body py sql fault applied_at version path statements
        (inside file version file) = (.ok (), { file := db })
    | .error e => ∃ left, try_body py sql fault applied_at version path statements
        (inside file version file) = (.error e, inside file version left) := by
  rw [migrate_text, try_body]
  have hview : (inside file version file).view = file := rfl
  rw [hview]
  rcases prepare py sql fault path.name file.tables with e | udf
  · exact ⟨file, rfl⟩
  obtain ⟨left, hrun, hleft⟩ := execute_all_inside sql file version fault udf statements 0 file
  dsimp only
  rw [hrun]
  rcases hall : run_all sql fault udf 0 statements file with e | db
  · exact ⟨left, rfl⟩
  obtain rfl := hleft db hall
  dsimp only [Except.map]
  rw [execute_inside]
  rcases or_fault (fault .insert) (insert_version version applied_at left) with e | db'
  · exact ⟨left, rfl⟩
  dsimp only
  rw [release_savepoint]
  rcases fault .release with _ | e
  · dsimp only [or_fault]
    rw [released]
  · exact ⟨db', rfl⟩

end Savepoint

/-- One round of the loop is one migration or nothing. -/
theorem apply_one_eq (fault : ℕ → Fault) (now : ℕ → String) (m : Migration) (db : Database D) :
    apply_one py sql fault now m { file := db } = match migrate py sql fault now m db with
      | .ok db' => (.ok (), { file := db' })
      | .error failure => (.error failure, { file := db }) := by
  rw [apply_one, migrate]
  rcases m.2.read_text with e | text
  · rfl
  dsimp only
  rw [savepoint_opens]
  have hbody := try_body_inside py sql db m.1 (fault m.1) (now m.1) m.2 (split_sql text)
  revert hbody
  rcases migrate_text py sql (fault m.1) (now m.1) m.1 m.2.name (split_sql text) db with e | db'
  · rintro ⟨left, hbody⟩
    rw [hbody]
    dsimp only
    rw [rolled_back]
  · intro hbody
    dsimp only at hbody ⊢
    rw [hbody]

/-- The loop is `apply_all` of the migrations. -/
theorem apply_loop_eq (fault : ℕ → Fault) (now : ℕ → String) (ms : List Migration) :
    ∀ (applied : List ℕ) (db : Database D),
      (apply_loop py sql fault now applied ms { file := db }).2
          = { file := (apply_all (migrate py sql fault now) ms db).1 }
        ∧ (apply_loop py sql fault now applied ms { file := db }).1
          = match (apply_all (migrate py sql fault now) ms db).2 with
            | none => .ok (applied ++ ms.map Prod.fst)
            | some (_, failure) => .error failure := by
  induction ms with
  | nil =>
      intro applied db
      refine ⟨rfl, ?_⟩
      rw [List.map_nil, List.append_nil]
      rfl
  | cons m rest ih =>
      intro applied db
      rw [apply_loop, apply_all, apply_one_eq]
      rcases migrate py sql fault now m db with failure | db'
      · exact ⟨rfl, rfl⟩
      · have hnext : applied ++ (m :: rest).map Prod.fst
            = (applied ++ [m.1]) ++ rest.map Prod.fst := by simp
        rw [hnext]
        exact ih (applied ++ [m.1]) db'

/-! ## What a migration that applied did -/

theorem or_fault_ok {α : Type} {fault : Option String} {run : Except String α} {a : α}
    (h : or_fault fault run = .ok a) : run = .ok a := by
  cases fault with
  | none => exact h
  | some e => cases h

section Applied

variable {py sql} {fault : ℕ → Fault} {now : ℕ → String} {m : Migration} {db db' : Database D}

theorem prepare_ok {fault : Fault} {name : String} {tables : D} {udf : Option Udf}
    (h : prepare py sql fault name tables = .ok udf) :
    prepare py sql no_fault name tables = .ok udf := by
  rw [prepare] at h ⊢
  split at h
  · next hname =>
      rw [if_pos hname]
      rcases hcheck : or_fault (fault .check) (check_legacy_timestamps py sql tables) with e | u
      · rw [hcheck] at h
        cases h
      · rw [hcheck] at h
        dsimp only [no_fault, or_fault]
        rw [or_fault_ok hcheck]
        exact or_fault_ok h
  · next hname =>
      rw [if_neg hname]
      exact h

/-- A statement that succeeds leaves the listed versions alone. -/
theorem statement_effect_ok {fault : Fault} {udf : Option Udf} {index : ℕ} {stmt : List Char}
    (h : statement_effect sql fault udf index stmt db = .ok db') :
    statement_effect sql no_fault udf index stmt db = .ok db' ∧ db'.listed = db.listed := by
  have hrun := or_fault_ok h
  refine ⟨hrun, ?_⟩
  rcases hstmt : sql.statement stmt with if_not_exists | run
  · rw [hstmt, Statement.run] at hrun
    split at hrun
    · next hnone =>
        cases hrun
        simp [Database.listed, hnone]
    · split at hrun
      · cases hrun
        rfl
      · cases hrun
  · rw [hstmt, Statement.run] at hrun
    obtain ⟨tables, -, rfl⟩ : ∃ tables, run udf db.tables = .ok tables
        ∧ { db with tables } = db' := by
      rcases htables : run udf db.tables with e | tables
      · rw [htables] at hrun
        cases hrun
      · rw [htables] at hrun
        exact ⟨tables, rfl, Except.ok.inj hrun⟩
    rfl

theorem run_all_ok {fault : Fault} {udf : Option Udf} {statements : List (List Char)} :
    ∀ {index : ℕ} {db : Database D}, run_all sql fault udf index statements db = .ok db' →
      run_all sql no_fault udf index statements db = .ok db' ∧ db'.listed = db.listed := by
  induction statements with
  | nil =>
      rintro index db ⟨⟩
      exact ⟨rfl, rfl⟩
  | cons stmt rest ih =>
      intro index db h
      rw [run_all] at h ⊢
      rcases heffect : statement_effect sql fault udf index stmt db with e | next
      · rw [heffect] at h
        cases h
      · rw [heffect] at h
        obtain ⟨hsame, hlisted⟩ := statement_effect_ok heffect
        obtain ⟨hrest, hlisted'⟩ := ih h
        rw [hsame]
        exact ⟨hrest, hlisted'.trans hlisted⟩

theorem insert_version_ok {version : ℕ} {applied_at : String}
    (h : insert_version version applied_at db = .ok db') :
    db'.tables = db.tables ∧ db'.listed = db.listed ++ [version] := by
  rw [insert_version] at h
  split at h
  · cases h
  · next rows hrows =>
      split at h
      · cases h
      · split at h
        · cases h
        · cases h
          simp [Database.listed, hrows]

/-- What has to go well inside the `try`. -/
theorem migrate_text_ok {fault : Fault} {applied_at name : String} {version : ℕ}
    {statements : List (List Char)}
    (h : migrate_text py sql fault applied_at version name statements db = .ok db') :
    ∃ udf ran, prepare py sql no_fault name db.tables = .ok udf
      ∧ run_all sql no_fault udf 0 statements db = .ok ran ∧ ran.listed = db.listed
      ∧ insert_version version applied_at ran = .ok db' := by
  rw [migrate_text] at h
  rcases hprepare : prepare py sql fault name db.tables with e | udf
  · rw [hprepare] at h
    cases h
  rw [hprepare] at h
  dsimp only at h
  rcases hrun : run_all sql fault udf 0 statements db with e | ran
  · rw [hrun] at h
    cases h
  rw [hrun] at h
  dsimp only at h
  rcases hinsert : or_fault (fault .insert) (insert_version version applied_at ran) with e | inserted
  · rw [hinsert] at h
    cases h
  rw [hinsert] at h
  obtain rfl := Except.ok.inj (or_fault_ok h)
  obtain ⟨hsame, hlisted⟩ := run_all_ok hrun
  exact ⟨udf, ran, prepare_ok hprepare, hsame, hlisted, or_fault_ok hinsert⟩

/-- A migration that applies under faults applies without them, to the same effect, and
its version is listed after those before. -/
theorem migrate_ok (h : migrate py sql fault now m db = .ok db') :
    migrate py sql (fun _ => no_fault) now m db = .ok db' ∧ db'.listed = db.listed ++ [m.1] := by
  rw [migrate] at h ⊢
  rcases hread : m.2.read_text with e | text
  · rw [hread] at h
    cases h
  rw [hread] at h
  dsimp only at h ⊢
  rcases htext : migrate_text py sql (fault m.1) (now m.1) m.1 m.2.name (split_sql text) db
    with e | migrated
  · rw [htext] at h
    cases h
  rw [htext] at h
  obtain rfl := Except.ok.inj h
  obtain ⟨udf, ran, hprepare, hrun, hlisted, hinsert⟩ := migrate_text_ok htext
  obtain ⟨-, hlist⟩ := insert_version_ok hinsert
  refine ⟨?_, by rw [hlist, hlisted]⟩
  rw [migrate_text, hprepare]
  dsimp only
  rw [hrun]
  dsimp only [no_fault, or_fault]
  rw [hinsert]

end Applied

end OpenChronicle.Migrator
