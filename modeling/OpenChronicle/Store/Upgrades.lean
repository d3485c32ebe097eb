/-
Whole runs of `apply_pending`: failures, later runs, and runs as files are added.

A run applies a prefix of what is pending, so the database is always as after completely applying the
migrations up to some version. Which calls brought it there shows only in the times `schema_version`
keeps, and `unstamped` leaves those out.

The part about prefixes is the library's: `Applied` and `upgrade` know a list of steps with versions and
a reading of the version that the state has reached. What this file adds is that a migration of the
repository is such a step. It has to be shown that a migration that fails leaves nothing, which is the
savepoint's work, that one that succeeds lists its version and no other, and that the time it is applied
at shows in no later decision.

The one hypothesis is that no two files have the same version. The source does not look for a second
file of a version; it would find it applied already and pass over it, and which of the two was applied
would depend on the order of the names.
-/
import OpenChronicle.Store.Migrator

set_option autoImplicit false

namespace OpenChronicle.Migrator

open PyStr Savepoints Upgrade

variable {D : Type} {py : Python} {sql : Sqlite D}

/-! ## Versions -/

/-- `MAX(version)` after a larger version is inserted. -/
theorem foldr_max_append (versions : List ℕ) (version : ℕ) :
    (versions ++ [version]).foldr max 0 = max (versions.foldr max 0) version := by
  induction versions with
  | nil => simp
  | cons v rest ih =>
      rw [List.cons_append, List.foldr_cons, List.foldr_cons, ih]
      omega

theorem le_foldr_max {versions : List ℕ} {version : ℕ} (h : version ∈ versions) :
    version ≤ versions.foldr max 0 := by
  induction versions with
  | nil => cases h
  | cons v rest ih =>
      rw [List.foldr_cons]
      rcases List.mem_cons.mp h with rfl | h
      · omega
      · have := ih h
        omega

/-- The version of the database follows the migrations it has had. -/
theorem records (fault : ℕ → Fault) (now : ℕ → String) :
    Records Prod.fst Database.read_current_version (migrate py sql fault now) := by
  intro m db db' h
  rw [Database.read_current_version, (migrate_ok h).2, foldr_max_append]
  rfl

/-- Each migration that was applied inserted its own version, at the end. -/
theorem listed_of_applied {fault : ℕ → Fault} {now : ℕ → String} {done : List Migration}
    {db db' : Database D} (h : Applied (migrate py sql fault now) done db db') :
    db'.listed = db.listed ++ done.map Prod.fst := by
  induction h with
  | nil db => simp
  | cons hstep _ ih =>
      rw [ih, (migrate_ok hstep).2, List.map_cons, List.append_assoc]
      rfl

variable (py) in
/-- No two files have the same version. -/
def DistinctVersions (directory : Directory) : Prop :=
  ((discover_migrations py directory).map Prod.fst).Nodup

/-- The files come in the order of their versions. -/
theorem discover_increasing {directory : Directory} (h : DistinctVersions py directory) :
    Increasing Prod.fst (discover_migrations py directory) := by
  have hsorted : (discover_migrations py directory).Pairwise fun a b => a.1 ≤ b.1 := by
    rw [discover_migrations.eq_def]
    cases directory with
    | none => exact List.Pairwise.nil
    | some entries =>
        have htotal : Std.Total fun a b : Migration => a.1 ≤ b.1 := ⟨fun a b => Nat.le_total a.1 b.1⟩
        have htrans : IsTrans Migration fun a b => a.1 ≤ b.1 := ⟨fun a b c => Nat.le_trans⟩
        exact List.pairwise_insertionSort _ _
  have hdistinct := List.pairwise_map.mp h
  exact hsorted.imp₂ (fun a b hle hne => Nat.lt_of_le_of_ne hle hne) hdistinct

/-! ## Less the times -/

/-- The database less the times at which its migrations were applied. -/
def Database.unstamped (db : Database D) : Database D where
  tables := db.tables
  schema_version := db.schema_version.map (·.map fun row => { row with applied_at := "" })

/-- The versions are read from the column that is kept. -/
@[simp] theorem listed_unstamped (db : Database D) : db.unstamped.listed = db.listed := by
  rw [Database.listed, Database.listed, Database.unstamped]
  cases db.schema_version with
  | none => rfl
  | some rows => simp

/-- So the decisions of `apply_pending` do not see the times. -/
theorem read_current_version_unstamped (db : Database D) :
    db.unstamped.read_current_version = db.read_current_version := by
  rw [Database.read_current_version, Database.read_current_version, listed_unstamped]

/-- A statement of a file works on the other tables, and `schema_version` comes along. -/
theorem statement_effect_unstamped (fault : Fault) (udf : Option Udf) (index : ℕ)
    (stmt : List Char) (db : Database D) :
    (statement_effect sql fault udf index stmt db).map Database.unstamped
      = statement_effect sql fault udf index stmt db.unstamped := by
  rw [statement_effect, statement_effect]
  cases fault (.statement index) with
  | some e => rfl
  | none =>
      dsimp only [or_fault]
      cases sql.statement stmt with
      | create_schema_version if_not_exists =>
          rcases db with ⟨tables, _ | rows⟩
          · rfl
          · cases if_not_exists with
            | true => rfl
            | false => rfl
      | change run =>
          have htables : db.unstamped.tables = db.tables := rfl
          rw [Statement.run, Statement.run, htables]
          cases run udf db.tables with
          | error e => rfl
          | ok tables => rfl

/-- By induction over the statements of the file. -/
theorem run_all_unstamped (fault : Fault) (udf : Option Udf) (statements : List (List Char)) :
    ∀ (index : ℕ) (db : Database D),
      (run_all sql fault udf index statements db).map Database.unstamped
        = run_all sql fault udf index statements db.unstamped := by
  induction statements with
  | nil => exact fun _ _ => rfl
  | cons stmt rest ih =>
      intro index db
      rw [run_all, run_all, ← statement_effect_unstamped]
      cases statement_effect sql fault udf index stmt db with
      | error e => rfl
      | ok db' => exact ih (index + 1) db'

/-- The one place where the clock is read. The times of the new row are dropped on both sides. -/
theorem insert_version_unstamped (version : ℕ) (applied_at : String) (db : Database D) :
    (insert_version version applied_at db).map Database.unstamped
      = insert_version version "" db.unstamped := by
  rcases db with ⟨tables, _ | rows⟩
  · rfl
  · have hrows : (rows.map fun row => { row with applied_at := "" }).map (·.version)
        = rows.map (·.version) := by simp
    rw [insert_version, insert_version]
    dsimp only [Database.unstamped, Option.map_some]
    rw [hrows]
    by_cases hlarge : 2 ^ 63 ≤ version
    · rw [if_pos hlarge, if_pos hlarge]
      rfl
    · rw [if_neg hlarge, if_neg hlarge]
      by_cases hthere : version ∈ rows.map (·.version)
      · rw [if_pos hthere, if_pos hthere]
        rfl
      · rw [if_neg hthere, if_neg hthere]
        simp [Except.map, Database.unstamped]

/-- The clock shows nowhere but in `applied_at`. -/
theorem migrate_unstamped (fault : ℕ → Fault) (now : ℕ → String) (m : Migration)
    (db : Database D) :
    (migrate py sql fault now m db).map Database.unstamped
      = migrate py sql fault (fun _ => "") m db.unstamped := by
  rw [migrate, migrate]
  cases m.2.read_text with
  | error e => rfl
  | ok text =>
      dsimp only
      have htables : db.unstamped.tables = db.tables := rfl
      rw [migrate_text, migrate_text, htables]
      cases prepare py sql (fault m.1) m.2.name db.tables with
      | error e => rfl
      | ok udf =>
          dsimp only
          rw [← run_all_unstamped]
          cases run_all sql (fault m.1) udf 0 (split_sql text) db with
          | error e => rfl
          | ok ran =>
              dsimp only [Except.map]
              rw [← insert_version_unstamped m.1 (now m.1) ran]
              cases fault m.1 .insert with
              | some e => rfl
              | none =>
                  dsimp only [or_fault]
                  cases insert_version m.1 (now m.1) ran with
                  | error e => rfl
                  | ok inserted =>
                      cases fault m.1 .release with
                      | some e => rfl
                      | none => rfl

/-! ## One run -/

/-- What is pending in a directory. -/
abbrev pending_in (py : Python) (directory : Directory) (db : Database D) : List Migration :=
  pending Prod.fst Database.read_current_version (discover_migrations py directory) db

/-- The migrations applied completely, one after the other, without savepoints or faults. -/
abbrev Complete (py : Python) (sql : Sqlite D) (now : ℕ → String) :
    List Migration → Database D → Database D → Prop :=
  Applied (migrate py sql (fun _ => no_fault) now)

/-- `schema_version` lists exactly the versions of the directory up to the database's. -/
def At (py : Python) (directory : Directory) (db : Database D) : Prop :=
  db.listed = ((discover_migrations py directory).map Prod.fst).filter
    fun version => decide (version ≤ db.read_current_version)

/-- What a run did to `db`: it applied `done` completely, which gives `db'`, and stopped at
the first of `rest`, of which it left nothing. -/
structure Run (py : Python) (sql : Sqlite D) (fault : ℕ → Fault) (now : ℕ → String)
    (directory : Directory) (db : Database D) (done rest : List Migration) (db' : Database D) :
    Prop where
  pending : pending_in py directory db = done ++ rest
  complete : Complete py sql now done db db'
  file : (apply_pending py sql fault now directory { file := db }).2 = { file := db' }
  result :
    (rest = []
        ∧ (apply_pending py sql fault now directory { file := db }).1 = .ok (done.map Prod.fst))
      ∨ ∃ m rest' failure, rest = m :: rest' ∧ migrate py sql fault now m db' = .error failure
        ∧ (apply_pending py sql fault now directory { file := db }).1 = .error failure
        -- a file that can be read fails in one of its statements
        ∧ ∀ text, m.2.read_text = .ok text → ∃ exc, failure = config_error m.2.name exc

section Run

variable {fault : ℕ → Fault} {now : ℕ → String} {directory : Directory} {db db' : Database D}

/-- `apply_pending` in the words of the library: one pass over what is pending. -/
theorem apply_pending_eq (fault : ℕ → Fault) (now : ℕ → String) (directory : Directory)
    (db : Database D) :
    (apply_pending py sql fault now directory { file := db }).2
        = { file := (apply_all (migrate py sql fault now) (pending_in py directory db) db).1 }
      ∧ (apply_pending py sql fault now directory { file := db }).1
        = match (apply_all (migrate py sql fault now) (pending_in py directory db) db).2 with
          | none => .ok ((pending_in py directory db).map Prod.fst)
          | some (_, failure) => .error failure :=
  apply_loop_eq py sql fault now (pending_in py directory db) [] db

/-- Where the file could be read, the failure names it and says what SQLite said. -/
theorem failed_text {m : Migration} {failure : Failure} {text : List Char}
    (h : migrate py sql fault now m db = .error failure) (hread : m.2.read_text = .ok text) :
    ∃ exc, failure = config_error m.2.name exc := by
  rw [migrate, hread] at h
  dsimp only at h
  split at h
  · cases h
  · next exc _ =>
      cases h
      exact ⟨exc, rfl⟩

/-- Every call is a run, whatever befalls it. The split into `done` and `rest` is found by going along
the list of pending migrations until one fails. -/
theorem run_exists (fault : ℕ → Fault) (now : ℕ → String) (directory : Directory)
    (db : Database D) :
    ∃ done rest db', Run py sql fault now directory db done rest db' := by
  obtain ⟨hfile, hresult⟩ := @apply_pending_eq D py sql fault now directory db
  obtain ⟨done, rest, hsplit, happlied, hend⟩ :=
    @apply_all_spec _ _ _ (migrate py sql fault now) (pending_in py directory db) db
  have hcomplete : Complete py sql now done db _ :=
    happlied.map (f := fun db => db) fun _ _ _ h => (migrate_ok h).1
  refine ⟨done, rest, _, hsplit, hcomplete, hfile, ?_⟩
  rw [hresult]
  rcases hend with ⟨rfl, hnone⟩ | ⟨m, rest', failure, rfl, hstep, hsome⟩
  · refine Or.inl ⟨rfl, ?_⟩
    rw [hnone, hsplit, List.append_nil]
  · refine Or.inr ⟨m, rest', failure, rfl, hstep, ?_, fun text hread => failed_text hstep hread⟩
    rw [hsome]

variable {done rest : List Migration}

/-- What a run has not applied is what is pending afterwards. -/
theorem Run.pending_after (h : Run py sql fault now directory db done rest db')
    (hdistinct : DistinctVersions py directory) : pending_in py directory db' = rest :=
  pending_of_applied (records (fun _ => no_fault) now) (discover_increasing hdistinct) h.pending
    h.complete

/-- The listed versions and those still pending are those of the directory. -/
theorem Run.listed_append (h : Run py sql fault now directory db done rest db')
    (hdistinct : DistinctVersions py directory) (hat : At py directory db) :
    db'.listed ++ rest.map Prod.fst = (discover_migrations py directory).map Prod.fst := by
  have hsplit : _ ++ pending_in py directory db = _ :=
    had_append_pending (discover_increasing hdistinct) db
  rw [h.pending] at hsplit
  have hold : db.listed = ((discover_migrations py directory).filter fun m =>
      decide (m.1 ≤ db.read_current_version)).map Prod.fst := by
    rw [hat, List.filter_map]
    rfl
  rw [listed_of_applied h.complete, hold, List.append_assoc, ← List.map_append, ← List.map_append,
    hsplit]

/-- The versions of a directory before what is left of it. -/
def versions_before (py : Python) (directory : Directory) : List Migration → List ℕ
  | [] => (discover_migrations py directory).map Prod.fst
  | m :: _ => ((discover_migrations py directory).map Prod.fst).filter
      fun version => decide (version < m.1)

/-- A run leaves listed exactly the versions before the one it stopped at. -/
theorem Run.listed (h : Run py sql fault now directory db done rest db')
    (hdistinct : DistinctVersions py directory) (hat : At py directory db) :
    db'.listed = versions_before py directory rest := by
  have hall := h.listed_append hdistinct hat
  have hincr : ((discover_migrations py directory).map Prod.fst).Pairwise (· < ·) :=
    List.pairwise_map.mpr (discover_increasing hdistinct)
  cases rest with
  | nil => rwa [List.map_nil, List.append_nil] at hall
  | cons m rest' =>
      rw [versions_before, ← hall]
      rw [← hall] at hincr
      obtain ⟨-, hrest, hbefore⟩ := List.pairwise_append.mp hincr
      have hkept : (db'.listed.filter fun version => decide (version < m.1)) = db'.listed := by
        rw [List.filter_eq_self]
        intro version hversion
        exact decide_eq_true (hbefore version hversion m.1 List.mem_cons_self)
      have hleft : (((m :: rest').map Prod.fst).filter fun version => decide (version < m.1))
          = [] := by
        rw [List.filter_eq_nil_iff]
        intro version hversion
        simp only [decide_eq_true_eq]
        rcases List.mem_cons.mp hversion with rfl | hversion
        · omega
        · have := (List.pairwise_cons.mp hrest).1 version hversion
          omega
      rw [List.filter_append, hkept, hleft, List.append_nil]

/-- Without faults, and when the pending migrations apply, a run applies them all. -/
theorem apply_pending_complete
    (h : Complete py sql now (pending_in py directory db) db db') :
    apply_pending py sql (fun _ => no_fault) now directory { file := db }
      = (.ok ((pending_in py directory db).map Prod.fst), { file := db' }) := by
  obtain ⟨hfile, hresult⟩ := @apply_pending_eq D py sql (fun _ => no_fault) now directory db
  have hall := apply_all_of_applied h []
  rw [List.append_nil] at hall
  rw [hall] at hfile hresult
  exact Prod.ext hresult hfile

/-- A later run finds pending the version the run stopped at and those after it, whatever
became of their files. -/
theorem Run.resumes (h : Run py sql fault now directory db done rest db')
    (hdistinct : DistinctVersions py directory) {later : Directory}
    (hsame : (discover_migrations py later).map Prod.fst
      = (discover_migrations py directory).map Prod.fst) :
    (pending_in py later db').map Prod.fst = rest.map Prod.fst := by
  have hversions : ∀ dir : Directory, (pending_in py dir db').map Prod.fst
      = ((discover_migrations py dir).map Prod.fst).filter
          fun version => decide (db'.read_current_version < version) := by
    intro dir
    rw [List.filter_map]
    rfl
  rw [hversions, hsame, ← hversions, h.pending_after hdistinct]

/-- After a run that raised nothing, a further run does nothing. -/
theorem apply_pending_again (hdistinct : DistinctVersions py directory) {applied : List ℕ}
    {c : Conn (Database D)}
    (h : apply_pending py sql fault now directory { file := db } = (.ok applied, c))
    (fault' : ℕ → Fault) (now' : ℕ → String) :
    apply_pending py sql fault' now' directory c = (.ok [], c) := by
  obtain ⟨done, rest, db', hrun⟩ := @run_exists D py sql fault now directory db
  have hfile := hrun.file
  have hresult := hrun.result
  rw [h] at hfile hresult
  obtain rfl : c = { file := db' } := hfile
  have hrest : rest = [] := by
    rcases hresult with ⟨hrest, -⟩ | ⟨m, rest', failure, -, -, herror, -⟩
    · exact hrest
    · cases herror
  have hpending := hrun.pending_after hdistinct
  rw [hrest] at hpending
  rw [apply_pending]
  have hview : (Conn.view { file := db' } : Database D) = db' := rfl
  rw [pending_in, pending] at hpending
  rw [hview, hpending]
  rfl

end Run

/-! ## Several calls -/

/-- A call, with what befalls it. -/
structure Invocation where
  fault : ℕ → Fault
  now : ℕ → String
  directory : Directory

/-- Calls one after the other on the same connection, whatever they raise. -/
def apply_calls (py : Python) (sql : Sqlite D) (calls : List Invocation)
    (c : Conn (Database D)) : Conn (Database D) :=
  calls.foldl (fun c call => (apply_pending py sql call.fault call.now call.directory c).2) c

section Calls

variable {directory : Directory}

/-- Where the full directory takes a database, less the times. -/
def destination (py : Python) (sql : Sqlite D) (directory : Directory) (db : Database D) :
    Database D × Option (Migration × Failure) :=
  upgrade Prod.fst Database.read_current_version
    (migrate py sql (fun _ => no_fault) fun _ => "") (discover_migrations py directory) db.unstamped

/-- A database and its copy without the times have the same migrations before them. -/
theorem pending_unstamped (db : Database D) :
    pending Prod.fst Database.read_current_version (discover_migrations py directory) db.unstamped
      = pending_in py directory db := by
  rw [pending, read_current_version_unstamped]
  rfl

/-- A call that saw the first files of a directory leaves its destination where it was. -/
theorem destination_after_call (hdistinct : DistinctVersions py directory) (call : Invocation)
    (hinitial : discover_migrations py call.directory <+: discover_migrations py directory)
    (db : Database D) :
    ∃ db', (apply_pending py sql call.fault call.now call.directory { file := db }).2
        = { file := db' } ∧ destination py sql directory db' = destination py sql directory db := by
  refine ⟨_, (apply_pending_eq call.fault call.now call.directory db).1, ?_⟩
  have hlevel : (fun db : Database D => db.unstamped.read_current_version)
      = Database.read_current_version := by
    funext db
    exact read_current_version_unstamped db
  have hfewer : ∀ m (s s' : Database D), migrate py sql call.fault call.now m s = .ok s' →
      migrate py sql (fun _ => no_fault) (fun _ => "") m s.unstamped = .ok s'.unstamped := by
    intro m s s' h
    rw [← migrate_unstamped (fun _ => no_fault) call.now m s, (migrate_ok h).1]
    rfl
  have hcall := upgrade_after_call (records (fun _ => no_fault) fun _ => "") hfewer
    (discover_increasing hdistinct) hinitial db
  rw [hlevel] at hcall
  exact hcall

/-- By induction over the calls; each leaves the destination alone and a database that is again `At` its
directory. -/
theorem destination_after_calls (hdistinct : DistinctVersions py directory)
    {calls : List Invocation}
    (hinitial : ∀ call ∈ calls,
      discover_migrations py call.directory <+: discover_migrations py directory) :
    ∀ db : Database D, ∃ db', apply_calls py sql calls { file := db } = { file := db' }
      ∧ destination py sql directory db' = destination py sql directory db := by
  induction calls with
  | nil => exact fun db => ⟨db, rfl, rfl⟩
  | cons call rest ih =>
      intro db
      obtain ⟨mid, hfile, hmid⟩ := @destination_after_call D py sql directory hdistinct call
        (hinitial call List.mem_cons_self) db
      obtain ⟨db', hrest, hdb'⟩ := ih (fun c hc => hinitial c (List.mem_cons_of_mem call hc)) mid
      refine ⟨db', ?_, hdb'.trans hmid⟩
      rw [apply_calls, List.foldl_cons, hfile]
      exact hrest

/-- A run without faults reaches the destination. -/
theorem apply_pending_destination (now : ℕ → String) (db : Database D) :
    ∃ db', (apply_pending py sql (fun _ => no_fault) now directory { file := db }).2
        = { file := db' } ∧ db'.unstamped = (destination py sql directory db).1
      ∧ ∀ failure, (apply_pending py sql (fun _ => no_fault) now directory { file := db }).1
          = .error failure ↔ ∃ m, (destination py sql directory db).2 = some (m, failure) := by
  obtain ⟨hfile, hresult⟩ := @apply_pending_eq D py sql (fun _ => no_fault) now directory db
  have hdestination : destination py sql directory db
      = ((apply_all (migrate py sql (fun _ => no_fault) now) (pending_in py directory db) db).1.unstamped,
        (apply_all (migrate py sql (fun _ => no_fault) now) (pending_in py directory db) db).2) := by
    rw [destination, upgrade, pending_unstamped]
    exact apply_all_map (migrate_unstamped (fun _ => no_fault) now) _ db
  refine ⟨_, hfile, by rw [hdestination], ?_⟩
  rw [hdestination, hresult]
  intro failure
  rcases (apply_all (migrate py sql (fun _ => no_fault) now) (pending_in py directory db) db).2
    with _ | ⟨m, e⟩
  · simp
  · simp

end Calls

/-! ## Prefix or not at all -/

/-- For files with distinct versions and any database: a run applies the pending migrations
in order, completely, up to the first that fails, and leaves nothing of that one; a later
run starts there; calls that see more and more of the files, whatever befalls them, and one
clean call at the end give what a single clean call gives; and after a run that raised
nothing, every further one does nothing. -/
theorem apply_pending_spec (py : Python) (sql : Sqlite D) (directory : Directory)
    (hdistinct : DistinctVersions py directory) (db : Database D) :
    (∀ fault now, ∃ done rest db', Run py sql fault now directory db done rest db'
        ∧ db'.listed = db.listed ++ done.map Prod.fst
        ∧ (At py directory db → db'.listed = versions_before py directory rest)
        ∧ ∀ later now', (discover_migrations py later).map Prod.fst
              = (discover_migrations py directory).map Prod.fst →
            (pending_in py later db').map Prod.fst = rest.map Prod.fst
              ∧ ∀ db'', Complete py sql now' (pending_in py later db') db' db'' →
                apply_pending py sql (fun _ => no_fault) now' later { file := db' }
                  = (.ok (rest.map Prod.fst), { file := db'' }))
      ∧ (∀ calls : List Invocation,
          (∀ call ∈ calls,
            discover_migrations py call.directory <+: discover_migrations py directory) →
          ∀ now now', ∃ db₁ db₂,
            (apply_pending py sql (fun _ => no_fault) now directory
                (apply_calls py sql calls { file := db })).2 = { file := db₁ }
              ∧ (apply_pending py sql (fun _ => no_fault) now' directory { file := db }).2
                = { file := db₂ }
              ∧ db₁.unstamped = db₂.unstamped
              ∧ ∀ failure, (apply_pending py sql (fun _ => no_fault) now directory
                    (apply_calls py sql calls { file := db })).1 = .error failure
                  ↔ (apply_pending py sql (fun _ => no_fault) now' directory { file := db }).1
                    = .error failure)
      ∧ ∀ fault now applied c,
          apply_pending py sql fault now directory { file := db } = (.ok applied, c) →
          ∀ fault' now', apply_pending py sql fault' now' directory c = (.ok [], c) := by
  refine ⟨?_, ?_, ?_⟩
  · intro fault now
    -- where a call stops is where the next one goes on
    obtain ⟨done, rest, db', hrun⟩ := @run_exists D py sql fault now directory db
    refine ⟨done, rest, db', hrun, listed_of_applied hrun.complete, hrun.listed hdistinct, ?_⟩
    intro later now' hsame
    have hpending := hrun.resumes hdistinct hsame
    refine ⟨hpending, ?_⟩
    intro db'' hcomplete
    rw [apply_pending_complete hcomplete, hpending]
  · intro calls hinitial now now'
    -- the destination does not depend on the calls made on the way
    obtain ⟨mid, hcalls, hmid⟩ := @destination_after_calls D py sql directory hdistinct calls
      hinitial db
    rw [hcalls]
    obtain ⟨db₁, hfile₁, hdb₁, herror₁⟩ :=
      @apply_pending_destination D py sql directory now mid
    obtain ⟨db₂, hfile₂, hdb₂, herror₂⟩ :=
      @apply_pending_destination D py sql directory now' db
    refine ⟨db₁, db₂, hfile₁, hfile₂, ?_, ?_⟩
    · rw [hdb₁, hdb₂, hmid]
    · intro failure
      rw [herror₁, herror₂, hmid]
  · intro fault now applied c h fault' now'
    exact apply_pending_again hdistinct h fault' now'

/-! ## An instance -/

/-- Python with the ASCII digits. -/
def sample_python : Python where
  fromisoformat := PyDatetime.fromisoformat
  fromisoformat_isoformat := PyDatetime.fromisoformat_isoformat
  repr
    | none => "None"
    | some id => "'" ++ id ++ "'"
  decimal c := if IsoText.is_digit c then some (c.toNat - '0'.toNat) else none
  ascii := fun _ _ => rfl

/-- A database that keeps the text of each `CREATE TABLE`. -/
def sample_sql : Sqlite (List (List Char)) where
  statement stmt :=
    if stmt = "CREATE TABLE schema_version (version INTEGER NOT NULL PRIMARY KEY)".toList then
      .create_schema_version false
    else .change fun _ tables =>
      if "CREATE TABLE ".toList.isPrefixOf stmt then .ok (tables ++ [stmt])
      else .error "near \"INTENTIONAL\": syntax error"
  select _ table _ := .error ("no such table: " ++ table)

/-- The second file creates a table and then fails. -/
def broken_directory : Directory := some
  [{ name := "002_broken.sql"
     read_text := .ok "CREATE TABLE another (id INTEGER);INTENTIONAL SYNTAX ERROR;".toList },
   { name := "ignored.txt", read_text := .ok "not a migration".toList },
   { name := "001_initial.sql"
     read_text := .ok "CREATE TABLE schema_version (version INTEGER NOT NULL PRIMARY KEY);".toList }]

theorem apply_pending_spec_sample :
    (apply_pending sample_python sample_sql (fun _ => no_fault) (fun _ => "") broken_directory
        { file := { tables := [] } }).1
        = .error (config_error "002_broken.sql" "near \"INTENTIONAL\": syntax error")
      ∧ ∃ done rest db', Run sample_python sample_sql (fun _ => no_fault) (fun _ => "")
          broken_directory { tables := [] } done rest db'
        ∧ db'.listed = versions_before sample_python broken_directory rest := by
  have hdistinct : DistinctVersions sample_python broken_directory := by
    have hversions : (discover_migrations sample_python broken_directory).map Prod.fst = [1, 2] := by
      decide +kernel
    rw [DistinctVersions, hversions]
    decide
  have hat : At sample_python broken_directory ({ tables := [] } : Database (List (List Char))) := by
    unfold At
    decide +kernel
  refine ⟨by decide +kernel, ?_⟩
  obtain ⟨done, rest, db', hrun, -, hlisted, -⟩ :=
    (apply_pending_spec sample_python sample_sql broken_directory hdistinct { tables := [] }).1
      (fun _ => no_fault) (fun _ => "")
  exact ⟨done, rest, db', hrun, hlisted hat⟩

end OpenChronicle.Migrator
