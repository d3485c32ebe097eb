/-
The full-text index: what the triggers keep, and what `_ensure_fts5` builds.

`memory_fts` is an external-content table, so its entries are written by the triggers and by `'rebuild'`
only. Once it is in step with `memory_items` every statement keeps it so, whatever becomes of the
transaction around it. Getting there is another matter: `_ensure_fts5` rebuilds when `SELECT COUNT(*)`
answers 0, and on such a table the count is that of `memory_items`, not of the index.

To be in step is to have one entry for each row and no other, in any order. The order is left out since
a trigger adds at the end while the row that it follows may be in the middle, and a permutation is what
each of the three triggers keeps: an insert adds an entry on both sides, a delete takes one, and an
update is a delete of the old entry and an insert of the new one. The delete takes the entry that the
old row gives, which is there because the index was in step.

That transactions do not matter is a fact about scripts of write methods (`Kept`). An index that is in
step before each statement is so in the connection and in the file, and a rollback goes back to such a
file.

The second half follows the file through processes, each started with or without FTS5. An index can be
out of step only if some start has found rows and no index, and that is when the count misleads.
-/
import OpenChronicle.Store.Search
import OpenChronicle.Store.Transaction

set_option autoImplicit false

namespace OpenChronicle

variable {F : Type}

namespace Db

/-- The index, where there is one, has one entry for each row and nothing else. -/
def InStep (db : Db F) : Prop :=
  ∀ idx, db.memory_fts = some idx → idx.Perm (db.memory_items.map (·.fts))

/-- Whether there is an index, and that it is in step. -/
structure IndexIs (present : Bool) (db : Db F) : Prop where
  present : db.memory_fts.isSome = present
  in_step : db.InStep

/-! ## The triggers -/

/-- A statement on other tables. -/
theorem InStep.of_eq {db db' : Db F} (h : db.InStep) (hrows : db'.memory_items = db.memory_items)
    (hfts : db'.memory_fts = db.memory_fts) : db'.InStep := by
  intro idx hidx
  rw [hfts] at hidx
  rw [hrows]
  exact h idx hidx

/-- `memory_fts_ad` takes the entry of a row that is there. -/
theorem perm_of_fts_delete {fts : Option (List FtsEntry)} {m : MemoryRow} {rest : List FtsEntry}
    (h : ∀ idx, fts = some idx → idx.Perm (m.fts :: rest)) :
    ∀ idx, fts_delete m fts = some idx → idx.Perm rest := by
  intro idx hidx
  obtain ⟨idx₀, h₀, rfl⟩ := Option.map_eq_some_iff.mp hidx
  have hperm := (h idx₀ h₀).erase m.fts
  rwa [List.erase_cons_head] at hperm

/-- `memory_fts_ai` adds the entry of the new row. -/
theorem perm_of_fts_insert {fts : Option (List FtsEntry)} {m : MemoryRow} {rest : List FtsEntry}
    (h : ∀ idx, fts = some idx → idx.Perm rest) :
    ∀ idx, fts_insert m fts = some idx → idx.Perm (m.fts :: rest) := by
  intro idx hidx
  obtain ⟨idx₀, h₀, rfl⟩ := Option.map_eq_some_iff.mp hidx
  exact (List.perm_append_singleton m.fts idx₀).trans ((h idx₀ h₀).cons m.fts)

/-- The rows are the one with this id and the others. -/
theorem rows_perm {db : Db F} {memory_id : String} {old : MemoryRow}
    (h : db.memory_row memory_id = some old) :
    db.memory_items.Perm (old :: db.memory_items.filter (·.id ≠ memory_id)) := by
  have hperm := Keyed.perm_cons_filter_ne (fun m : MemoryRow => m.id) db.memory_pk
    (Keyed.mem_of_lookup h)
  rwa [id_of_memory_row h] at hperm

/-- The write methods, one after the other. -/
theorem InStep.add_memory {db db' : Db F} {item : MemoryItem} (h : db.InStep)
    (hrun : db.add_memory item = .ok db') : db'.InStep := by
  unfold Db.add_memory at hrun
  split at hrun
  · cases hrun
  · split at hrun
    · cases hrun
      intro idx hidx
      rw [List.map_append]
      exact (perm_of_fts_insert h idx hidx).trans (List.perm_append_singleton _ _).symm
    · cases hrun

/-- An update is a delete and an insert for the index. -/
theorem InStep.update_row {db db' : Db F} {memory_id : String} {f : MemoryItem → MemoryItem}
    {hid : ∀ m, (f m).id = m.id} {hproj : ∀ m, (f m).project_id = m.project_id} (h : db.InStep)
    (hrun : db.update_row memory_id f hid hproj = .ok db') : db'.InStep := by
  unfold Db.update_row at hrun
  split at hrun
  · cases hrun
  · next old hold =>
      cases hrun
      intro idx hidx
      have hrows := rows_perm hold
      -- the other rows are written back as they were
      have hothers : (db.memory_items.filter (·.id ≠ memory_id)).map (rewrite memory_id f)
          = db.memory_items.filter (·.id ≠ memory_id) := by
        refine (List.map_congr_left ?_).trans (List.map_id _)
        intro m hm
        have hne := (List.mem_filter.mp hm).2
        rw [rewrite, if_neg (by simpa using hne), id]
      have hnew := (hrows.map (rewrite memory_id f)).map (fun m : MemoryRow => m.fts)
      rw [List.map_cons, List.map_cons, hothers] at hnew
      have hold' : ∀ idx, db.memory_fts = some idx →
          idx.Perm (old.fts :: (db.memory_items.filter (·.id ≠ memory_id)).map (·.fts)) :=
        fun idx hi => (h idx hi).trans (hrows.map _)
      exact (perm_of_fts_insert (perm_of_fts_delete hold') idx hidx).trans hnew.symm

theorem InStep.delete_memory {db db' : Db F} {memory_id : String} (h : db.InStep)
    (hrun : db.delete_memory memory_id = .ok db') : db'.InStep := by
  unfold Db.delete_memory at hrun
  split at hrun
  · cases hrun
  · next old hold =>
      cases hrun
      exact perm_of_fts_delete fun idx hi => (h idx hi).trans ((rows_perm hold).map _)

/-- One `DELETE` of many rows fires the trigger for each. -/
theorem perm_of_fts_deletes (gone : List MemoryRow) {fts : Option (List FtsEntry)}
    {rest : List FtsEntry} (h : ∀ idx, fts = some idx → idx.Perm (gone.map (·.fts) ++ rest)) :
    ∀ idx, gone.foldl (fun fts m => fts_delete m fts) fts = some idx → idx.Perm rest := by
  induction gone generalizing fts with
  | nil => exact h
  | cons m gone ih =>
      rw [List.foldl_cons]
      exact ih (perm_of_fts_delete h)

theorem InStep.delete_memories_of {db : Db F} (h : db.InStep) (project_id : String) :
    (db.delete_memories_of project_id).InStep := by
  refine perm_of_fts_deletes _ ?_
  intro idx hidx
  have hsplit := List.filter_append_perm (fun m : MemoryRow => m.project_id = some project_id)
    db.memory_items
  have hrows := (h idx hidx).trans (hsplit.symm.map (fun m : MemoryRow => m.fts))
  rw [List.map_append] at hrows
  simpa [Db.delete_memories_of] using hrows

theorem InStep.save_embedding {db : Db F} (h : db.InStep) (hash_content : String → String)
    (memory_id : String) (embedding : List F) (model provider content_hash : String)
    (model_revision : Option String) (settings_fingerprint : String) (status : EmbeddingStatus) :
    (db.save_embedding hash_content memory_id embedding model provider content_hash model_revision
      settings_fingerprint status).2.InStep := by
  unfold Db.save_embedding
  split
  · exact h
  · split
    · exact h
    · exact h.of_eq rfl rfl

@[simp] theorem isSome_fts_insert (m : MemoryRow) (fts : Option (List FtsEntry)) :
    (fts_insert m fts).isSome = fts.isSome := by simp [fts_insert]

@[simp] theorem isSome_fts_delete (m : MemoryRow) (fts : Option (List FtsEntry)) :
    (fts_delete m fts).isSome = fts.isSome := by simp [fts_delete]

theorem isSome_fts_deletes (gone : List MemoryRow) (fts : Option (List FtsEntry)) :
    (gone.foldl (fun fts m => fts_delete m fts) fts).isSome = fts.isSome := by
  induction gone generalizing fts with
  | nil => rfl
  | cons m gone ih => rw [List.foldl_cons, ih, isSome_fts_delete]

section IndexIs

variable {b : Bool} {db db' : Db F}

/-- The same, with whether there is an index at all: no write method makes or drops one. -/
theorem IndexIs.of_eq (h : db.IndexIs b) (hrows : db'.memory_items = db.memory_items)
    (hfts : db'.memory_fts = db.memory_fts) : db'.IndexIs b :=
  ⟨hfts ▸ h.present, h.in_step.of_eq hrows hfts⟩

theorem IndexIs.add_memory {item : MemoryItem} (h : db.IndexIs b)
    (hrun : db.add_memory item = .ok db') : db'.IndexIs b := by
  refine ⟨?_, h.in_step.add_memory hrun⟩
  unfold Db.add_memory at hrun
  split at hrun
  · cases hrun
  · split at hrun
    · cases hrun
      rw [isSome_fts_insert]
      exact h.present
    · cases hrun

theorem IndexIs.update_row {memory_id : String} {f : MemoryItem → MemoryItem}
    {hid : ∀ m, (f m).id = m.id} {hproj : ∀ m, (f m).project_id = m.project_id} (h : db.IndexIs b)
    (hrun : db.update_row memory_id f hid hproj = .ok db') : db'.IndexIs b := by
  refine ⟨?_, h.in_step.update_row hrun⟩
  unfold Db.update_row at hrun
  split at hrun
  · cases hrun
  · cases hrun
    rw [isSome_fts_insert, isSome_fts_delete]
    exact h.present

theorem IndexIs.delete_memory {memory_id : String} (h : db.IndexIs b)
    (hrun : db.delete_memory memory_id = .ok db') : db'.IndexIs b := by
  refine ⟨?_, h.in_step.delete_memory hrun⟩
  unfold Db.delete_memory at hrun
  split at hrun
  · cases hrun
  · cases hrun
    rw [isSome_fts_delete]
    exact h.present

theorem IndexIs.delete_memories_of (h : db.IndexIs b) (project_id : String) :
    (db.delete_memories_of project_id).IndexIs b :=
  ⟨(isSome_fts_deletes _ _).trans h.present, h.in_step.delete_memories_of project_id⟩

theorem IndexIs.delete_project_row {project_id : String} (h : db.IndexIs b)
    (hrun : db.delete_project_row project_id = .ok db') : db'.IndexIs b := by
  unfold Db.delete_project_row at hrun
  split at hrun
  · cases hrun
    exact h.of_eq rfl rfl
  · cases hrun

theorem IndexIs.add_project {project : Project} (h : db.IndexIs b)
    (hrun : db.add_project project = .ok db') : db'.IndexIs b := by
  unfold Db.add_project at hrun
  split at hrun
  · cases hrun
  · cases hrun
    exact h.of_eq rfl rfl

theorem IndexIs.update_project {project_id : String} {name : Option String}
    {metadata : Option Json.Dict}
    (h : db.IndexIs b) (hrun : db.update_project project_id name metadata = .ok db') :
    db'.IndexIs b := by
  unfold Db.update_project at hrun
  split at hrun
  · cases hrun
  · split at hrun
    · cases hrun
    · cases hrun
      exact h.of_eq rfl rfl

theorem IndexIs.save_embedding (h : db.IndexIs b) (hash_content : String → String)
    (memory_id : String) (embedding : List F) (model provider content_hash : String)
    (model_revision : Option String) (settings_fingerprint : String) (status : EmbeddingStatus) :
    (db.save_embedding hash_content memory_id embedding model provider content_hash model_revision
      settings_fingerprint status).2.IndexIs b := by
  unfold Db.save_embedding
  split
  · exact h
  · split
    · exact h
    · exact h.of_eq rfl rfl

end IndexIs

/-- Every statement keeps the index, and keeps it in step. -/
theorem kept_indexIs (hash_content : String → String) (b : Bool) :
    Script.Kept hash_content (IndexIs (F := F) b) where
  apply := by
    intro w db db' h hrun
    cases w with
    | add_project project => exact h.add_project hrun
    | update_project project_id name metadata => exact h.update_project hrun
    | add_memory item => exact h.add_memory hrun
    | set_pinned memory_id pinned =>
        unfold StoreWrite.apply Db.set_pinned at hrun
        exact h.update_row hrun
    | update_memory now memory_id content tags =>
        unfold StoreWrite.apply Db.update_memory at hrun
        exact h.update_row hrun
    | delete_memory memory_id => exact h.delete_memory hrun
    | delete_embedding memory_id =>
        cases hrun
        exact h.of_eq rfl rfl
    | save_embedding =>
        cases hrun
        exact h.save_embedding ..
    | delete_project project_id =>
        rw [StoreWrite.apply] at hrun
        split at hrun
        · cases hrun
        · exact (h.delete_memories_of project_id).delete_project_row hrun
  delete_memories_of := fun _ project_id h => h.delete_memories_of project_id
  delete_project_row := fun _ _ _ h hrun => h.delete_project_row hrun

end Db

/-! ## Searching an index in step -/

/-- FTS5 matches row by row: a rowid is among the hits when an entry with it matches. -/
def MatchesEntries {R : Type} (P : Platform R) (hits : String → String → List PyStr.Text → Bool) :
    Prop :=
  ∀ idx expression rank, P.fts5_match idx expression = .ok rank → ∀ rowid,
    (rank rowid).isSome ↔ ∃ e ∈ idx, e.rowid = rowid ∧ hits expression e.content e.tags = true

section Search

variable {R : Type} {P : Platform R} {hits : String → String → List PyStr.Text → Bool}

/-- On an index in step a row is hit when its own content and tags match. -/
theorem hit_iff {db : Db F} {idx : List FtsEntry} {expression : String} {rank : ℕ → Option R}
    (hP : MatchesEntries P hits) (hstep : db.InStep) (hidx : db.memory_fts = some idx)
    (hrank : P.fts5_match idx expression = .ok rank) {m : MemoryRow} (hm : m ∈ db.memory_items) :
    (rank m.rowid).isSome ↔ hits expression m.content m.tags = true := by
  rw [hP idx expression rank hrank]
  have hperm := hstep idx hidx
  constructor
  · rintro ⟨e, he, hrow, hhit⟩
    obtain ⟨m', hm', rfl⟩ := List.mem_map.mp (hperm.mem_iff.mp he)
    -- the rowid is a key, so the entry is of this row
    obtain rfl : m' = m := List.inj_on_of_nodup_map db.rowid_pk hm' hm hrow
    exact hhit
  · intro hhit
    exact ⟨m.fts, hperm.mem_iff.mpr (List.mem_map_of_mem hm), rfl, hhit⟩

/-- A search that answers returns exactly the rows in scope whose content or tags match. -/
theorem mem_fts5_ranking_iff [LinearOrder R] {db : Db F} (hP : MatchesEntries P hits)
    (hstep : db.InStep) {query : String} {project_id : Option String}
    {tags : Option (List PyStr.Text)} {phrase : Bool} {mode : PinnedMode} {l : List MemoryItem}
    (hquery : fts5_escape query phrase ≠ "")
    (hrun : SqliteStore.fts5_ranking P ⟨db, true⟩ query project_id tags phrase mode = .ok l)
    (m : MemoryItem) :
    m ∈ l ↔ m ∈ db.items ∧ hits (fts5_escape query phrase) m.content m.tags = true
      ∧ in_scope mode project_id tags m = true := by
  simp only [SqliteStore.fts5_ranking, if_neg hquery] at hrun
  rcases hidx : db.memory_fts with _ | idx
  · rw [hidx] at hrun
    cases hrun
  · rw [hidx] at hrun
    rcases hrank : P.fts5_match idx (fts5_escape query phrase) with e | rank
    · simp only [hrank] at hrun
      cases hrun
    · simp only [hrank] at hrun
      obtain rfl := Except.ok.inj hrun
      have hmem : m ∈ (SqliteStore.fts5_order ((SqliteStore.fts5_hits ⟨db, true⟩ rank).filter
            fun h => in_scope mode project_id tags h.2)).map (·.2)
          ↔ ∃ r, (r, m) ∈ SqliteStore.fts5_hits ⟨db, true⟩ rank
              ∧ in_scope mode project_id tags m = true := by
        simp [SqliteStore.fts5_order, List.mem_insertionSort]
      rw [hmem]
      constructor
      · rintro ⟨r, hr, hscope⟩
        obtain ⟨row, hrow, hget⟩ := List.mem_filterMap.mp hr
        obtain ⟨r', hr', heq⟩ := Option.map_eq_some_iff.mp hget
        obtain ⟨-, rfl⟩ := Prod.mk.inj heq
        refine ⟨List.mem_map_of_mem hrow, ?_, hscope⟩
        exact (hit_iff hP hstep hidx hrank hrow).mp (by rw [hr']; rfl)
      · rintro ⟨hm, hhit, hscope⟩
        obtain ⟨row, hrow, rfl⟩ := List.mem_map.mp hm
        obtain ⟨r, hr⟩ := Option.isSome_iff_exists.mp
          ((hit_iff hP hstep hidx hrank hrow).mpr hhit)
        refine ⟨r, List.mem_filterMap.mpr ⟨row, hrow, ?_⟩, hscope⟩
        rw [hr]
        rfl

variable (hash_content : String → String)

/-- **The triggers keep the index in step.** From a file whose index is complete, wherever
a run of write methods comes to, inside or outside blocks and however they end, the index
in view and the index in the file are complete; and a search over the one in view returns
a memory exactly when it is in scope and its current content or tags match. -/
theorem index_stays_in_step [LinearOrder R] (hP : MatchesEntries P hits) (s : Script F)
    (file : Db F) (hstart : file.IndexIs true) {t : Script F} {d : Session F}
    (hcomes : Script.Comes hash_content s (Session.boot file) t d) :
    (t.exec hash_content d).2.view.IndexIs true
      ∧ (t.exec hash_content d).2.conn.file.IndexIs true
      ∧ ∀ query project_id tags phrase mode l, fts5_escape query phrase ≠ "" →
        SqliteStore.fts5_ranking P ⟨(t.exec hash_content d).2.view, true⟩ query project_id tags
          phrase mode = .ok l →
        ∀ m, m ∈ l ↔ m ∈ (t.exec hash_content d).2.view.items
          ∧ hits (fts5_escape query phrase) m.content m.tags = true
          ∧ in_scope mode project_id tags m = true := by
  have hkept := Db.kept_indexIs (F := F) hash_content true
  have hd := hcomes.all hkept (Savepoints.Conn.All.closed hstart)
  have hall := Script.all_exec hkept t hd
  refine ⟨hall.view, hall.file, ?_⟩
  intro query project_id tags phrase mode l hquery hrun m
  exact mem_fts5_ranking_iff hP hall.view.in_step hquery hrun m

end Search

namespace OneWord

/-- FTS5 on contents of one word: a quoted word matches the content it is. -/
def hits (expression content : String) (_ : List PyStr.Text) : Bool :=
  expression == String.ofList ('"' :: content.toList ++ ['"'])

def platform : Platform ℕ where
  lower := id
  lower_tag := id
  casefold := id
  fts5_match idx expression := .ok fun rowid =>
    if ∃ e ∈ idx, e.rowid = rowid ∧ hits expression e.content e.tags = true then some 0 else none

theorem platform_matches : MatchesEntries platform hits := by
  intro idx expression rank hrank rowid
  obtain rfl := Except.ok.inj hrank
  by_cases h : ∃ e ∈ idx, e.rowid = rowid ∧ hits expression e.content e.tags = true
  · simp [h]
  · simp [h]

def file : Db Unit := { memory_fts := some [] }

def item : MemoryItem := { id := "m", content := "word", created_at := 0 }

/-- A memory added inside a block that is left by an exception, and then again by itself. -/
def script : Script Unit :=
  .seq (.attempt (.block false (.seq (.write false (.add_memory item)) (.raise (.exception .Other))))
    fun _ => true) (.write false (.add_memory item))

end OneWord

open OneWord in
theorem index_stays_in_step_sample :
    MatchesEntries platform hits ∧ file.IndexIs true
      ∧ (script.exec id (Session.boot file)).2.conn.file.IndexIs true
      ∧ ∀ l, SqliteStore.fts5_ranking platform ⟨(script.exec id (Session.boot file)).2.view, true⟩
          "word" none none false .include_pins = .ok l → item ∈ l := by
  have hfile : file.IndexIs true := by
    refine ⟨rfl, ?_⟩
    intro idx hidx
    obtain rfl := Option.some.inj hidx
    exact List.Perm.nil
  obtain ⟨-, hin, hsearch⟩ := index_stays_in_step id platform_matches script file hfile .here
  refine ⟨platform_matches, hfile, hin, ?_⟩
  intro l hrun
  exact (hsearch "word" none none false .include_pins l (by decide +kernel) hrun item).mpr
    ⟨by decide +kernel, by decide +kernel, by decide +kernel⟩

/-! ## Process lifetimes -/

/-- `_ensure_fts5` on the content of the file. The flags are `OC_SEARCH_FTS5_ENABLED` and
whether the SQLite build has FTS5; the answer is `_fts5_active`. -/
def ensure_fts5 (user_enabled available : Bool) (db : Db F) : Bool × Db F :=
  if !user_enabled || !available then (false, db)
  else
    -- `CREATE … IF NOT EXISTS`: a new table has an empty index
    let created := db.memory_fts.getD []
    -- `SELECT COUNT(*)` reads the rows of the content table
    let count := db.memory_items.length
    let idx := if count = 0 then db.memory_items.map (·.fts) else created
    (true, { db with memory_fts := some idx })

/-- One process: how it was started, and what it did before it ended. -/
structure Lifetime (F : Type) where
  user_enabled : Bool
  available : Bool
  work : Script F

namespace Lifetime

variable (hash_content : String → String)

/-- `init_schema`; the migrations leave the rows as they are. -/
def init_schema (l : Lifetime F) (file : Db F) : Bool × Db F :=
  ensure_fts5 l.user_enabled l.available file

/-- What a process leaves in the file: an open transaction is lost with it. -/
def run (l : Lifetime F) (file : Db F) : Db F :=
  (l.work.exec hash_content (Session.boot (l.init_schema file).2)).2.conn.file

/-- Each process with the file it found. -/
def starts : List (Lifetime F) → Db F → List (Lifetime F × Db F)
  | [], _ => []
  | l :: rest, file => (l, file) :: starts rest (l.run hash_content file)

/-- What `init_schema` makes of a file whose index, if any, is in step. -/
theorem init_schema_indexIs {l : Lifetime F} {file : Db F} (hfile : file.InStep)
    (hactive : (l.init_schema file).1 = true) :
    (l.init_schema file).2.IndexIs true ↔ (file.memory_fts = none → file.memory_items = []) := by
  rw [init_schema, ensure_fts5] at hactive ⊢
  split at hactive
  · cases hactive
  · next hon =>
      rw [if_neg hon]
      constructor
      · intro h hnone
        have hperm := h.in_step _ rfl
        by_contra hrows
        have hlen : file.memory_items.length ≠ 0 := fun h0 => hrows (List.length_eq_zero_iff.mp h0)
        simp only [hnone, Option.getD_none, if_neg hlen] at hperm
        have hcount := hperm.length_eq
        rw [List.length_nil, List.length_map] at hcount
        exact hlen hcount.symm
      · intro h
        refine ⟨rfl, ?_⟩
        intro idx hidx
        obtain rfl := Option.some.inj hidx
        split
        · rfl
        · next hlen =>
            rcases hfts : file.memory_fts with _ | idx
            · exact absurd (List.length_eq_zero_iff.mpr (h hfts)) hlen
            · exact hfile idx hfts

/-- Whether or not it is active, a process that leaves the file's index in step at its start
leaves it so at its end. -/
theorem run_inStep {l : Lifetime F} {file : Db F} (h : (l.init_schema file).2.InStep) :
    (l.run hash_content file).InStep := by
  have hstart : (l.init_schema file).2.IndexIs (l.init_schema file).2.memory_fts.isSome := ⟨rfl, h⟩
  exact (Script.all_exec (Db.kept_indexIs hash_content _) l.work
    (Savepoints.Conn.All.closed hstart)).file.in_step

/-- A process without FTS5 neither builds an index nor removes the triggers of one that is there. -/
theorem init_schema_inactive {l : Lifetime F} {file : Db F}
    (hactive : (l.init_schema file).1 ≠ true) : (l.init_schema file).2 = file := by
  rw [init_schema, ensure_fts5] at hactive ⊢
  split at hactive
  · next hoff => rw [if_pos hoff]
  · exact absurd rfl hactive

theorem starts_complete_iff (ls : List (Lifetime F)) (file : Db F) (hfile : file.InStep) :
    (∀ p ∈ starts hash_content ls file, (p.1.init_schema p.2).1 = true →
        (p.1.init_schema p.2).2.IndexIs true)
      ↔ ∀ p ∈ starts hash_content ls file, (p.1.init_schema p.2).1 = true →
        p.2.memory_fts = none → p.2.memory_items = [] := by
  induction ls generalizing file with
  | nil => simp [starts]
  | cons l rest ih =>
      rw [starts, List.forall_mem_cons, List.forall_mem_cons]
      have hhead : ((l.init_schema file).1 = true → (l.init_schema file).2.IndexIs true)
          ↔ ((l.init_schema file).1 = true → file.memory_fts = none → file.memory_items = []) :=
        forall_congr' fun hactive => init_schema_indexIs hfile hactive
      constructor
      · rintro ⟨hl, hrest⟩
        refine ⟨hhead.mp hl, (ih _ ?_).mp hrest⟩
        by_cases hactive : (l.init_schema file).1 = true
        · exact run_inStep hash_content (hl hactive).in_step
        · exact run_inStep hash_content (by rw [init_schema_inactive hactive]; exact hfile)
      · rintro ⟨hl, hrest⟩
        refine ⟨hhead.mpr hl, (ih _ ?_).mpr hrest⟩
        by_cases hactive : (l.init_schema file).1 = true
        · exact run_inStep hash_content (hhead.mpr hl hactive).in_step
        · exact run_inStep hash_content (by rw [init_schema_inactive hactive]; exact hfile)

/-- **When enabling FTS5 yields a complete index.** Over all processes of one file, every
`init_schema` that ends with FTS5 active leaves a complete index if and only if none of
them finds rows and no index. -/
theorem enabled_index_complete_iff (ls : List (Lifetime F)) :
    (∀ p ∈ starts hash_content ls {}, (p.1.init_schema p.2).1 = true →
        (p.1.init_schema p.2).2.IndexIs true)
      ↔ ∀ p ∈ starts hash_content ls {}, (p.1.init_schema p.2).1 = true →
        p.2.memory_fts = none → p.2.memory_items = [] := by
  refine starts_complete_iff hash_content ls {} ?_
  intro idx hidx
  cases hidx

/-- A process without FTS5 stores a memory, the next one enables it. -/
def late : List (Lifetime Unit) :=
  [⟨false, true, .write false (.add_memory { id := "m", content := "text", created_at := 0 })⟩,
    ⟨true, true, .skip⟩]

/-- The second process is active, and its index has no entry for the memory. -/
theorem late_index_is_empty :
    ∃ p ∈ starts id late {}, (p.1.init_schema p.2).1 = true
      ∧ (p.1.init_schema p.2).2.memory_fts = some []
      ∧ (p.1.init_schema p.2).2.memory_items.map (·.id) = ["m"]
      ∧ ¬ (p.1.init_schema p.2).2.IndexIs true := by
  refine ⟨_, List.mem_cons_of_mem _ List.mem_cons_self, rfl, rfl, rfl, ?_⟩
  intro h
  exact absurd (h.in_step _ rfl).length_eq (by decide)

end Lifetime

end OpenChronicle
