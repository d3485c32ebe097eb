/-
The tables of `migrations/*.sql` and the write methods of `SqliteStore`.

`Db` carries the schema's keys as fields, so a table that breaks a `PRIMARY
KEY` or a `FOREIGN KEY` cannot be built, and each write method below is also
the proof that it keeps them. A method runs under the store lock, so it is one
atomic step; `transaction()` blocks and process lifetimes are not in this file.

The full-text index is part of the file's content: `memory_fts` is `none` until
a process creates the virtual table with its triggers, and from then on every
write below maintains it as the triggers do, whether or not the process that
writes uses it.
-/
import Mathlib.Data.List.Nodup
import Mathlib.Data.List.Perm.Basic
import Mathlib.Data.List.Sort
import Mathlib.Data.Prod.Lex
import OpenChronicle.Domain
import OpenChronicle.Lib.Keyed

set_option autoImplicit false

namespace OpenChronicle

/-! ## Rows -/

/-- A row of `memory_items`: the item and SQLite's implicit rowid. -/
structure MemoryRow extends MemoryItem where
  rowid : ℕ
  deriving DecidableEq, Repr

/-- `memory_embeddings.status` (migration 004). -/
inductive EmbeddingStatus where
  | ok
  | content_too_long
  deriving DecidableEq, Repr

/-- What a memory's vector is compared by: the space identity of ADR 0005 and
the hash of the content it was made from (`get_embedding_identity`). -/
structure EmbeddingIdentity where
  provider : String
  model : String
  dimensions : ℕ
  content_hash : String
  model_revision : Option String
  settings_fingerprint : String
  status : EmbeddingStatus
  deriving DecidableEq, Repr

/-- A row of `memory_embeddings`; `F` is the type of a stored float32. -/
structure EmbeddingRow (F : Type) extends EmbeddingIdentity where
  memory_id : String
  embedding : List F
  deriving DecidableEq, Repr

/-- One entry of the external-content index `memory_fts`. -/
structure FtsEntry where
  rowid : ℕ
  content : String
  tags : List PyStr.Text
  deriving DecidableEq, Repr

/-- The entry the triggers write for a row. -/
def MemoryRow.fts (m : MemoryRow) : FtsEntry := ⟨m.rowid, m.content, m.tags⟩

/-! ### The keys of empty tables -/

namespace Empty

theorem project_pk : (([] : List Project).map (·.id)).Nodup := List.nodup_nil

theorem memory_pk : (([] : List MemoryRow).map (·.id)).Nodup := List.nodup_nil

theorem rowid_pk : (([] : List MemoryRow).map (·.rowid)).Nodup := List.nodup_nil

theorem embedding_pk {F : Type} : (([] : List (EmbeddingRow F)).map (·.memory_id)).Nodup := List.nodup_nil

theorem embedding_fk {F : Type} : ∀ r ∈ ([] : List (EmbeddingRow F)),
    ∃ m ∈ ([] : List MemoryRow), m.id = r.memory_id := by
  intro r hr
  cases hr

end Empty

/-- The content of one database file. -/
structure Db (F : Type) where
  projects : List Project := []
  memory_items : List MemoryRow := []
  memory_embeddings : List (EmbeddingRow F) := []
  memory_fts : Option (List FtsEntry) := none
  project_pk : (projects.map (·.id)).Nodup := by first | exact Empty.project_pk | simp
  memory_pk : (memory_items.map (·.id)).Nodup := by first | exact Empty.memory_pk | simp
  rowid_pk : (memory_items.map (·.rowid)).Nodup := by first | exact Empty.rowid_pk | simp
  embedding_pk : (memory_embeddings.map (·.memory_id)).Nodup := by first | exact Empty.embedding_pk | simp
  memory_fk : ∀ m ∈ memory_items, ∀ p, m.project_id = some p → ∃ q ∈ projects, q.id = p := by simp
  embedding_fk : ∀ r ∈ memory_embeddings, ∃ m ∈ memory_items, m.id = r.memory_id := by
    first | exact Empty.embedding_fk | simp

namespace Db

variable {F : Type}

/-! ## Reads by key -/

/-- `SELECT * FROM memory_items WHERE id = ?`. -/
def memory_row (db : Db F) (memory_id : String) : Option MemoryRow :=
  Keyed.lookup (fun m : MemoryRow => m.id) db.memory_items memory_id

/-- `SELECT * FROM memory_embeddings WHERE memory_id = ?`. -/
def embedding_row (db : Db F) (memory_id : String) : Option (EmbeddingRow F) :=
  Keyed.lookup (fun r : EmbeddingRow F => r.memory_id) db.memory_embeddings memory_id

/-- `get_memory`. -/
def get_memory (db : Db F) (memory_id : String) : Option MemoryItem :=
  (db.memory_row memory_id).map (·.toMemoryItem)

theorem id_of_memory_row {db : Db F} {memory_id : String} {m : MemoryRow}
    (h : db.memory_row memory_id = some m) : m.id = memory_id :=
  Keyed.key_of_lookup (fun m : MemoryRow => m.id) h

theorem id_of_get_memory {db : Db F} {memory_id : String} {item : MemoryItem}
    (h : db.get_memory memory_id = some item) : item.id = memory_id := by
  obtain ⟨m, hm, rfl⟩ := Option.map_eq_some_iff.mp h
  exact id_of_memory_row hm

/-- A stored row is the one its id finds. -/
theorem get_memory_of_mem {db : Db F} {m : MemoryRow} (hm : m ∈ db.memory_items) :
    db.get_memory m.id = some m.toMemoryItem := by
  have h := Keyed.lookup_of_mem (fun m : MemoryRow => m.id) db.memory_pk hm
  rw [get_memory, memory_row, h]
  rfl

/-- `get_embedding_identity`. -/
def get_embedding_identity (db : Db F) (memory_id : String) : Option EmbeddingIdentity :=
  (db.embedding_row memory_id).map (·.toEmbeddingIdentity)

/-- By the foreign key, a row has its memory. -/
theorem memory_of_embedding_row {db : Db F} {memory_id : String} {row : EmbeddingRow F}
    (h : db.embedding_row memory_id = some row) : ∃ item, db.get_memory memory_id = some item := by
  obtain ⟨m, hm, hid⟩ := db.embedding_fk row (Keyed.mem_of_lookup h)
  have hrow : row.memory_id = memory_id :=
    Keyed.key_of_lookup (fun r : EmbeddingRow F => r.memory_id) h
  refine ⟨m.toMemoryItem, ?_⟩
  rw [← hrow, ← hid]
  exact get_memory_of_mem hm

/-! ## The trigger bodies -/

/-- `memory_fts_ai`. -/
def fts_insert (m : MemoryRow) (fts : Option (List FtsEntry)) : Option (List FtsEntry) :=
  fts.map fun idx => idx ++ [m.fts]

/-- The `'delete'` command of `memory_fts_ad` and `memory_fts_au`: an entry goes
only when the values given are the indexed ones. What FTS5 makes of an entry that
is not there is unpredictable: it may raise, or go on with a damaged index. Here
such an entry is passed over, so a run of the writes below, an onboarding for one,
is a run on a file whose index is in step, which each of them keeps. Where the
difference decides a result, `ContentIndex.Delete` stands for FTS5 instead. -/
def fts_delete (m : MemoryRow) (fts : Option (List FtsEntry)) : Option (List FtsEntry) :=
  fts.map fun idx => idx.erase m.fts

/-! ## Writes -/

/-- One more than the largest rowid in use. -/
def next_rowid (db : Db F) : ℕ := (db.memory_items.map (·.rowid)).foldr max 0 + 1

theorem rowid_lt_next (db : Db F) {m : MemoryRow} (hm : m ∈ db.memory_items) :
    m.rowid < db.next_rowid := by
  have key : ∀ (l : List ℕ) (a : ℕ), a ∈ l → a ≤ l.foldr max 0 := by
    intro l
    induction l with
    | nil => intro a ha; simp at ha
    | cons b t ih =>
        intro a ha
        rcases List.mem_cons.mp ha with rfl | ht
        · exact le_max_left _ _
        · exact (ih a ht).trans (le_max_right _ _)
  exact Nat.lt_succ_of_le (key _ _ (List.mem_map_of_mem hm))

/-- `add_memory`. The primary key is checked while the row goes in, the foreign
key when the statement ends; only the second is translated. -/
def add_memory (db : Db F) (item : MemoryItem) : Except Exc (Db F) :=
  if hid : item.id ∈ db.memory_items.map (·.id) then .error .IntegrityError
  else if hfk : ∀ p, item.project_id = some p → p ∈ db.projects.map (·.id) then
    let row : MemoryRow := { item with rowid := db.next_rowid }
    .ok { db with
      memory_items := db.memory_items ++ [row]
      memory_fts := fts_insert row db.memory_fts
      memory_pk := by
        rw [List.map_append, List.nodup_append]
        refine ⟨db.memory_pk, by simp, ?_⟩
        intro a ha b hb
        simp only [List.map_cons, List.map_nil, List.mem_singleton] at hb
        rintro rfl
        exact hid (hb ▸ ha)
      rowid_pk := by
        rw [List.map_append, List.nodup_append]
        refine ⟨db.rowid_pk, by simp, ?_⟩
        intro a ha b hb
        simp only [List.map_cons, List.map_nil, List.mem_singleton] at hb
        obtain ⟨m, hm, rfl⟩ := List.mem_map.mp ha
        exact hb ▸ (db.rowid_lt_next hm).ne
      memory_fk := by
        intro m hm p hp
        rcases List.mem_append.mp hm with h | h
        · exact db.memory_fk m h p hp
        · rw [List.mem_singleton.mp h] at hp
          exact List.mem_map.mp (hfk p hp)
      embedding_fk := by
        intro r hr
        obtain ⟨m, hm, h⟩ := db.embedding_fk r hr
        exact ⟨m, List.mem_append_left _ hm, h⟩ }
  else .error (.ProjectNotFound item.project_id)

/-- A row with some of its columns replaced, its rowid kept. -/
def rewrite (memory_id : String) (f : MemoryItem → MemoryItem) (m : MemoryRow) : MemoryRow :=
  if m.id = memory_id then { f m.toMemoryItem with rowid := m.rowid } else m

/-- `UPDATE memory_items SET … WHERE id = ?` with the triggers, the shape
`set_pinned` and `update_memory` share. `f` writes columns that are no key. -/
def update_row (db : Db F) (memory_id : String) (f : MemoryItem → MemoryItem)
    (hid : ∀ m, (f m).id = m.id) (hproj : ∀ m, (f m).project_id = m.project_id) :
    Except Exc (Db F) :=
  match db.memory_row memory_id with
  | none => .error (.MemoryNotFound memory_id)
  | some old =>
      have hids : ∀ m : MemoryRow, (rewrite memory_id f m).id = m.id := by
        intro m; unfold rewrite; split <;> simp [hid]
      .ok { db with
        memory_items := db.memory_items.map (rewrite memory_id f)
        memory_fts := fts_insert (rewrite memory_id f old) (fts_delete old db.memory_fts)
        memory_pk := by
          rw [List.map_map, List.map_congr_left (g := (·.id)) ?_]
          · exact db.memory_pk
          · exact fun m _ => hids m
        rowid_pk := by
          rw [List.map_map, List.map_congr_left (g := (·.rowid)) ?_]
          · exact db.rowid_pk
          · intro m _; simp only [Function.comp_apply]; unfold rewrite; split <;> rfl
        memory_fk := by
          intro m hm p hp
          obtain ⟨m', hm', rfl⟩ := List.mem_map.mp hm
          refine db.memory_fk m' hm' p ?_
          rw [← hp]; unfold rewrite; split <;> simp [hproj]
        embedding_fk := by
          intro r hr
          obtain ⟨m, hm, h⟩ := db.embedding_fk r hr
          exact ⟨_, List.mem_map_of_mem hm, (hids m).trans h⟩ }

/-- `set_pinned`. -/
def set_pinned (db : Db F) (memory_id : String) (pinned : Bool) : Except Exc (Db F) :=
  db.update_row memory_id (fun m => { m with pinned := pinned }) (fun _ => rfl) (fun _ => rfl)

/-- `update_memory`: `now` is its `utc_now()`. -/
def update_memory (db : Db F) (now : Instant) (memory_id : String) (content : Option String)
    (tags : Option (List PyStr.Text)) : Except Exc (Db F) :=
  db.update_row memory_id
    (fun m => { m with
      updated_at := some now
      content := content.getD m.content
      tags := tags.getD m.tags })
    (fun _ => rfl) (fun _ => rfl)

/-- `delete_memory`: the row, its index entry and, by `ON DELETE CASCADE`, its
embedding row. -/
def delete_memory (db : Db F) (memory_id : String) : Except Exc (Db F) :=
  match db.memory_row memory_id with
  | none => .error (.MemoryNotFound memory_id)
  | some old =>
      .ok { db with
        memory_items := db.memory_items.filter (·.id ≠ memory_id)
        memory_embeddings := db.memory_embeddings.filter (·.memory_id ≠ memory_id)
        memory_fts := fts_delete old db.memory_fts
        memory_pk := db.memory_pk.sublist (List.filter_sublist.map _)
        rowid_pk := db.rowid_pk.sublist (List.filter_sublist.map _)
        embedding_pk := db.embedding_pk.sublist (List.filter_sublist.map _)
        memory_fk := fun m hm => db.memory_fk m (List.mem_filter.mp hm).1
        embedding_fk := by
          intro r hr
          obtain ⟨hr, hne⟩ := List.mem_filter.mp hr
          obtain ⟨m, hm, h⟩ := db.embedding_fk r hr
          exact ⟨m, List.mem_filter.mpr ⟨hm, by simpa [h] using hne⟩, h⟩ }

/-- The row `save_embedding` writes: `dimensions` records the length of the
stored vector, never a caller's claim. -/
def embedding_of (memory_id : String) (embedding : List F) (model provider content_hash : String)
    (model_revision : Option String) (settings_fingerprint : String) (status : EmbeddingStatus) :
    EmbeddingRow F :=
  { memory_id, embedding, model, provider, content_hash, model_revision, settings_fingerprint,
    status, dimensions := embedding.length }

/-- `save_embedding`: compare-and-swap publication. The answer says whether the
row was written; a memory that is gone, or whose content no longer hashes to
what the caller embedded, refuses. -/
def save_embedding (hash_content : String → String) (db : Db F) (memory_id : String)
    (embedding : List F) (model provider content_hash : String) (model_revision : Option String)
    (settings_fingerprint : String) (status : EmbeddingStatus) : Bool × Db F :=
  match hm : db.memory_row memory_id with
  | none => (false, db)
  | some m =>
      if hash_content m.content ≠ content_hash then (false, db)
      else
        let row := embedding_of memory_id embedding model provider content_hash model_revision
          settings_fingerprint status
        (true, { db with
          memory_embeddings := Keyed.upsert (·.memory_id) db.memory_embeddings row
          embedding_pk := Keyed.upsert_nodup db.embedding_pk row
          embedding_fk := by
            intro r hr
            rcases Keyed.mem_upsert hr with rfl | hr
            · exact ⟨m, Keyed.mem_of_lookup hm, id_of_memory_row hm⟩
            · exact db.embedding_fk r hr })

/-- `delete_embedding`. -/
def delete_embedding (db : Db F) (memory_id : String) : Db F :=
  { db with
    memory_embeddings := db.memory_embeddings.filter (·.memory_id ≠ memory_id)
    embedding_pk := db.embedding_pk.sublist (List.filter_sublist.map _)
    embedding_fk := fun r hr => db.embedding_fk r (List.mem_filter.mp hr).1 }

/-! ## Projects -/

/-- `get_project`. -/
def get_project (db : Db F) (project_id : String) : Option Project :=
  Keyed.lookup (fun p : Project => p.id) db.projects project_id

/-- `add_project`. -/
def add_project (db : Db F) (project : Project) : Except Exc (Db F) :=
  if hid : project.id ∈ db.projects.map (·.id) then .error .IntegrityError
  else .ok { db with
    projects := db.projects ++ [project]
    project_pk := by
      rw [List.map_append]
      exact db.project_pk.append (by simp) (by simpa using hid)
    memory_fk := by
      intro m hm p hp
      obtain ⟨q, hq, h⟩ := db.memory_fk m hm p hp
      exact ⟨q, List.mem_append_left _ hq, h⟩ }

/-- `update_project`; with nothing to update the method raises `ValueError`. -/
def update_project (db : Db F) (project_id : String) (name : Option String)
    (metadata : Option Json.Dict) :
    Except Exc (Db F) :=
  if name = none ∧ metadata = none then .error .Other
  else if project_id ∉ db.projects.map (·.id) then .error (.ProjectNotFound (some project_id))
  else
    let change (p : Project) : Project :=
      if p.id = project_id then
        { p with name := name.getD p.name, metadata := metadata.getD p.metadata }
      else p
    have hids : ∀ p, (change p).id = p.id := by
      intro p
      simp only [change]
      split <;> rfl
    .ok { db with
      projects := db.projects.map change
      project_pk := by
        rw [List.map_map, List.map_congr_left (g := (·.id)) ?_]
        · exact db.project_pk
        · exact fun p _ => hids p
      memory_fk := by
        intro m hm p hp
        obtain ⟨q, hq, h⟩ := db.memory_fk m hm p hp
        exact ⟨_, List.mem_map_of_mem hq, (hids q).trans h⟩ }

/-- `DELETE FROM memory_items WHERE project_id=?`, the first statement of
`delete_project`: each row goes with its index entry and its embedding row. -/
def delete_memories_of (db : Db F) (project_id : String) : Db F :=
  let kept := db.memory_items.filter (·.project_id ≠ some project_id)
  let gone := db.memory_items.filter (·.project_id = some project_id)
  { db with
    memory_items := kept
    memory_embeddings := db.memory_embeddings.filter fun r => r.memory_id ∈ kept.map (·.id)
    memory_fts := gone.foldl (fun fts m => fts_delete m fts) db.memory_fts
    memory_pk := db.memory_pk.sublist (List.filter_sublist.map _)
    rowid_pk := db.rowid_pk.sublist (List.filter_sublist.map _)
    embedding_pk := db.embedding_pk.sublist (List.filter_sublist.map _)
    memory_fk := fun m hm => db.memory_fk m (List.mem_filter.mp hm).1
    embedding_fk := by
      intro r hr
      obtain ⟨m, hm, h⟩ := List.mem_map.mp (of_decide_eq_true (List.mem_filter.mp hr).2)
      exact ⟨m, hm, h⟩ }

/-- `DELETE FROM projects WHERE id=?`, the second; a memory that still names the
project refuses it. -/
def delete_project_row (db : Db F) (project_id : String) : Except Exc (Db F) :=
  if hfk : ∀ m ∈ db.memory_items, m.project_id ≠ some project_id then
    .ok { db with
      projects := db.projects.filter (·.id ≠ project_id)
      project_pk := db.project_pk.sublist (List.filter_sublist.map _)
      memory_fk := by
        intro m hm p hp
        obtain ⟨q, hq, h⟩ := db.memory_fk m hm p hp
        refine ⟨q, List.mem_filter.mpr ⟨hq, ?_⟩, h⟩
        have hne : q.id ≠ project_id := fun heq => hfk m hm (hp.trans (congrArg some (h ▸ heq)))
        simpa using hne }
  else .error .IntegrityError

/-- After the first statement the second is never refused. -/
theorem delete_project_row_ne_error (db : Db F) (project_id : String) (e : Exc) :
    (db.delete_memories_of project_id).delete_project_row project_id ≠ .error e := by
  have hfk : ∀ m ∈ (db.delete_memories_of project_id).memory_items,
      m.project_id ≠ some project_id := by
    intro m hm
    have hkept := (List.mem_filter.mp hm).2
    simpa using hkept
  rw [delete_project_row, dif_pos hfk]
  exact nofun

/-! ## What each write does to the two lookups

The only facts about the write methods that the proofs elsewhere use. -/

theorem add_memory_ok {db db' : Db F} {item : MemoryItem} (h : db.add_memory item = .ok db') :
    (∀ id, db'.get_memory id = if id = item.id then some item else db.get_memory id)
      ∧ db'.memory_embeddings = db.memory_embeddings ∧ db'.projects = db.projects := by
  unfold add_memory at h
  split at h
  · cases h
  · next hid =>
      split at h
      · obtain rfl := Except.ok.inj h
        refine ⟨fun id => ?_, rfl, rfl⟩
        simp only [get_memory, memory_row]
        rw [Keyed.lookup_append_singleton hid]
        split <;> rfl
      · cases h

/-- A new memory's id was free. -/
theorem add_memory_fresh {db db' : Db F} {item : MemoryItem} (h : db.add_memory item = .ok db') :
    db.get_memory item.id = none := by
  unfold add_memory at h
  split at h
  · cases h
  · next hid =>
      rw [get_memory, memory_row, Keyed.lookup_eq_none_iff.mpr hid]
      rfl

theorem update_row_ok {db db' : Db F} {memory_id : String} {f : MemoryItem → MemoryItem}
    {hid : ∀ m, (f m).id = m.id} {hproj : ∀ m, (f m).project_id = m.project_id}
    (h : db.update_row memory_id f hid hproj = .ok db') :
    (db.get_memory memory_id).isSome
      ∧ (∀ id, db'.get_memory id
          = if id = memory_id then (db.get_memory id).map f else db.get_memory id)
      ∧ db'.memory_embeddings = db.memory_embeddings ∧ db'.projects = db.projects := by
  unfold update_row at h
  split at h
  · cases h
  · next old hold =>
      obtain rfl := Except.ok.inj h
      refine ⟨by simp [get_memory, hold], fun id => ?_, rfl, rfl⟩
      have hkey : ∀ m : MemoryRow, (rewrite memory_id f m).id = m.id := by
        intro m; unfold rewrite; split <;> simp [hid]
      simp only [get_memory, memory_row]
      rw [Keyed.lookup_map _ hkey]
      cases hm : Keyed.lookup (fun m : MemoryRow => m.id) db.memory_items id with
      | none => simp
      | some m =>
          have hmid : m.id = id := id_of_memory_row hm
          simp only [Option.map_some, rewrite, hmid]
          split <;> rfl

theorem delete_memory_ok {db db' : Db F} {memory_id : String}
    (h : db.delete_memory memory_id = .ok db') :
    (∀ id, db'.get_memory id = if id = memory_id then none else db.get_memory id)
      ∧ (∀ id, db'.embedding_row id = if id = memory_id then none else db.embedding_row id)
      ∧ db'.projects = db.projects := by
  unfold delete_memory at h
  split at h
  · cases h
  · obtain rfl := Except.ok.inj h
    refine ⟨fun id => ?_, fun id => ?_, rfl⟩
    · simp only [get_memory, memory_row]
      rw [Keyed.lookup_filter_ne]
      split <;> rfl
    · exact Keyed.lookup_filter_ne

theorem delete_embedding_row (db : Db F) (memory_id id : String) :
    (db.delete_embedding memory_id).embedding_row id
      = if id = memory_id then none else db.embedding_row id :=
  Keyed.lookup_filter_ne

/-- A save either refuses and changes nothing, or finds the memory with content
of the given hash and writes its row. -/
theorem save_embedding_cases (hash_content : String → String) (db : Db F) (memory_id : String)
    (embedding : List F) (model provider content_hash : String) (model_revision : Option String)
    (settings_fingerprint : String) (status : EmbeddingStatus) :
    let out := db.save_embedding hash_content memory_id embedding model provider content_hash
      model_revision settings_fingerprint status
    (out = (false, db) ∧
        ∀ item, db.get_memory memory_id = some item → hash_content item.content ≠ content_hash)
      ∨ (out.1 = true
        ∧ (∃ item, db.get_memory memory_id = some item ∧ hash_content item.content = content_hash)
        ∧ out.2.memory_items = db.memory_items ∧ out.2.projects = db.projects
        ∧ ∀ id, out.2.embedding_row id = if id = memory_id
            then some (embedding_of memory_id embedding model provider content_hash model_revision
              settings_fingerprint status)
            else db.embedding_row id) := by
  intro out
  simp only [out, save_embedding]
  split
  · next hm => exact .inl ⟨rfl, by simp [get_memory, hm]⟩
  · next m hm =>
      split
      · next hne => exact .inl ⟨rfl, by simpa [get_memory, hm] using hne⟩
      · next heq =>
          refine .inr ⟨rfl, ⟨m.toMemoryItem, by simp [get_memory, hm], not_not.mp heq⟩, rfl, rfl, ?_⟩
          exact fun id => Keyed.lookup_upsert _ _ _

end Db

end OpenChronicle
