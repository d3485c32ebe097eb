/-
The read methods of `SqliteStore`: the clause builders, the listing methods, and
the two search engines behind `search_pinned`, `search_memory` and
`eligible_memory_ids`.

A `WHERE` clause is a predicate on a row, an `ORDER BY` a sort by a key, and a
`LIMIT` a prefix. The clause builders keep their names and their modes, because
the point of them in the source is that every search applies the same rule.

What has no source here is a parameter: SQLite's FTS5 (which rows an expression
matches and how it ranks them, or that it rejects the expression) and CPython's
Unicode case tables. Both are arbitrary functions below.
-/
import Mathlib.Data.List.Sort
import Mathlib.Data.Prod.Lex
import OpenChronicle.Lib.PyStr
import OpenChronicle.Store.Schema

set_option autoImplicit false

namespace OpenChronicle

/-- The parts of the platform the search engines lean on. `fts5_match` takes the
index and a `MATCH` expression and answers the `rank` of each matching rowid, or
rejects the expression. -/
structure Platform (R : Type) where
  lower : String → String
  /-- `str.lower` on a tag, which may hold what `String` cannot. -/
  lower_tag : PyStr.Text → PyStr.Text
  casefold : String → String
  fts5_match : List FtsEntry → String → Except Exc (ℕ → Option R)

/-- A process's store: the file, and which engine `init_schema` left active. -/
structure SqliteStore (F : Type) where
  db : Db F
  fts5_active : Bool

/-! ## The clause builders -/

/-- How a search treats pinned rows. -/
inductive PinnedMode where
  /-- Neither float nor rank; scope is strict. -/
  | exclude_pins
  /-- Rank but do not float; scope is with-global for pinned rows only. -/
  | include_pins
  /-- The float query itself; scope is with-global. -/
  | only_pins
  deriving DecidableEq, Repr

/-- The first clause of `_pinned_clauses`. -/
def pinned_clause : PinnedMode → MemoryItem → Bool
  | .exclude_pins, m => !m.pinned
  | .include_pins, _ => true
  | .only_pins, m => m.pinned

/-- The scope clause of `_pinned_clauses`. -/
def scope_clause (mode : PinnedMode) (project_id : Option String) (m : MemoryItem) : Bool :=
  match project_id with
  | none => true
  | some p =>
      match mode with
      | .exclude_pins => m.project_id = some p
      | .include_pins => m.project_id = some p || (m.pinned && m.project_id = none)
      | .only_pins => m.project_id = some p || m.project_id = none

/-- `_tags_clause`: no requested tag is absent from the row's array. -/
def tags_clause (tags : Option (List PyStr.Text)) (m : MemoryItem) : Bool :=
  (tags.getD []).all fun t => t ∈ m.tags

/-- `_exclude_tags_clause`: the row's array meets the excluded set nowhere. -/
def exclude_tags_clause (exclude_tags : Option (List PyStr.Text)) (m : MemoryItem) : Bool :=
  !(m.tags.any fun t => t ∈ exclude_tags.getD [])

/-- The `WHERE` of a search, less the match itself. -/
def in_scope (mode : PinnedMode) (project_id : Option String) (tags : Option (List PyStr.Text))
    (m : MemoryItem) : Bool :=
  pinned_clause mode m && scope_clause mode project_id m && tags_clause tags m

/-- Every requested tag is among the row's. -/
theorem tags_clause_iff {tags : Option (List PyStr.Text)} {m : MemoryItem} :
    tags_clause tags m = true ↔ ∀ t ∈ tags.getD [], t ∈ m.tags := by
  simp [tags_clause]

/-- What a ranked row satisfies, in either visible mode. -/
theorem scope_clause_ranked {mode : PinnedMode} {p : String} {m : MemoryItem}
    (h : scope_clause mode (some p) m = true) (hm : mode ≠ .only_pins) :
    m.project_id = some p ∨ (m.pinned = true ∧ m.project_id = none) := by
  cases mode with
  | exclude_pins => exact .inl (by simpa [scope_clause] using h)
  | include_pins => simpa [scope_clause] using h
  | only_pins => exact absurd rfl hm

namespace Db

variable {F : Type} (db : Db F)

/-! ## Listing -/

/-- `ORDER BY created_at DESC, id DESC`. -/
def newest_first (rows : List MemoryItem) : List MemoryItem :=
  rows.insertionSort fun a b => toLex (b.created_at, b.id) ≤ toLex (a.created_at, a.id)

/-- `ORDER BY pinned DESC, created_at DESC, id DESC`. -/
def pinned_first (rows : List MemoryItem) : List MemoryItem :=
  rows.insertionSort fun a b =>
    toLex (b.pinned, toLex (b.created_at, b.id)) ≤ toLex (a.pinned, toLex (a.created_at, a.id))

/-- All rows, in table order. -/
def items : List MemoryItem := db.memory_items.map (·.toMemoryItem)

/-- `list_projects`, without a name filter. -/
def list_projects : List Project :=
  db.projects.insertionSort fun a b => toLex (b.created_at, b.id) ≤ toLex (a.created_at, a.id)

/-- `list_memory`; `order_by` is one of the two accepted values. -/
def list_memory (limit : Option ℕ) (pinned_only : Bool) (offset : ℕ) (project_id : Option String)
    (tags exclude_tags : Option (List PyStr.Text)) (by_created_at : Bool) : List MemoryItem :=
  let rows := db.items.filter fun m =>
    (!pinned_only || m.pinned) && (project_id.all fun p => m.project_id = some p)
      && tags_clause tags m && exclude_tags_clause exclude_tags m
  let sorted := if by_created_at then newest_first rows else pinned_first rows
  let page := sorted.drop offset
  match limit with
  | none => page
  | some n => page.take n

/-- `list_memory_by_source`. -/
def list_memory_by_source (source : String) (project_id : Option String) : List MemoryItem :=
  newest_first (db.items.filter fun m =>
    m.source = source && project_id.all fun p => m.project_id = some p)

/-- `eligible_memory_ids`. -/
def eligible_memory_ids (project_id : Option String) (tags : Option (List PyStr.Text)) :
    List String :=
  (db.items.filter fun m => scope_clause .include_pins project_id m && tags_clause tags m).map (·.id)

/-- `list_embeddings` as the search calls it, with the full space identity; the
revision is matched by `IS`, and only when `match_revision` says so. -/
def list_embeddings (model provider : String) (dimensions : ℕ) (settings_fingerprint : String)
    (model_revision : Option String) (match_revision : Bool) : List (String × List F) :=
  (db.memory_embeddings.filter fun r =>
      r.status = .ok && r.model = model && r.provider = provider && r.dimensions = dimensions
        && r.settings_fingerprint = settings_fingerprint
        && (!match_revision || r.model_revision = model_revision)).map
    fun r => (r.memory_id, r.embedding)

/-! ## Counting

Freshness in SQL: once negated, once positive with a join. -/

/-- `count_memory`. -/
def count_memory (project_id : Option String) : ℕ :=
  db.items.countP fun m => project_id.all fun p => m.project_id = some p

/-- `count_embeddings`. -/
def count_embeddings (status : Option EmbeddingStatus) : ℕ :=
  db.memory_embeddings.countP fun r => status.all fun s => r.status = s

/-- The space identity the counts compare with; `match_revision=False` leaves the revision
out of it. -/
structure Space where
  provider : String
  model : String
  settings_fingerprint : String
  model_revision : Option String
  match_revision : Bool

/-- `provider = ? AND model = ? AND settings_fingerprint = ? [AND model_revision IS ?]`. -/
def Space.holds (s : Space) (r : EmbeddingIdentity) : Bool :=
  r.provider = s.provider && r.model = s.model && r.settings_fingerprint = s.settings_fingerprint
    && (!s.match_revision || r.model_revision = s.model_revision)

/-- `provider != ? OR model != ? OR settings_fingerprint != ? [OR model_revision IS NOT ?]`. -/
def Space.differs (s : Space) (r : EmbeddingIdentity) : Bool :=
  r.provider ≠ s.provider || r.model ≠ s.model || r.settings_fingerprint ≠ s.settings_fingerprint
    || (s.match_revision && r.model_revision ≠ s.model_revision)

/-- `memory_embeddings e JOIN memory_items m ON m.id = e.memory_id`. -/
def joined : List (EmbeddingRow F × MemoryRow) :=
  db.memory_embeddings.flatMap fun e =>
    (db.memory_items.filter (·.id = e.memory_id)).map fun m => (e, m)

/-- `count_unembeddable_embeddings`: the hashes are compared in Python. -/
def count_unembeddable_embeddings (hash_content : String → String) (s : Space) : ℕ :=
  (db.joined.filter fun (e, _) => e.status = .content_too_long && s.holds e.toEmbeddingIdentity).countP
    fun (e, m) => hash_content m.content = e.content_hash

/-- `stale_embedding_counts`, first bucket. -/
def space_mismatch (s : Space) : ℕ :=
  db.memory_embeddings.countP fun r => s.differs r.toEmbeddingIdentity

/-- `stale_embedding_counts`, second bucket. -/
def content_mismatch (hash_content : String → String) (s : Space) : ℕ :=
  (db.joined.filter fun (e, _) => s.holds e.toEmbeddingIdentity).countP
    fun (e, m) => hash_content m.content ≠ e.content_hash

/-- The listing of everything, whatever its order. -/
theorem list_memory_perm : (db.list_memory none false 0 none none none false).Perm db.items := by
  have hall : db.items.filter (fun m => (!false || m.pinned)
      && ((none : Option String).all fun p => m.project_id = some p) && tags_clause none m
      && exclude_tags_clause none m) = db.items := by
    refine List.filter_eq_self.mpr ?_
    intro m _
    simp [tags_clause, exclude_tags_clause]
  simp only [list_memory, Bool.false_eq_true, if_false, List.drop_zero]
  rw [pinned_first]
  refine (List.perm_insertionSort _ _).trans ?_
  rw [hall]

/-- Without filters and limits everything is listed. -/
theorem mem_list_memory_all {m : MemoryItem} :
    m ∈ db.list_memory none false 0 none none none false ↔ m ∈ db.items :=
  db.list_memory_perm.mem_iff

/-- The rows are found by their ids. -/
theorem mem_items_iff {m : MemoryItem} : m ∈ db.items ↔ db.get_memory m.id = some m := by
  constructor
  · intro h
    obtain ⟨row, hrow, rfl⟩ := List.mem_map.mp h
    exact get_memory_of_mem hrow
  · intro h
    obtain ⟨row, hrow, hm⟩ := Option.map_eq_some_iff.mp h
    exact List.mem_map.mpr ⟨row, Keyed.mem_of_lookup hrow, hm⟩

/-- The primary key. -/
theorem items_nodup : (db.items.map (·.id)).Nodup := by
  rw [items, List.map_map]
  exact db.memory_pk

end Db

end OpenChronicle
