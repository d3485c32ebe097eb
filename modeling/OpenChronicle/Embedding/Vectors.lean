/-
The vectors of the embedding table.

A row keeps its vector as packed float32, and the `dimensions` column beside it is what a search filters
by before the vectors are unpacked into one matrix. So the column has to be the length of the vector on
every row, whatever wrote or overwrote it: a vector, a tombstone, or a vector over a tombstone. What
keeps it so is that the one statement that writes a row replaces every column of it; what keeps a
tombstone empty is that the service writes no other.

The two facts are of different kinds. The first is about the statement, whoever runs it: `on_conflict`
is written column by column as the source has it, and shown to leave no column of the old row. The
second is about the programs: each saves a tombstone with an empty vector, which is shown along their
texts (`Makes`). `Table` joins them to an invariant of runs in which other clients of the store write
too, as long as they do not call `save_embedding`.

How four bytes make a float is left open. What is used is that a number is packed to four bytes and that
blobs of such length are taken apart again (`FixedWidth.Code`).
-/
import OpenChronicle.Embedding.World
import OpenChronicle.Lib.FixedWidth
import OpenChronicle.Store.Transaction

set_option autoImplicit false

namespace OpenChronicle

open Program Machine

variable {F : Type}

/-! ## The table -/

section Columns

variable (C : FixedWidth.Code F UInt8)

/-- The `embedding` column: `struct.pack(f"{len(embedding)}f", *embedding)`. -/
def EmbeddingRow.blob (r : EmbeddingRow F) : List UInt8 := C.pack r.embedding

/-- `_unpack_embedding`; `struct.unpack` raises where the blob is no number of floats. -/
def unpack_embedding (blob : List UInt8) : Except Exc (List F) :=
  match C.unpack blob with
  | some v => .ok v
  | none => .error .Other

/-- The blob's own length decides, so every row unpacks. -/
theorem unpack_blob (r : EmbeddingRow F) :
    unpack_embedding C (r.blob C) = .ok (r.embedding.map C.round) := by
  rw [unpack_embedding, EmbeddingRow.blob, C.unpack_pack]

end Columns

/-- `DO UPDATE SET …` of `save_embedding`, column by column. -/
def on_conflict (row excluded : EmbeddingRow F) : EmbeddingRow F :=
  { row with
    embedding := excluded.embedding
    model := excluded.model
    dimensions := excluded.dimensions
    provider := excluded.provider
    content_hash := excluded.content_hash
    model_revision := excluded.model_revision
    settings_fingerprint := excluded.settings_fingerprint
    status := excluded.status }

/-- `INSERT INTO memory_embeddings … ON CONFLICT(memory_id) DO UPDATE SET …`. -/
def insert_embedding (rows : List (EmbeddingRow F)) (new : EmbeddingRow F) : List (EmbeddingRow F) :=
  if new.memory_id ∈ rows.map (·.memory_id) then
    rows.map fun r => if r.memory_id = new.memory_id then on_conflict r new else r
  else rows ++ [new]

/-- No column of the old row is left. -/
theorem on_conflict_eq {row new : EmbeddingRow F} (h : row.memory_id = new.memory_id) :
    on_conflict row new = new := by
  unfold on_conflict
  rw [h]

/-- The statement of `save_embedding` puts the new row in the old one's place. -/
theorem insert_embedding_eq (rows : List (EmbeddingRow F)) (new : EmbeddingRow F) :
    insert_embedding rows new = Keyed.upsert (fun r : EmbeddingRow F => r.memory_id) rows new := by
  have hrow : (fun r : EmbeddingRow F => if r.memory_id = new.memory_id then on_conflict r new else r)
      = fun r => if r.memory_id = new.memory_id then new else r := by
    funext r
    by_cases h : r.memory_id = new.memory_id
    · rw [if_pos h, if_pos h, on_conflict_eq h]
    · rw [if_neg h, if_neg h]
  rw [insert_embedding, Keyed.upsert, hrow]

/-! ## Loading -/

/-- The filters of `list_embeddings`; `match_revision` says whether the revision is one. -/
structure EmbeddingFilter where
  memory_ids : Option (List String) := none
  model : Option String := none
  provider : Option String := none
  dimensions : Option ℕ := none
  settings_fingerprint : Option String := none
  model_revision : Option String := none
  match_revision : Bool := false

/-- The `WHERE` of `list_embeddings`. -/
def EmbeddingFilter.selects (f : EmbeddingFilter) (r : EmbeddingRow F) : Bool :=
  r.status = .ok && (f.memory_ids.all fun ids => r.memory_id ∈ ids)
    && (f.model.all fun model => r.model = model) && (f.provider.all fun p => r.provider = p)
    && (f.dimensions.all fun d => r.dimensions = d)
    && (f.settings_fingerprint.all fun s => r.settings_fingerprint = s)
    && (!f.match_revision || r.model_revision = f.model_revision)

section Loading

variable (C : FixedWidth.Code F UInt8)

/-- `list_embeddings`. -/
def SqliteStore.list_embeddings (s : SqliteStore F) (f : EmbeddingFilter) :
    Except Exc (List (String × List F)) :=
  (s.db.memory_embeddings.filter f.selects).mapM fun r => do
    let v ← unpack_embedding C (r.blob C)
    return (r.memory_id, v)

/-- No row fails to unpack, so a load never raises. -/
theorem list_embeddings_ok (s : SqliteStore F) (f : EmbeddingFilter) :
    s.list_embeddings C f = .ok ((s.db.memory_embeddings.filter f.selects).map fun r =>
      (r.memory_id, r.embedding.map C.round)) := by
  have hrow : (fun r : EmbeddingRow F => do
      let v ← unpack_embedding C (r.blob C)
      return (r.memory_id, v)) = fun r => (pure (r.memory_id, r.embedding.map C.round) : Except Exc _) := by
    funext r
    rw [unpack_blob]
    rfl
  rw [SqliteStore.list_embeddings, hrow, List.mapM_pure]
  rfl

/-- The call of a search is the one with the whole space identity. -/
theorem list_embeddings_space (s : SqliteStore F) (model provider : String) (dimensions : ℕ)
    (settings_fingerprint : String) (model_revision : Option String) (match_revision : Bool) :
    s.list_embeddings C
        { model := some model, provider := some provider, dimensions := some dimensions
          settings_fingerprint := some settings_fingerprint, model_revision, match_revision }
      = .ok ((s.db.list_embeddings model provider dimensions settings_fingerprint model_revision
          match_revision).map fun e => (e.1, e.2.map C.round)) := by
  have hsame : ∀ r : EmbeddingRow F, EmbeddingFilter.selects
      { model := some model, provider := some provider, dimensions := some dimensions
        settings_fingerprint := some settings_fingerprint, model_revision, match_revision } r
      = (r.status = .ok && r.model = model && r.provider = provider && r.dimensions = dimensions
        && r.settings_fingerprint = settings_fingerprint
        && (!match_revision || r.model_revision = model_revision)) := by
    intro r
    simp only [EmbeddingFilter.selects, Option.all_none, Option.all_some, Bool.and_true]
  rw [list_embeddings_ok, Db.list_embeddings, List.map_map, List.filter_congr fun r _ => hsame r]
  rfl

/-- The rows of `matrix` in `_semantic_search`: the loaded vectors that are neither excluded nor,
where the search is scoped, out of scope. -/
def score_matrix (D : Deployment F) (s : SqliteStore F) (query_vec : List F)
    (snapshot : RevisionSnapshot) (project_id : Option String) (tags : Option (List PyStr.Text))
    (exclude_ids : List String) : Except Exc (List (List F)) := do
  let all_embeddings ← s.list_embeddings C
    { model := some D.model_name, provider := some D.provider_name
      dimensions := some query_vec.length, settings_fingerprint := some D.settings_fingerprint
      model_revision := snapshot.value, match_revision := snapshot.known }
  let mids := all_embeddings.map (·.1)
  let ids := if exclude_ids = [] then mids else mids.filter (· ∉ exclude_ids)
  let ids :=
    if project_id.isSome || tags.getD [] ≠ [] then
      ids.filter (· ∈ s.db.eligible_memory_ids project_id tags)
    else ids
  ids.mapM fun mid =>
    match Keyed.lookup (fun e : String × List F => e.1) all_embeddings mid with
    | some e => .ok e.2
    | none => .error .Other

/-- A loaded vector has the length its row declares. -/
theorem loaded_length {s : SqliteStore F} {f : EmbeddingFilter} {d : ℕ} (hd : f.dimensions = some d)
    (hrows : ∀ r ∈ s.db.memory_embeddings, r.dimensions = r.embedding.length)
    {e : String × List F}
    (he : e ∈ (s.db.memory_embeddings.filter f.selects).map fun r => (r.memory_id, r.embedding.map C.round)) :
    e.2.length = d ∧ ∃ r ∈ s.db.memory_embeddings, r.memory_id = e.1 ∧ r.status = .ok
      ∧ unpack_embedding C (r.blob C) = .ok e.2 := by
  obtain ⟨r, hr, rfl⟩ := List.mem_map.mp he
  obtain ⟨hmem, hselects⟩ := List.mem_filter.mp hr
  rw [EmbeddingFilter.selects, hd] at hselects
  simp only [Bool.and_eq_true, decide_eq_true_eq, Option.all_some] at hselects
  obtain ⟨⟨⟨⟨⟨⟨hstatus, -⟩, -⟩, -⟩, hdims⟩, -⟩, -⟩ := hselects
  refine ⟨?_, r, hmem, rfl, hstatus, unpack_blob C r⟩
  rw [List.length_map, ← hrows r hmem]
  exact hdims

/-- A loop whose every round has an answer has the list of the answers. -/
theorem mapM_ok_forall {α β : Type} {f : α → Except Exc β} {Q : β → Prop} {l : List α}
    (h : ∀ x ∈ l, ∃ y, f x = .ok y ∧ Q y) : ∃ ys, l.mapM f = .ok ys ∧ ∀ y ∈ ys, Q y := by
  induction l with
  | nil => exact ⟨[], rfl, nofun⟩
  | cons x l ih =>
      obtain ⟨y, hy, hQ⟩ := h x List.mem_cons_self
      obtain ⟨ys, hys, hall⟩ := ih fun x' hx' => h x' (List.mem_cons_of_mem _ hx')
      refine ⟨y :: ys, ?_, List.forall_mem_cons.mpr ⟨hQ, hall⟩⟩
      rw [List.mapM_cons, hy, hys]
      rfl

/-- Every row of the score matrix is as long as the query. -/
theorem score_matrix_rectangular (D : Deployment F) {s : SqliteStore F}
    (hrows : ∀ r ∈ s.db.memory_embeddings, r.dimensions = r.embedding.length) (query_vec : List F)
    (snapshot : RevisionSnapshot) (project_id : Option String) (tags : Option (List PyStr.Text))
    (exclude_ids : List String) :
    ∃ matrix, score_matrix C D s query_vec snapshot project_id tags exclude_ids = .ok matrix
      ∧ ∀ v ∈ matrix, v.length = query_vec.length := by
  rw [score_matrix, list_embeddings_ok]
  refine mapM_ok_forall ?_
  intro mid hmid
  -- every filter keeps a part of the loaded ids
  have hloaded : ∃ e ∈ (s.db.memory_embeddings.filter (EmbeddingFilter.selects
      { model := some D.model_name, provider := some D.provider_name
        dimensions := some query_vec.length, settings_fingerprint := some D.settings_fingerprint
        model_revision := snapshot.value, match_revision := snapshot.known })).map
      (fun r => (r.memory_id, r.embedding.map C.round)), e.1 = mid := by
    rw [← List.mem_map]
    by_cases hscope : (project_id.isSome || decide (tags.getD [] ≠ [])) = true
    · rw [if_pos hscope] at hmid
      replace hmid := (List.mem_filter.mp hmid).1
      by_cases hexclude : exclude_ids = []
      · rw [if_pos hexclude] at hmid
        exact hmid
      · rw [if_neg hexclude] at hmid
        exact (List.mem_filter.mp hmid).1
    · rw [if_neg hscope] at hmid
      by_cases hexclude : exclude_ids = []
      · rw [if_pos hexclude] at hmid
        exact hmid
      · rw [if_neg hexclude] at hmid
        exact (List.mem_filter.mp hmid).1
  obtain ⟨e₀, he₀, hkey⟩ := hloaded
  have hsome := Keyed.lookup_isSome_iff.mpr (List.mem_map_of_mem (f := fun e : String × List F => e.1) he₀)
  rw [hkey] at hsome
  obtain ⟨e, he⟩ := Option.isSome_iff_exists.mp hsome
  refine ⟨e.2, ?_, (loaded_length C rfl hrows (Keyed.mem_of_lookup he)).1⟩
  rw [he]

end Loading

/-! ## What the service saves -/

section Saves

variable {D : Deployment F}

/-- A tombstone is saved with an empty vector. -/
def EmptyTombstone (o : EmbOp F) : Prop :=
  ∀ p, o = .save_embedding p → p.status = .content_too_long → p.embedding = []

/-- The two saves of a backfill: a vector that is ok, and a tombstone without one. -/
theorem admits_emptyTombstone (D : Deployment F) (revision : Option String) :
    Admits D revision EmptyTombstone := by
  refine ⟨?_, ?_, ?_⟩
  · intro o ho p hp
    exact absurd hp (ho p)
  · rintro memory_id content vec p ⟨⟩ hstatus
    cases hstatus
  · rintro memory_id content p ⟨⟩ -
    rfl

variable {P : EmbOp F → Prop}

/-- The programs, one by one: they save in these two ways or not at all. -/
theorem makes_embed (hP : Admits D none P) (text : String) : (embed text : EmbProg F _).Makes P := by
  refine Prog.Makes.bind (makes_embed_batch hP [text]) ?_
  intro vectors
  cases vectors <;> trivial

theorem makes_generate_for_memory (hP : ∀ revision, Admits D revision P) (memory_id content : String)
    (force : Bool) : (generate_for_memory D memory_id content force).Makes P := by
  have hsnapshot : (write_snapshot : EmbProg F _).Makes P := by
    refine Prog.Makes.bind (makes_act (hP none) nofun) ?_
    intro snapshot
    by_cases hk : snapshot.known = true
    · rw [if_pos hk]
      trivial
    · rw [if_neg hk]
      exact makes_refresh_revision (hP none) false
  -- the vector and the tombstone carry the revision of the snapshot
  have hpublish : ∀ revision, (embed_and_publish D memory_id content revision).Makes P := by
    intro revision
    refine Prog.Makes.bind (makes_embed (hP none) content).attempt ?_
    intro r
    cases r with
    | ok vec =>
        refine Prog.Makes.bind (makes_act_save ((hP revision).vector memory_id content vec)) ?_
        intro _
        exact makes_act (hP none) nofun
    | error e =>
        dsimp only
        by_cases hlong : is_content_too_long e = true
        · rw [if_pos hlong]
          exact Prog.Makes.bind (makes_act_save ((hP revision).tombstone memory_id content)) fun _ => trivial
        · rw [if_neg hlong]
          exact Prog.Makes.bind (makes_act (hP none) nofun) fun _ => trivial
  refine Prog.Makes.bind hsnapshot ?_
  intro snapshot
  -- an unknown snapshot defers: a log line and no row
  by_cases hk : snapshot.known = true
  · rw [if_pos hk]
    refine Prog.Makes.bind ?_ ?_
    · unfold may_skip
      by_cases hf : force = true
      · rw [if_pos hf]
        trivial
      · rw [if_neg hf]
        exact Prog.Makes.bind (makes_act (hP none) nofun) fun _ => trivial
    · intro current
      by_cases hc : current = true
      · rw [if_pos hc]
        trivial
      · rw [if_neg hc]
        exact hpublish snapshot.value
  · rw [if_neg hk]
    exact Prog.Makes.bind (makes_act (hP none) nofun) fun _ => trivial

theorem makes_generate_missing (hP : ∀ revision, Admits D revision P) (project_id : Option String)
    (force : Bool) : (generate_missing D project_id force).Makes P := by
  have hverified : (backfill_verified D project_id force).Makes P := by
    refine Prog.Makes.bind (makes_refresh_revision (hP none) true) ?_
    intro snapshot
    by_cases hk : snapshot.known = true
    · rw [if_pos hk]
      refine Prog.Makes.bind (makes_backfill (hP snapshot.value) project_id force) ?_
      intro result
      by_cases hp : project_id = none
      · rw [if_pos hp]
        exact Prog.Makes.bind (makes_act (hP none) nofun) fun _ => trivial
      · rw [if_neg hp]
        trivial
    · rw [if_neg hk]
      trivial
  refine Prog.Makes.bind (makes_act (hP none) nofun) ?_
  intro acquired
  cases acquired with
  | true => exact hverified.tryFinally (makes_act (hP none) nofun)
  | false => trivial

theorem makes_start_background_backfill (hP : Admits D none P) (force : Bool) :
    (start_background_backfill force : EmbProg F _).Makes P := by
  refine Prog.Makes.bind (makes_act hP nofun) ?_
  intro running
  cases running with
  | true => trivial
  | false => exact Prog.Makes.bind (makes_act hP nofun) fun _ => trivial

theorem makes_refresher_tick (hP : Admits D none P) (auto_backfill : Bool) :
    (refresher_tick auto_backfill : EmbProg F _).Makes P := by
  refine Prog.Makes.bind (makes_refresh_revision hP true) ?_
  intro snapshot
  unfold reconcile
  by_cases hon : (auto_backfill && snapshot.known) = true
  · rw [if_pos hon]
    refine Prog.Makes.bind (makes_act hP nofun) ?_
    intro reconciled
    by_cases hdone : reconciled = some snapshot.value
    · rw [if_pos hdone]
      trivial
    · rw [if_neg hdone]
      refine Prog.Makes.bind (makes_act hP nofun) ?_
      intro running
      cases running with
      | true => trivial
      | false => exact Prog.Makes.bind (makes_start_background_backfill hP false) fun _ => trivial
  · rw [if_neg hon]
    trivial

theorem makes_embed_after_write (hP : ∀ revision, Admits D revision P) (service : Bool)
    (memory_id content : String) (force : Bool) :
    (embed_after_write D service memory_id content force).Makes P := by
  cases service with
  | false => trivial
  | true =>
      exact Prog.Makes.bind (makes_generate_for_memory hP memory_id content force).attempt fun _ => trivial

/-- What holds of every call the service can make holds of every call of every task. -/
theorem makes_task_program (hP : ∀ revision, Admits D revision P) (task : EmbTask) :
    (task_program D task).Makes P := by
  cases task with
  | add_memory item service =>
      rw [task_program, add_memory_execute]
      -- each check that fails ends the task before its first call
      by_cases hproject : item.project_id = none
      · rw [if_pos hproject]
        trivial
      rw [if_neg hproject]
      by_cases hblank : PyStr.isBlank item.content.toList = true
      · rw [if_pos hblank]
        trivial
      rw [if_neg hblank]
      by_cases hlong : MAX_CONTENT_CHARS < item.content.length
      · rw [if_pos hlong]
        trivial
      rw [if_neg hlong]
      exact Prog.Makes.bind (makes_act (hP none) nofun) fun _ => makes_embed_after_write hP _ _ _ _
  | update_memory memory_id content tags service =>
      rw [task_program, update_memory_execute.eq_def]
      cases content with
      | none =>
          dsimp only
          -- without new content there is nothing to embed
          by_cases htags : tags = none
          · rw [if_pos htags]
            trivial
          · rw [if_neg htags]
            exact Prog.Makes.bind (makes_act (hP none) nofun) fun _ => trivial
      | some content =>
          dsimp only
          by_cases hblank : PyStr.isBlank content.toList = true
          · rw [if_pos hblank]
            trivial
          rw [if_neg hblank]
          by_cases hlong : MAX_CONTENT_CHARS < content.length
          · rw [if_pos hlong]
            trivial
          rw [if_neg hlong]
          refine Prog.Makes.bind (makes_act (hP none) nofun) ?_
          intro updated
          exact Prog.Makes.bind (makes_act (hP none) nofun) fun _ => makes_embed_after_write hP _ _ _ _
  | delete_memory memory_id => exact makes_act (hP none) nofun
  | generate_for_memory memory_id content force => exact makes_generate_for_memory hP memory_id content force
  | generate_missing project_id force =>
      exact Prog.Makes.bind (makes_generate_missing hP project_id force) fun _ => trivial
  | background_backfill force =>
      refine Prog.Makes.bind (makes_generate_missing hP none force).attempt ?_
      intro _
      exact makes_act (hP none) nofun
  | start_background_backfill force =>
      exact Prog.Makes.bind (makes_start_background_backfill (hP none) force) fun _ => trivial
  | refresher_tick auto_backfill => exact makes_refresher_tick (hP none) auto_backfill
  | refresh_revision force =>
      exact Prog.Makes.bind (makes_refresh_revision (hP none) force) fun _ => trivial

end Saves

/-! ## Runs -/

/-- Everything that writes the store: the service's threads, and any other write method of the
store, called by whoever else has it, except `save_embedding`. -/
inductive TableRun (D : Deployment F) (db : Db F) : EmbConf D → Prop
  | boot : TableRun D db (Conf.initial (boot db))
  | step {c c' : EmbConf D} {a : (embedding D).Action} :
      TableRun D db c → c.step a = some c' → TableRun D db c'
  | other {c : EmbConf D} {w : StoreWrite F} {db' : Db F} : TableRun D db c →
      (∀ id v model provider hash rev fp status,
        w ≠ .save_embedding id v model provider hash rev fp status) →
      w.apply D.hash_content c.world.db = .ok db' →
      TableRun D db { c with world := { c.world with db := db' } }

/-- What the event published for the memory. -/
def published {D : Deployment F} (memory_id : String) : EmbEvent D → Option (Publication F)
  | .called _ ⟨.save_embedding p, .ok true⟩ => if p.memory_id = memory_id then some p else none
  | _ => none

/-- What was last published for the memory. -/
def last_published {D : Deployment F} (log : List (EmbEvent D)) (memory_id : String) :
    Option (Publication F) :=
  log.findSome? (published memory_id)

section Runs

variable {D : Deployment F}

/-- A row after a step is the one before it, with nothing published for its memory, or the one
just published. -/
theorem DbMove.published {e : EmbEvent D} {db db' : Db F} (h : DbMove D e db db') {memory_id : String}
    {row : EmbeddingRow F} (hrow : db'.embedding_row memory_id = some row) :
    (db.embedding_row memory_id = some row ∧ published memory_id e = none)
      ∨ ∃ p, OpenChronicle.published memory_id e = some p ∧ p.row = row := by
  by_cases hsave : ∃ t p, e = .called t ⟨.save_embedding p, .ok true⟩
  · obtain ⟨t, p, rfl⟩ := hsave
    cases h with
    | quiet hquiet => cases hquiet
    | saved hsaved =>
        rw [(save_true hsaved).2.2] at hrow
        by_cases hid : memory_id = p.memory_id
        · rw [if_pos hid] at hrow
          exact .inr ⟨p, if_pos hid.symm, Option.some.inj hrow⟩
        · rw [if_neg hid] at hrow
          exact .inl ⟨hrow, if_neg (Ne.symm hid)⟩
  · rcases h.row hrow with hold | ⟨t, p, he, -⟩
    · refine .inl ⟨hold, ?_⟩
      unfold OpenChronicle.published
      split
      · next t p => exact absurd ⟨t, p, rfl⟩ hsave
      · rfl
    · exact absurd ⟨t, p, he⟩ hsave

/-- No other write method puts a row into the table. -/
theorem rows_of_apply {w : StoreWrite F} {hash_content : String → String} {db db' : Db F}
    (hw : ∀ id v model provider hash rev fp status,
      w ≠ .save_embedding id v model provider hash rev fp status)
    (h : w.apply hash_content db = .ok db') : db'.memory_embeddings ⊆ db.memory_embeddings := by
  cases w with
  | add_project project =>
      rw [StoreWrite.apply, Db.add_project] at h
      split at h
      · cases h
      · obtain rfl := Except.ok.inj h
        exact List.Subset.refl _
  | update_project project_id name metadata =>
      rw [StoreWrite.apply, Db.update_project] at h
      split at h
      · cases h
      · split at h
        · cases h
        · obtain rfl := Except.ok.inj h
          exact List.Subset.refl _
  | delete_project project_id =>
      rw [StoreWrite.apply] at h
      split at h
      · cases h
      · rw [Db.delete_project_row] at h
        split at h
        · obtain rfl := Except.ok.inj h
          -- the cascade takes the rows of the memories that go with the project
          exact fun row hrow => (List.mem_filter.mp hrow).1
        · cases h
  | add_memory item =>
      rw [(Db.add_memory_ok h).2.1]
      exact List.Subset.refl _
  | set_pinned memory_id pinned =>
      have hpin : db.set_pinned memory_id pinned = .ok db' := h
      rw [(Db.update_row_ok hpin).2.2.1]
      exact List.Subset.refl _
  | update_memory now memory_id content tags =>
      have hupdate : db.update_memory now memory_id content tags = .ok db' := h
      rw [(Db.update_row_ok hupdate).2.2.1]
      exact List.Subset.refl _
  | delete_memory memory_id =>
      rw [StoreWrite.apply, Db.delete_memory] at h
      split at h
      · cases h
      · obtain rfl := Except.ok.inj h
        exact fun row hrow => (List.mem_filter.mp hrow).1
  -- the only statement that writes a row is the one left out
  | save_embedding id v model provider hash rev fp status =>
      exact absurd rfl (hw id v model provider hash rev fp status)
  | delete_embedding memory_id =>
      obtain rfl := Except.ok.inj h
      exact fun row hrow => (List.mem_filter.mp hrow).1

/-- A row of the table is found under its memory. -/
theorem embedding_row_of_mem {db : Db F} {row : EmbeddingRow F} (h : row ∈ db.memory_embeddings) :
    db.embedding_row row.memory_id = some row :=
  Keyed.lookup_of_mem (fun r : EmbeddingRow F => r.memory_id) db.embedding_pk h

/-- The table of a run: every row is the last publication for its memory, and every call of the
service is one it can make. -/
structure Table (c : EmbConf D) : Prop where
  last : ∀ row ∈ c.world.db.memory_embeddings,
    ∃ p, last_published c.log row.memory_id = some p ∧ p.row = row
  calls : InOrder (fun _ _ k => EmptyTombstone k.op) (fun _ _ _ => True) c

/-- One step of the service or of another client. -/
theorem table_step {c c' : EmbConf D} {a : (embedding D).Action} (hc : Table c)
    (h : c.step a = some c') : Table c' := by
  refine ⟨?_, ?_⟩
  · obtain ⟨e, hlog, hmove⟩ := step_db h
    intro row hrow
    rw [hlog, last_published, List.findSome?_cons]
    rcases hmove.published (embedding_row_of_mem hrow) with ⟨hold, hnone⟩ | ⟨p, hp, hprow⟩
    · rw [hnone]
      exact hc.last row (Keyed.mem_of_lookup hold)
    · rw [hp]
      exact ⟨p, rfl, hprow⟩
  · refine inOrder_step ?_ hc.calls h
    intro task
    exact (makes_task_program (admits_emptyTombstone D) task).sat []

/-- From a table without rows. -/
theorem table_of_run {db : Db F} (hdb : db.memory_embeddings = []) {c : EmbConf D}
    (h : TableRun D db c) : Table c := by
  induction h with
  | boot =>
      refine ⟨?_, inOrder_initial _⟩
      intro row hrow
      change row ∈ db.memory_embeddings at hrow
      rw [hdb] at hrow
      cases hrow
  | step _ hstep ih => exact table_step ih hstep
  | other _ hw happly ih =>
      refine ⟨?_, ?_⟩
      · intro row hrow
        exact ih.last row (rows_of_apply hw happly hrow)
      · -- the calls of the threads are in the log, which stays as it is
        exact ⟨ih.calls.live, ih.calls.unused, ih.calls.given, ih.calls.once, ih.calls.each⟩

/-- A publication in the log was a call the service can make. -/
theorem Table.emptyTombstone {c : EmbConf D} (hc : Table c) {memory_id : String} {p : Publication F}
    (h : last_published c.log memory_id = some p) (hstatus : p.status = .content_too_long) :
    p.embedding = [] := by
  obtain ⟨e, he, hp⟩ := List.exists_of_findSome?_eq_some h
  unfold published at hp
  split at hp
  · next t q =>
      by_cases hid : q.memory_id = memory_id
      · rw [if_pos hid] at hp
        obtain rfl := Option.some.inj hp
        obtain ⟨pre, hpre⟩ := suffix_of_mem he
        obtain ⟨task, -, hcall⟩ := hc.calls.each _ pre hpre
        exact hcall q rfl hstatus
      · rw [if_neg hid] at hp
        cases hp
  · cases hp

/-- **Every loaded vector has the query's length.** Whatever the service and the other clients of
the store do, the `dimensions` column of a row is the length of its stored vector, a tombstone's
vector is empty, and a row is in every column what was last published for its memory. So a load
for `d` dimensions returns vectors of `d` entries, all from ok rows, and the score matrix of a
search is rectangular. -/
theorem every_loaded_vector_has_the_query_length (C : FixedWidth.Code F UInt8) {db : Db F}
    (hdb : db.memory_embeddings = []) {c : EmbConf D} (h : TableRun D db c) (fts5_active : Bool) :
    (∀ row ∈ c.world.db.memory_embeddings, ∃ vector,
        unpack_embedding C (row.blob C) = .ok vector ∧ row.dimensions = vector.length
        ∧ (row.status = .content_too_long → vector = [])
        ∧ ∃ p, last_published c.log row.memory_id = some p ∧ row = p.row
          ∧ (row.status = .ok → p.status = .ok ∧ vector = p.embedding.map C.round))
      ∧ (∀ (f : EmbeddingFilter) (d : ℕ), f.dimensions = some d →
        ∃ loaded, SqliteStore.list_embeddings C ⟨c.world.db, fts5_active⟩ f = .ok loaded
          ∧ ∀ e ∈ loaded, e.2.length = d ∧ ∃ row ∈ c.world.db.memory_embeddings,
            row.memory_id = e.1 ∧ row.status = .ok ∧ unpack_embedding C (row.blob C) = .ok e.2)
      ∧ ∀ query_vec snapshot project_id tags exclude_ids,
        ∃ matrix, score_matrix C D ⟨c.world.db, fts5_active⟩ query_vec snapshot project_id tags
            exclude_ids = .ok matrix
          ∧ ∀ v ∈ matrix, v.length = query_vec.length := by
  have hc := table_of_run hdb h
  -- every row is the one its last publication wrote, so its columns agree
  have hdims : ∀ row ∈ c.world.db.memory_embeddings, row.dimensions = row.embedding.length := by
    intro row hrow
    obtain ⟨p, -, rfl⟩ := hc.last row hrow
    rfl
  refine ⟨?_, ?_, ?_⟩
  · intro row hrow
    obtain ⟨p, hlast, hp⟩ := hc.last row hrow
    refine ⟨row.embedding.map C.round, unpack_blob C row, ?_, ?_, p, hlast, hp.symm, ?_⟩
    · rw [List.length_map]
      exact hdims row hrow
    · intro hstatus
      rw [← hp] at hstatus ⊢
      have hempty : p.embedding = [] := hc.emptyTombstone hlast hstatus
      change p.embedding.map C.round = []
      rw [hempty, List.map_nil]
    · intro hstatus
      rw [← hp] at hstatus ⊢
      exact ⟨hstatus, rfl⟩
  · intro f d hd
    refine ⟨_, list_embeddings_ok C _ f, ?_⟩
    intro e he
    exact @loaded_length F C ⟨c.world.db, fts5_active⟩ f d hd hdims e he
  · intro query_vec snapshot project_id tags exclude_ids
    exact @score_matrix_rectangular F C D ⟨c.world.db, fts5_active⟩ hdims query_vec snapshot project_id
      tags exclude_ids

theorem tableRun_of_reach {ok : EmbConf D → (embedding D).Action → Prop} {db : Db F} {c : EmbConf D}
    (h : Reach ok (Conf.initial (boot db)) c) : TableRun D db c := by
  induction h with
  | init => exact .boot
  | step _ _ hs ih => exact ih.step hs

end Runs

namespace Scenario

def four_byte_number : List UInt8 → ℕ
  | [a, b, c, d] => a.toNat + 256 * b.toNat + 65536 * c.toNat + 16777216 * d.toNat
  | _ => 0

theorem four_byte_number_encode (n : ℕ) :
    four_byte_number [UInt8.ofNat n, UInt8.ofNat (n / 256), UInt8.ofNat (n / 65536), UInt8.ofNat (n / 16777216)]
      = n % 4294967296 := by
  simp only [four_byte_number, UInt8.toNat_ofNat']
  omega

/-- Numbers in four bytes, the lowest first. -/
def four_bytes : FixedWidth.Code ℕ UInt8 where
  width := 4
  encode n := [UInt8.ofNat n, UInt8.ofNat (n / 256), UInt8.ofNat (n / 65536), UInt8.ofNat (n / 16777216)]
  decode := four_byte_number
  round n := n % 4294967296
  width_pos := by decide
  encode_length _ := rfl
  decode_encode := four_byte_number_encode

/-- The provider rejects the note as too long, and the note is parked. -/
def park (t : ℕ) : List Step :=
  .start (.generate_for_memory "note" "draft" false) :: go t 2
    ++ [.run t (.raises (.ProviderError .CONTENT_TOO_LONG)), .run t .goes]

/-- The note is embedded after all. -/
def resurrect (t : ℕ) : List Step := .start (.generate_for_memory "note" "draft" true) :: go t 5

end Scenario

/-- A note is parked and later embedded: its row is first an empty tombstone, then a vector of the
query's length. -/
theorem every_loaded_vector_has_the_query_length_sample :
    ∃ c c' : EmbConf Scenario.server,
      TableRun Scenario.server Scenario.store c ∧ TableRun Scenario.server Scenario.store c'
      ∧ (∃ row ∈ c.world.db.memory_embeddings, row.status = .content_too_long ∧ row.dimensions = 0
        ∧ unpack_embedding Scenario.four_bytes (row.blob Scenario.four_bytes) = .ok [])
      ∧ (c'.world.db.memory_embeddings.map fun row => (row.status, row.embedding)) = [(.ok, [0, 5])]
      ∧ ∃ matrix, score_matrix Scenario.four_bytes Scenario.server ⟨c'.world.db, true⟩ [7, 7]
          ⟨true, some "r"⟩ none none [] = .ok matrix ∧ ∀ v ∈ matrix, v.length = 2 := by
  have hparked : (Scenario.after (Scenario.verify 0 ++ Scenario.park 1)).any (fun c =>
      (c.world.db.embedding_row "note").any fun row => decide (row.status = .content_too_long)) = true := by
    decide +kernel
  have hback : (Scenario.after (Scenario.verify 0 ++ Scenario.park 1 ++ Scenario.resurrect 2)).any (fun c =>
      decide ((c.world.db.memory_embeddings.map fun row => (row.status, row.embedding))
        = [(.ok, [0, 5])])) = true := by
    decide +kernel
  obtain ⟨c, hc, hparked⟩ := Scenario.reach_after hparked
  obtain ⟨c', hc', hback⟩ := Scenario.reach_after hback
  obtain ⟨row, hrow, hstatus⟩ := (Option.any_eq_true _ _).mp hparked
  have hrun := tableRun_of_reach hc
  have hrun' := tableRun_of_reach hc'
  refine ⟨c, c', hrun, hrun', ?_, of_decide_eq_true hback, ?_⟩
  · have hmem := Keyed.mem_of_lookup hrow
    have htable := every_loaded_vector_has_the_query_length Scenario.four_bytes rfl hrun true
    obtain ⟨vector, hvector, hdims, hempty, -⟩ := htable.1 row hmem
    have hnil : vector = [] := hempty (of_decide_eq_true hstatus)
    rw [hnil] at hvector hdims
    exact ⟨row, hmem, of_decide_eq_true hstatus, hdims, hvector⟩
  · have htable := every_loaded_vector_has_the_query_length Scenario.four_bytes rfl hrun' true
    exact htable.2.2 [7, 7] ⟨true, some "r"⟩ none none []

end OpenChronicle
