/-
`delete_projects.execute`: the preview of a batch of projects and the confirmed call
that deletes them.

The call takes the store lock for each read and for the transaction, not across them,
so other clients write in between: `seen i` is the file as the `i`-th read finds it, or
what that read raises, and the transaction begins on whatever is there by then. Inside
the transaction any step may fail, before its first change or after it.

One reason to fail is in the file itself. Where there is a full-text index, the trigger
`memory_fts_ad` deletes the entry of every memory that goes, and FTS5 need not put up
with an entry that is missing (`index_trouble`). So the preview, which does not touch the
index, is truthful on every file, while the confirmed call is sure to go through only on
one whose index is in step. What a failed call leaves behind does not depend on why it
failed.
-/
import Mathlib.Algebra.GroupWithZero.Nat
import OpenChronicle.Lib.ContentIndex
import OpenChronicle.Store.Index

set_option autoImplicit false

namespace OpenChronicle.DeleteProjects

variable {F : Type}

/-! ## The use case -/

/-- One project of a reply: `memory_count` in a preview, `deleted_memories` afterwards. -/
structure Reported where
  project_id : String
  name : String
  memories : ℕ
  deriving DecidableEq, Repr

/-- The reply; `projects` is `found` in a preview, `deleted_projects` afterwards, and
`total` the sum over them. -/
structure Reply where
  status : String
  deleted : Bool
  next_step : Option String
  total_requested : ℕ
  projects : List Reported
  missing : List String
  total : ℕ
  deriving DecidableEq, Repr

/-- The loop over `ordered`: what it found and what is missing. -/
def look_up (seen : ℕ → Except Exc (Db F)) :
    ℕ → List String → Except Exc (List Project × List String)
  | _, [] => .ok ([], [])
  | i, project_id :: rest =>
      match seen i with
      | .error e => .error e
      | .ok db =>
          match look_up seen (i + 1) rest with
          | .error e => .error e
          | .ok (found, missing) =>
              match db.get_project project_id with
              | none => .ok (found, project_id :: missing)
              | some project => .ok (project :: found, missing)

/-- `[memory_store.count_memory(project_id=p.id) for p in found]`. -/
def count_memories (seen : ℕ → Except Exc (Db F)) : ℕ → List Project → Except Exc (List ℕ)
  | _, [] => .ok []
  | i, p :: rest =>
      match seen i with
      | .error e => .error e
      | .ok db =>
          match count_memories seen (i + 1) rest with
          | .error e => .error e
          | .ok counts => .ok (db.count_memory (some p.id) :: counts)

/-- How a step of the transaction fails: before it changed anything, or once its rows
are gone and the savepoint has to bring them back. -/
inductive Trouble where
  | before (e : Exc)
  | within (e : Exc)
  deriving DecidableEq, Repr

/-- `store.delete_project(p.id)`, in trouble or not. -/
def delete_step (trouble : Option Trouble) (project_id : String) : Script F :=
  match trouble with
  | none => .write false (.delete_project project_id)
  | some (.before e) => .raise (.exception e)
  | some (.within e) =>
      .block false (.seq (.write false (.delete_project project_id)) (.raise (.exception e)))

/-- The body of the transaction; the trouble past the last project is `COMMIT`'s. -/
def deletions (trouble : ℕ → Option Trouble) : ℕ → List Project → Script F
  | i, [] =>
      match trouble i with
      | none => .skip
      | some (.before e) => .raise (.exception e)
      | some (.within e) => .raise (.exception e)
  | i, p :: rest => .seq (delete_step (trouble i) p.id) (deletions trouble (i + 1) rest)

variable (hash_content : String → String) (fts5 : ContentIndex.Delete Exc FtsEntry)

/-- What FTS5 raises in `store.delete_project(p.id)`: `memory_fts_ad` fires for each memory of
the project, and an entry that is not in the index may end the statement. -/
def index_trouble (db : Db F) (project_id : String) : Option Trouble :=
  match db.memory_fts with
  | none => none
  | some idx =>
      let gone := db.memory_items.filter (·.project_id = some project_id)
      match fts5.deletes idx (gone.map (·.fts)) with
      | .error e => some (.within e)
      | .ok _ => none

/-- The index's trouble with each call of the loop, in the state that call starts from. -/
def index_troubles : List Project → Session F → List (Option Trouble)
  | [], _ => []
  | p :: rest, c =>
      index_trouble fts5 c.view p.id
        :: index_troubles rest (StoreWrite.exec hash_content (.delete_project p.id) c).2

/-- A step's trouble is its own or else that of the index. -/
def with_index (trouble : ℕ → Option Trouble) (inside : List (Option Trouble)) (i : ℕ) :
    Option Trouble :=
  (trouble i).or (inside.getD i none)

/-- What the calls of `delete_project` return: each counts in the state it starts from. -/
def deleted_counts : List Project → Session F → List ℕ
  | [], _ => []
  | p :: rest, c =>
      c.view.count_memory (some p.id)
        :: deleted_counts rest (StoreWrite.exec hash_content (.delete_project p.id) c).2

def reported (found : List Project) (counts : List ℕ) : List Reported :=
  found.zipWith (fun p count => ⟨p.id, p.name, count⟩) counts

def preview_reply (ordered : List String) (found : List Project) (missing : List String)
    (counts : List ℕ) : Reply where
  status := "preview"
  deleted := false
  next_step := some
    "Nothing was deleted. Check the names under `found`, then call again with confirm=true."
  total_requested := ordered.length
  projects := reported found counts
  missing := missing
  total := counts.sum

def deleted_reply (ordered : List String) (found : List Project) (missing : List String)
    (deleted_counts : List ℕ) : Reply where
  status := "ok"
  deleted := true
  next_step := none
  total_requested := ordered.length
  projects := reported found deleted_counts
  missing := missing
  total := deleted_counts.sum

/-- `execute`; `busy` is a `BEGIN IMMEDIATE` that the retries do not get through. -/
def execute (seen : ℕ → Except Exc (Db F)) (busy : Bool) (trouble : ℕ → Option Trouble)
    (project_ids : List String) (confirm : Bool) (c : Session F) :
    Except Raised Reply × Session F :=
  -- list(dict.fromkeys(project_ids))
  let ordered := project_ids.eraseDups
  match look_up seen 0 ordered with
  | .error e => (.error (.exception e), c)
  | .ok (found, missing) =>
      if !confirm then
        match count_memories seen ordered.length found with
        | .error e => (.error (.exception e), c)
        | .ok counts => (.ok (preview_reply ordered found missing counts), c)
      else
        let inside := (c.enter.map (index_troubles hash_content fts5 found)).getD []
        match (Script.block busy (deletions (with_index trouble inside) 0 found)).exec hash_content c
          with
        | (.raised e, c') => (.error e, c')
        | (.normal, c') =>
            -- the counts are taken inside the transaction
            let counts := (c.enter.map (deleted_counts hash_content found)).getD []
            (.ok (deleted_reply ordered found missing counts), c')

/-! ## What the deletions remove -/

/-- `db'` is `db` less the projects `ids`, their memories and those memories' embeddings. -/
structure Removed (ids : List String) (db db' : Db F) : Prop where
  projects : db'.projects = db.projects.filter (·.id ∉ ids)
  memories : db'.memory_items = db.memory_items.filter fun m => ∀ p ∈ ids, m.project_id ≠ some p
  embeddings : db'.memory_embeddings
    = db.memory_embeddings.filter fun r => r.memory_id ∈ db'.memory_items.map (·.id)

theorem Removed.nothing (db : Db F) : Removed [] db db where
  projects := (List.filter_eq_self.mpr fun _ _ => by simp).symm
  memories := (List.filter_eq_self.mpr fun _ _ => by simp).symm
  embeddings := by
    refine (List.filter_eq_self.mpr fun r hr => ?_).symm
    obtain ⟨m, hm, hid⟩ := db.embedding_fk r hr
    exact decide_eq_true (List.mem_map.mpr ⟨m, hm, hid⟩)

/-- One project more. -/
theorem Removed.cons {id : String} {ids : List String} {db db₁ db₂ : Db F}
    (hfirst : Removed [id] db db₁) (hrest : Removed ids db₁ db₂) : Removed (id :: ids) db db₂ where
  projects := by
    rw [hrest.projects, hfirst.projects, List.filter_filter]
    refine List.filter_congr fun p _ => ?_
    by_cases hp : p.id = id
    · simp [hp]
    · simp [hp]
  memories := by
    rw [hrest.memories, hfirst.memories, List.filter_filter]
    refine List.filter_congr fun m _ => ?_
    simp only [List.mem_singleton, forall_eq, List.forall_mem_cons, Bool.decide_and, Bool.and_comm]
  embeddings := by
    rw [hrest.embeddings, hfirst.embeddings, List.filter_filter]
    refine List.filter_congr fun r _ => ?_
    -- a memory that is left after all the deletions was left after the first
    have hsub : r.memory_id ∈ db₂.memory_items.map (·.id) →
        r.memory_id ∈ db₁.memory_items.map (·.id) := by
      intro hr
      rw [hrest.memories] at hr
      exact (List.filter_sublist.map _).subset hr
    by_cases hr : r.memory_id ∈ db₂.memory_items.map (·.id)
    · simp only [hr, hsub hr, decide_true, Bool.and_self]
    · simp only [hr, decide_false, Bool.false_and]

/-- A project outside `ids` is still there, and one that is there was before. -/
theorem Removed.get_project {ids : List String} {db db' : Db F} (h : Removed ids db db')
    (id : String) : db'.get_project id = if id ∈ ids then none else db.get_project id := by
  rw [Db.get_project, Db.get_project, h.projects]
  unfold Keyed.lookup
  rw [List.find?_filter]
  by_cases hid : id ∈ ids
  · rw [if_pos hid, List.find?_eq_none]
    intro p _
    by_cases hp : p.id = id
    · simp [hp, hid]
    · simp [hp]
  · rw [if_neg hid]
    congr 1
    funext p
    by_cases hp : p.id = id
    · simp [hp, hid]
    · simp [hp]

/-- The memories of a project outside `ids` are all still there. -/
theorem Removed.count_memory {ids : List String} {db db' : Db F} (h : Removed ids db db')
    {id : String} (hid : id ∉ ids) : db'.count_memory (some id) = db.count_memory (some id) := by
  simp only [Db.count_memory, Db.items, h.memories, List.countP_map, List.countP_filter]
  refine List.countP_congr fun m _ => ?_
  simp only [Function.comp_apply, Option.all_some, Bool.and_eq_true, decide_eq_true_eq]
  constructor
  · exact fun hm => hm.1
  · intro hm
    refine ⟨hm, fun p hp heq => ?_⟩
    exact hid (Option.some.inj (hm.symm.trans heq) ▸ hp)

/-- One `delete_project`: an unknown id raises, a known one is removed. -/
theorem delete_project_cases (db : Db F) (id : String) :
    (db.get_project id = none
        ∧ StoreWrite.outcome hash_content (.delete_project id) db
          = (.raised (.exception (.ProjectNotFound (some id))), db))
      ∨ (db.get_project id ≠ none
        ∧ ∃ db', StoreWrite.outcome hash_content (.delete_project id) db = (.normal, db')
          ∧ Removed [id] db db') := by
  by_cases hid : db.get_project id = none
  · refine Or.inl ⟨hid, ?_⟩
    rw [StoreWrite.outcome, StoreWrite.apply, if_pos hid]
  · refine Or.inr ⟨hid, ?_⟩
    rw [StoreWrite.outcome, StoreWrite.apply, if_neg hid]
    rcases hrow : (db.delete_memories_of id).delete_project_row id with e | db'
    · exact absurd hrow (Db.delete_project_row_ne_error _ _ _)
    · refine ⟨db', rfl, ?_⟩
      rw [Db.delete_project_row] at hrow
      split at hrow
      · obtain rfl := Except.ok.inj hrow
        exact {
          projects := by simp [Db.delete_memories_of]
          memories := by simp [Db.delete_memories_of]
          embeddings := rfl }
      · cases hrow

/-! ## The transaction -/

/-- A step that succeeds had no trouble and found its project. -/
theorem delete_step_cases (trouble : Option Trouble) (db : Db F) (id : String) :
    (∃ e db', (delete_step trouble id).spec hash_content true db = (.raised (.exception e), db'))
      ∨ (trouble = none ∧ db.get_project id ≠ none
        ∧ (delete_step trouble id).spec hash_content true db
          = StoreWrite.outcome hash_content (.delete_project id) db) := by
  rcases trouble with _ | e | e
  · rcases delete_project_cases hash_content db id with ⟨-, hout⟩ | ⟨hid, -⟩
    · exact Or.inl ⟨_, _, hout⟩
    · exact Or.inr ⟨rfl, hid, rfl⟩
  · exact Or.inl ⟨e, db, rfl⟩
  · -- the rows that went come back with the savepoint, whatever the step had done
    refine Or.inl ?_
    rw [delete_step]
    simp only [Script.spec, Bool.false_and, Bool.false_eq_true, if_false]
    rcases delete_project_cases hash_content db id with
      ⟨-, hout⟩ | ⟨-, db', hout, -⟩
    · rw [hout]
      exact ⟨_, _, rfl⟩
    · rw [hout]
      exact ⟨_, _, rfl⟩

/-- What the body comes to: an exception, or every project of the list was there, none
of the steps had trouble, and the list is what went. -/
theorem deletions_cases (trouble : ℕ → Option Trouble) (found : List Project) :
    ∀ (i : ℕ) (db : Db F),
      (∃ e db', (deletions trouble i found).spec hash_content true db
          = (.raised (.exception e), db'))
        ∨ ((∀ p ∈ found, db.get_project p.id ≠ none)
          ∧ ∃ db', (deletions trouble i found).spec hash_content true db = (.normal, db')
            ∧ Removed (found.map (·.id)) db db') := by
  induction found with
  | nil =>
      intro i db
      rw [deletions]
      rcases trouble i with _ | e | e
      · exact Or.inr ⟨by simp, db, rfl, Removed.nothing db⟩
      · exact Or.inl ⟨e, db, rfl⟩
      · exact Or.inl ⟨e, db, rfl⟩
  | cons p rest ih =>
      intro i db
      rw [deletions, Script.spec]
      -- one turn of the loop, then the others on the store that it leaves
      rcases delete_step_cases hash_content (trouble i) db p.id with
        ⟨e, db', hstep⟩ | ⟨-, hp, hstep⟩
      · rw [hstep]
        exact Or.inl ⟨e, db', rfl⟩
      · rcases delete_project_cases hash_content db p.id with
          ⟨hnone, -⟩ | ⟨-, db₁, hout, hfirst⟩
        · exact absurd hnone hp
        · rw [hstep, hout]
          rcases ih (i + 1) db₁ with ⟨e, db', hrest⟩ | ⟨hall, db', hrest, hremoved⟩
          · exact Or.inl ⟨e, db', hrest⟩
          · refine Or.inr ⟨?_, db', hrest, hfirst.cons hremoved⟩
            intro q hq
            rcases List.mem_cons.mp hq with rfl | hq
            · exact hp
            · -- what is there after the first deletion was there before it
              have hq' := hall q hq
              rw [hfirst.get_project] at hq'
              intro hnone
              split at hq'
              · exact hq' rfl
              · exact hq' hnone

/-- Without trouble the deletions of distinct projects that are there succeed. -/
theorem deletions_quiet (found : List Project) :
    ∀ (i : ℕ) (db : Db F), (found.map (·.id)).Nodup → (∀ p ∈ found, db.get_project p.id ≠ none) →
      ∃ db', (deletions (fun _ => none) i found).spec hash_content true db = (.normal, db')
        ∧ Removed (found.map (·.id)) db db' := by
  induction found with
  | nil => exact fun i db _ _ => ⟨db, rfl, Removed.nothing db⟩
  | cons p rest ih =>
      intro i db hnodup hall
      obtain ⟨hp, hnodup⟩ := List.nodup_cons.mp hnodup
      rcases delete_project_cases hash_content db p.id with
        ⟨hnone, -⟩ | ⟨-, db₁, hout, hfirst⟩
      · exact absurd hnone (hall p List.mem_cons_self)
      · have hrest : ∀ q ∈ rest, db₁.get_project q.id ≠ none := by
          intro q hq
          have hne : q.id ∉ [p.id] := by
            intro heq
            have hid : q.id = p.id := List.mem_singleton.mp heq
            exact hp (List.mem_map.mpr ⟨q, hq, hid⟩)
          rw [hfirst.get_project, if_neg hne]
          exact hall q (List.mem_cons_of_mem _ hq)
        obtain ⟨db', hrun, hremoved⟩ := ih (i + 1) db₁ hnodup hrest
        refine ⟨db', ?_, hfirst.cons hremoved⟩
        rw [deletions, Script.spec, delete_step, Script.spec]
        simp only [Bool.false_and, Bool.false_eq_true, if_false, hout]
        exact hrun

/-- The body is left normally or by an `Exception`. -/
theorem deletions_left (trouble : ℕ → Option Trouble) (found : List Project) :
    ∀ (i : ℕ) (db : Db F), (deletions trouble i found).LeftByExceptions hash_content true db := by
  induction found with
  | nil =>
      intro i db
      rw [deletions]
      rcases trouble i with _ | e | e
      · trivial
      · trivial
      · trivial
  | cons p rest ih =>
      intro i db
      rw [deletions]
      refine ⟨?_, fun _ => ih _ _⟩
      rcases trouble i with _ | e | e
      · trivial
      · trivial
      · refine fun _ => ⟨⟨trivial, fun _ => trivial⟩, fun b => ?_⟩
        rcases delete_project_cases hash_content db p.id with
          ⟨-, hout⟩ | ⟨-, db', hout, -⟩
        · simp [Script.spec, hout]
        · simp [Script.spec, hout]

/-- The transaction on the connection is the one on the file. -/
theorem transaction_spec (busy : Bool) (trouble : ℕ → Option Trouble) (found : List Project)
    (file : Db F) :
    (Script.block busy (deletions trouble 0 found)).exec hash_content (Session.boot file)
      = (((Script.block busy (deletions trouble 0 found)).spec hash_content false file).1,
        Session.boot ((Script.block busy (deletions trouble 0 found)).spec hash_content false
          file).2) := by
  refine Script.exec_eq _ (Session.steady_boot file) fun _ =>
    ⟨deletions_left hash_content trouble found 0 _, fun b => ?_⟩
  rcases deletions_cases hash_content trouble found 0 (Session.boot file).view with
    ⟨e, db', hspec⟩ | ⟨-, db', hspec, -⟩
  · rw [hspec]
    simp
  · rw [hspec]
    simp

/-- What the transaction comes to: an exception and the file as it was, or every project
was there and the list is what went. -/
theorem transaction_cases (busy : Bool) (trouble : ℕ → Option Trouble) (found : List Project)
    (file : Db F) :
    (∃ e, (Script.block busy (deletions trouble 0 found)).exec hash_content (Session.boot file)
        = (.raised (.exception e), Session.boot file))
      ∨ ((∀ p ∈ found, file.get_project p.id ≠ none)
        ∧ ∃ file', (Script.block busy (deletions trouble 0 found)).exec hash_content
              (Session.boot file) = (.normal, Session.boot file')
          ∧ Removed (found.map (·.id)) file file') := by
  rw [transaction_spec, Script.spec, Bool.not_false, Bool.and_true]
  by_cases hbusy : busy = true
  · rw [if_pos hbusy]
    exact Or.inl ⟨_, rfl⟩
  · rw [if_neg hbusy]
    rcases deletions_cases hash_content trouble found 0 file with
      ⟨e, db', hspec⟩ | ⟨hall, db', hspec, hremoved⟩
    · rw [hspec]
      exact Or.inl ⟨e, rfl⟩
    · rw [hspec]
      exact Or.inr ⟨hall, db', rfl, hremoved⟩

theorem transaction_quiet (found : List Project) (file : Db F)
    (hnodup : (found.map (·.id)).Nodup) (hall : ∀ p ∈ found, file.get_project p.id ≠ none) :
    ∃ file', (Script.block false (deletions (fun _ => none) 0 found)).exec hash_content
          (Session.boot file) = (.normal, Session.boot file')
      ∧ Removed (found.map (·.id)) file file' := by
  obtain ⟨file', hspec, hremoved⟩ :=
    deletions_quiet hash_content found 0 file hnodup hall
  refine ⟨file', ?_, hremoved⟩
  rw [transaction_spec, Script.spec, hspec]
  rfl

/-! ## The index -/

section Index

/-- With an entry for every row, FTS5 has what it needs. -/
theorem index_trouble_none {db : Db F} (h : db.InStep) (project_id : String) :
    index_trouble fts5 db project_id = none := by
  rw [index_trouble]
  rcases hidx : db.memory_fts with _ | idx
  · rfl
  · have hsplit := List.filter_append_perm (fun m : MemoryRow => m.project_id = some project_id)
      db.memory_items
    have hperm := (h idx hidx).trans (hsplit.symm.map (fun m : MemoryRow => m.fts))
    rw [List.map_append] at hperm
    obtain ⟨idx', hrun, -⟩ := fts5.deletes_of_perm hperm
    dsimp only
    rw [hrun]

/-- The triggers keep the index in step. -/
theorem inStep_outcome {db : Db F} (h : db.InStep) (project_id : String) :
    (StoreWrite.outcome hash_content (.delete_project project_id) db).2.InStep := by
  rw [StoreWrite.outcome]
  rcases hrun : StoreWrite.apply hash_content (.delete_project project_id) db with e | db'
  · exact h
  · exact ((Db.kept_indexIs hash_content db.memory_fts.isSome).apply _ _ _ ⟨rfl, h⟩ hrun).in_step

/-- A batch that starts in step stays in step, so no call of it meets a missing entry. -/
theorem index_troubles_none (found : List Project) :
    ∀ {c : Session F}, c.Steady → c.view.InStep →
      ∀ t ∈ index_troubles hash_content fts5 found c, t = none := by
  induction found with
  | nil => exact fun _ _ _ h => nomatch h
  | cons p rest ih =>
      intro c hsteady h t ht
      rw [index_troubles, List.mem_cons] at ht
      rcases ht with rfl | ht
      · exact index_trouble_none fts5 h p.id
      · rw [StoreWrite.exec_eq hsteady] at ht
        refine ih (hsteady.settle _) ?_ t ht
        rw [c.view_settle]
        exact inStep_outcome hash_content h p.id

/-- With the index in step no statement is in trouble. -/
theorem with_index_quiet {inside : List (Option Trouble)} (h : ∀ t ∈ inside, t = none) :
    with_index (fun _ => none) inside = fun _ => none := by
  funext i
  rw [with_index, Option.none_or, List.getD_eq_getElem?_getD]
  cases hi : inside[i]? with
  | none => rfl
  | some t => exact h t (List.mem_of_getElem? hi)

end Index

/-! ## The reads -/

/-- On a file that stands still `found` is the requested ids that have a project, in
order, and `missing` the others. -/
theorem look_up_still (file : Db F) (ordered : List String) : ∀ i : ℕ,
    look_up (fun _ => .ok file) i ordered
      = .ok (ordered.filterMap file.get_project,
          ordered.filter fun id => (file.get_project id).isNone) := by
  induction ordered with
  | nil => exact fun _ => rfl
  | cons id rest ih =>
      intro i
      simp only [look_up, ih]
      rcases hp : file.get_project id with _ | p
      · simp [hp]
      · simp [hp]

/-- On a file that nobody writes to, the counts are those of the file. -/
theorem count_memories_still (file : Db F) (found : List Project) : ∀ i : ℕ,
    count_memories (fun _ => .ok file) i found
      = .ok (found.map fun p => file.count_memory (some p.id)) := by
  induction found with
  | nil => exact fun _ => rfl
  | cons p rest ih =>
      intro i
      simp only [count_memories, ih, List.map_cons]

/-- The ids of a request, each once. -/
theorem nodup_eraseDups (ids : List String) : ids.eraseDups.Nodup := by
  -- the duplicates of the head go, so what is left is shorter
  induction hn : ids.length using Nat.strong_induction_on generalizing ids with
  | _ n ih =>
      rcases ids with _ | ⟨id, rest⟩
      · exact List.nodup_nil
      · rw [List.eraseDups_cons]
        refine List.nodup_cons.mpr ⟨by simp, ih _ ?_ _ rfl⟩
        have hle := List.length_filter_le (fun b => !(b == id)) rest
        simp only [List.length_cons] at hn
        omega

theorem id_of_get_project {file : Db F} {id : String} {p : Project}
    (h : file.get_project id = some p) : p.id = id :=
  Keyed.key_of_lookup (fun p : Project => p.id) h

/-- What is found carries the id it was asked for. -/
theorem ids_found (file : Db F) (ordered : List String) :
    (ordered.filterMap file.get_project).map (·.id)
      = ordered.filter fun id => (file.get_project id).isSome := by
  induction ordered with
  | nil => rfl
  | cons id rest ih =>
      rcases hp : file.get_project id with _ | p
      · simp [hp, ih]
      · simp [hp, ih, id_of_get_project hp]

/-- `delete_project` counts what was there before the batch: no earlier deletion took a
memory of the project. -/
theorem deleted_counts_eq (found : List Project) :
    ∀ {c : Session F}, c.Steady → (found.map (·.id)).Nodup →
      (∀ p ∈ found, c.view.get_project p.id ≠ none) →
      deleted_counts hash_content found c
        = found.map fun p => c.view.count_memory (some p.id) := by
  induction found with
  | nil => exact fun _ _ _ => rfl
  | cons p rest ih =>
      intro c hsteady hnodup hall
      obtain ⟨hp, hnodup⟩ := List.nodup_cons.mp hnodup
      rcases delete_project_cases hash_content c.view p.id with
        ⟨hnone, -⟩ | ⟨-, db₁, hout, hfirst⟩
      · exact absurd hnone (hall p List.mem_cons_self)
      · have hother : ∀ q ∈ rest, q.id ∉ [p.id] := by
          intro q hq heq
          have hid : q.id = p.id := List.mem_singleton.mp heq
          exact hp (List.mem_map.mpr ⟨q, hq, hid⟩)
        rw [deleted_counts, StoreWrite.exec_eq hsteady, hout, List.map_cons]
        congr 1
        rw [ih (hsteady.settle db₁) hnodup ?_]
        · refine List.map_congr_left fun q hq => ?_
          rw [c.view_settle, hfirst.count_memory (hother q hq)]
        · intro q hq
          rw [c.view_settle, hfirst.get_project, if_neg (hother q hq)]
          exact hall q (List.mem_cons_of_mem _ hq)

/-! ## Both calls on a file that stands still -/

section Still

variable (file : Db F) (project_ids : List String)

/-- What is found on a file that stands still. -/
def found_in : List Project := project_ids.eraseDups.filterMap file.get_project

def missing_in : List String := project_ids.eraseDups.filter fun id => (file.get_project id).isNone

def counts_in : List ℕ :=
  (found_in file project_ids).map fun p => file.count_memory (some p.id)

/-- So no project is deleted twice, -/
theorem nodup_found_in : ((found_in file project_ids).map (·.id)).Nodup := by
  rw [found_in, ids_found]
  exact (nodup_eraseDups project_ids).filter _

/-- and each of them is there. -/
theorem get_project_found_in : ∀ p ∈ found_in file project_ids, file.get_project p.id ≠ none := by
  intro p hp
  have hmem : p.id ∈ (found_in file project_ids).map (·.id) := List.mem_map_of_mem hp
  rw [found_in, ids_found] at hmem
  exact Option.isSome_iff_ne_none.mp (List.mem_filter.mp hmem).2

theorem execute_preview (busy : Bool) (trouble : ℕ → Option Trouble) (c : Session F) :
    execute hash_content fts5 (fun _ => .ok file) busy trouble project_ids false c
      = (.ok (preview_reply project_ids.eraseDups (found_in file project_ids)
          (missing_in file project_ids) (counts_in file project_ids)), c) := by
  rw [execute]
  simp only [look_up_still, count_memories_still, Bool.not_false, if_true]
  rfl

/-- The confirmed call repeats the preview and deletes what it lists, or the index is in its
way and nothing changes. -/
theorem execute_confirm :
    (¬ file.InStep ∧ ∃ e, execute hash_content fts5 (fun _ => .ok file) false (fun _ => none)
        project_ids true (Session.boot file) = (.error e, Session.boot file))
      ∨ ∃ file', execute hash_content fts5 (fun _ => .ok file) false (fun _ => none) project_ids true
          (Session.boot file)
        = (.ok (deleted_reply project_ids.eraseDups (found_in file project_ids)
            (missing_in file project_ids) (counts_in file project_ids)), Session.boot file')
      ∧ Removed ((found_in file project_ids).map (·.id)) file file' := by
  have hnodup := nodup_found_in file project_ids
  have hall := get_project_found_in file project_ids
  -- the deletions start on the file, inside the transaction that `BEGIN` opened
  obtain ⟨c', henter, hsteady, -, hview⟩ : ∃ c', (Session.boot file).enter = some c'
      ∧ c'.Steady ∧ c'.depth ≠ 0 ∧ c'.view = file :=
    ⟨_, rfl, Script.steady_of_enter (Session.steady_boot file) rfl⟩
  have hcounts : deleted_counts hash_content (found_in file project_ids) c'
      = counts_in file project_ids := by
    rw [deleted_counts_eq hash_content _ hsteady hnodup (by rw [hview]; exact hall), hview]
    rfl
  rw [execute]
  simp only [look_up_still, Bool.not_true, Bool.false_eq_true, if_false]
  rw [show project_ids.eraseDups.filterMap file.get_project = found_in file project_ids from rfl,
    henter]
  simp only [Option.map_some, Option.getD_some, hcounts]
  set inside := index_troubles hash_content fts5 (found_in file project_ids) c' with hinside
  rcases transaction_cases hash_content false (with_index (fun _ => none) inside)
      (found_in file project_ids) file with ⟨e, hrun⟩ | ⟨-, file', hrun, hremoved⟩
  · rw [hrun]
    refine .inl ⟨?_, _, rfl⟩
    intro hin
    have hquiet := index_troubles_none hash_content fts5 (found_in file project_ids)
      hsteady (by rw [hview]; exact hin)
    obtain ⟨file', hdone, -⟩ :=
      transaction_quiet hash_content (found_in file project_ids) file hnodup hall
    rw [with_index_quiet hquiet, hdone] at hrun
    cases hrun
  · rw [hrun]
    exact .inr ⟨file', rfl, hremoved⟩

/-- What a preview reports. -/
theorem reported_counts_in :
    reported (found_in file project_ids) (counts_in file project_ids)
      = (found_in file project_ids).map fun p => ⟨p.id, p.name, file.count_memory (some p.id)⟩ := by
  rw [reported, counts_in, List.zipWith_map_right, List.zipWith_self]

end Still

/-! ## The result -/

/-- **Previewed truthfully, applied atomically.** A preview changes nothing, whatever else
goes on. On a file that stands still it succeeds on any list of ids: it lists the ids that
have a project, each once and in order, with its name and the number of its memories, and
the others under `missing`. The confirmed call repeats that report, and what it takes from
the file is exactly those projects, their memories and those memories' embeddings; only an
index that is not in step can keep it from doing so. With other clients writing in between
and any step failing, the confirmed call that raises leaves the file as its transaction
found it; and it does raise when a project it had found is gone by then. -/
theorem delete_projects_atomic (file : Db F) (project_ids : List String) :
    (∀ (seen : ℕ → Except Exc (Db F)) (busy : Bool) (trouble : ℕ → Option Trouble)
        (c : Session F),
        (execute hash_content fts5 seen busy trouble project_ids false c).2 = c)
      ∧ (∃ preview : Reply,
        execute hash_content fts5 (fun _ => .ok file) false (fun _ => none) project_ids false
            (Session.boot file) = (.ok preview, Session.boot file)
          ∧ preview.deleted = false
          ∧ preview.projects = (project_ids.eraseDups.filterMap file.get_project).map
              (fun p => ⟨p.id, p.name, file.count_memory (some p.id)⟩)
          ∧ preview.missing = project_ids.eraseDups.filter
              (fun id => (file.get_project id).isNone)
          ∧ preview.total = (preview.projects.map (·.memories)).sum
          ∧ ((¬ file.InStep ∧ ∃ e, execute hash_content fts5 (fun _ => .ok file) false
                (fun _ => none) project_ids true (Session.boot file) = (.error e, Session.boot file))
            ∨ ∃ (reply : Reply) (file' : Db F),
              execute hash_content fts5 (fun _ => .ok file) false (fun _ => none) project_ids true
                (Session.boot file) = (.ok reply, Session.boot file')
              ∧ reply.deleted = true
              ∧ reply.projects = preview.projects ∧ reply.missing = preview.missing
              ∧ reply.total = preview.total
              ∧ Removed (preview.projects.map (·.project_id)) file file'))
      ∧ ∀ (seen : ℕ → Except Exc (Db F)) (busy : Bool) (trouble : ℕ → Option Trouble),
        (∀ e, (execute hash_content fts5 seen busy trouble project_ids true (Session.boot file)).1
            = .error e →
          (execute hash_content fts5 seen busy trouble project_ids true (Session.boot file)).2
            = Session.boot file)
        ∧ ∀ found missing, look_up seen 0 project_ids.eraseDups = .ok (found, missing) →
          ∀ p ∈ found, file.get_project p.id = none →
          ∃ e, (execute hash_content fts5 seen busy trouble project_ids true (Session.boot file)).1
            = .error e := by
  refine ⟨?_, ?_, ?_⟩
  · intro seen busy trouble c
    -- without `confirm` the use case only reads
    rw [execute]
    rcases look_up seen 0 project_ids.eraseDups with e | ⟨found, missing⟩
    · rfl
    · simp only [Bool.not_false, if_true]
      rcases count_memories seen project_ids.eraseDups.length found with e | counts
      · rfl
      · rfl
  · have hprojects := reported_counts_in file project_ids
    refine ⟨_, execute_preview hash_content fts5 file project_ids _ _ _, rfl, hprojects, rfl, ?_, ?_⟩
    · simp only [preview_reply, hprojects, List.map_map]
      rfl
    · rcases execute_confirm hash_content fts5 file project_ids with
        hfails | ⟨file', hconfirm, hremoved⟩
      · exact .inl hfails
      · refine .inr ⟨_, file', hconfirm, rfl, rfl, rfl, rfl, ?_⟩
        simp only [preview_reply, hprojects, List.map_map]
        exact hremoved
  · intro seen busy trouble
    rw [execute]
    rcases look_up seen 0 project_ids.eraseDups with e | ⟨found, missing⟩
    · exact ⟨fun _ _ => rfl, fun _ _ h => by cases h⟩
    · simp only [Bool.not_true, Bool.false_eq_true, if_false]
      -- the block deletes all of `found` or it ends in an error and rolls back
      set inside := ((Session.boot file).enter.map (index_troubles hash_content fts5 found)).getD []
      rcases transaction_cases hash_content busy (with_index trouble inside) found file with
        ⟨e, hrun⟩ | ⟨hall, file', hrun, -⟩
      · rw [hrun]
        exact ⟨fun _ _ => rfl, fun _ _ _ _ _ _ => ⟨_, rfl⟩⟩
      · rw [hrun]
        refine ⟨fun _ h => (by cases h), ?_⟩
        intro found' missing' hlook p hp hgone
        obtain ⟨rfl, rfl⟩ := Prod.mk.inj (Except.ok.inj hlook)
        exact absurd hgone (hall p hp)

namespace Unfilled

/-- A project with one memory, stored before there was an index. -/
def before : Db Unit where
  projects := [⟨"p", "alpha", [], 0⟩]
  memory_items := [⟨{ id := "m", content := "text", created_at := 0, project_id := some "p" }, 1⟩]
  memory_fk := by
    intro m hm p hp
    obtain rfl := List.mem_singleton.mp hm
    exact ⟨_, List.mem_singleton_self _, Option.some.inj hp⟩

/-- The file once a process with FTS5 has opened it. -/
def file : Db Unit := (ensure_fts5 true true before).2

/-- FTS5 reporting an entry that it lacks. -/
def malformed : ContentIndex.Delete Exc FtsEntry := ContentIndex.strict .OperationalError

/-- The preview lists the project with its memory; the confirmed call on the same file fails. -/
theorem previewed_deletion_fails :
    (∃ preview, execute id malformed (fun _ => .ok file) false (fun _ => none) ["p"] false
        (Session.boot file) = (.ok preview, Session.boot file)
      ∧ preview.projects = [⟨"p", "alpha", 1⟩])
    ∧ execute id malformed (fun _ => .ok file) false (fun _ => none) ["p"] true (Session.boot file)
      = (.error (.exception .OperationalError), Session.boot file) := by
  refine ⟨⟨_, execute_preview id malformed file ["p"] false _ _, ?_⟩, ?_⟩
  · decide +kernel
  · rfl

end Unfilled

end OpenChronicle.DeleteProjects
