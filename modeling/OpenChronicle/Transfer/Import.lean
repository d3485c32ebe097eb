/-
`import_memory.execute`.

The reads, the validation and the write transaction are the calls of one program, so that it can be run
alone and among other clients. The transaction is a `Script` on the connection: two loops of inserts
inside one block, each insert parsing, defaulting and binding the values of its row again, and failing
where the source does.

The counters of the loops depend on the rows alone and are counted apart. The warnings after the commit
only log.

The validation and the loops each look at a row for themselves. The validation looks at types, the loops
then take the values apart, so a row can pass the one and fail in the other: a string that no UTF-8 text
can hold is a string, and cannot be bound. The block is left by an exception then and undoes itself.
-/
import OpenChronicle.GitOnboard.Model
import OpenChronicle.Store.Transaction
import OpenChronicle.Transfer.Envelope

set_option autoImplicit false

namespace OpenChronicle

open Program PyStr

variable {F : Type}

/-! ## Binding -/

/-- A string as a parameter of a statement. -/
def bind_text (s : Text) : Except Exc String :=
  match s.encode with
  | some value => .ok value
  | none => .error .UnicodeEncodeError

def bind_optional_text : Option Text → Except Exc (Option String)
  | none => .ok none
  | some s => (bind_text s).map some

/-- The argument of `add_project`. -/
structure NewProject where
  id : Text
  name : Text
  metadata : Json.Dict
  created_at : Datetime

/-- The argument of `add_memory`. -/
structure NewMemory where
  id : Text
  content : Text
  tags : List Text
  pinned : Bool
  project_id : Option Text
  source : Text
  created_at : Datetime
  updated_at : Option Datetime

/-- The row `add_project` binds; the datetime is converted before the statement runs. -/
def NewProject.bind (p : NewProject) : Except Exc Project := do
  let created_at ← require_utc "created_at" p.created_at
  let id ← bind_text p.id
  let name ← bind_text p.name
  pure { id, name, metadata := p.metadata, created_at }

def require_optional_utc (field : String) : Option Datetime → Except Exc (Option Instant)
  | none => .ok none
  | some d => (require_utc field d).map some

/-- The row `add_memory` binds. -/
def NewMemory.bind (m : NewMemory) : Except Exc MemoryItem := do
  let created_at ← require_utc "created_at" m.created_at
  let updated_at ← require_optional_utc "updated_at" m.updated_at
  let id ← bind_text m.id
  let content ← bind_text m.content
  let project_id ← bind_optional_text m.project_id
  let source ← bind_text m.source
  pure { id, content, tags := m.tags, created_at, pinned := m.pinned, project_id, source, updated_at }

/-- A write method called with what binding its argument gives. -/
def call_with {α : Type} (bound : Except Exc α) (write : α → StoreWrite F) : Script F :=
  match bound with
  | .ok a => .write false (write a)
  | .error e => .raise (.exception e)

/-! ## The loops -/

section Loops

variable (iso : IsoFormat) (now : Instant)

/-- `_parse_dt`; the error is the `ValueError` of `fromisoformat`. -/
def parse_dt : Option Text → Except Exc (Option Datetime)
  | none => .ok none
  | some [] => .ok none
  | some value =>
      match iso.fromisoformat value with
      | some d => .ok (some d)
      | none => .error .Other

/-- The `Project` of a row. -/
def new_project (e : ProjectEntry) : Except Exc NewProject := do
  let created_at ← parse_dt iso (some e.created_at)
  pure { id := e.id, name := e.name, metadata := e.metadata.getD []
         created_at := created_at.getD (.aware now) }

/-- `value or default`, for strings. -/
def text_or (value : Option Text) (default : String) : Text :=
  match value with
  | some (c :: s) => c :: s
  | _ => default

/-- The `MemoryItem` of a row. -/
def new_memory (e : MemoryEntry) : Except Exc NewMemory := do
  let created_at ← parse_dt iso (some e.created_at)
  let updated_at ← parse_dt iso e.updated_at
  pure { id := e.id, content := e.content, tags := e.tags.getD [], pinned := e.pinned.truthy
         project_id := e.project_id, source := text_or e.source "import"
         created_at := created_at.getD (.aware now), updated_at }

/-- One round of the loop over the projects. -/
def import_project (existing : List Text) (e : ProjectEntry) : Script F :=
  if e.id ∈ existing then .skip
  else call_with (new_project iso now e >>= NewProject.bind) .add_project

/-- `raw_memory.get("source") == WATERMARK_SOURCE`. -/
def MemoryEntry.is_watermark (e : MemoryEntry) : Bool := e.source = some (WATERMARK_SOURCE : Text)

/-- One round of the loop over the memories. -/
def import_item (existing : List Text) (e : MemoryEntry) : Script F :=
  if e.is_watermark then .skip
  else if e.id ∈ existing then .skip
  else call_with (new_memory iso now e >>= NewMemory.bind) .add_memory

def in_turn : List (Script F) → Script F
  | [] => .skip
  | s :: rest => .seq s (in_turn rest)

/-- `with storage.transaction():` and the two loops. -/
def import_rows (existing_projects existing_memory : List Text) (ps : List ProjectEntry)
    (ms : List MemoryEntry) : Script F :=
  .block false (.seq (in_turn (ps.map (import_project iso now existing_projects)))
    (in_turn (ms.map (import_item iso now existing_memory))))

end Loops

/-- The dict `execute` returns. -/
structure ImportCounts where
  projects_added : ℕ := 0
  projects_skipped : ℕ := 0
  memory_added : ℕ := 0
  memory_skipped : ℕ := 0
  watermark_dropped : ℕ := 0
  oversized_content : ℕ := 0
  deriving DecidableEq, Repr

/-- The rows the loops do not skip. -/
def new_projects (existing : List Text) (ps : List ProjectEntry) : List ProjectEntry :=
  ps.filter (·.id ∉ existing)

def new_memories (existing : List Text) (ms : List MemoryEntry) : List MemoryEntry :=
  ms.filter fun e => !e.is_watermark && decide (e.id ∉ existing)

def import_counts (existing_projects existing_memory : List Text) (ps : List ProjectEntry)
    (ms : List MemoryEntry) : ImportCounts where
  projects_added := (new_projects existing_projects ps).length
  projects_skipped := ps.countP (·.id ∈ existing_projects)
  memory_added := (new_memories existing_memory ms).length
  memory_skipped := ms.countP fun e => !e.is_watermark && decide (e.id ∈ existing_memory)
  watermark_dropped := ms.countP (·.is_watermark)
  oversized_content :=
    (new_memories existing_memory ms).countP fun e => MAX_CONTENT_CHARS < e.content.length

/-! ## The program -/

/-- A store call, or a whole `transaction()` block. -/
inductive StoreOp (F : Type) where
  | list_projects
  | list_memory (limit : Option ℕ)
  | write (w : StoreWrite F)
  | block (body : Script F)

@[reducible] def StoreOp.Resp : StoreOp F → Type
  | list_projects => List Project
  | list_memory _ => List MemoryItem
  | write _ => Unit
  | block _ => Unit

abbrev storeSig (F : Type) : Sig := ⟨StoreOp F, StoreOp.Resp⟩

abbrev StoreProg (F : Type) := Prog (storeSig F) Exc

def store_call (o : StoreOp F) : StoreProg F o.Resp := Prog.op (S := storeSig F) o

section Execute

variable (iso : IsoFormat) (now : Instant)

/-- `execute` from the snapshot of the existing ids on. -/
def import_payload (payload : Json.Dict) : StoreProg F ImportCounts := do
  let projects : List Project ← store_call .list_projects
  let items : List MemoryItem ← store_call (.list_memory none)
  let existing_projects := projects.map fun p => Text.ofString p.id
  let existing_memory := items.map fun m => Text.ofString m.id
  match validate_envelope iso existing_projects payload with
  | .error e => .raise e
  | .ok (ps, ms) => do
      store_call (.block (import_rows iso now existing_projects existing_memory ps ms))
      pure (import_counts existing_projects existing_memory ps ms)

/-- `execute`. -/
def import_memory (mode : String) (payload : Json) : StoreProg F ImportCounts :=
  if mode ≠ "merge" ∧ mode ≠ "replace" then .raise (.ValidationError (.unknown_mode mode))
  else
    match payload with
    | .dict fields =>
        if mode = "replace" then do
          let existing_projects : List Project ← store_call .list_projects
          let existing_memory : List MemoryItem ← store_call (.list_memory (some 1))
          if existing_projects = [] ∧ existing_memory = [] then import_payload iso now fields
          else .raise (.ValidationError .destination_non_empty)
        else import_payload iso now fields
    | payload => .raise (.ValidationError (.payload_not_an_object payload.type_name))

end Execute

/-! ## The store behind it -/

section Store

variable (hash_content : String → String)

/-- A script run on a connection of its own, with the file it leaves. -/
def perform (s : Script F) (db : Db F) : Except Exc Unit × Db F :=
  match s.exec hash_content (Session.boot db) with
  | (.normal, c) => (.ok (), c.conn.file)
  | (.raised (.exception e), c) => (.error e, c.conn.file)
  | (.raised (.base _), c) => (.error .Other, c.conn.file)

/-- The store, answering one call. -/
def serve_call : (o : StoreOp F) → Db F → Except Exc o.Resp × Db F
  | .list_projects, db => (.ok db.list_projects, db)
  | .list_memory limit, db => (.ok (db.list_memory limit false 0 none none none false), db)
  | .write w, db => perform hash_content (.write false w) db
  | .block body, db => perform hash_content body db

end Store

/-! ## A block of inserts

What the block amounts to on the database, from the connection's point of view. -/

/-- Writes in sequence, left by nothing but exceptions. -/
def Script.Plain : Script F → Prop
  | skip => True
  | write _ _ => True
  | raise e => ∃ exc, e = .exception exc
  | seq first second => first.Plain ∧ second.Plain
  | block _ _ => False
  | attempt _ _ => False

section Block

variable {hash_content : String → String}

/-- A script of plain exceptions is never left by another kind, -/
theorem Script.Plain.left {s : Script F} (h : s.Plain) (inside : Bool) (db : Db F) :
    s.LeftByExceptions hash_content inside db := by
  induction s generalizing db with
  | skip => trivial
  | write busy w => trivial
  | raise e => trivial
  | seq first second ih₁ ih₂ => exact ⟨ih₁ h.1 db, fun _ => ih₂ h.2 _⟩
  | block busy body ih => exact absurd h id
  | attempt body catches ih => exact absurd h id

/-- nor does it end with one. -/
theorem Script.Plain.ne_base {s : Script F} (h : s.Plain) (db : Db F) (b : BaseExc) :
    (s.spec hash_content true db).1 ≠ .raised (.base b) := by
  induction s generalizing db with
  | skip => exact nofun
  | write busy w =>
      simp only [Script.spec, Bool.not_true, Bool.and_false, Bool.false_eq_true, if_false]
      exact w.outcome_ne_base hash_content db b
  | raise e =>
      obtain ⟨exc, rfl⟩ := h
      exact fun heq => by cases heq
  | seq first second ih₁ ih₂ =>
      rw [Script.spec]
      have hfirst := ih₁ h.1 db
      split
      · exact ih₂ h.2 _
      · next hrun => exact hfirst
  | block busy body ih => exact absurd h id
  | attempt body catches ih => exact absurd h id

variable (hash_content) in
/-- **The block keeps everything its body did, or nothing.** -/
theorem perform_block {body : Script F} (h : body.Plain) (db : Db F) :
    (∃ db', body.spec hash_content true db = (.normal, db')
        ∧ perform hash_content (.block false body) db = (.ok (), db'))
      ∨ ∃ e db', body.spec hash_content true db = (.raised (.exception e), db')
        ∧ perform hash_content (.block false body) db = (.error e, db) := by
  have hleft : (Script.block false body).LeftByExceptions hash_content false db :=
    fun _ => ⟨h.left true db, h.ne_base db⟩
  have hrun : (Script.block false body).exec hash_content (Session.boot db)
      = ((Script.keep_or_undo (body.spec hash_content true db) db).1,
        (Session.boot db).settle (Script.keep_or_undo (body.spec hash_content true db) db).2) :=
    Script.exec_eq (.block false body) (Session.steady_boot db) hleft
  rcases hbody : body.spec hash_content true db with ⟨_ | (e | b), db'⟩
  · left
    refine ⟨db', rfl, ?_⟩
    rw [perform, hrun, hbody]
    rfl
  · right
    refine ⟨e, db', rfl, ?_⟩
    rw [perform, hrun, hbody]
    rfl
  · exact absurd (by rw [hbody]) (h.ne_base db b)

/-- Calls of one method, one after the other. -/
def insert_all {α : Type} (hash_content : String → String) (write : α → StoreWrite F) :
    List α → Db F → Except Exc (Db F)
  | [], db => .ok db
  | a :: rest, db => (write a).apply hash_content db >>= insert_all hash_content write rest

/-- A loop whose rounds skip a row or insert its value: it inserts the values of the rows it
does not skip, and it raises if one of these has none. -/
theorem spec_in_turn {E α : Type} {step : E → Script F} {new : E → Bool} {value : E → Option α}
    {write : α → StoreWrite F} {es : List E} (hskip : ∀ e ∈ es, new e = false → step e = .skip)
    (hnew : ∀ e ∈ es, new e = true → step e = match value e with
      | some a => .write false (write a)
      | none => .raise (.exception .UnicodeEncodeError)) (db : Db F) :
    (∀ db', (∀ e ∈ es.filter new, (value e).isSome) →
        insert_all hash_content write ((es.filter new).filterMap value) db = .ok db' →
        (in_turn (es.map step)).spec hash_content true db = (.normal, db'))
      ∧ ((∃ e ∈ es.filter new, value e = none) →
        ∃ exc db', (in_turn (es.map step)).spec hash_content true db
          = (.raised (.exception exc), db')) := by
  induction es generalizing db with
  | nil =>
      refine ⟨?_, ?_⟩
      · intro db' _ hins
        rw [← Except.ok.inj hins]
        rfl
      · rintro ⟨e, he, -⟩
        cases he
  | cons e rest ih =>
      have ih' := fun db => ih (fun e' he' => hskip e' (List.mem_cons_of_mem _ he'))
        (fun e' he' => hnew e' (List.mem_cons_of_mem _ he')) db
      have hloop : in_turn ((e :: rest).map step) = .seq (step e) (in_turn (rest.map step)) := rfl
      rw [hloop, Script.spec, List.filter_cons]
      rcases hn : new e with _ | _
      · -- a row that is skipped
        rw [hskip e List.mem_cons_self hn]
        exact ih' db
      · rw [hnew e List.mem_cons_self hn, if_pos rfl]
        rcases hv : value e with _ | a
        · refine ⟨?_, fun _ => ⟨_, _, rfl⟩⟩
          intro db' hsome
          have hbad := hsome e List.mem_cons_self
          rw [hv] at hbad
          cases hbad
        · rw [List.filterMap_cons_some hv]
          have hwrite : (Script.write false (write a)).spec hash_content true db
              = (write a).outcome hash_content db := rfl
          rw [hwrite, StoreWrite.outcome, insert_all]
          rcases happ : (write a).apply hash_content db with exc | db₁
          · refine ⟨?_, fun _ => ⟨_, _, rfl⟩⟩
            intro db' _ hins
            cases hins
          · refine ⟨?_, ?_⟩
            · intro db' hsome hins
              exact (ih' db₁).1 db' (fun e' he' => hsome e' (List.mem_cons_of_mem _ he')) hins
            · rintro ⟨e', he', hnone⟩
              apply (ih' db₁).2
              rcases List.mem_cons.mp he' with rfl | he'
              · rw [hv] at hnone
                cases hnone
              · exact ⟨e', he', hnone⟩

variable (hash_content) in
/-- Inserting rows with new ids, in order. -/
theorem insert_projects {ps : List Project} {db : Db F} (hnodup : (ps.map (·.id)).Nodup)
    (hfresh : ∀ p ∈ ps, p.id ∉ db.projects.map (·.id)) :
    ∃ db', insert_all hash_content StoreWrite.add_project ps db = .ok db'
      ∧ db'.projects = db.projects ++ ps ∧ db'.memory_items = db.memory_items
      ∧ db'.memory_embeddings = db.memory_embeddings := by
  induction ps generalizing db with
  | nil => exact ⟨db, rfl, (List.append_nil _).symm, rfl, rfl⟩
  | cons p rest ih =>
      rw [List.map_cons, List.nodup_cons] at hnodup
      have hp : p.id ∉ db.projects.map (·.id) := hfresh p List.mem_cons_self
      have happ : ∃ db₁, db.add_project p = .ok db₁ ∧ db₁.projects = db.projects ++ [p]
          ∧ db₁.memory_items = db.memory_items ∧ db₁.memory_embeddings = db.memory_embeddings := by
        rw [Db.add_project, dif_neg hp]
        exact ⟨_, rfl, rfl, rfl, rfl⟩
      obtain ⟨db₁, hadd, hprojects, hitems, hrows⟩ := happ
      have hfresh' : ∀ q ∈ rest, q.id ∉ db₁.projects.map (·.id) := by
        intro q hq
        rw [hprojects, List.map_append, List.mem_append]
        rintro (hin | hin)
        · exact hfresh q (List.mem_cons_of_mem _ hq) hin
        · rw [List.map_singleton, List.mem_singleton] at hin
          exact hnodup.1 (hin ▸ List.mem_map_of_mem hq)
      obtain ⟨db', hins, hprojects', hitems', hrows'⟩ := ih hnodup.2 hfresh'
      refine ⟨db', ?_, ?_, hitems'.trans hitems, hrows'.trans hrows⟩
      · rw [insert_all, StoreWrite.apply, hadd]
        exact hins
      · rw [hprojects', hprojects, List.append_assoc]
        rfl

variable (hash_content) in
/-- The same for memories, whose projects have to be there. -/
theorem insert_memories {ms : List MemoryItem} {db : Db F} (hnodup : (ms.map (·.id)).Nodup)
    (hfresh : ∀ m ∈ ms, m.id ∉ db.memory_items.map (·.id))
    (hfk : ∀ m ∈ ms, ∀ p, m.project_id = some p → p ∈ db.projects.map (·.id)) :
    ∃ db' added, insert_all hash_content StoreWrite.add_memory ms db = .ok db'
      ∧ db'.memory_items = db.memory_items ++ added ∧ added.map (·.toMemoryItem) = ms
      ∧ db'.projects = db.projects ∧ db'.memory_embeddings = db.memory_embeddings := by
  induction ms generalizing db with
  | nil => exact ⟨db, [], rfl, (List.append_nil _).symm, rfl, rfl, rfl⟩
  | cons m rest ih =>
      rw [List.map_cons, List.nodup_cons] at hnodup
      have hm : m.id ∉ db.memory_items.map (·.id) := hfresh m List.mem_cons_self
      have happ : ∃ db₁ row, db.add_memory m = .ok db₁ ∧ db₁.memory_items = db.memory_items ++ [row]
          ∧ row.toMemoryItem = m ∧ db₁.projects = db.projects
          ∧ db₁.memory_embeddings = db.memory_embeddings := by
        rw [Db.add_memory, dif_neg hm, dif_pos (hfk m List.mem_cons_self)]
        exact ⟨_, _, rfl, rfl, rfl, rfl, rfl⟩
      obtain ⟨db₁, row, hadd, hitems, hrow, hprojects, hrows⟩ := happ
      have hfresh' : ∀ m' ∈ rest, m'.id ∉ db₁.memory_items.map (·.id) := by
        intro m' hm'
        rw [hitems, List.map_append, List.mem_append]
        rintro (hin | hin)
        · exact hfresh m' (List.mem_cons_of_mem _ hm') hin
        · rw [List.map_singleton, List.mem_singleton, hrow] at hin
          exact hnodup.1 (hin ▸ List.mem_map_of_mem hm')
      have hfk' : ∀ m' ∈ rest, ∀ p, m'.project_id = some p → p ∈ db₁.projects.map (·.id) := by
        intro m' hm'
        rw [hprojects]
        exact hfk m' (List.mem_cons_of_mem _ hm')
      obtain ⟨db', added, hins, hitems', hadded, hprojects', hrows'⟩ := ih hnodup.2 hfresh' hfk'
      refine ⟨db', row :: added, ?_, ?_, ?_, hprojects'.trans hprojects, hrows'.trans hrows⟩
      · rw [insert_all, StoreWrite.apply, hadd]
        exact hins
      · rw [hitems', hitems, List.append_assoc]
        rfl
      · rw [List.map_cons, hadded, hrow]

end Block

end OpenChronicle
