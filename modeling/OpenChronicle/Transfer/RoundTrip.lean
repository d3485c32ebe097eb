/-
`export_memory.execute`, and a restore of what it exports into an empty store.

Export writes whatever the store holds. Import checks and defaults each field again, so a value that the
store admits and the validator refuses, or that a default replaces, does not come back. The states are
those the store's operations and imports reach; what is needed of them is that every stored instant is
one that `datetime` can hold.

The condition has two halves that fail for different reasons. An empty id or name is refused by the
validator, and then nothing is restored at all. An empty source is not refused: it is taken for a
missing one and replaced, so that the import succeeds and one field is not what it was. Nothing else is
lost. The watermark of git-onboard is left out of every export by intent, and a restore makes no promise
about it.

The proof reads the exported row back in one step: it is shown what the row is read as
(`reads_memory_payload`), and that it can be read in no other way (`memory_entry_of_reads`). With the
second fact the statement goes both ways, since whatever the validator accepted must have been the
exported rows.
-/
import OpenChronicle.Transfer.Merge

set_option autoImplicit false

namespace OpenChronicle

open Program PyStr

variable {F : Type}

/-! ## Export -/

section Export

variable (iso : IsoFormat)

/-- A row of `projects`, with the fields in the order in which they are written. -/
def project_payload (p : Project) : Json :=
  .dict [("id", .str p.id), ("name", .str p.name), ("metadata", .dict p.metadata),
    ("created_at", .str (iso.isoformat p.created_at))]

/-- A row of `memory_items`. The embeddings are not exported: they are made again. -/
def memory_payload (m : MemoryItem) : Json :=
  .dict [("id", .str m.id), ("content", .str m.content), ("tags", .list (m.tags.map .str)),
    ("pinned", .bool m.pinned), ("project_id", (m.project_id.map fun p => .str (Text.ofString p)).getD .null),
    ("source", .str m.source), ("created_at", .str (iso.isoformat m.created_at)),
    ("updated_at", (m.updated_at.map fun u => .str (iso.isoformat u)).getD .null)]

/-- The rows an export holds. -/
def exported_projects (project_id : Option String) (db : Db F) : List Project :=
  match project_id with
  | some p => (db.get_project p).toList
  | none => db.list_projects

/-- The memories of an export, less the watermark. -/
def exported_items (project_id : Option String) (db : Db F) : List MemoryItem :=
  (db.list_memory none false 0 project_id none none false).filter (·.source ≠ WATERMARK_SOURCE)

/-- `export_memory.execute`; `now` is the instant of the export. -/
def export_memory (now : Instant) (project_id : Option String) (db : Db F) : Json.Dict :=
  [("format_version", .int EXPORT_FORMAT_VERSION), ("exported_at", .str (iso.isoformat now)),
    ("projects", .list ((exported_projects project_id db).map (project_payload iso))),
    ("memory_items", .list ((exported_items project_id db).map (memory_payload iso)))]

end Export

/-! ## States -/

/-- An instant a `datetime` can hold. -/
def InRange (t : Instant) : Prop := MIN_INSTANT ≤ t ∧ t ≤ MAX_INSTANT

/-- A project whose time of creation can be written as text and read back. -/
def Project.Dated (p : Project) : Prop := InRange p.created_at

/-- Its timestamps are ones that a column can hold. -/
def MemoryItem.Dated (m : MemoryItem) : Prop :=
  InRange m.created_at ∧ ∀ u, m.updated_at = some u → InRange u

/-- The datetimes of a call are datetimes. -/
def StoreWrite.Dated : StoreWrite F → Prop
  | add_project project => project.Dated
  | add_memory item => item.Dated
  | update_memory now .. => InRange now
  | _ => True

/-- All instants of a store. -/
structure Db.Dated (db : Db F) : Prop where
  projects : ∀ p ∈ db.projects, p.Dated
  memories : ∀ m ∈ db.memory_items, m.toMemoryItem.Dated

/-- A store as its operations leave it, from an empty one. -/
inductive Reached (iso : IsoFormat) (hash_content : String → String) : Db F → Prop where
  | empty : Reached iso hash_content {}
  | write {db db' : Db F} {w : StoreWrite F} : Reached iso hash_content db → w.Dated →
      w.apply hash_content db = .ok db' → Reached iso hash_content db'
  | imported {db db' : Db F} {now : Instant} {mode : String} {payload : Json} {n : ImportCounts} :
      Reached iso hash_content db →
      (import_memory iso now mode payload).eval (S := storeSig F) (serve_call hash_content) db
        = (.ok n, db') → Reached iso hash_content db'

/-- What a restore promises: whatever the empty store, the import succeeds, and the projects
and the memories are those that were there, less the git-onboard watermark. -/
def RoundTrips (iso : IsoFormat) (hash_content : String → String) (now now' : Instant)
    (db : Db F) : Prop :=
  ∀ dst : Db F, dst.projects = [] → dst.memory_items = [] → ∃ n db',
    (import_memory iso now' "replace" (.dict (export_memory iso now none db))).eval (S := storeSig F)
        (serve_call hash_content) dst = (.ok n, db')
      ∧ db'.projects.Perm db.projects
      ∧ db'.items.Perm (db.items.filter (·.source ≠ WATERMARK_SOURCE))

/-- No id or project name is empty, and no source of a memory that is exported. -/
structure Restorable (db : Db F) : Prop where
  projects : ∀ p ∈ db.projects, p.id ≠ "" ∧ p.name ≠ ""
  memories : ∀ m ∈ db.items, m.source ≠ WATERMARK_SOURCE → m.id ≠ "" ∧ m.source ≠ ""

/-! ## Dates -/

section Dates

variable {iso : IsoFormat} {hash_content : String → String} {db db' : Db F}

/-- What was read as a date is one. -/
theorem inRange_of_check {v : Text} {t : Instant} (h : iso.check v = .ok t) : InRange t := by
  rw [IsoFormat.check] at h
  split at h
  · cases h
  · cases h
  · split at h
    · next hrange =>
        rw [← Except.ok.inj h]
        exact hrange
    · cases h

/-- What was written as a date is read as the same. -/
theorem check_isoformat {t : Instant} (h : InRange t) : iso.check (iso.isoformat t) = .ok t := by
  rw [IsoFormat.check, iso.fromisoformat_isoformat t h.1 h.2]
  exact if_pos h

theorem toOption_eq_some {ε α : Type} {x : Except ε α} {a : α} : x.toOption = some a ↔ x = .ok a := by
  rcases x with e | b
  all_goals simp [Except.toOption]

/-- An import brings in dates only. -/
theorem ProjectEntry.dated_of_value {e : ProjectEntry} {p : Project} (h : e.value iso = some p) :
    p.Dated := by
  rw [ProjectEntry.value] at h
  simp only [Option.bind_eq_bind, Option.bind_eq_some_iff, Option.pure_def, Option.some.injEq] at h
  obtain ⟨id, -, name, -, t, ht, rfl⟩ := h
  exact inRange_of_check (toOption_eq_some.mp ht)

/-- What an import stores has passed `require_utc`. -/
theorem MemoryEntry.dated_of_item {e : MemoryEntry} {source : Text} {m : MemoryItem}
    (h : e.item iso source = some m) : m.Dated := by
  rw [MemoryEntry.item] at h
  simp only [Option.bind_eq_bind, Option.bind_eq_some_iff, Option.pure_def, Option.some.injEq] at h
  obtain ⟨id, -, content, -, project_id, -, source', -, t, ht, u, hu, rfl⟩ := h
  refine ⟨inRange_of_check (toOption_eq_some.mp ht), ?_⟩
  rintro t' rfl
  rcases hup : e.updated_at with _ | v
  · rw [hup] at hu
    cases hu
  · rw [hup, optional_instant] at hu
    obtain ⟨t'', ht'', heq⟩ := Option.map_eq_some_iff.mp hu
    obtain rfl := Option.some.inj heq
    exact inRange_of_check (toOption_eq_some.mp ht'')

/-- So an import keeps a store dated, -/
theorem Imported.dated {ps : List ProjectEntry} {ms : List MemoryEntry}
    (h : Imported iso ps ms db db') (hdb : db.Dated) : db'.Dated := by
  obtain ⟨added, hitems, hadded⟩ := h.memories
  refine ⟨?_, ?_⟩
  · intro p hp
    rw [h.projects, List.mem_append] at hp
    rcases hp with hp | hp
    · exact hdb.projects p hp
    · obtain ⟨e, -, hval⟩ := List.mem_filterMap.mp hp
      exact ProjectEntry.dated_of_value hval
  · intro m hm
    rw [hitems, List.mem_append] at hm
    rcases hm with hm | hm
    · exact hdb.memories m hm
    · have hin : m.toMemoryItem ∈ added.map (·.toMemoryItem) := List.mem_map_of_mem hm
      rw [hadded] at hin
      obtain ⟨e, -, hval⟩ := List.mem_filterMap.mp hin
      exact MemoryEntry.dated_of_item hval

/-- What only loses rows keeps its dates. -/
theorem Db.Dated.of_sub (hdb : db.Dated) (hprojects : ∀ p ∈ db'.projects, p ∈ db.projects)
    (hitems : ∀ m ∈ db'.memory_items, m ∈ db.memory_items) : db'.Dated :=
  ⟨fun p hp => hdb.projects p (hprojects p hp), fun m hm => hdb.memories m (hitems m hm)⟩

/-- and so does an update that sets no other time. -/
theorem Db.Dated.update_row {memory_id : String} {f : MemoryItem → MemoryItem}
    {hid : ∀ m, (f m).id = m.id} {hproj : ∀ m, (f m).project_id = m.project_id} (hdb : db.Dated)
    (hf : ∀ m, m.Dated → (f m).Dated) (h : db.update_row memory_id f hid hproj = .ok db') :
    db'.Dated := by
  rw [Db.update_row] at h
  split at h
  · cases h
  · obtain rfl := Except.ok.inj h
    refine ⟨hdb.projects, ?_⟩
    intro m hm
    obtain ⟨row, hrow, rfl⟩ := List.mem_map.mp hm
    rw [Db.rewrite]
    split
    · exact hf _ (hdb.memories row hrow)
    · exact hdb.memories row hrow

/-- Every write method keeps the dates. -/
theorem dated_apply {w : StoreWrite F} (hdb : db.Dated) (hw : w.Dated)
    (h : w.apply hash_content db = .ok db') : db'.Dated := by
  cases w with
  | add_project project =>
      rw [StoreWrite.apply, Db.add_project] at h
      split at h
      · cases h
      · obtain rfl := Except.ok.inj h
        refine ⟨?_, hdb.memories⟩
        intro p hp
        rcases List.mem_append.mp hp with hp | hp
        · exact hdb.projects p hp
        · rw [List.mem_singleton.mp hp]
          exact hw
  | update_project project_id name metadata =>
      rw [StoreWrite.apply, Db.update_project] at h
      split at h
      · cases h
      · split at h
        · cases h
        · obtain rfl := Except.ok.inj h
          refine ⟨?_, hdb.memories⟩
          intro p hp
          obtain ⟨q, hq, rfl⟩ := List.mem_map.mp hp
          split
          · exact hdb.projects q hq
          · exact hdb.projects q hq
  -- a deletion keeps only rows that were there
  | delete_project project_id =>
      rw [StoreWrite.apply] at h
      split at h
      · cases h
      · rw [Db.delete_project_row] at h
        split at h
        · obtain rfl := Except.ok.inj h
          refine hdb.of_sub ?_ ?_
          · exact fun p hp => (List.mem_filter.mp hp).1
          · exact fun m hm => (List.mem_filter.mp hm).1
        · cases h
  | add_memory item =>
      rw [StoreWrite.apply, Db.add_memory] at h
      split at h
      · cases h
      · split at h
        · obtain rfl := Except.ok.inj h
          refine ⟨hdb.projects, ?_⟩
          intro m hm
          rcases List.mem_append.mp hm with hm | hm
          · exact hdb.memories m hm
          · rw [List.mem_singleton.mp hm]
            exact hw
        · cases h
  -- an update of one row keeps its `created_at`
  | set_pinned memory_id pinned =>
      rw [StoreWrite.apply, Db.set_pinned] at h
      refine hdb.update_row ?_ h
      exact fun _ hm => hm
  | update_memory now memory_id content tags =>
      rw [StoreWrite.apply, Db.update_memory] at h
      refine hdb.update_row ?_ h
      intro m hm
      refine ⟨hm.1, ?_⟩
      intro u hu
      rw [← Option.some.inj hu]
      exact hw
  | delete_memory memory_id =>
      rw [StoreWrite.apply, Db.delete_memory] at h
      split at h
      · cases h
      · obtain rfl := Except.ok.inj h
        exact hdb.of_sub (fun _ hp => hp) fun m hm => (List.mem_filter.mp hm).1
  | save_embedding memory_id embedding model provider content_hash model_revision
      settings_fingerprint status =>
      obtain rfl := Except.ok.inj h
      have hcases := db.save_embedding_cases hash_content memory_id embedding model provider
        content_hash model_revision settings_fingerprint status
      rcases hcases with ⟨hsame, -⟩ | ⟨-, -, hitems, hprojects, -⟩
      · rw [hsame]
        exact hdb
      · exact hdb.of_sub (by rw [hprojects]; exact fun _ hp => hp) (by rw [hitems]; exact fun _ hm => hm)
  | delete_embedding memory_id =>
      obtain rfl := Except.ok.inj h
      exact hdb.of_sub (fun _ hp => hp) fun _ hm => hm

/-- An import that returns has added the rows of an envelope. -/
theorem imported_of_eval {now : Instant} {mode : String} {payload : Json} {n : ImportCounts}
    (h : (import_memory iso now mode payload).eval (S := storeSig F) (serve_call hash_content) db
      = (.ok n, db')) : ∃ ps ms, Imported iso ps ms db db' := by
  by_cases hmode : mode ≠ "merge" ∧ mode ≠ "replace"
  · rw [import_memory.eq_def, if_pos hmode] at h
    cases (Prod.mk.inj h).1
  by_cases hdict : ∃ fields, payload = .dict fields
  · obtain ⟨fields, rfl⟩ := hdict
    have hpayload : (import_payload iso now fields).eval (S := storeSig F) (serve_call hash_content) db
        = (.ok n, db') := by
      by_cases hreplace : mode = "replace"
      · subst hreplace
        rw [eval_import_replace] at h
        split at h
        · exact h
        · cases (Prod.mk.inj h).1
      · have hmerge : mode = "merge" := by
          by_contra hne
          exact hmode ⟨hne, hreplace⟩
        subst hmerge
        rw [import_memory_merge] at h
        exact h
    obtain ⟨ps, ms, -, -, himported⟩ := imported_of_payload hpayload
    exact ⟨ps, ms, himported⟩
  · rw [import_memory.eq_def, if_neg hmode] at h
    split at h
    · exact absurd ⟨_, rfl⟩ hdict
    · cases (Prod.mk.inj h).1

/-- **Every reachable store holds instants that `datetime` can hold.** -/
theorem Reached.dated (h : Reached iso hash_content db) : db.Dated := by
  induction h with
  | empty => exact ⟨by simp, by simp⟩
  | write _ hw happ ih => exact dated_apply ih hw happ
  | imported _ hrun ih =>
      obtain ⟨ps, ms, himported⟩ := imported_of_eval hrun
      exact himported.dated ih

end Dates

/-! ## What an exported row reads as -/

section Rows

variable (iso : IsoFormat)

/-- What an exported project is read as. -/
def project_entry (p : Project) : ProjectEntry where
  id := p.id
  name := p.name
  created_at := iso.isoformat p.created_at
  metadata := some p.metadata

/-- What an exported memory is read as. The flag is a boolean here, so that nothing is left to
interpret. -/
def memory_entry (m : MemoryItem) : MemoryEntry where
  id := m.id
  content := m.content
  created_at := iso.isoformat m.created_at
  updated_at := m.updated_at.map iso.isoformat
  tags := some m.tags
  source := some m.source
  project_id := m.project_id.map Text.ofString
  pinned := .bool m.pinned

variable {iso}

theorem ofString_eq_nil {s : String} : Text.ofString s = [] ↔ s = "" := by
  constructor
  · intro h
    apply Text.ofString_injective
    rw [h]
    rfl
  · rintro rfl
    rfl

/-- The validator reads the exported row, unless its id or its name is empty. -/
theorem reads_project_payload {p : Project} (hp : p.Dated) (hid : p.id ≠ "") (hname : p.name ≠ "") :
    (project_entry iso p).ReadsRow iso (project_payload iso p) := by
  refine ⟨_, rfl, rfl, ?_, rfl, ?_, rfl, ?_, rfl⟩
  · exact fun h => hid (ofString_eq_nil.mp h)
  · exact fun h => hname (ofString_eq_nil.mp h)
  · exact ⟨_, check_isoformat hp⟩

variable (iso) in
/-- The validator reads every exported memory with an id; an empty source passes. -/
theorem reads_memory_payload {m : MemoryItem} (hm : m.Dated) (hid : m.id ≠ "") :
    ∃ fields, memory_payload iso m = .dict fields ∧ (memory_entry iso m).Reads iso fields := by
  refine ⟨_, rfl, rfl, ?_, rfl, rfl, ?_, ?_, ?_, rfl, rfl, ?_, rfl⟩
  · exact fun h => hid (ofString_eq_nil.mp h)
  · exact ⟨_, check_isoformat hm.1⟩
  · show (m.updated_at.map fun u => Json.str (iso.isoformat u)).getD .null
      = ((m.updated_at.map iso.isoformat).map Json.str).getD .null
    rw [Option.map_map]
    rfl
  · intro u hu
    obtain ⟨t, ht, rfl⟩ := Option.map_eq_some_iff.mp hu
    exact ⟨t, check_isoformat (hm.2 t ht)⟩
  · show (m.project_id.map fun p => Json.str (Text.ofString p)).getD .null
      = ((m.project_id.map Text.ofString).map Json.str).getD .null
    rw [Option.map_map]
    rfl

/-- Whatever reads the row is its entry. -/
theorem project_entry_of_reads {p : Project} {e : ProjectEntry}
    (h : e.ReadsRow iso (project_payload iso p)) :
    e = project_entry iso p ∧ p.id ≠ "" ∧ p.name ≠ "" := by
  obtain ⟨fields, heq, hreads⟩ := h
  obtain rfl := Json.dict.inj heq
  have hid : Json.str p.id = .str e.id := hreads.id
  have hname : Json.str p.name = .str e.name := hreads.name
  have hat : Json.str (iso.isoformat p.created_at) = .str e.created_at := hreads.created_at
  have hmeta : some p.metadata = e.metadata :=
    optional_key (fun _ _ => Json.dict.inj) (fun _ => nofun) hreads.metadata
  have hid_ne := hreads.id_ne
  have hname_ne := hreads.name_ne
  obtain ⟨id, name, created_at, metadata⟩ := e
  simp only [Json.str.injEq] at hid hname hat hmeta
  subst hid hname hat hmeta
  refine ⟨rfl, ?_, ?_⟩
  · rintro h
    exact hid_ne (ofString_eq_nil.mpr h)
  · rintro h
    exact hname_ne (ofString_eq_nil.mpr h)

/-- What is read from an exported row is the entry of its memory. -/
theorem memory_entry_of_reads {m : MemoryItem} {known : List Text} {e : MemoryEntry}
    (h : e.ReadsRow iso known (memory_payload iso m)) : e = memory_entry iso m ∧ m.id ≠ "" := by
  obtain ⟨fields, heq, hreads, -⟩ := h
  obtain rfl := Json.dict.inj heq
  have hstr : Function.Injective Json.str := fun _ _ => Json.str.inj
  have hlist : Function.Injective fun tags : List Text => Json.list (tags.map Json.str) := by
    intro a b hab
    exact List.map_injective_iff.mpr hstr (Json.list.inj hab)
  have hid : Json.str m.id = .str e.id := hreads.id
  have hcontent : Json.str m.content = .str e.content := hreads.content
  have hat : Json.str (iso.isoformat m.created_at) = .str e.created_at := hreads.created_at
  have hpinned : Json.bool m.pinned = e.pinned := hreads.pinned
  have hupd : m.updated_at.map iso.isoformat = e.updated_at := by
    refine optional_key hstr (fun _ => nofun) ?_
    rw [Option.map_map]
    exact hreads.updated_at
  have htags : some m.tags = e.tags := optional_key hlist (fun _ => nofun) hreads.tags
  have hsource : some (Text.ofString m.source) = e.source :=
    optional_key hstr (fun _ => nofun) hreads.source
  have hproj : m.project_id.map Text.ofString = e.project_id := by
    refine optional_key hstr (fun _ => nofun) ?_
    rw [Option.map_map]
    exact hreads.project_id
  have hid_ne := hreads.id_ne
  obtain ⟨id, content, created_at, updated_at, tags, source, project_id, pinned⟩ := e
  simp only [Json.str.injEq] at hid hcontent hat hpinned hupd htags hsource hproj
  subst hid hcontent hat hpinned hupd htags hsource hproj
  refine ⟨rfl, ?_⟩
  rintro h
  exact hid_ne (ofString_eq_nil.mpr h)

/-- Rows that each have one reading are read as that. -/
theorem readings {α E : Type} {R : Json → E → Prop} {row : α → Json} {entry : α → E} {P : α → Prop}
    (hone : ∀ a e, R (row a) e → e = entry a ∧ P a) {l : List α} {es : List E}
    (h : List.Forall₂ R (l.map row) es) : es = l.map entry ∧ ∀ a ∈ l, P a := by
  induction l generalizing es with
  | nil => exact ⟨List.forall₂_nil_left_iff.mp h, by simp⟩
  | cons a rest ih =>
      obtain ⟨e, es', hrow, hrest, rfl⟩ := List.forall₂_cons_left_iff.mp h
      obtain ⟨rfl, ha⟩ := hone a e hrow
      obtain ⟨rfl, hall⟩ := ih hrest
      refine ⟨rfl, ?_⟩
      intro a' ha'
      rcases List.mem_cons.mp ha' with rfl | ha'
      · exact ha
      · exact hall a' ha'

/-- The value of the row is what was exported. -/
theorem value_project_entry {p : Project} (hp : p.Dated) : (project_entry iso p).value iso = some p := by
  have ht : iso.check (iso.isoformat p.created_at) = .ok p.created_at := check_isoformat hp
  simp only [ProjectEntry.value, project_entry, Text.encode_ofString, ht]
  rfl

/-- And the entry makes the memory again, but for its source. -/
theorem item_memory_entry {m : MemoryItem} (hm : m.Dated) (source : String) :
    (memory_entry iso m).item iso source = some { m with source } := by
  have ht : iso.check (iso.isoformat m.created_at) = .ok m.created_at := check_isoformat hm.1
  have hu : optional_instant iso (m.updated_at.map iso.isoformat) = some m.updated_at := by
    rcases hup : m.updated_at with _ | u
    · rfl
    · rw [Option.map_some, optional_instant, check_isoformat (hm.2 u hup)]
      rfl
  have hp : optional_string (m.project_id.map Text.ofString) = some m.project_id := by
    rcases m.project_id with _ | p
    · rfl
    · rw [Option.map_some, optional_string, Text.encode_ofString]
      rfl
  simp only [MemoryEntry.item, memory_entry, Text.encode_ofString, ht, hu, hp]
  rfl

/-- An empty source comes back as "import". -/
theorem stored_memory_entry {m : MemoryItem} (hm : m.Dated) :
    (memory_entry iso m).stored iso
      = some { m with source := if m.source = "" then "import" else m.source } := by
  have hsource : text_or (some (m.source : Text)) "import"
      = Text.ofString (if m.source = "" then "import" else m.source) := by
    split
    · next h =>
        rw [h]
        rfl
    · next h =>
        rcases htext : Text.ofString m.source with _ | ⟨c, rest⟩
        · exact absurd (ofString_eq_nil.mp htext) h
        · rfl
  rw [MemoryEntry.stored, show (memory_entry iso m).source = some (m.source : Text) from rfl, hsource]
  exact item_memory_entry hm _

end Rows

/-! ## The round trip -/

section RoundTrip

variable {iso : IsoFormat} {hash_content : String → String} {now now' : Instant} {db : Db F}

/-- An export leaves no project out. -/
theorem exported_projects_perm (db : Db F) : (exported_projects none db).Perm db.projects :=
  List.perm_insertionSort _ _

/-- An export leaves no memory out but the watermark. -/
theorem exported_items_perm (db : Db F) :
    (exported_items none db).Perm (db.items.filter (·.source ≠ WATERMARK_SOURCE)) := by
  exact db.list_memory_perm.filter _

/-- An export is an envelope. -/
theorem shaped_export (now : Instant) (db : Db F) : Shaped (export_memory iso now none db) fun
    | .projects => (exported_projects none db).map (project_payload iso)
    | .memory_items => (exported_items none db).map (memory_payload iso) := by
  refine ⟨rfl, ?_⟩
  intro collection
  cases collection with
  | projects => rfl
  | memory_items => rfl

/-- Exported rows have the dates of the store. -/
theorem dated_exported (hdb : db.Dated) :
    (∀ p ∈ exported_projects none db, p.Dated) ∧ ∀ m ∈ exported_items none db, m.Dated := by
  refine ⟨?_, ?_⟩
  · intro p hp
    exact hdb.projects p ((exported_projects_perm db).mem_iff.mp hp)
  · intro m hm
    have hin := (exported_items_perm db).mem_iff.mp hm
    obtain ⟨row, hrow, rfl⟩ := List.mem_map.mp (List.mem_filter.mp hin).1
    exact hdb.memories row hrow

/-- The entries of an export. -/
abbrev exported_project_entries (iso : IsoFormat) (db : Db F) : List ProjectEntry :=
  (exported_projects none db).map (project_entry iso)

abbrev exported_memory_entries (iso : IsoFormat) (db : Db F) : List MemoryEntry :=
  (exported_items none db).map (memory_entry iso)

/-- Whatever an export is accepted as, it is its own rows. -/
theorem entries_of_export {existing : List Text} {ps : List ProjectEntry} {ms : List MemoryEntry}
    (h : validate_envelope iso existing (export_memory iso now none db) = .ok (ps, ms)) :
    ps = exported_project_entries iso db ∧ ms = exported_memory_entries iso db
      ∧ (∀ p ∈ exported_projects none db, p.id ≠ "" ∧ p.name ≠ "")
      ∧ ∀ m ∈ exported_items none db, m.id ≠ "" := by
  obtain ⟨rows, hshape, hps, -, hms, -⟩ := validate_envelope_eq_ok.mp h
  obtain rfl := hshape.unique (shaped_export now db)
  obtain ⟨hps, hids⟩ := readings (fun _ _ => project_entry_of_reads) hps
  obtain ⟨hms, hids'⟩ := readings (fun _ _ => memory_entry_of_reads) hms
  exact ⟨hps, hms, hids, hids'⟩

variable (iso now) in
/-- A restorable store exports an envelope that is accepted. -/
theorem validate_export (hdb : db.Dated) (hr : Restorable db) (existing : List Text) :
    validate_envelope iso existing (export_memory iso now none db)
      = .ok (exported_project_entries iso db, exported_memory_entries iso db) := by
  obtain ⟨hpd, hmd⟩ := dated_exported hdb
  refine validate_envelope_eq_ok.mpr ⟨_, shaped_export now db, ?_, ?_, ?_, ?_⟩
  · refine List.forall₂_map_left_iff.mpr (List.forall₂_map_right_iff.mpr (List.forall₂_same.mpr ?_))
    intro p hp
    have hrow := hr.projects p ((exported_projects_perm db).mem_iff.mp hp)
    exact reads_project_payload (hpd p hp) hrow.1 hrow.2
  · have hids : (exported_project_entries iso db).map (·.id)
        = ((exported_projects none db).map (·.id)).map Text.ofString := by
      rw [List.map_map, List.map_map]
      rfl
    rw [hids]
    refine List.Nodup.map Text.ofString_injective ?_
    exact ((exported_projects_perm db).map _).nodup_iff.mpr db.project_pk
  · refine List.forall₂_map_left_iff.mpr (List.forall₂_map_right_iff.mpr (List.forall₂_same.mpr ?_))
    intro m hm
    have hin := List.mem_filter.mp ((exported_items_perm db).mem_iff.mp hm)
    have hrow := hr.memories m hin.1 (by simpa using hin.2)
    obtain ⟨fields, heq, hreads⟩ := reads_memory_payload iso (hmd m hm) hrow.1
    refine ⟨fields, heq, hreads, ?_⟩
    -- its project is in the store, so it is in the export
    intro q hq
    obtain ⟨p, hp, rfl⟩ := Option.map_eq_some_iff.mp hq
    obtain ⟨row, hrow', rfl⟩ := List.mem_map.mp hin.1
    obtain ⟨project, hproject, rfl⟩ := db.memory_fk row hrow' p hp
    refine List.mem_append_right _ (List.mem_map.mpr ⟨project_entry iso project, ?_, rfl⟩)
    exact List.mem_map_of_mem ((exported_projects_perm db).mem_iff.mpr hproject)
  · have hids : (exported_memory_entries iso db).map (·.id)
        = ((exported_items none db).map (·.id)).map Text.ofString := by
      rw [List.map_map, List.map_map]
      rfl
    rw [hids]
    refine List.Nodup.map Text.ofString_injective ?_
    have hitems : (db.items.map (·.id)).Nodup := by
      rw [Db.items, List.map_map]
      exact db.memory_pk
    refine ((exported_items_perm db).map _).nodup_iff.mpr ?_
    exact hitems.sublist (List.filter_sublist.map _)

/-- The memory as the restore stores it. -/
def restored (m : MemoryItem) : MemoryItem :=
  { m with source := if m.source = "" then "import" else m.source }

/-- In an empty store no id is taken and no project is known by name. -/
theorem texts_of_empty {dst : Db F} (hprojects : dst.projects = []) (hitems : dst.memory_items = []) :
    dst.list_projects = [] ∧ dst.list_memory (some 1) false 0 none none none false = []
      ∧ dst.project_texts = [] ∧ dst.memory_texts = [] := by
  simp [Db.project_texts, Db.memory_texts, Db.list_projects, Db.list_memory, Db.items, hprojects,
    hitems, Db.pinned_first]

/-- What is in an empty store after the import of an export. -/
theorem Imported.restores {dst db' : Db F} (hprojects : dst.projects = [])
    (hitems : dst.memory_items = []) (hdb : db.Dated)
    (h : Imported iso (exported_project_entries iso db) (exported_memory_entries iso db) dst db') :
    db'.projects = exported_projects none db ∧ db'.items = (exported_items none db).map restored := by
  obtain ⟨-, -, htexts, htexts'⟩ := texts_of_empty hprojects hitems
  obtain ⟨hpd, hmd⟩ := dated_exported hdb
  constructor
  · have hnew : new_projects dst.project_texts (exported_project_entries iso db)
        = exported_project_entries iso db := by
      rw [new_projects, htexts]
      simp
    rw [h.projects, hprojects, hnew, List.nil_append, List.filterMap_map]
    conv_rhs => rw [← List.filterMap_some (l := exported_projects none db)]
    refine List.filterMap_congr ?_
    intro p hp
    exact value_project_entry (hpd p hp)
  · obtain ⟨added, hadd, hadded⟩ := h.memories
    have hnew : new_memories dst.memory_texts (exported_memory_entries iso db)
        = exported_memory_entries iso db := by
      rw [new_memories, htexts', List.filter_eq_self]
      intro e he
      obtain ⟨m, hm, rfl⟩ := List.mem_map.mp he
      have hsource : m.source ≠ WATERMARK_SOURCE := by
        simpa using (List.mem_filter.mp hm).2
      have hnot : (memory_entry iso m).is_watermark = false := by
        rw [MemoryEntry.is_watermark, decide_eq_false_iff_not]
        intro heq
        exact hsource (Text.ofString_injective (Option.some.inj heq))
      simp [hnot]
    rw [Db.items, hadd, hitems, List.nil_append, hadded, hnew, List.filterMap_map,
      ← List.filterMap_eq_map]
    refine List.filterMap_congr ?_
    intro m hm
    exact stored_memory_entry (hmd m hm)

/-- The texts of a store can be bound to a statement again, as they were. -/
theorem bindable_export (dst : Db F) :
    Bindable dst (exported_project_entries iso db) (exported_memory_entries iso db) := by
  refine ⟨?_, ?_⟩
  · intro e he
    obtain ⟨p, -, rfl⟩ := List.mem_map.mp (List.mem_filter.mp he).1
    simp [project_entry, Text.encode_ofString]
  · intro e he
    obtain ⟨m, -, rfl⟩ := List.mem_map.mp (List.mem_filter.mp he).1
    simp [memory_entry, Text.encode_ofString]

variable (iso hash_content now now') in
/-- **When an export restores the store**: for every reachable store, exactly if no project
has an empty id or name, and no memory but the watermark an empty id or source. An empty id or
name is refused by the validator, and an empty source is replaced. -/
theorem round_trip_iff (h : Reached iso hash_content db) :
    RoundTrips iso hash_content now now' db ↔ Restorable db := by
  have hdb := h.dated
  constructor
  · intro hround
    obtain ⟨n, db', hrun, -, hitems⟩ := hround {} rfl rfl
    rw [eval_import_replace, if_pos (by exact ⟨rfl, rfl⟩)] at hrun
    obtain ⟨ps, ms, hvalid, -, himported⟩ := imported_of_payload hrun
    obtain ⟨rfl, rfl, hprojects, hids⟩ := entries_of_export hvalid
    obtain ⟨-, hrestored⟩ := himported.restores rfl rfl hdb
    refine ⟨?_, ?_⟩
    · intro p hp
      exact hprojects p ((exported_projects_perm db).mem_iff.mpr hp)
    · intro m hm hsource
      have hexported : m ∈ exported_items none db := by
        refine (exported_items_perm db).mem_iff.mpr (List.mem_filter.mpr ⟨hm, ?_⟩)
        simpa using hsource
      refine ⟨hids m hexported, ?_⟩
      -- the restored copy is among the memories, and there is one with its id
      intro hempty
      have hin : restored m ∈ db.items := by
        have hback : restored m ∈ db'.items := by
          rw [hrestored]
          exact List.mem_map_of_mem hexported
        exact (List.mem_filter.mp (hitems.mem_iff.mp hback)).1
      rw [Db.mem_items_iff] at hm hin
      have hsame : restored m = m := by
        have hid : (restored m).id = m.id := rfl
        rw [hid, hm] at hin
        exact (Option.some.inj hin).symm
      have hsrc : (restored m).source = "import" := if_pos hempty
      rw [hsame, hempty] at hsrc
      exact absurd hsrc (by decide)
  · intro hr dst hprojects hitems
    obtain ⟨hlist, hlist', -, -⟩ := texts_of_empty hprojects hitems
    have hvalid := validate_export iso now hdb hr dst.project_texts
    obtain ⟨db', hdone, himported⟩ :=
      (perform_import_rows hash_content now' (validated_of_ok hvalid)).1 (bindable_export dst)
    obtain ⟨hprojects', hitems'⟩ := himported.restores hprojects hitems hdb
    refine ⟨import_counts dst.project_texts dst.memory_texts (exported_project_entries iso db)
      (exported_memory_entries iso db), db', ?_, ?_, ?_⟩
    · rw [eval_import_replace, if_pos ⟨hlist, hlist'⟩, eval_import_payload, hvalid]
      dsimp only
      rw [hdone]
    · rw [hprojects']
      exact exported_projects_perm db
    · have hsame : (exported_items none db).map restored = exported_items none db := by
        refine (List.map_congr_left ?_).trans (List.map_id _)
        intro m hm
        have hin := List.mem_filter.mp ((exported_items_perm db).mem_iff.mp hm)
        have hne := (hr.memories m hin.1 (by simpa using hin.2)).2
        rw [restored, if_neg hne]
        rfl
      rw [hitems', hsame]
      exact exported_items_perm db

end RoundTrip

/-! ### Stores that do and do not come back -/

namespace Restore

def project (name : String) : Project := { id := "p", name, created_at := 0 }

def memory : MemoryItem := { id := "m", content := "text", created_at := 0, project_id := some "p" }

theorem epoch_in_range : InRange 0 := by
  rw [InRange, MIN_INSTANT, MAX_INSTANT]
  decide

/-- A store with one project of this name, and nothing else. -/
def named (name : String) : Db Unit where
  projects := [project name]
  project_pk := by simp

/-- Such a store can be made with one call. -/
theorem reached_named (name : String) : Reached Surrogate.iso id (named name) := by
  refine Reached.empty.write (w := .add_project (project name)) epoch_in_range ?_
  rfl

/-- A project and a memory in it come back. -/
def stored : Db Unit where
  projects := [project "notes"]
  memory_items := [{ memory with rowid := 1 }]
  project_pk := by simp
  memory_pk := by simp
  rowid_pk := by simp
  memory_fk := by
    intro m hm p hp
    rw [List.mem_singleton.mp hm] at hp
    exact ⟨project "notes", List.mem_cons_self, Option.some.inj hp⟩

theorem reached_stored : Reached Surrogate.iso id stored := by
  refine (reached_named "notes").write (w := .add_memory memory) ⟨epoch_in_range, nofun⟩ ?_
  rfl

theorem round_trip_iff_sample : Reached Surrogate.iso id stored
    ∧ RoundTrips Surrogate.iso id 0 0 stored := by
  refine ⟨reached_stored, (round_trip_iff Surrogate.iso id 0 0 reached_stored).mpr ⟨?_, ?_⟩⟩
  · intro p hp
    rw [List.mem_singleton.mp hp]
    decide
  · intro m hm _
    obtain ⟨row, hrow, rfl⟩ := List.mem_map.mp hm
    rw [List.mem_singleton.mp hrow]
    decide

/-- `create_project` with an empty name: the export is refused. -/
theorem empty_name_is_refused : Reached Surrogate.iso id (named "")
    ∧ (import_memory Surrogate.iso 0 "replace" (.dict (export_memory Surrogate.iso 0 none (named "")))).eval
        (S := storeSig Unit) (serve_call id) {}
      = (.error (.ValidationError (.invalid_row .projects 0 (some (Text.ofString "p"))
          (.not_a_string "name" "str"))), {})
    ∧ ¬ RoundTrips Surrogate.iso id 0 0 (named "") := by
  have hrun : (import_memory Surrogate.iso 0 "replace"
      (.dict (export_memory Surrogate.iso 0 none (named "")))).eval
        (S := storeSig Unit) (serve_call id) {}
      = (.error (.ValidationError (.invalid_row .projects 0 (some (Text.ofString "p"))
          (.not_a_string "name" "str"))), {}) := rfl
  refine ⟨reached_named "", hrun, ?_⟩
  intro hround
  obtain ⟨n, db', hback, -⟩ := hround {} rfl rfl
  rw [hrun] at hback
  cases (Prod.mk.inj hback).1

end Restore

end OpenChronicle
