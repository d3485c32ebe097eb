/-
`import_memory.execute` with `mode="merge"`: a union by id, all or nothing.

`Merged` says what a merge is for, in terms of the rows of the envelope: what they hold is
added where the id is absent, everything else stays. The code does that, with two
exceptions. An empty source is taken for a missing one, and `pinned`, which no check looks
at, goes through `bool`, so that any text in it but the empty one pins the memory.

What a row holds is fixed by `Reads`, key by key, and by `value`, which keeps the row's own
source and knows no flag but a boolean. So the rows that a merge stores are compared with
what the envelope says and not with what the loop makes of it. The condition is `Literal`,
asked of each row that is added.

Of the rest, `Imported` is what the two loops leave in the store when nothing raises, and
`Bindable` when that is; both are of the write phase. That a second import changes nothing
is shown on the store that the first one left: all its rows are there, so both loops pass
over every row.
-/
import OpenChronicle.Transfer.WritePhase

set_option autoImplicit false

namespace OpenChronicle

open Program PyStr

variable {F : Type}

/-! ## What a row says -/

section Reading

variable {iso : IsoFormat}

/-- A key that may be missing or null, and is written as null when it is: what is read is the same. -/
theorem optional_key {α : Type} {f : α → Json} (hinj : Function.Injective f)
    (hnull : ∀ a, f a ≠ .null) {o o' : Option α}
    (h : (o.map f).getD .null = (o'.map f).getD .null) : o = o' := by
  rcases o with _ | a <;> rcases o' with _ | b
  · rfl
  · exact absurd h.symm (hnull b)
  · exact absurd h (hnull a)
  · rw [hinj h]

/-- A row holds one entry. -/
theorem ProjectEntry.Reads.unique {fields : Json.Dict} {e e' : ProjectEntry}
    (h : e.Reads iso fields) (h' : e'.Reads iso fields) : e = e' := by
  have hid := h.id.symm.trans h'.id
  have hname := h.name.symm.trans h'.name
  have hat := h.created_at.symm.trans h'.created_at
  have hmeta := optional_key (fun _ _ => Json.dict.inj) (fun _ => nofun)
    (h.metadata.symm.trans h'.metadata)
  obtain ⟨id, name, created_at, metadata⟩ := e
  obtain ⟨id', name', created_at', metadata'⟩ := e'
  simp only [Json.str.injEq] at hid hname hat hmeta
  rw [hid, hname, hat, hmeta]

theorem MemoryEntry.Reads.unique {fields : Json.Dict} {e e' : MemoryEntry}
    (h : e.Reads iso fields) (h' : e'.Reads iso fields) : e = e' := by
  have hstr : Function.Injective Json.str := fun _ _ => Json.str.inj
  have hlist : Function.Injective fun tags : List Text => Json.list (tags.map Json.str) := by
    intro a b hab
    exact List.map_injective_iff.mpr hstr (Json.list.inj hab)
  have hid := h.id.symm.trans h'.id
  have hcontent := h.content.symm.trans h'.content
  have hat := h.created_at.symm.trans h'.created_at
  have hupd := optional_key hstr (fun _ => nofun) (h.updated_at.symm.trans h'.updated_at)
  have htags := optional_key hlist (fun _ => nofun) (h.tags.symm.trans h'.tags)
  have hsource := optional_key hstr (fun _ => nofun) (h.source.symm.trans h'.source)
  have hproj := optional_key hstr (fun _ => nofun) (h.project_id.symm.trans h'.project_id)
  have hpinned := h.pinned.symm.trans h'.pinned
  obtain ⟨id, content, created_at, updated_at, tags, source, project_id, pinned⟩ := e
  obtain ⟨id', content', created_at', updated_at', tags', source', project_id', pinned'⟩ := e'
  simp only [Json.str.injEq] at hid hcontent hat hupd htags hsource hproj hpinned
  rw [hid, hcontent, hat, hupd, htags, hsource, hproj, hpinned]

/-- The same for rows, for use with lists of them. -/
theorem ProjectEntry.readsRow_unique : Relator.RightUnique (ProjectEntry.ReadsRow iso) := by
  rintro row e e' ⟨fields, rfl, h⟩ ⟨fields', heq, h'⟩
  obtain rfl := Json.dict.inj heq
  exact h.unique h'

/-- For memories the known projects are part of what a row says. -/
theorem MemoryEntry.readsRow_unique {known : List Text} :
    Relator.RightUnique (MemoryEntry.ReadsRow iso known) := by
  rintro row e e' ⟨fields, rfl, h, -⟩ ⟨fields', heq, h', -⟩
  obtain rfl := Json.dict.inj heq
  exact h.unique h'

/-- So the rows of an envelope are determined by it, and `Merged` fixes the store that it speaks of. -/
theorem Shaped.unique {payload : Json.Dict} {rows rows' : Collection → List Json}
    (h : Shaped payload rows) (h' : Shaped payload rows') : rows = rows' := by
  funext collection
  exact Json.list.inj ((h.arrays collection).symm.trans (h'.arrays collection))

end Reading

/-! ## The union -/

/-- What a merge is to leave, given the rows of the envelope and what they hold. -/
structure Union (iso : IsoFormat) (rows : Collection → List Json) (ps : List ProjectEntry)
    (ms : List MemoryEntry) (db db' : Db F) (n : ImportCounts) : Prop where
  projects : ∃ added, db'.projects = db.projects ++ added
    ∧ (new_projects db.project_texts ps).map (·.value iso) = added.map some
  memories : ∃ added, db'.memory_items = db.memory_items ++ added
    ∧ (new_memories db.memory_texts ms).map (·.value iso) = added.map fun m => some m.toMemoryItem
  embeddings : db'.memory_embeddings = db.memory_embeddings
  project_counts : n.projects_added + n.projects_skipped = (rows .projects).length
  memory_counts : n.memory_added + n.memory_skipped + n.watermark_dropped
    = (rows .memory_items).length

/-- The payload is an envelope, and the store is the union. -/
def Merged (iso : IsoFormat) (payload : Json) (db db' : Db F) (n : ImportCounts) : Prop :=
  ∃ fields rows ps ms, payload = .dict fields ∧ Shaped fields rows
    ∧ List.Forall₂ (ProjectEntry.ReadsRow iso) (rows .projects) ps
    ∧ List.Forall₂ (MemoryEntry.ReadsRow iso (db.project_texts ++ ps.map (·.id)))
      (rows .memory_items) ms
    ∧ Union iso rows ps ms db db' n

/-- What a merge promises: it raises and leaves the store alone, or the union is there and
the same payload adds nothing to it. -/
def AllOrNothing (iso : IsoFormat) (hash_content : String → String) (now now' : Instant)
    (payload : Json) (db : Db F) : Prop :=
  match (import_memory iso now "merge" payload).eval (S := storeSig F) (serve_call hash_content) db with
  | (.error _, db') => db' = db
  | (.ok n, db') => Merged iso payload db db' n
      ∧ ∃ n', (import_memory iso now' "merge" payload).eval (S := storeSig F) (serve_call hash_content)
          db' = (.ok n', db') ∧ n'.projects_added = 0 ∧ n'.memory_added = 0

section Merge

variable {iso : IsoFormat} {hash_content : String → String} {now : Instant} {db db' : Db F}
  {ps : List ProjectEntry} {ms : List MemoryEntry}

/-- What was added and what was passed over are together what the envelope has. -/
theorem import_counts_projects (existing existing' : List Text) :
    (import_counts existing existing' ps ms).projects_added
      + (import_counts existing existing' ps ms).projects_skipped = ps.length := by
  simp only [import_counts, new_projects]
  rw [← List.countP_eq_length_filter, Nat.add_comm,
    List.length_eq_countP_add_countP (fun e : ProjectEntry => decide (e.id ∈ existing))]
  congr 1
  refine List.countP_congr ?_
  intro e _
  simp

/-- Watermark rows are counted apart. -/
theorem import_counts_memories (existing existing' : List Text) :
    (import_counts existing existing' ps ms).memory_added
      + (import_counts existing existing' ps ms).memory_skipped
      + (import_counts existing existing' ps ms).watermark_dropped = ms.length := by
  simp only [import_counts, new_memories]
  rw [← List.countP_eq_length_filter]
  induction ms with
  | nil => rfl
  | cons e rest ih =>
      simp only [decide_not] at ih
      simp only [decide_not, List.countP_cons, List.length_cons]
      rcases e.is_watermark with _ | _
      · by_cases he : e.id ∈ existing'
        · simp [he]
          omega
        · simp [he]
          omega
      · simp
        omega

/-- All rows that were to be added have a value, so the values are theirs one by one. -/
theorem map_eq_filterMap {E α : Type} {es : List E} {value : E → Option α}
    (h : ∀ e ∈ es, (value e).isSome) : es.map value = (es.filterMap value).map some := by
  induction es with
  | nil => rfl
  | cons e rest ih =>
      obtain ⟨a, ha⟩ := Option.isSome_iff_exists.mp (h e List.mem_cons_self)
      rw [List.map_cons, List.filterMap_cons_some ha, List.map_cons, ha,
        ih fun e' he' => h e' (List.mem_cons_of_mem _ he')]

/-- An import keeps the projects of the store. -/
theorem Imported.keeps_projects (h : Imported iso ps ms db db') {t : Text}
    (ht : t ∈ db.project_texts) : t ∈ db'.project_texts := by
  obtain ⟨p, hp, rfl⟩ := List.mem_map.mp ht
  rw [mem_project_texts, h.projects, List.map_append, List.mem_append]
  exact .inl (mem_project_texts.mp ht)

/-- After an import every project of the envelope is there. -/
theorem Imported.has_project (h : Imported iso ps ms db db')
    (hps : ∀ e ∈ new_projects db.project_texts ps, (e.value iso).isSome) {e : ProjectEntry}
    (he : e ∈ ps) : e.id ∈ db'.project_texts := by
  by_cases hold : e.id ∈ db.project_texts
  · exact h.keeps_projects hold
  · -- a row that was new is one of those the import added
    have hnew : e ∈ new_projects db.project_texts ps :=
      List.mem_filter.mpr ⟨he, by simpa using hold⟩
    obtain ⟨p, hp⟩ := Option.isSome_iff_exists.mp (hps e hnew)
    rw [ProjectEntry.id_of_value hp, mem_project_texts, h.projects, List.map_append,
      List.mem_append]
    exact .inr (List.mem_map_of_mem (List.mem_filterMap.mpr ⟨e, hnew, hp⟩))

/-- After an import every memory of the envelope is there, watermarks apart. -/
theorem Imported.has_memory (h : Imported iso ps ms db db')
    (hms : ∀ e ∈ new_memories db.memory_texts ms, (e.stored iso).isSome) {e : MemoryEntry}
    (he : e ∈ ms) (hw : e.is_watermark = false) : e.id ∈ db'.memory_texts := by
  obtain ⟨added, hitems, hadded⟩ := h.memories
  by_cases hold : e.id ∈ db.memory_texts
  · obtain ⟨m, hm, hid⟩ := List.mem_map.mp hold
    rw [← hid] at hold ⊢
    rw [mem_memory_texts, hitems, List.map_append, List.mem_append]
    exact .inl (mem_memory_texts.mp hold)
  · have hnew : e ∈ new_memories db.memory_texts ms :=
      List.mem_filter.mpr ⟨he, by simp [hw, hold]⟩
    obtain ⟨m, hm⟩ := Option.isSome_iff_exists.mp (hms e hnew)
    have hstored : m ∈ added.map (·.toMemoryItem) := by
      rw [hadded]
      exact List.mem_filterMap.mpr ⟨e, hnew, hm⟩
    obtain ⟨row, hrow, rfl⟩ := List.mem_map.mp hstored
    rw [(MemoryEntry.keys_of_item hm).1, mem_memory_texts, hitems, List.map_append,
      List.mem_append]
    exact .inr (List.mem_map_of_mem hrow)

/-- After an import nothing of the envelope is new. -/
theorem Imported.nothing_new (h : Imported iso ps ms db db') (hv : Validated iso db.project_texts ps ms)
    (hb : Bindable db ps ms) :
    new_projects db'.project_texts ps = [] ∧ new_memories db'.memory_texts ms = []
      ∧ ∀ t ∈ db.project_texts, t ∈ db'.project_texts := by
  obtain ⟨hps, hms⟩ := (bindable_iff hv).mp hb
  refine ⟨?_, ?_, fun t ht => h.keeps_projects ht⟩
  · rw [new_projects, List.filter_eq_nil_iff]
    intro e he
    simpa using h.has_project hps he
  · rw [new_memories, List.filter_eq_nil_iff]
    intro e he
    rcases hw : e.is_watermark with _ | _
    · simpa using h.has_memory hms he hw
    · simp

/-- With nothing new in the envelope the block does nothing. -/
theorem perform_nothing_new (hv : Validated iso db.project_texts ps ms)
    (hps : new_projects db.project_texts ps = []) (hms : new_memories db.memory_texts ms = []) :
    perform hash_content (import_rows iso now db.project_texts db.memory_texts ps ms) db
      = (.ok (), db) := by
  have hfirst := (spec_projects hash_content now hv).1 db (by rw [hps]; simp) (by rw [hps]; rfl)
  have hsecond := (spec_memories hash_content now db.memory_texts hv db).1 db
    (by rw [hms]; simp) (by rw [hms]; rfl)
  have hplain : (Script.seq (in_turn (ps.map (import_project iso now db.project_texts)))
      (in_turn (ms.map (import_item iso now db.memory_texts))) : Script F).Plain :=
    plain_loops now db.project_texts db.memory_texts
  have hrun : (Script.seq (in_turn (ps.map (import_project iso now db.project_texts)))
      (in_turn (ms.map (import_item iso now db.memory_texts)))).spec hash_content true db
      = (.normal, db) := by
    rw [Script.spec, hfirst]
    exact hsecond
  rcases perform_block hash_content hplain db with ⟨db', hspec, hdone⟩ | ⟨e, db', hspec, -⟩
  · rw [hrun] at hspec
    obtain ⟨-, rfl⟩ := Prod.mk.inj hspec
    exact hdone
  · rw [hrun] at hspec
    cases (Prod.mk.inj hspec).1

/-- An envelope that was accepted is accepted where there are more projects. -/
theorem validate_envelope_mono {existing existing' : List Text} {payload : Json.Dict}
    (hsub : ∀ t ∈ existing, t ∈ existing')
    (h : validate_envelope iso existing payload = .ok (ps, ms)) :
    validate_envelope iso existing' payload = .ok (ps, ms) := by
  obtain ⟨rows, hshape, hps, hnodup, hms, hnodup'⟩ := validate_envelope_eq_ok.mp h
  refine validate_envelope_eq_ok.mpr ⟨rows, hshape, hps, hnodup, hms.imp ?_, hnodup'⟩
  rintro row e ⟨fields, hrow, hreads, hknown⟩
  refine ⟨fields, hrow, hreads, ?_⟩
  intro p hp
  rcases List.mem_append.mp (hknown p hp) with hin | hin
  · exact List.mem_append_left _ (hsub p hin)
  · exact List.mem_append_right _ hin

/-- The same payload again. -/
theorem import_again {now' : Instant} {payload : Json.Dict}
    (hvalid : validate_envelope iso db.project_texts payload = .ok (ps, ms))
    (hb : Bindable db ps ms) (h : Imported iso ps ms db db') :
    ∃ n', (import_payload iso now' payload).eval (S := storeSig F) (serve_call hash_content) db'
        = (.ok n', db') ∧ n'.projects_added = 0 ∧ n'.memory_added = 0 := by
  obtain ⟨hps, hms, hkept⟩ := h.nothing_new (validated_of_ok hvalid) hb
  have hvalid' := validate_envelope_mono hkept hvalid
  refine ⟨import_counts db'.project_texts db'.memory_texts ps ms, ?_, ?_, ?_⟩
  · rw [eval_import_payload, hvalid']
    dsimp only
    rw [perform_nothing_new (validated_of_ok hvalid') hps hms]
  · simp only [import_counts, hps, List.length_nil]
  · simp only [import_counts, hms, List.length_nil]

/-- The import is the union, as long as the rows to be stored are literal. -/
theorem Imported.union {rows : Collection → List Json}
    (h : Imported iso ps ms db db') (hv : Validated iso db.project_texts ps ms)
    (hb : Bindable db ps ms) (hps : List.Forall₂ (ProjectEntry.ReadsRow iso) (rows .projects) ps)
    (hms : List.Forall₂ (MemoryEntry.ReadsRow iso (db.project_texts ++ ps.map (·.id)))
      (rows .memory_items) ms)
    (hliteral : ∀ e ∈ new_memories db.memory_texts ms, e.Literal) :
    Union iso rows ps ms db db' (import_counts db.project_texts db.memory_texts ps ms) := by
  obtain ⟨hsome, hsome'⟩ := (bindable_iff hv).mp hb
  obtain ⟨added, hitems, hadded⟩ := h.memories
  refine ⟨⟨_, h.projects, map_eq_filterMap hsome⟩, ⟨added, hitems, ?_⟩, h.embeddings, ?_, ?_⟩
  · have hsame : (new_memories db.memory_texts ms).map (·.value iso)
        = (new_memories db.memory_texts ms).map (·.stored iso) := by
      refine List.map_congr_left ?_
      intro e he
      exact (hliteral e he).stored_eq_value.symm
    rw [hsame, map_eq_filterMap hsome', ← hadded, List.map_map]
    rfl
  · rw [hps.length_eq]
    exact import_counts_projects _ _
  · rw [hms.length_eq]
    exact import_counts_memories _ _

/-- Another row is not stored with the value it has. -/
theorem stored_ne_value {e : MemoryEntry} (h : ¬ e.Literal) (hsome : (e.stored iso).isSome) :
    e.value iso ≠ e.stored iso := by
  intro heq
  obtain ⟨m, hm⟩ := Option.isSome_iff_exists.mp hsome
  have hvalue : e.value iso = some m := heq.trans hm
  rw [MemoryEntry.value] at hvalue
  simp only [Option.bind_eq_bind, Option.bind_eq_some_iff, Option.pure_def, Option.some.injEq] at hvalue
  obtain ⟨pinned, hflag, m', hm', rfl⟩ := hvalue
  by_cases hpinned : e.pinned = .null ∨ ∃ b, e.pinned = .bool b
  · -- then the source is empty, and the stored one is not
    have hempty : e.source = some [] := by
      by_contra hsource
      exact h ⟨hsource, hpinned⟩
    have hstored := (MemoryEntry.keys_of_item hm).2.1
    have hown := (MemoryEntry.keys_of_item hm').2.1
    rw [hempty] at hstored hown
    have hboth : Text.ofString "import" = [] := hstored.trans hown.symm
    exact absurd hboth (by decide)
  · -- the row states no flag
    rw [flag_none hpinned] at hflag
    cases hflag

/-- With such a row, the import is not the union. -/
theorem Imported.not_union {rows : Collection → List Json} {n : ImportCounts}
    (h : Imported iso ps ms db db') (hv : Validated iso db.project_texts ps ms)
    (hb : Bindable db ps ms) {e : MemoryEntry} (he : e ∈ new_memories db.memory_texts ms)
    (hother : ¬ e.Literal) : ¬ Union iso rows ps ms db db' n := by
  intro hunion
  have hsome := ((bindable_iff hv).mp hb).2
  obtain ⟨added, hitems, hadded⟩ := h.memories
  obtain ⟨added', hitems', hadded'⟩ := hunion.memories
  obtain rfl : added = added' := List.append_cancel_left (hitems.symm.trans hitems')
  -- both lists are the stored memories, row by row
  have hstored : (new_memories db.memory_texts ms).map (·.stored iso)
      = added.map fun m => some m.toMemoryItem := by
    rw [map_eq_filterMap hsome, ← hadded, List.map_map]
    rfl
  have hsame := List.map_inj_left.mp (hadded'.trans hstored.symm) e he
  exact stored_ne_value hother (hsome e he) hsame

/-- The rows of the payload are fixed, so no other reading of it makes the union right. -/
theorem Imported.not_merged {payload : Json.Dict} {n : ImportCounts} (h : Imported iso ps ms db db')
    (hvalid : validate_envelope iso db.project_texts payload = .ok (ps, ms)) (hb : Bindable db ps ms)
    {e : MemoryEntry} (he : e ∈ new_memories db.memory_texts ms) (hother : ¬ e.Literal) :
    ¬ Merged iso (.dict payload) db db' n := by
  rintro ⟨fields, rows₁, ps₁, ms₁, heq, hshape₁, hps₁, hms₁, hunion⟩
  obtain rfl := Json.dict.inj heq
  obtain ⟨rows, hshape, hps, -, hms, -⟩ := validate_envelope_eq_ok.mp hvalid
  -- the rows of the payload, and so the entries, are those that were accepted
  obtain rfl := hshape.unique hshape₁
  obtain rfl := ProjectEntry.readsRow_unique.forall₂ hps hps₁
  obtain rfl := MemoryEntry.readsRow_unique.forall₂ hms hms₁
  exact h.not_union (validated_of_ok hvalid) hb he hother hunion

variable (iso hash_content now db) in
/-- **When a merge is all or nothing**: exactly if every row that it adds is literal. An empty
source is taken for a missing one and stored as "import", and of a `pinned` that is no flag
the truth of its value is stored. -/
theorem merge_all_or_nothing_iff (now' : Instant) (payload : Json) :
    AllOrNothing iso hash_content now now' payload db
      ↔ ∀ fields ps ms, payload = .dict fields →
        validate_envelope iso db.project_texts fields = .ok (ps, ms) → Bindable db ps ms →
        ∀ e ∈ new_memories db.memory_texts ms, e.Literal := by
  by_cases hdict : ∃ fields, payload = .dict fields
  · obtain ⟨fields, rfl⟩ := hdict
    rw [AllOrNothing, import_memory_merge, import_memory_merge, eval_import_payload]
    rcases hvalid : validate_envelope iso db.project_texts fields with e | ⟨ps, ms⟩
    · -- rejected before anything was written
      refine ⟨?_, fun _ => rfl⟩
      rintro - fields' ps ms heq hvalid'
      obtain rfl := Json.dict.inj heq
      rw [hvalid] at hvalid'
      cases hvalid'
    · have hv := validated_of_ok hvalid
      obtain ⟨rows, hshape, hps, hnodup, hms, hnodup'⟩ := validate_envelope_eq_ok.mp hvalid
      dsimp only
      by_cases hb : Bindable db ps ms
      · -- everything can be bound, so the loops go through
        obtain ⟨db', hdone, himported⟩ := (perform_import_rows hash_content now hv).1 hb
        rw [hdone]
        dsimp only
        constructor
        · rintro ⟨hmerged, -⟩ fields' ps' ms' heq hvalid' - e he
          by_contra hother
          obtain rfl := Json.dict.inj heq
          rw [hvalid] at hvalid'
          obtain ⟨rfl, rfl⟩ := Prod.mk.inj (Except.ok.inj hvalid')
          exact himported.not_merged hvalid hb he hother hmerged
        · -- every row is stored with the value it has, and a second import adds nothing
          intro hliteral
          refine ⟨⟨fields, rows, ps, ms, rfl, hshape, hps, hms, ?_⟩, import_again hvalid hb himported⟩
          exact himported.union hv hb hps hms (hliteral fields ps ms rfl hvalid hb)
      · -- a value that cannot be bound: the block raises and leaves the store alone
        obtain ⟨e, hraise⟩ := (perform_import_rows hash_content now hv).2 hb
        rw [hraise]
        refine ⟨?_, fun _ => rfl⟩
        rintro - fields' ps' ms' heq hvalid' hb'
        obtain rfl := Json.dict.inj heq
        rw [hvalid] at hvalid'
        obtain ⟨rfl, rfl⟩ := Prod.mk.inj (Except.ok.inj hvalid')
        exact absurd hb' hb
  · have hrun : (import_memory iso now "merge" payload).eval (S := storeSig F)
        (serve_call hash_content) db
        = (.error (.ValidationError (.payload_not_an_object payload.type_name)), db) := by
      rcases payload with _ | _ | _ | _ | _ | _ | fields
      all_goals first
        | rfl
        | exact absurd ⟨fields, rfl⟩ hdict
    rw [AllOrNothing, hrun]
    refine ⟨?_, fun _ => rfl⟩
    rintro - fields ps ms rfl
    exact absurd ⟨fields, rfl⟩ hdict

end Merge

/-! ### Rows that are taken for something else -/

namespace EmptySource

/-- A memory with this source and this flag. -/
def entry (source : Option Text) (pinned : Json) : MemoryEntry where
  id := "a"
  content := "text"
  created_at := "1970-01-01T00:00:00+00:00"
  updated_at := none
  tags := none
  source
  project_id := none
  pinned

/-- An envelope of one memory, with one more key in it. -/
def payload (key : Text) (value : Json) : Json.Dict :=
  [("format_version", .int 1), ("projects", .list []),
    ("memory_items", .list [.dict [("id", .str "a"), ("content", .str "text"),
      ("created_at", .str "1970-01-01T00:00:00+00:00"), (key, value)]])]

/-- Its source is empty. -/
def empty_source : Json.Dict := payload "source" (.str [])

/-- Its flag is a text. -/
def text_flag : Json.Dict := payload "pinned" (.str "false")

/-- Both envelopes pass the validation. -/
theorem accepted_source : validate_envelope Surrogate.iso (Db.project_texts (F := Unit) {}) empty_source
    = .ok ([], [entry (some []) .null]) := rfl

theorem accepted_flag : validate_envelope Surrogate.iso (Db.project_texts (F := Unit) {}) text_flag
    = .ok ([], [entry none (.str "false")]) := rfl

/-- What is inserted is text that SQLite can store. -/
theorem bindable {source : Option Text} {pinned : Json} (h : ∀ s, source = some s → s = []) :
    Bindable (F := Unit) {} [] [entry source pinned] := by
  refine ⟨?_, ?_⟩
  · intro e he
    cases he
  · intro e he
    obtain rfl : e = entry source pinned := by
      have hin := (List.mem_filter.mp he).1
      rw [List.mem_singleton] at hin
      exact hin
    refine ⟨rfl, rfl, ?_⟩
    intro s hs
    cases h s hs
    rfl

/-- A memory that is added to an empty store, and not as its row has it. -/
theorem not_all_or_nothing {fields : Json.Dict} {source : Option Text} {pinned : Json}
    (haccepted : validate_envelope Surrogate.iso (Db.project_texts (F := Unit) {}) fields
      = .ok ([], [entry source pinned]))
    (hsource : ∀ s, source = some s → s = []) (hwatermark : (entry source pinned).is_watermark = false)
    (hother : ¬ (entry source pinned).Literal) :
    ¬ AllOrNothing Surrogate.iso id 0 0 (.dict fields) ({} : Db Unit) := by
  obtain ⟨db', hdone, himported⟩ :=
    (perform_import_rows id 0 (validated_of_ok haccepted)).1 (bindable hsource)
  have hrun : (import_payload Surrogate.iso 0 fields).eval (S := storeSig Unit) (serve_call id) {}
      = (.ok (import_counts (Db.project_texts (F := Unit) {}) (Db.memory_texts (F := Unit) {}) []
        [entry source pinned]), db') := by
    rw [eval_import_payload, haccepted]
    dsimp only
    rw [hdone]
  rw [AllOrNothing, import_memory_merge, hrun]
  rintro ⟨hmerged, -⟩
  refine himported.not_merged haccepted (bindable hsource) (List.mem_filter.mpr ⟨List.mem_singleton_self _, ?_⟩)
    hother hmerged
  rw [hwatermark]
  rfl

/-- Merged into an empty store, the memory is there with another source, or pinned by "false". -/
theorem empty_source_is_replaced :
    ((∃ n db', (import_memory Surrogate.iso 0 "merge" (.dict empty_source)).eval (S := storeSig Unit)
        (serve_call id) {} = (.ok n, db') ∧ db'.items.map (·.source) = ["import"])
      ∧ ¬ AllOrNothing Surrogate.iso id 0 0 (.dict empty_source) ({} : Db Unit))
    ∧ (∃ n db', (import_memory Surrogate.iso 0 "merge" (.dict text_flag)).eval (S := storeSig Unit)
        (serve_call id) {} = (.ok n, db') ∧ db'.items.map (·.pinned) = [true])
      ∧ ¬ AllOrNothing Surrogate.iso id 0 0 (.dict text_flag) ({} : Db Unit) := by
  refine ⟨⟨⟨_, _, rfl, rfl⟩, ?_⟩, ⟨_, _, rfl, rfl⟩, ?_⟩
  · refine not_all_or_nothing accepted_source (fun s hs => (Option.some.inj hs).symm) rfl ?_
    exact fun hliteral => hliteral.source rfl
  · refine not_all_or_nothing accepted_flag nofun rfl ?_
    intro hliteral
    rcases hliteral.pinned with hnull | ⟨b, hb⟩
    · cases hnull
    · cases hb

end EmptySource

end OpenChronicle
