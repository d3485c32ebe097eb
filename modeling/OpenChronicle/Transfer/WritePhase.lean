/-
The write phase of an import: what it does to the store once an envelope was accepted.

A row that is not skipped is parsed, defaulted, bound and inserted. After the validator has accepted it,
the only thing left to go wrong is binding a string: the keys and the foreign keys hold by the checks,
and a date that parsed once parses again. So the phase adds the value of every new row, or it raises and
the block undoes what it did.

Two readings of a row are kept apart. `value` is what the row says, written without a look at the loops:
its own source, its own flag, and nothing at all where the row does not say. `stored` is what the loops
make of it, with the defaults of the source. They agree on the rows that are `Literal`, and where they
do not the import has replaced something; it is for the results about whole envelopes to say when that
matters.

The loops are specified by what they do to the store in either case (`spec_projects`, `spec_memories`):
if every new row has a value all of them are added, in the order of the envelope, and otherwise the loop
raises. The second loop is specified from whatever store the first one leaves, so that the two compose
without a common invariant.
-/
import OpenChronicle.Store.Query
import OpenChronicle.Transfer.Import

set_option autoImplicit false

namespace OpenChronicle

open Program PyStr

variable {F : Type}

/-! ## The value of a row -/

section Values

variable (iso : IsoFormat)

/-- The project a row describes; a null `metadata` is the empty one. `none` if a string of
it cannot be bound. -/
def ProjectEntry.value (e : ProjectEntry) : Option Project := do
  let id ← e.id.encode
  let name ← e.name.encode
  let created_at ← (iso.check e.created_at).toOption
  pure { id, name, metadata := e.metadata.getD [], created_at }

/-- An absent date is no date, and a date that cannot be read is no value. -/
def optional_instant : Option Text → Option (Option Instant)
  | none => some none
  | some u => (iso.check u).toOption.map some

/-- An absent string is none, and one that cannot be bound is no value. -/
def optional_string : Option Text → Option (Option String)
  | none => some none
  | some s => s.encode.map some

/-- The memory a row describes, with this source. -/
def MemoryEntry.item (source : Text) (e : MemoryEntry) : Option MemoryItem := do
  let id ← e.id.encode
  let content ← e.content.encode
  let project_id ← optional_string e.project_id
  let source ← source.encode
  let created_at ← (iso.check e.created_at).toOption
  let updated_at ← optional_instant iso e.updated_at
  pure { id, content, tags := e.tags.getD [], created_at, pinned := e.pinned.truthy, project_id
         source, updated_at }

/-- The flag that a row states; an absent one is off. `none` is a value that states none. -/
def flag : Json → Option Bool
  | .bool b => some b
  | .null => some false
  | _ => none

/-- With the row's own source and flag; a null source is "import". -/
def MemoryEntry.value (e : MemoryEntry) : Option MemoryItem := do
  let pinned ← flag e.pinned
  let m ← e.item iso (e.source.getD (Text.ofString "import"))
  pure { m with pinned }

/-- With the source the loop takes, and what `bool` makes of the flag. -/
def MemoryEntry.stored (e : MemoryEntry) : Option MemoryItem := e.item iso (text_or e.source "import")

/-- The loop takes nothing in the row for something else: the source is not empty, and `pinned` is a boolean,
null or absent. -/
structure MemoryEntry.Literal (e : MemoryEntry) : Prop where
  source : e.source ≠ some []
  pinned : e.pinned = .null ∨ ∃ b, e.pinned = .bool b

variable {iso}

/-- What stands in a literal flag is what `bool` makes of it. -/
theorem MemoryEntry.Literal.flag_eq {e : MemoryEntry} (h : e.Literal) : flag e.pinned = some e.pinned.truthy := by
  rcases h.pinned with hnull | ⟨b, hb⟩
  · rw [hnull]
    rfl
  · rw [hb]
    rfl

/-- A number or a text states no flag, whatever `bool` would make of it. -/
theorem flag_none {value : Json} (h : ¬ (value = .null ∨ ∃ b, value = .bool b)) : flag value = none := by
  cases value with
  | null => exact absurd (.inl rfl) h
  | bool b => exact absurd (.inr ⟨b, rfl⟩) h
  | _ => rfl

/-- The flag of an item is what `bool` made of the row's. -/
theorem MemoryEntry.item_pinned {e : MemoryEntry} {source : Text} {m : MemoryItem} (h : e.item iso source = some m) :
    m.pinned = e.pinned.truthy := by
  rw [MemoryEntry.item] at h
  simp only [Option.bind_eq_bind, Option.bind_eq_some_iff, Option.pure_def, Option.some.injEq] at h
  obtain ⟨id, -, content, -, project_id, -, source', -, t, -, u, -, rfl⟩ := h
  rfl

/-- A literal row is stored as it is. -/
theorem MemoryEntry.Literal.stored_eq_value {e : MemoryEntry} (h : e.Literal) : e.stored iso = e.value iso := by
  have hsource : text_or e.source "import" = e.source.getD (Text.ofString "import") := by
    rcases hs : e.source with _ | _ | _
    · rfl
    · exact absurd hs h.source
    · rfl
  rw [MemoryEntry.stored, MemoryEntry.value, h.flag_eq, hsource]
  cases hitem : e.item iso (e.source.getD (Text.ofString "import")) with
  | none => rfl
  | some m =>
      have hpinned := MemoryEntry.item_pinned hitem
      simp only [Option.bind_eq_bind, Option.bind_some, Option.pure_def]
      rw [← hpinned]

/-- A text that passed the check is parsed to its instant again. -/
theorem parse_checked {v : Text} {t : Instant} (h : iso.check v = .ok t) :
    parse_dt iso (some v) = .ok (some (.aware t)) ∧ ∀ field, require_utc field (.aware t) = .ok t := by
  rw [IsoFormat.check] at h
  rcases hparse : iso.fromisoformat v with _ | _ | t'
  · rw [hparse] at h
    cases h
  · rw [hparse] at h
    cases h
  · rw [hparse] at h
    dsimp only at h
    split at h
    · next hrange =>
        obtain rfl := Except.ok.inj h
        refine ⟨?_, ?_⟩
        · have hne : v ≠ [] := by
            rintro rfl
            rw [iso.fromisoformat_empty] at hparse
            cases hparse
          rw [parse_dt]
          · rw [hparse]
          · intro hnil
            exact hne hnil
        · intro field
          rw [require_utc, if_pos hrange]
    · cases h

/-- What a round of the first loop binds. -/
theorem bind_new_project (now : Instant) {e : ProjectEntry} (h : iso.Dates e.created_at) :
    (new_project iso now e >>= NewProject.bind) = match e.value iso with
      | some p => .ok p
      | none => .error .UnicodeEncodeError := by
  obtain ⟨t, ht⟩ := h
  obtain ⟨hparse, hutc⟩ := parse_checked ht
  have hnew : new_project iso now e = .ok
      { id := e.id, name := e.name, metadata := e.metadata.getD [], created_at := .aware t } := by
    rw [new_project, hparse]
    rfl
  rw [hnew]
  change NewProject.bind _ = _
  rw [NewProject.bind, hutc, ProjectEntry.value, ht]
  simp only [bind_text]
  rcases e.id.encode with _ | id
  · rfl
  · rcases e.name.encode with _ | name
    · rfl
    · rfl

/-- An absent date is fine too. -/
theorem optional_checked {v : Option Text} (h : ∀ u, v = some u → iso.Dates u) :
    ∃ u, optional_instant iso v = some u ∧ parse_dt iso v = .ok (u.map .aware)
      ∧ require_optional_utc "updated_at" (u.map .aware) = .ok u := by
  rcases v with _ | v
  · exact ⟨none, rfl, rfl, rfl⟩
  · obtain ⟨t, ht⟩ := h v rfl
    obtain ⟨hparse, hutc⟩ := parse_checked ht
    refine ⟨some t, ?_, hparse, ?_⟩
    · rw [optional_instant, ht]
      rfl
    · rw [Option.map_some, require_optional_utc, hutc]
      rfl

/-- What a round of the second loop binds. -/
theorem bind_new_memory (now : Instant) {e : MemoryEntry} (h : iso.Dates e.created_at)
    (hupd : ∀ u, e.updated_at = some u → iso.Dates u) :
    (new_memory iso now e >>= NewMemory.bind) = match e.stored iso with
      | some m => .ok m
      | none => .error .UnicodeEncodeError := by
  obtain ⟨t, ht⟩ := h
  obtain ⟨hparse, hutc⟩ := parse_checked ht
  obtain ⟨u, hinst, hparse', hutc'⟩ := optional_checked hupd
  have hnew : new_memory iso now e = .ok
      { id := e.id, content := e.content, tags := e.tags.getD [], pinned := e.pinned.truthy
        project_id := e.project_id, source := text_or e.source "import", created_at := .aware t
        updated_at := u.map .aware } := by
    rw [new_memory, hparse, hparse']
    rfl
  -- a string that cannot be encoded stops the binding
  rw [hnew]
  change NewMemory.bind _ = _
  rw [NewMemory.bind, hutc, hutc', MemoryEntry.stored, MemoryEntry.item, ht, hinst]
  simp only [bind_text, bind_optional_text]
  rcases e.id.encode with _ | id
  · rfl
  · rcases e.content.encode with _ | content
    · rfl
    · rcases e.project_id with _ | p
      · rcases (text_or e.source "import").encode with _ | source
        · rfl
        · rfl
      · simp only [optional_string]
        rcases p.encode with _ | project_id
        · rfl
        · rcases (text_or e.source "import").encode with _ | source
          · rfl
          · rfl

/-- With its dates in order, a row has a value if its strings can be bound. -/
theorem ProjectEntry.isSome_value {e : ProjectEntry} (h : iso.Dates e.created_at) :
    (e.value iso).isSome ↔ e.id.encode.isSome ∧ e.name.encode.isSome := by
  obtain ⟨t, ht⟩ := h
  rw [ProjectEntry.value, ht]
  rcases e.id.encode with _ | id
  · simp
  · rcases e.name.encode with _ | name
    · simp
    · simp [Except.toOption]

theorem MemoryEntry.isSome_item {e : MemoryEntry} (source : Text) (h : iso.Dates e.created_at)
    (hupd : ∀ u, e.updated_at = some u → iso.Dates u) :
    (e.item iso source).isSome ↔ e.id.encode.isSome ∧ e.content.encode.isSome
      ∧ (∀ p, e.project_id = some p → p.encode.isSome) ∧ source.encode.isSome := by
  obtain ⟨t, ht⟩ := h
  have hopt : ∃ u, optional_instant iso e.updated_at = some u := by
    rcases hu : e.updated_at with _ | v
    · exact ⟨none, rfl⟩
    · obtain ⟨t', ht'⟩ := hupd v hu
      refine ⟨some t', ?_⟩
      rw [optional_instant, ht']
      rfl
  obtain ⟨u, hu⟩ := hopt
  rw [MemoryEntry.item, ht, hu]
  rcases e.id.encode with _ | id
  · simp
  rcases e.content.encode with _ | content
  · simp
  rcases e.project_id with _ | p
  · rcases source.encode with _ | source
    · simp [optional_string]
    · simp [optional_string, Except.toOption]
  · rcases hp : p.encode with _ | project_id
    · simp [optional_string, hp]
    · rcases source.encode with _ | source
      · simp [optional_string, hp]
      · simp [optional_string, hp, Except.toOption]

/-- The value keeps the id. -/
theorem ProjectEntry.id_of_value {e : ProjectEntry} {p : Project} (h : e.value iso = some p) :
    e.id = Text.ofString p.id := by
  rw [ProjectEntry.value] at h
  simp only [Option.bind_eq_bind, Option.bind_eq_some_iff, Option.pure_def, Option.some.injEq] at h
  obtain ⟨id, hid, name, -, t, -, rfl⟩ := h
  exact Text.encode_eq_some.mp hid

/-- What the store checks of a memory can be read off the row. -/
theorem MemoryEntry.keys_of_item {e : MemoryEntry} {source : Text} {m : MemoryItem}
    (h : e.item iso source = some m) :
    e.id = Text.ofString m.id ∧ source = Text.ofString m.source
      ∧ ∀ p, m.project_id = some p → e.project_id = some (Text.ofString p) := by
  rw [MemoryEntry.item] at h
  simp only [Option.bind_eq_bind, Option.bind_eq_some_iff, Option.pure_def, Option.some.injEq] at h
  obtain ⟨id, hid, content, -, project_id, hproj, source', hsource, t, -, u, -, rfl⟩ := h
  refine ⟨Text.encode_eq_some.mp hid, Text.encode_eq_some.mp hsource, ?_⟩
  intro p hp
  dsimp only at hp
  subst hp
  rcases hpid : e.project_id with _ | q
  · rw [hpid] at hproj
    cases hproj
  · rw [hpid, optional_string] at hproj
    obtain ⟨s, hs, hsp⟩ := Option.map_eq_some_iff.mp hproj
    rw [Text.encode_eq_some.mp hs, Option.some.inj hsp]

end Values

/-! ## The write phase -/

/-- The ids `execute` snapshots. -/
def Db.project_texts (db : Db F) : List Text := db.list_projects.map fun p => Text.ofString p.id

def Db.memory_texts (db : Db F) : List Text :=
  (db.list_memory none false 0 none none none false).map fun m => Text.ofString m.id

/-- What the loops rely on, of the rows that were accepted. -/
structure Validated (iso : IsoFormat) (existing : List Text) (ps : List ProjectEntry)
    (ms : List MemoryEntry) : Prop where
  project_dates : ∀ e ∈ ps, iso.Dates e.created_at
  project_nodup : (ps.map (·.id)).Nodup
  dates : ∀ e ∈ ms, iso.Dates e.created_at
  updates : ∀ e ∈ ms, ∀ u, e.updated_at = some u → iso.Dates u
  /-- A project that a memory names is in the store or in the envelope. -/
  known : ∀ e ∈ ms, ∀ p, e.project_id = some p → p ∈ existing ++ ps.map (·.id)
  nodup : (ms.map (·.id)).Nodup

/-- Every string that the loops would bind can be bound. -/
structure Bindable (db : Db F) (ps : List ProjectEntry) (ms : List MemoryEntry) : Prop where
  projects : ∀ e ∈ new_projects db.project_texts ps, e.id.encode.isSome ∧ e.name.encode.isSome
  memories : ∀ e ∈ new_memories db.memory_texts ms, e.id.encode.isSome ∧ e.content.encode.isSome
    ∧ ∀ s, e.source = some s → s.encode.isSome

section WritePhase

variable {iso : IsoFormat} {db : Db F} {ps : List ProjectEntry} {ms : List MemoryEntry}

/-- The ids that the loops skip are those of the store. -/
theorem mem_project_texts {s : String} :
    Text.ofString s ∈ db.project_texts ↔ s ∈ db.projects.map (·.id) := by
  simp only [Db.project_texts, Db.list_projects, List.mem_map, List.mem_insertionSort,
    Text.ofString_injective.eq_iff]

theorem mem_memory_texts {s : String} :
    Text.ofString s ∈ db.memory_texts ↔ s ∈ db.memory_items.map (·.id) := by
  simp only [Db.memory_texts, List.mem_map, Db.mem_list_memory_all, Db.items,
    Text.ofString_injective.eq_iff]
  constructor
  · rintro ⟨m, ⟨row, hrow, rfl⟩, rfl⟩
    exact ⟨row, hrow, rfl⟩
  · rintro ⟨row, hrow, rfl⟩
    exact ⟨_, ⟨row, hrow, rfl⟩, rfl⟩

/-- An accepted envelope is one the loops can rely on. -/
theorem validated_of_ok {existing : List Text} {payload : Json.Dict}
    (h : validate_envelope iso existing payload = .ok (ps, ms)) : Validated iso existing ps ms := by
  obtain ⟨rows, -, hps, hnodup, hms, hnodup'⟩ := validate_envelope_eq_ok.mp h
  have hproject : ∀ e ∈ ps, ∃ fields, ProjectEntry.Reads iso fields e := by
    intro e he
    obtain ⟨row, -, fields, -, hreads⟩ := exists_row hps he
    exact ⟨fields, hreads⟩
  have hmemory : ∀ e ∈ ms, (∃ fields, MemoryEntry.Reads iso fields e)
      ∧ ∀ p, e.project_id = some p → p ∈ existing ++ ps.map (·.id) := by
    intro e he
    obtain ⟨row, -, fields, -, hreads, hknown⟩ := exists_row hms he
    exact ⟨⟨fields, hreads⟩, hknown⟩
  refine ⟨?_, hnodup, ?_, ?_, fun e he => (hmemory e he).2, hnodup'⟩
  · intro e he
    obtain ⟨fields, hreads⟩ := hproject e he
    exact hreads.dates
  · intro e he
    obtain ⟨⟨fields, hreads⟩, -⟩ := hmemory e he
    exact hreads.dates
  · intro e he
    obtain ⟨⟨fields, hreads⟩, -⟩ := hmemory e he
    exact hreads.updates

/-- The first loop. -/
theorem spec_projects (hash_content : String → String) (now : Instant)
    (hv : Validated iso db.project_texts ps ms) :
    (∀ db', (∀ e ∈ new_projects db.project_texts ps, (e.value iso).isSome) →
        insert_all hash_content .add_project
          ((new_projects db.project_texts ps).filterMap (·.value iso)) db = .ok db' →
        (in_turn (ps.map (import_project iso now db.project_texts))).spec hash_content true db
          = (.normal, db'))
      ∧ ((∃ e ∈ new_projects db.project_texts ps, e.value iso = none) →
        ∃ exc db', (in_turn (ps.map (import_project iso now db.project_texts))).spec hash_content true
          db = (.raised (.exception exc), db')) := by
  refine spec_in_turn ?_ ?_ db
  · intro e _ hold
    rw [import_project, if_pos (by simpa using hold)]
  · intro e he hnew
    rw [import_project, if_neg (by simpa using hnew), bind_new_project now (hv.project_dates e he)]
    rcases e.value iso with _ | p
    · rfl
    · rfl

/-- The second loop, from whatever the first one leaves. -/
theorem spec_memories (hash_content : String → String) (now : Instant) (existing : List Text)
    {known : List Text} (hv : Validated iso known ps ms) (db : Db F) :
    (∀ db', (∀ e ∈ new_memories existing ms, (e.stored iso).isSome) →
        insert_all hash_content .add_memory ((new_memories existing ms).filterMap (·.stored iso)) db
          = .ok db' →
        (in_turn (ms.map (import_item iso now existing))).spec hash_content true db = (.normal, db'))
      ∧ ((∃ e ∈ new_memories existing ms, e.stored iso = none) →
        ∃ exc db', (in_turn (ms.map (import_item iso now existing))).spec hash_content true db
          = (.raised (.exception exc), db')) := by
  refine spec_in_turn ?_ ?_ db
  · intro e _ hold
    rw [import_item]
    split
    · rfl
    · next hw =>
        rw [if_pos]
        simpa [hw] using hold
  · intro e he hnew
    have hnot : e.is_watermark = false ∧ e.id ∉ existing := by simpa using hnew
    rw [import_item, if_neg (by simp [hnot.1]), if_neg hnot.2,
      bind_new_memory now (hv.dates e he) (hv.updates e he)]
    rcases e.stored iso with _ | m
    · rfl
    · rfl

theorem plain_in_turn {scripts : List (Script F)} (h : ∀ s ∈ scripts, s.Plain) :
    (in_turn scripts).Plain := by
  induction scripts with
  | nil => trivial
  | cons s rest ih =>
      exact ⟨h s List.mem_cons_self, ih fun t ht => h t (List.mem_cons_of_mem _ ht)⟩

theorem plain_call_with {α : Type} (bound : Except Exc α) (write : α → StoreWrite F) :
    (call_with bound write).Plain := by
  rcases bound with e | a
  · exact ⟨e, rfl⟩
  · trivial

/-- The two loops make no transaction of their own, so the block around them undoes both. -/
theorem plain_loops (now : Instant) (existing existing' : List Text) :
    (Script.seq (in_turn (ps.map (import_project iso now existing)))
      (in_turn (ms.map (import_item iso now existing'))) : Script F).Plain := by
  refine ⟨plain_in_turn ?_, plain_in_turn ?_⟩
  · intro s hs
    obtain ⟨e, -, rfl⟩ := List.mem_map.mp hs
    rw [import_project]
    split
    · trivial
    · exact plain_call_with _ _
  · intro s hs
    obtain ⟨e, -, rfl⟩ := List.mem_map.mp hs
    rw [import_item]
    split
    · trivial
    · split
      · trivial
      · exact plain_call_with _ _

/-- Values that keep the ids of their rows have different ids if the rows have. -/
theorem nodup_values {E α : Type} {es : List E} {key : E → Text} {value : E → Option α}
    {id : α → String} (hnodup : (es.map key).Nodup)
    (hkey : ∀ e a, value e = some a → key e = Text.ofString (id a)) :
    ((es.filterMap value).map id).Nodup := by
  refine List.Nodup.of_map Text.ofString ?_
  have hsub : ((es.filterMap value).map id).map Text.ofString
      = (es.filter fun e => (value e).isSome).map key := by
    clear hnodup
    induction es with
    | nil => rfl
    | cons e rest ih =>
        rw [List.filter_cons]
        rcases hv : value e with _ | a
        · rw [List.filterMap_cons_none hv]
          exact ih
        · rw [List.filterMap_cons_some hv, List.map_cons, List.map_cons, ih, Option.isSome_some,
            if_pos rfl, List.map_cons, hkey e a hv]
  rw [hsub]
  exact hnodup.sublist (List.filter_sublist.map _)

/-- The ids of the values of these rows differ, and are not in the store. -/
theorem fresh_projects (hv : Validated iso db.project_texts ps ms) :
    (((new_projects db.project_texts ps).filterMap (·.value iso)).map (·.id)).Nodup
      ∧ ∀ p ∈ (new_projects db.project_texts ps).filterMap (·.value iso),
        p.id ∉ db.projects.map (·.id) := by
  refine ⟨nodup_values ?_ fun e p h => ProjectEntry.id_of_value h, ?_⟩
  · exact hv.project_nodup.sublist (List.filter_sublist.map _)
  · intro p hp
    obtain ⟨e, he, hval⟩ := List.mem_filterMap.mp hp
    have hnew : e.id ∉ db.project_texts := by simpa using (List.mem_filter.mp he).2
    rw [ProjectEntry.id_of_value hval, mem_project_texts] at hnew
    exact hnew

theorem fresh_memories (hv : Validated iso db.project_texts ps ms) :
    (((new_memories db.memory_texts ms).filterMap (·.stored iso)).map (·.id)).Nodup
      ∧ ∀ m ∈ (new_memories db.memory_texts ms).filterMap (·.stored iso),
        m.id ∉ db.memory_items.map (·.id) := by
  refine ⟨nodup_values ?_ fun e m h => (MemoryEntry.keys_of_item h).1, ?_⟩
  · exact hv.nodup.sublist (List.filter_sublist.map _)
  · intro m hm
    obtain ⟨e, he, hval⟩ := List.mem_filterMap.mp hm
    have hnew : e.id ∉ db.memory_texts := by
      have hboth := (List.mem_filter.mp he).2
      simp only [Bool.and_eq_true, decide_eq_true_eq] at hboth
      exact hboth.2
    rw [(MemoryEntry.keys_of_item hval).1, mem_memory_texts] at hnew
    exact hnew

/-- Once the projects of the envelope are in, every project a memory names is. -/
theorem known_projects (hv : Validated iso db.project_texts ps ms)
    (hps : ∀ e ∈ new_projects db.project_texts ps, (e.value iso).isSome) {q : String}
    {e : MemoryEntry} (he : e ∈ ms) (hq : e.project_id = some (Text.ofString q)) :
    q ∈ (db.projects ++ (new_projects db.project_texts ps).filterMap (·.value iso)).map (·.id) := by
  rw [List.map_append, List.mem_append]
  by_cases hold : Text.ofString q ∈ db.project_texts
  · left
    exact mem_project_texts.mp hold
  · right
    have hin := hv.known e he _ hq
    rw [List.mem_append, or_iff_right hold, List.mem_map] at hin
    obtain ⟨e', he', hid⟩ := hin
    have hnew : e' ∈ new_projects db.project_texts ps := by
      refine List.mem_filter.mpr ⟨he', ?_⟩
      rw [hid]
      simpa using hold
    obtain ⟨p, hp⟩ := Option.isSome_iff_exists.mp (hps e' hnew)
    refine List.mem_map.mpr ⟨p, List.mem_filterMap.mpr ⟨e', hnew, hp⟩, ?_⟩
    apply Text.ofString_injective
    rw [← ProjectEntry.id_of_value hp, hid]

/-- Bindable strings are what makes every row to be added have a value. -/
theorem bindable_iff (hv : Validated iso db.project_texts ps ms) :
    Bindable db ps ms ↔ (∀ e ∈ new_projects db.project_texts ps, (e.value iso).isSome)
      ∧ ∀ e ∈ new_memories db.memory_texts ms, (e.stored iso).isSome := by
  have hproject : ∀ e ∈ new_projects db.project_texts ps,
      ((e.value iso).isSome ↔ e.id.encode.isSome ∧ e.name.encode.isSome) := by
    intro e he
    exact ProjectEntry.isSome_value (hv.project_dates e (List.mem_filter.mp he).1)
  have hsource : ∀ e : MemoryEntry, (text_or e.source "import").encode.isSome
      ↔ ∀ s, e.source = some s → s.encode.isSome := by
    intro e
    rcases e.source with _ | _ | ⟨c, s⟩
    · simp [text_or, Text.encode_ofString]
    · have hnil : Text.encode [] = some "" := rfl
      simp [text_or, Text.encode_ofString, hnil]
    · simp [text_or]
  constructor
  · intro h
    have hps : ∀ e ∈ new_projects db.project_texts ps, (e.value iso).isSome :=
      fun e he => (hproject e he).mpr (h.projects e he)
    refine ⟨hps, ?_⟩
    intro e he
    have hin : e ∈ ms := (List.mem_filter.mp he).1
    obtain ⟨hid, hcontent, hsrc⟩ := h.memories e he
    rw [MemoryEntry.stored, MemoryEntry.isSome_item _ (hv.dates e hin) (hv.updates e hin)]
    refine ⟨hid, hcontent, ?_, (hsource e).mpr hsrc⟩
    -- a project that is not in the store yet is bound before it is referred to
    intro p hp
    by_cases hold : p ∈ db.project_texts
    · obtain ⟨q, -, rfl⟩ := List.mem_map.mp hold
      rw [Text.encode_ofString]
      rfl
    · have hknown := hv.known e hin p hp
      rw [List.mem_append, or_iff_right hold, List.mem_map] at hknown
      obtain ⟨e', he', rfl⟩ := hknown
      exact (h.projects e' (List.mem_filter.mpr ⟨he', by simpa using hold⟩)).1
  · rintro ⟨hps, hms⟩
    refine ⟨fun e he => (hproject e he).mp (hps e he), ?_⟩
    intro e he
    have hin : e ∈ ms := (List.mem_filter.mp he).1
    have hsome := hms e he
    rw [MemoryEntry.stored, MemoryEntry.isSome_item _ (hv.dates e hin) (hv.updates e hin)] at hsome
    exact ⟨hsome.1, hsome.2.1, (hsource e).mp hsome.2.2.2⟩

/-- What the write phase leaves when it completes. -/
structure Imported (iso : IsoFormat) (ps : List ProjectEntry) (ms : List MemoryEntry)
    (db db' : Db F) : Prop where
  projects : db'.projects
    = db.projects ++ (new_projects db.project_texts ps).filterMap (·.value iso)
  memories : ∃ added, db'.memory_items = db.memory_items ++ added
    ∧ added.map (·.toMemoryItem) = (new_memories db.memory_texts ms).filterMap (·.stored iso)
  /-- An import brings no vectors. -/
  embeddings : db'.memory_embeddings = db.memory_embeddings

/-- **The write phase** of an accepted envelope adds the rows that are not there, if every
string they hold can be bound; otherwise it raises and changes nothing. -/
theorem perform_import_rows (hash_content : String → String) (now : Instant)
    (hv : Validated iso db.project_texts ps ms) :
    (Bindable db ps ms → ∃ db', perform hash_content
          (import_rows iso now db.project_texts db.memory_texts ps ms) db = (.ok (), db')
        ∧ Imported iso ps ms db db')
      ∧ (¬ Bindable db ps ms → ∃ e, perform hash_content
          (import_rows iso now db.project_texts db.memory_texts ps ms) db = (.error e, db)) := by
  have hplain : (Script.seq (in_turn (ps.map (import_project iso now db.project_texts)))
      (in_turn (ms.map (import_item iso now db.memory_texts))) : Script F).Plain :=
    plain_loops now db.project_texts db.memory_texts
  have hblock := perform_block hash_content hplain db
  -- the first loop, when its rows have values
  have hfirst : (∀ e ∈ new_projects db.project_texts ps, (e.value iso).isSome) →
      ∃ db₁, (in_turn (ps.map (import_project iso now db.project_texts))).spec hash_content true db
          = (.normal, db₁)
        ∧ db₁.projects = db.projects ++ (new_projects db.project_texts ps).filterMap (·.value iso)
        ∧ db₁.memory_items = db.memory_items ∧ db₁.memory_embeddings = db.memory_embeddings := by
    intro hps
    obtain ⟨hnodup, hfresh⟩ := fresh_projects hv
    obtain ⟨db₁, hins, hprojects, hitems, hrows⟩ := insert_projects hash_content
      hnodup hfresh
    exact ⟨db₁, (spec_projects hash_content now hv).1 db₁ hps hins, hprojects, hitems, hrows⟩
  rw [bindable_iff hv]
  constructor
  · rintro ⟨hps, hms⟩
    obtain ⟨db₁, hrun₁, hprojects, hitems, hrows⟩ := hfirst hps
    obtain ⟨hnodup, hfresh⟩ := fresh_memories hv
    have hfk : ∀ m ∈ (new_memories db.memory_texts ms).filterMap (·.stored iso),
        ∀ q, m.project_id = some q → q ∈ db₁.projects.map (·.id) := by
      intro m hm q hq
      obtain ⟨e, he, hval⟩ := List.mem_filterMap.mp hm
      rw [hprojects]
      exact known_projects hv hps (List.mem_filter.mp he).1 ((MemoryEntry.keys_of_item hval).2.2 q hq)
    obtain ⟨db₂, added, hins, hitems₂, hadded, hprojects₂, hrows₂⟩ :=
      insert_memories hash_content hnodup (by rw [hitems]; exact hfresh) hfk
    have hrun₂ := (spec_memories hash_content now db.memory_texts hv db₁).1 db₂ hms hins
    have hrun : (Script.seq (in_turn (ps.map (import_project iso now db.project_texts)))
        (in_turn (ms.map (import_item iso now db.memory_texts)))).spec hash_content true db
        = (.normal, db₂) := by
      rw [Script.spec, hrun₁]
      exact hrun₂
    rcases hblock with ⟨db', hspec, hdone⟩ | ⟨e, db', hspec, -⟩
    · rw [hrun] at hspec
      obtain ⟨-, rfl⟩ := Prod.mk.inj hspec
      refine ⟨db₂, hdone, ?_, ⟨added, ?_, hadded⟩, hrows₂.trans hrows⟩
      · rw [hprojects₂, hprojects]
      · rw [hitems₂, hitems]
    · rw [hrun] at hspec
      cases (Prod.mk.inj hspec).1
  · intro hnot
    rcases hblock with ⟨db', hspec, -⟩ | ⟨e, db', -, hdone⟩
    · -- a loop that comes to a row without a value does not end normally
      have hps : ∀ e ∈ new_projects db.project_texts ps, (e.value iso).isSome := by
        by_contra hno
        push Not at hno
        obtain ⟨e, he, hnone⟩ := hno
        obtain ⟨exc, db₁, hrun₁⟩ := (spec_projects hash_content now hv).2
          ⟨e, he, by simpa using hnone⟩
        rw [Script.spec, hrun₁] at hspec
        cases (Prod.mk.inj hspec).1
      obtain ⟨db₁, hrun₁, -⟩ := hfirst hps
      rw [Script.spec, hrun₁] at hspec
      refine absurd ⟨hps, ?_⟩ hnot
      by_contra hno
      push Not at hno
      obtain ⟨e, he, hnone⟩ := hno
      obtain ⟨exc, db₂, hrun₂⟩ := (spec_memories hash_content now db.memory_texts hv db₁).2
        ⟨e, he, by simpa using hnone⟩
      dsimp only at hspec
      rw [hrun₂] at hspec
      cases (Prod.mk.inj hspec).1
    · exact ⟨e, hdone⟩

end WritePhase

/-! ## The call alone -/

section Alone

variable {iso : IsoFormat} {hash_content : String → String} {now : Instant} {db : Db F}

/-- `merge` goes straight to the rows. -/
theorem import_memory_merge (fields : Json.Dict) :
    (import_memory iso now "merge" (.dict fields) : StoreProg F ImportCounts)
      = import_payload iso now fields := by
  rw [import_memory, if_neg (by decide), if_neg (by decide)]

/-- The call alone: nobody writes between its reads and its block. -/
theorem eval_import_payload (payload : Json.Dict) :
    (import_payload iso now payload).eval (S := storeSig F) (serve_call hash_content) db
      = match validate_envelope iso db.project_texts payload with
        | .error e => (.error e, db)
        | .ok (ps, ms) =>
            match perform hash_content
              (import_rows iso now db.project_texts db.memory_texts ps ms) db with
            | (.ok (), db') =>
                (.ok (import_counts db.project_texts db.memory_texts ps ms), db')
            | (.error e, db') => (.error e, db') := by
  have hreads : (import_payload iso now payload).eval (S := storeSig F) (serve_call hash_content) db
      = (match validate_envelope iso db.project_texts payload with
        | .error e => Prog.raise e
        | .ok (ps, ms) =>
            store_call (.block (import_rows iso now db.project_texts db.memory_texts ps ms)) >>=
              fun _ => pure (import_counts db.project_texts db.memory_texts ps ms)).eval
          (S := storeSig F) (serve_call hash_content) db := rfl
  rw [hreads]
  rcases validate_envelope iso db.project_texts payload with e | ⟨ps, ms⟩
  · rfl
  · dsimp only
    rw [Prog.eval_bind, store_call, Prog.eval_op, serve_call]
    rcases perform hash_content (import_rows iso now db.project_texts db.memory_texts ps ms) db
      with ⟨e | u, db'⟩
    · rfl
    · rfl

/-- A call that returns has accepted its payload and added the rows. -/
theorem imported_of_payload {payload : Json.Dict} {n : ImportCounts} {db' : Db F}
    (h : (import_payload iso now payload).eval (S := storeSig F) (serve_call hash_content) db
      = (.ok n, db')) :
    ∃ ps ms, validate_envelope iso db.project_texts payload = .ok (ps, ms) ∧ Bindable db ps ms
      ∧ Imported iso ps ms db db' := by
  rw [eval_import_payload] at h
  rcases hvalid : validate_envelope iso db.project_texts payload with e | ⟨ps, ms⟩
  · rw [hvalid] at h
    cases (Prod.mk.inj h).1
  · have hphase := perform_import_rows hash_content now (validated_of_ok hvalid)
    rw [hvalid] at h
    dsimp only at h
    by_cases hb : Bindable db ps ms
    · obtain ⟨db₁, hdone, himported⟩ := hphase.1 hb
      rw [hdone] at h
      obtain ⟨-, rfl⟩ := Prod.mk.inj h
      exact ⟨ps, ms, rfl, hb, himported⟩
    · obtain ⟨e, hraise⟩ := hphase.2 hb
      rw [hraise] at h
      cases (Prod.mk.inj h).1

/-- In `replace` mode the store has to look empty first. -/
theorem eval_import_replace (fields : Json.Dict) :
    (import_memory iso now "replace" (.dict fields)).eval (S := storeSig F) (serve_call hash_content)
        db
      = if db.list_projects = [] ∧ db.list_memory (some 1) false 0 none none none false = [] then
          (import_payload iso now fields).eval (S := storeSig F) (serve_call hash_content) db
        else (.error (.ValidationError .destination_non_empty), db) := by
  have hreads : (import_memory iso now "replace" (.dict fields)).eval (S := storeSig F)
      (serve_call hash_content) db
      = (if db.list_projects = [] ∧ db.list_memory (some 1) false 0 none none none false = [] then
          import_payload iso now fields
        else .raise (.ValidationError .destination_non_empty)).eval
          (S := storeSig F) (serve_call hash_content) db := rfl
  rw [hreads]
  split
  · rfl
  · rfl

variable (iso hash_content now db) in
/-- **When an accepted envelope is written.** The insertion loops complete on every accepted
envelope, and a rejection is a `ValidationError` that names its row, exactly if every string
of a row to be added can be bound: the id and the name of a new project, the id, the content
and the source of a new memory. The validator does not look at what UTF-8 cannot encode. -/
theorem accepted_envelope_is_written_iff (payload : Json.Dict) :
    ((∀ ps ms, validate_envelope iso db.project_texts payload = .ok (ps, ms) →
        ∃ n db', (import_payload iso now payload).eval (S := storeSig F) (serve_call hash_content) db
          = (.ok n, db'))
      ∧ ∀ e, validate_envelope iso db.project_texts payload = .error e →
        (import_payload iso now payload).eval (S := storeSig F) (serve_call hash_content) db
          = (.error e, db)
        ∧ (∃ why, e = .ValidationError why)
        ∧ ∀ rows, Shaped payload rows →
          ∃ collection i row, (rows collection)[i]? = some row ∧ Names collection i row e)
    ↔ ∀ ps ms, validate_envelope iso db.project_texts payload = .ok (ps, ms) → Bindable db ps ms := by
  constructor
  · rintro ⟨hwritten, -⟩ ps ms hvalid
    obtain ⟨n, db', hrun⟩ := hwritten ps ms hvalid
    by_contra hnot
    obtain ⟨e, hraise⟩ := (perform_import_rows hash_content now (validated_of_ok hvalid)).2 hnot
    rw [eval_import_payload, hvalid] at hrun
    dsimp only at hrun
    rw [hraise] at hrun
    cases (Prod.mk.inj hrun).1
  · intro hbind
    refine ⟨?_, ?_⟩
    · intro ps ms hvalid
      obtain ⟨db', hdone, -⟩ := (perform_import_rows hash_content now (validated_of_ok hvalid)).1 (hbind ps ms hvalid)
      refine ⟨import_counts db.project_texts db.memory_texts ps ms, db', ?_⟩
      rw [eval_import_payload, hvalid]
      dsimp only
      rw [hdone]
    · intro e hreject
      refine ⟨?_, validate_envelope_error hreject⟩
      rw [eval_import_payload, hreject]

end Alone

/-! ### A lone surrogate -/

namespace Surrogate

/-- `isoformat` of the epoch as Python writes it, and some text for every other instant. -/
def iso : IsoFormat where
  isoformat t :=
    if t = 0 then "1970-01-01T00:00:00+00:00"
    else .scalar (if 0 ≤ t then '+' else '-') :: List.replicate t.natAbs (.scalar '|')
  fromisoformat s :=
    if s = Text.ofString "1970-01-01T00:00:00+00:00" then some (.aware 0)
    else match s with
      | .scalar '+' :: rest => some (.aware rest.length)
      | .scalar '-' :: rest => some (.aware (-rest.length))
      | _ => none
  fromisoformat_isoformat := by
    intro t _ _
    have hhead : Text.ofString "1970-01-01T00:00:00+00:00"
        = .scalar '1' :: Text.ofString "970-01-01T00:00:00+00:00" := by decide
    by_cases h0 : t = 0
    · subst h0
      rw [if_pos rfl, if_pos rfl]
    · rw [if_neg h0]
      by_cases hpos : 0 ≤ t
      · rw [if_pos hpos, if_neg (by rw [hhead]; simp)]
        simp only [List.length_replicate, Option.some.injEq, Datetime.aware.injEq]
        exact Int.natAbs_of_nonneg hpos
      · have hneg : -(t.natAbs : ℤ) = t := by
          rw [Int.ofNat_natAbs_of_nonpos (not_le.mp hpos).le]
          exact Int.neg_neg t
        rw [if_neg hpos, if_neg (by rw [hhead]; simp)]
        simp only [List.length_replicate, Option.some.injEq, Datetime.aware.injEq]
        exact hneg
  fromisoformat_empty := by
    decide

/-- An envelope with one project, whose id is a lone high surrogate. -/
def payload : Json.Dict :=
  [("format_version", .int 1),
    ("projects", .list [.dict [("id", .str [.surrogate 0]), ("name", .str "p"),
      ("created_at", .str "1970-01-01T00:00:00+00:00")]]),
    ("memory_items", .list [])]

/-- It is accepted, and inserting its project raises. -/
theorem accepted_envelope_raises :
    (∃ ps ms, validate_envelope iso (Db.project_texts (F := Unit) {}) payload = .ok (ps, ms))
      ∧ ((import_payload iso 0 payload).eval (S := storeSig Unit) (serve_call id) {}).1
        = .error .UnicodeEncodeError := by
  exact ⟨⟨_, _, rfl⟩, rfl⟩

end Surrogate

end OpenChronicle
