/-
`_validate_envelope` and the row checks of `import_memory`.

The validator reads the raw dicts and returns them; the insertion loops then read the same keys again.
Here it returns what it read: an entry holds the values of a row's keys, at the types the checks have
established, and nothing is parsed or defaulted yet.

`datetime.fromisoformat` is a parameter. It is used on any text an envelope may carry, so the results
hold for every grammar; what is relied on is in `IsoFormat`: that a text written by `isoformat` is read
back, and that the empty text is no date.

The checks are written as the source has them, one after the other, each with the error that names its
row and its field. Beside them stands what it means for a row to be read as an entry, without an order
of checks (`Reads`, `ReadsRow`, `Shaped`), and the validator is shown to accept just that. The results
about imports use the second form only: what they say of an accepted envelope does not depend on which
of two wrong fields is reported first.
-/
import Mathlib.Data.List.Forall2
import OpenChronicle.Domain

set_option autoImplicit false

namespace OpenChronicle

open PyStr

/-! ## Datetimes -/

/-- A `datetime`: one without an offset, or an instant with one. -/
inductive Datetime where
  | naive
  | aware (t : Instant)
  deriving DecidableEq, Repr

/-- `datetime.min` and `datetime.max` in UTC. -/
def MIN_INSTANT : Instant := -62135596800000000

/-- The last microsecond of the year 9999. -/
def MAX_INSTANT : Instant := 253402300799999999

/-- `require_utc`; converting to UTC overflows outside the range of `datetime`. -/
def require_utc (field : String) : Datetime → Except Exc Instant
  | .naive => .error (.ValidationError (.bad_datetime field .naive))
  | .aware t =>
      if MIN_INSTANT ≤ t ∧ t ≤ MAX_INSTANT then .ok t
      else .error (.ValidationError (.bad_datetime field .out_of_range))

/-- The text form of a datetime. -/
structure IsoFormat where
  /-- `datetime.isoformat` of the instant in UTC. -/
  isoformat : Instant → Text
  /-- `datetime.fromisoformat`; `none` is its `ValueError`. -/
  fromisoformat : Text → Option Datetime
  /-- The documented inverse. -/
  fromisoformat_isoformat : ∀ t, MIN_INSTANT ≤ t → t ≤ MAX_INSTANT →
    fromisoformat (isoformat t) = some (.aware t)
  fromisoformat_empty : fromisoformat [] = none

namespace IsoFormat

variable (iso : IsoFormat)

/-- `require_utc(datetime.fromisoformat(value))`, as an instant or what is wrong with it. -/
def check (value : Text) : Except DatetimeFault Instant :=
  match iso.fromisoformat value with
  | none => .error .invalid
  | some .naive => .error .naive
  | some (.aware t) => if MIN_INSTANT ≤ t ∧ t ≤ MAX_INSTANT then .ok t else .error .out_of_range

end IsoFormat

/-! ## Entries -/

/-- What a row of `projects` holds. -/
structure ProjectEntry where
  id : Text
  name : Text
  created_at : Text
  metadata : Option Json.Dict

/-- What a row of `memory_items` holds; `none` is a key that is absent or null. -/
structure MemoryEntry where
  id : Text
  content : Text
  created_at : Text
  updated_at : Option Text
  tags : Option (List Text)
  source : Option Text
  project_id : Option Text
  pinned : Json

/-- `EXPORT_FORMAT_VERSION`. -/
def EXPORT_FORMAT_VERSION : ℤ := 1

/-! ## Row checks -/

/-- The id `_row_error` can name. -/
def row_id : Json → Option Text
  | .dict fields =>
      match Json.Dict.get fields "id" with
      | .str s => some s
      | _ => none
  | _ => none

/-- `_row_error`. -/
def row_error {α : Type} (collection : Collection) (index : ℕ) (row : Json) (fault : RowFault) :
    Except Exc α :=
  .error (.ValidationError (.invalid_row collection index (row_id row) fault))

section Checks

variable (iso : IsoFormat) (collection : Collection) (index : ℕ) (row : Json.Dict)

/-- `_require_str`. -/
def require_str (key : String) : Except Exc Text :=
  match row.get key with
  | .str value =>
      if value = [] then row_error collection index (.dict row) (.not_a_string key "str")
      else .ok value
  | value => row_error collection index (.dict row) (.not_a_string key value.type_name)

/-- `_require_dt_str`. -/
def require_dt_str (key : String) : Except Exc Text :=
  match row.get key with
  | .str value =>
      match iso.check value with
      | .ok _ => .ok value
      | .error fault => row_error collection index (.dict row) (.bad_date key fault)
  | value => row_error collection index (.dict row) (.not_a_date key value.type_name)

/-- `_require_dt_str` with `optional=True`. -/
def require_optional_dt_str (key : String) : Except Exc (Option Text) :=
  match row.get key with
  | .null => .ok none
  | _ => (require_dt_str iso collection index row key).map some

/-- `row.get("metadata") is not None and not isinstance(row["metadata"], dict)`. -/
def require_metadata : Except Exc (Option Json.Dict) :=
  match row.get "metadata" with
  | .null => .ok none
  | .dict metadata => .ok (some metadata)
  | _ => row_error collection index (.dict row) .bad_metadata

/-- The check of `content`, which may be empty. -/
def require_content : Except Exc Text :=
  match row.get "content" with
  | .str content => .ok content
  | value => row_error collection index (.dict row) (.bad_content value.type_name)

/-- The check of `tags`: a list of strings, or null. -/
def require_tags : Except Exc (Option (List Text)) :=
  match row.get "tags" with
  | .null => .ok none
  | .list items =>
      match Json.strings items with
      | some tags => .ok (some tags)
      | none => row_error collection index (.dict row) .bad_tags
  | _ => row_error collection index (.dict row) .bad_tags

/-- The shape `source` and `project_id` share: a string or null. -/
def require_optional_str (key : String) (fault : RowFault) : Except Exc (Option Text) :=
  match row.get key with
  | .null => .ok none
  | .str value => .ok (some value)
  | _ => row_error collection index (.dict row) fault

/-- A memory names a project of the envelope or of the store, or none. -/
def require_known_project (known_project_ids : List Text) (project_id : Option Text) :
    Except Exc Unit :=
  match project_id with
  | some p =>
      if p ∈ known_project_ids then .ok ()
      else row_error collection index (.dict row) (.unknown_project p)
  | none => .ok ()

/-- The ids of one array differ. -/
def require_new_id (seen : List Text) (row_id : Text) : Except Exc Unit :=
  if row_id ∈ seen then row_error collection index (.dict row) .duplicate_id else .ok ()

end Checks

section Validate

variable (iso : IsoFormat)

/-- One round of the loop over `projects`; `seen` is `envelope_project_ids` so far. -/
def validate_project (index : ℕ) (seen : List Text) (row : Json) : Except Exc ProjectEntry :=
  match row with
  | .dict fields => do
      let id ← require_str .projects index fields "id"
      let name ← require_str .projects index fields "name"
      let created_at ← require_dt_str iso .projects index fields "created_at"
      let metadata ← require_metadata .projects index fields
      require_new_id .projects index fields seen id
      pure { id, name, created_at, metadata }
  | row => row_error .projects index row (.not_an_object row.type_name)

/-- One round of the loop over `memory_items`. -/
def validate_memory (known_project_ids : List Text) (index : ℕ) (seen : List Text) (row : Json) :
    Except Exc MemoryEntry :=
  match row with
  | .dict fields => do
      let id ← require_str .memory_items index fields "id"
      let content ← require_content .memory_items index fields
      let created_at ← require_dt_str iso .memory_items index fields "created_at"
      let updated_at ← require_optional_dt_str iso .memory_items index fields "updated_at"
      let tags ← require_tags .memory_items index fields
      let source ← require_optional_str .memory_items index fields "source" .bad_source
      let project_id ← require_optional_str .memory_items index fields "project_id" .bad_project_id
      require_known_project .memory_items index fields known_project_ids project_id
      require_new_id .memory_items index fields seen id
      pure { id, content, created_at, updated_at, tags, source, project_id,
             pinned := Json.Dict.get fields "pinned" }
  | row => row_error .memory_items index row (.not_an_object row.type_name)

/-- `for i, row in enumerate(rows)`, with the set of ids seen so far. -/
def validate_rows {E : Type} (check : ℕ → List Text → Json → Except Exc E) (id : E → Text) :
    ℕ → List Text → List Json → Except Exc (List E)
  | _, _, [] => .ok []
  | index, seen, row :: rest => do
      let entry ← check index seen row
      let entries ← validate_rows check id (index + 1) (id entry :: seen) rest
      pure (entry :: entries)

/-- The name of the key. -/
def Collection.key : Collection → String
  | projects => "projects"
  | memory_items => "memory_items"

/-- `payload[key]`, which has to be an array. -/
def require_array (payload : Json.Dict) (key : Collection) : Except Exc (List Json) :=
  if payload.has key.key then
    match payload.get key.key with
    | .list rows => .ok rows
    | value => .error (.ValidationError (.not_an_array key value.type_name))
  else .error (.ValidationError (.array_missing key))

/-- The version that this program writes, and no other. -/
def require_version (payload : Json.Dict) : Except Exc Unit :=
  match payload.get "format_version" with
  | .int n => if n = EXPORT_FORMAT_VERSION then .ok () else .error (.ValidationError .unsupported_version)
  | _ => .error (.ValidationError .unsupported_version)

/-- `_validate_envelope`. -/
def validate_envelope (existing_project_ids : List Text) (payload : Json.Dict) :
    Except Exc (List ProjectEntry × List MemoryEntry) := do
  require_version payload
  let raw_projects ← require_array payload .projects
  let raw_memory_items ← require_array payload .memory_items
  let projects ← validate_rows (validate_project iso) ProjectEntry.id 0 [] raw_projects
  let known_project_ids := existing_project_ids ++ projects.map (·.id)
  let memory_items ← validate_rows (validate_memory iso known_project_ids) MemoryEntry.id 0 []
    raw_memory_items
  pure (projects, memory_items)

end Validate

/-! ## What is accepted -/

/-- The two ways in which a sequence of checks ends. -/
theorem bind_eq_ok {α β : Type} {x : Except Exc α} {f : α → Except Exc β} {b : β} :
    (x >>= f) = .ok b ↔ ∃ a, x = .ok a ∧ f a = .ok b := by
  cases x with
  | error e => exact ⟨nofun, fun ⟨_, h, _⟩ => nomatch h⟩
  | ok a => exact ⟨fun h => ⟨a, rfl, h⟩, fun ⟨_, h, h'⟩ => Except.ok.inj h ▸ h'⟩

/-- The first check fails, or it passes and the second one fails. -/
theorem bind_eq_error {α β : Type} {x : Except Exc α} {f : α → Except Exc β} {e : Exc} :
    (x >>= f) = .error e ↔ x = .error e ∨ ∃ a, x = .ok a ∧ f a = .error e := by
  cases x with
  | error e' =>
      constructor
      · exact fun h => .inl (congrArg _ (Except.error.inj h))
      · rintro (h | ⟨_, h, _⟩)
        · exact congrArg _ (Except.error.inj h)
        · cases h
  | ok a =>
      constructor
      · exact fun h => .inr ⟨a, rfl, h⟩
      · rintro (h | ⟨_, h, h'⟩)
        · cases h
        · exact Except.ok.inj h ▸ h'

/-- The text is an aware datetime in range. -/
def IsoFormat.Dates (iso : IsoFormat) (value : Text) : Prop := ∃ t, iso.check value = .ok t

/-- The entry holds the values of the row's keys, and they pass the checks. -/
structure ProjectEntry.Reads (iso : IsoFormat) (fields : Json.Dict) (e : ProjectEntry) : Prop where
  id : fields.get "id" = .str e.id
  id_ne : e.id ≠ []
  name : fields.get "name" = .str e.name
  name_ne : e.name ≠ []
  created_at : fields.get "created_at" = .str e.created_at
  dates : iso.Dates e.created_at
  metadata : fields.get "metadata" = (e.metadata.map Json.dict).getD .null

/-- Key by key, what the row says. -/
structure MemoryEntry.Reads (iso : IsoFormat) (fields : Json.Dict) (e : MemoryEntry) : Prop where
  id : fields.get "id" = .str e.id
  id_ne : e.id ≠ []
  content : fields.get "content" = .str e.content
  created_at : fields.get "created_at" = .str e.created_at
  dates : iso.Dates e.created_at
  updated_at : fields.get "updated_at" = (e.updated_at.map Json.str).getD .null
  updates : ∀ u, e.updated_at = some u → iso.Dates u
  tags : fields.get "tags" = (e.tags.map fun tags => Json.list (tags.map Json.str)).getD .null
  source : fields.get "source" = (e.source.map Json.str).getD .null
  project_id : fields.get "project_id" = (e.project_id.map Json.str).getD .null
  pinned : fields.get "pinned" = e.pinned

/-- The row is a dict that the entry reads. -/
def ProjectEntry.ReadsRow (iso : IsoFormat) (row : Json) (e : ProjectEntry) : Prop :=
  ∃ fields, row = .dict fields ∧ e.Reads iso fields

def MemoryEntry.ReadsRow (iso : IsoFormat) (known : List Text) (row : Json) (e : MemoryEntry) : Prop :=
  ∃ fields, row = .dict fields ∧ e.Reads iso fields ∧ ∀ p, e.project_id = some p → p ∈ known

section Accepted

variable {iso : IsoFormat} {collection : Collection} {index : ℕ} {row : Json.Dict} {key : String}

/-- Each check, by what it accepts. These are all that is used of the checks from here on. -/
theorem require_str_eq_ok {v : Text} :
    require_str collection index row key = .ok v ↔ row.get key = .str v ∧ v ≠ [] := by
  rw [require_str]
  rcases hget : row.get key with _ | _ | _ | _ | s | _ | _
  all_goals simp only [row_error, reduceCtorEq, false_and]
  by_cases hs : s = []
  · rw [if_pos hs]
    simp only [reduceCtorEq, Json.str.injEq, false_iff, not_and, not_not]
    intro h
    rw [← h, hs]
  · rw [if_neg hs]
    simp only [Except.ok.injEq, Json.str.injEq, iff_self_and]
    intro h
    rw [← h]
    exact hs

/-- One lemma for each check: when it passes, and with which value. -/
theorem require_dt_str_eq_ok {v : Text} :
    require_dt_str iso collection index row key = .ok v ↔ row.get key = .str v ∧ iso.Dates v := by
  rw [require_dt_str]
  rcases hget : row.get key with _ | _ | _ | _ | s | _ | _
  all_goals simp only [row_error, reduceCtorEq, false_and]
  rw [IsoFormat.Dates, Json.str.injEq]
  rcases hcheck : iso.check s with fault | t
  · simp only [reduceCtorEq, false_iff, not_and, not_exists]
    rintro rfl t
    rw [hcheck]
    simp
  · simp only [Except.ok.injEq, iff_self_and]
    rintro rfl
    exact ⟨t, hcheck⟩

theorem require_optional_dt_str_eq_ok {o : Option Text} :
    require_optional_dt_str iso collection index row key = .ok o
      ↔ row.get key = (o.map Json.str).getD .null ∧ ∀ u, o = some u → iso.Dates u := by
  rw [require_optional_dt_str]
  by_cases hnull : row.get key = .null
  · rw [hnull]
    rcases o with _ | u
    · simp
    · simp
  · have hmatch : (match row.get key with
        | .null => .ok none
        | _ => (require_dt_str iso collection index row key).map some)
        = (require_dt_str iso collection index row key).map some := by
      split
      · next h => exact absurd h hnull
      · rfl
    rw [hmatch]
    rcases o with _ | u
    · rcases require_dt_str iso collection index row key with e | v
      all_goals simp [Except.map, hnull]
    · have hsome : (require_dt_str iso collection index row key).map some = .ok (some u)
          ↔ require_dt_str iso collection index row key = .ok u := by
        rcases require_dt_str iso collection index row key with e | v
        all_goals simp [Except.map]
      rw [hsome, require_dt_str_eq_ok]
      simp

theorem require_metadata_eq_ok {o : Option Json.Dict} :
    require_metadata collection index row = .ok o
      ↔ row.get "metadata" = (o.map Json.dict).getD .null := by
  rw [require_metadata]
  rcases hget : row.get "metadata" with _ | _ | _ | _ | _ | _ | d <;> rcases o with _ | o
  all_goals simp [row_error]

theorem require_content_eq_ok {v : Text} :
    require_content collection index row = .ok v ↔ row.get "content" = .str v := by
  rw [require_content]
  rcases hget : row.get "content" with _ | _ | _ | _ | _ | _ | _
  all_goals simp [row_error]

theorem require_tags_eq_ok {o : Option (List Text)} :
    require_tags collection index row = .ok o
      ↔ row.get "tags" = (o.map fun tags => Json.list (tags.map Json.str)).getD .null := by
  rw [require_tags]
  rcases hget : row.get "tags" with _ | _ | _ | _ | _ | items | _ <;> rcases o with _ | tags
  all_goals simp only [row_error, reduceCtorEq, Except.ok.injEq, Option.map_none, Option.map_some,
    Option.getD_none, Option.getD_some]
  · rcases Json.strings items with _ | l
    all_goals simp
  · rcases hs : Json.strings items with _ | l
    · simp only [reduceCtorEq, Json.list.injEq, false_iff]
      rintro rfl
      rw [Json.strings_map_str] at hs
      cases hs
    · rw [Json.strings_eq_some hs]
      have hinj : Function.Injective (List.map Json.str) :=
        List.map_injective_iff.mpr fun _ _ h => Json.str.inj h
      simp only [Except.ok.injEq, Option.some.injEq, Json.list.injEq]
      exact hinj.eq_iff.symm

theorem require_optional_str_eq_ok {fault : RowFault} {o : Option Text} :
    require_optional_str collection index row key fault = .ok o
      ↔ row.get key = (o.map Json.str).getD .null := by
  rw [require_optional_str]
  rcases hget : row.get key with _ | _ | _ | _ | _ | _ | _ <;> rcases o with _ | o
  all_goals simp [row_error]

theorem require_known_project_eq_ok {known : List Text} {project_id : Option Text} :
    require_known_project collection index row known project_id = .ok ()
      ↔ ∀ p, project_id = some p → p ∈ known := by
  rcases project_id with _ | p
  · simp [require_known_project]
  · rw [require_known_project]
    by_cases hp : p ∈ known <;> simp [row_error, hp]

theorem require_new_id_eq_ok {seen : List Text} {v : Text} :
    require_new_id collection index row seen v = .ok () ↔ v ∉ seen := by
  rw [require_new_id]
  by_cases hv : v ∈ seen <;> simp [row_error, hv]

/-- A row of `projects` is accepted as what it reads, if its id is new. -/
theorem validate_project_eq_ok (n : ℕ) (seen : List Text) (row : Json) (e : ProjectEntry) :
    validate_project iso n seen row = .ok e
      ↔ e.ReadsRow iso row ∧ e.id ∉ seen := by
  rcases row with _ | _ | _ | _ | _ | _ | fields
  all_goals simp only [validate_project, ProjectEntry.ReadsRow, row_error, reduceCtorEq, false_and, exists_false,
    Json.dict.injEq, exists_eq_left']
  simp only [bind_eq_ok, require_str_eq_ok, require_dt_str_eq_ok, require_metadata_eq_ok]
  constructor
  · rintro ⟨id, ⟨hid, hid_ne⟩, name, ⟨hname, hname_ne⟩, created_at, ⟨hat, hdates⟩, metadata, hmeta,
      u, hnew, hret⟩
    obtain rfl := Except.ok.inj hret
    exact ⟨⟨hid, hid_ne, hname, hname_ne, hat, hdates, hmeta⟩, require_new_id_eq_ok.mp hnew⟩
  · rintro ⟨h, hnew⟩
    exact ⟨e.id, ⟨h.id, h.id_ne⟩, e.name, ⟨h.name, h.name_ne⟩, e.created_at, ⟨h.created_at, h.dates⟩,
      e.metadata, h.metadata, (), require_new_id_eq_ok.mpr hnew, rfl⟩

/-- The same for a row of `memory_items`, whose project has to be known besides. -/
theorem validate_memory_eq_ok {known : List Text} (n : ℕ) (seen : List Text) (row : Json)
    (e : MemoryEntry) : validate_memory iso known n seen row = .ok e
      ↔ e.ReadsRow iso known row ∧ e.id ∉ seen := by
  rcases row with _ | _ | _ | _ | _ | _ | fields
  all_goals simp only [validate_memory, MemoryEntry.ReadsRow, row_error, reduceCtorEq, false_and, exists_false,
    Json.dict.injEq, exists_eq_left']
  simp only [bind_eq_ok, require_str_eq_ok, require_content_eq_ok, require_dt_str_eq_ok,
    require_optional_dt_str_eq_ok, require_tags_eq_ok, require_optional_str_eq_ok]
  constructor
  · rintro ⟨id, ⟨hid, hid_ne⟩, content, hcontent, created_at, ⟨hat, hdates⟩, updated_at, ⟨hupd, hupds⟩,
      tags, htags, source, hsource, project_id, hproj, u, hknown, u', hnew, hret⟩
    obtain rfl := Except.ok.inj hret
    exact ⟨⟨⟨hid, hid_ne, hcontent, hat, hdates, hupd, hupds, htags, hsource, hproj, rfl⟩,
      require_known_project_eq_ok.mp hknown⟩, require_new_id_eq_ok.mp hnew⟩
  · rintro ⟨⟨h, hknown⟩, hnew⟩
    refine ⟨e.id, ⟨h.id, h.id_ne⟩, e.content, h.content, e.created_at, ⟨h.created_at, h.dates⟩,
      e.updated_at, ⟨h.updated_at, h.updates⟩, e.tags, h.tags, e.source, h.source, e.project_id,
      h.project_id, (), require_known_project_eq_ok.mpr hknown, (), require_new_id_eq_ok.mpr hnew, ?_⟩
    rw [h.pinned]
    rfl

/-- The loop accepts the rows that are accepted one by one, with ids that are new and
differ from each other. -/
theorem validate_rows_eq_ok {E : Type} {check : ℕ → List Text → Json → Except Exc E} {id : E → Text}
    {R : Json → E → Prop} (hcheck : ∀ n seen row e, check n seen row = .ok e ↔ R row e ∧ id e ∉ seen)
    {n : ℕ} {seen : List Text} {rows : List Json} {es : List E} :
    validate_rows check id n seen rows = .ok es
      ↔ List.Forall₂ R rows es ∧ (es.map id).Nodup ∧ ∀ e ∈ es, id e ∉ seen := by
  induction rows generalizing n seen es with
  | nil =>
      rw [validate_rows]
      constructor
      · intro h
        obtain rfl := Except.ok.inj h
        simp
      · rintro ⟨h, -, -⟩
        rw [List.forall₂_nil_left_iff.mp h]
  | cons row rest ih =>
      simp only [validate_rows, bind_eq_ok, hcheck, ih]
      constructor
      · rintro ⟨e, ⟨hrow, hnew⟩, es', ⟨hrest, hnodup, hfresh⟩, hret⟩
        obtain rfl := Except.ok.inj hret
        refine ⟨.cons hrow hrest, ?_, ?_⟩
        · rw [List.map_cons, List.nodup_cons]
          -- the later rows were checked against an id list that had this one
          refine ⟨?_, hnodup⟩
          intro hin
          obtain ⟨e', he', heq⟩ := List.mem_map.mp hin
          apply hfresh e' he'
          rw [heq]
          exact List.mem_cons_self
        · intro e' he'
          rcases List.mem_cons.mp he' with rfl | he'
          · exact hnew
          · exact fun hin => hfresh e' he' (List.mem_cons_of_mem _ hin)
      · rintro ⟨hrows, hnodup, hfresh⟩
        obtain ⟨e, es', hrow, hrest, rfl⟩ := List.forall₂_cons_left_iff.mp hrows
        rw [List.map_cons, List.nodup_cons] at hnodup
        refine ⟨e, ⟨hrow, hfresh e List.mem_cons_self⟩, es', ⟨hrest, hnodup.2, ?_⟩, rfl⟩
        intro e' he' hin
        rcases List.mem_cons.mp hin with heq | hin
        · exact hnodup.1 (heq ▸ List.mem_map_of_mem he')
        · exact hfresh e' (List.mem_cons_of_mem _ he') hin

/-- The loop passes exactly where each row reads and no id comes twice. -/
theorem validate_projects_eq_ok {rows : List Json} {es : List ProjectEntry} :
    validate_rows (validate_project iso) ProjectEntry.id 0 [] rows = .ok es
      ↔ List.Forall₂ (ProjectEntry.ReadsRow iso) rows es ∧ (es.map (·.id)).Nodup := by
  rw [validate_rows_eq_ok validate_project_eq_ok]
  simp

theorem validate_memories_eq_ok {known : List Text} {rows : List Json} {es : List MemoryEntry} :
    validate_rows (validate_memory iso known) MemoryEntry.id 0 [] rows = .ok es
      ↔ List.Forall₂ (MemoryEntry.ReadsRow iso known) rows es ∧ (es.map (·.id)).Nodup := by
  rw [validate_rows_eq_ok validate_memory_eq_ok]
  simp

/-- Every entry was read from a row. -/
theorem exists_row {E : Type} {R : Json → E → Prop} {rows : List Json} {es : List E}
    (h : List.Forall₂ R rows es) {e : E} (he : e ∈ es) : ∃ row ∈ rows, R row e := by
  induction h with
  | nil => cases he
  | cons hrow _ ih =>
      rcases List.mem_cons.mp he with rfl | he
      · exact ⟨_, List.mem_cons_self, hrow⟩
      · obtain ⟨row, hmem, hreads⟩ := ih he
        exact ⟨row, List.mem_cons_of_mem _ hmem, hreads⟩

/-- The version is the supported one, and the two arrays are there. -/
structure Shaped (payload : Json.Dict) (rows : Collection → List Json) : Prop where
  version : payload.get "format_version" = .int EXPORT_FORMAT_VERSION
  arrays : ∀ collection : Collection, payload.get collection.key = .list (rows collection)

theorem require_version_eq_ok {payload : Json.Dict} :
    require_version payload = .ok ()
      ↔ payload.get "format_version" = .int EXPORT_FORMAT_VERSION := by
  rw [require_version]
  rcases hget : payload.get "format_version" with _ | _ | n | _ | _ | _ | _
  all_goals simp

theorem require_array_eq_ok {payload : Json.Dict} {rows : List Json} :
    require_array payload collection = .ok rows ↔ payload.get collection.key = .list rows := by
  rw [require_array]
  by_cases hhas : payload.has collection.key = true
  · rw [if_pos hhas]
    rcases hget : payload.get collection.key with _ | _ | _ | _ | _ | _ | _
    all_goals simp
  · have hnull : payload.get collection.key = .null := by
      have hfind : payload.find? (·.1 = Text.ofString collection.key) = none := by
        rw [List.find?_eq_none]
        intro field hfield hkey
        exact hhas (List.any_eq_true.mpr ⟨field, hfield, hkey⟩)
      unfold Json.Dict.get
      rw [hfind]
      rfl
    rw [if_neg hhas, hnull]
    simp

/-- **What the validator accepts**: an envelope whose rows all read, with ids that differ
within each array, and memories that name known projects. -/
theorem validate_envelope_eq_ok {existing : List Text} {payload : Json.Dict}
    {ps : List ProjectEntry} {ms : List MemoryEntry} :
    validate_envelope iso existing payload = .ok (ps, ms) ↔ ∃ rows, Shaped payload rows
      ∧ List.Forall₂ (ProjectEntry.ReadsRow iso) (rows .projects) ps
      ∧ (ps.map (·.id)).Nodup
      ∧ List.Forall₂ (MemoryEntry.ReadsRow iso (existing ++ ps.map (·.id))) (rows .memory_items) ms
      ∧ (ms.map (·.id)).Nodup := by
  rw [validate_envelope]
  simp only [bind_eq_ok, require_array_eq_ok, validate_projects_eq_ok, validate_memories_eq_ok]
  constructor
  · rintro ⟨u, hversion, rp, hrp, rm, hrm, ps', ⟨hreads, hnodup⟩, ms', ⟨hreads', hnodup'⟩, hret⟩
    obtain ⟨rfl, rfl⟩ := Prod.mk.inj (Except.ok.inj hret)
    refine ⟨fun | .projects => rp | .memory_items => rm, ⟨?_, ?_⟩, hreads, hnodup, hreads', hnodup'⟩
    · exact require_version_eq_ok.mp hversion
    · intro collection
      cases collection with
      | projects => exact hrp
      | memory_items => exact hrm
  · rintro ⟨rows, hshape, hreads, hnodup, hreads', hnodup'⟩
    exact ⟨(), require_version_eq_ok.mpr hshape.version, rows .projects, hshape.arrays .projects,
      rows .memory_items, hshape.arrays .memory_items, ps, ⟨hreads, hnodup⟩, ms,
      ⟨hreads', hnodup'⟩, rfl⟩

end Accepted

/-! ## What is rejected -/

/-- The error names this row: its array, its index and, if it has one, its id. -/
def Names (collection : Collection) (index : ℕ) (row : Json) (e : Exc) : Prop :=
  ∃ fault, e = .ValidationError (.invalid_row collection index (row_id row) fault)

/-- If the check fails, it names the row. -/
def Blames {α : Type} (collection : Collection) (index : ℕ) (row : Json) (x : Except Exc α) : Prop :=
  ∀ e, x = .error e → Names collection index row e

section Rejected

variable {iso : IsoFormat} {collection : Collection} {index : ℕ}

/-- A check that passes blames nothing. -/
theorem blames_ok {α : Type} {row : Json} (a : α) : Blames collection index row (.ok a) := by
  intro e h
  cases h

/-- Every error that a check raises names the row that it was given; the lemmas below say so, check by
check. -/
theorem blames_row_error {α : Type} {row : Json} (fault : RowFault) :
    Blames collection index row (row_error collection index row fault : Except Exc α) := by
  intro e h
  exact ⟨fault, (Except.error.inj h).symm⟩

/-- A sequence of checks of one row blames that row. -/
theorem Blames.bind {α β : Type} {row : Json} {x : Except Exc α} {f : α → Except Exc β}
    (hx : Blames collection index row x) (hf : ∀ a, Blames collection index row (f a)) :
    Blames collection index row (x >>= f) := by
  intro e h
  rcases bind_eq_error.mp h with h | ⟨a, -, h⟩
  · exact hx e h
  · exact hf a e h

section Checks

variable {row : Json.Dict} {key : String}

theorem blames_require_str : Blames collection index (.dict row) (require_str collection index row key) := by
  rw [require_str]
  split
  · split
    · exact blames_row_error _
    · exact blames_ok _
  · exact blames_row_error _

theorem blames_require_dt_str :
    Blames collection index (.dict row) (require_dt_str iso collection index row key) := by
  rw [require_dt_str]
  split
  · split
    · exact blames_ok _
    · exact blames_row_error _
  · exact blames_row_error _

theorem blames_require_optional_dt_str :
    Blames collection index (.dict row) (require_optional_dt_str iso collection index row key) := by
  rw [require_optional_dt_str]
  split
  · exact blames_ok _
  · intro e h
    refine blames_require_dt_str e (?_ : require_dt_str iso collection index row key = .error e)
    rcases hrun : require_dt_str iso collection index row key with e' | v
    · rw [hrun] at h
      exact congrArg _ (Except.error.inj h)
    · rw [hrun] at h
      cases h

theorem blames_require_metadata :
    Blames collection index (.dict row) (require_metadata collection index row) := by
  rw [require_metadata]
  split
  · exact blames_ok _
  · exact blames_ok _
  · exact blames_row_error _

theorem blames_require_content :
    Blames collection index (.dict row) (require_content collection index row) := by
  rw [require_content]
  split
  · exact blames_ok _
  · exact blames_row_error _

theorem blames_require_tags :
    Blames collection index (.dict row) (require_tags collection index row) := by
  rw [require_tags]
  split
  · exact blames_ok _
  · split
    · exact blames_ok _
    · exact blames_row_error _
  · exact blames_row_error _

theorem blames_require_optional_str {fault : RowFault} :
    Blames collection index (.dict row) (require_optional_str collection index row key fault) := by
  rw [require_optional_str]
  split
  · exact blames_ok _
  · exact blames_ok _
  · exact blames_row_error _

theorem blames_require_known_project {known : List Text} {project_id : Option Text} :
    Blames collection index (.dict row)
      (require_known_project collection index row known project_id) := by
  unfold require_known_project
  split
  · split
    · exact blames_ok _
    · exact blames_row_error _
  · exact blames_ok _

theorem blames_require_new_id {seen : List Text} {v : Text} :
    Blames collection index (.dict row) (require_new_id collection index row seen v) := by
  rw [require_new_id]
  split
  · exact blames_row_error _
  · exact blames_ok _

end Checks

/-- And so for a whole row. -/
theorem blames_validate_project (seen : List Text) (row : Json) :
    Blames .projects index row (validate_project iso index seen row) := by
  rw [validate_project.eq_def]
  split
  · refine blames_require_str.bind fun id => blames_require_str.bind fun name => ?_
    refine blames_require_dt_str.bind fun created_at => blames_require_metadata.bind fun metadata => ?_
    exact blames_require_new_id.bind fun _ => blames_ok _
  · exact blames_row_error _

theorem blames_validate_memory (known seen : List Text) (row : Json) :
    Blames .memory_items index row (validate_memory iso known index seen row) := by
  rw [validate_memory.eq_def]
  split
  · refine blames_require_str.bind fun id => blames_require_content.bind fun content => ?_
    refine blames_require_dt_str.bind fun created_at => ?_
    refine blames_require_optional_dt_str.bind fun updated_at => blames_require_tags.bind fun tags => ?_
    refine blames_require_optional_str.bind fun source => ?_
    refine blames_require_optional_str.bind fun project_id => ?_
    refine blames_require_known_project.bind fun _ => blames_require_new_id.bind fun _ => ?_
    exact blames_ok _
  · exact blames_row_error _

/-- The loop fails at a row, and says which. -/
theorem validate_rows_error {E : Type} {check : ℕ → List Text → Json → Except Exc E} {id : E → Text}
    (hcheck : ∀ n seen row, Blames collection n row (check n seen row)) {n : ℕ} {seen : List Text}
    {rows : List Json} {e : Exc} (h : validate_rows check id n seen rows = .error e) :
    ∃ i row, rows[i]? = some row ∧ Names collection (n + i) row e := by
  induction rows generalizing n seen with
  | nil => cases h
  | cons row rest ih =>
      rw [validate_rows, bind_eq_error] at h
      rcases h with hrow | ⟨entry, -, hrest⟩
      · exact ⟨0, row, rfl, hcheck n seen row e hrow⟩
      · rcases bind_eq_error.mp hrest with hrest | ⟨entries, -, hret⟩
        · obtain ⟨i, row', hi, hnames⟩ := ih hrest
          refine ⟨i + 1, row', hi, ?_⟩
          rw [Nat.add_assoc, Nat.add_comm 1 i] at hnames
          exact hnames
        · cases hret

/-- An array that is missing is reported before any row is looked at. -/
theorem array_error {payload : Json.Dict} {e : Exc} (h : require_array payload collection = .error e) :
    (∃ why, e = .ValidationError why) ∧ ∀ rows, Shaped payload rows →
      ∃ collection i row, (rows collection)[i]? = some row ∧ Names collection i row e := by
  refine ⟨?_, ?_⟩
  · rw [require_array] at h
    split at h
    · split at h
      · cases h
      · exact ⟨_, (Except.error.inj h).symm⟩
    · exact ⟨_, (Except.error.inj h).symm⟩
  · intro rows hshape
    rw [require_array_eq_ok.mpr (hshape.arrays collection)] at h
    cases h

theorem version_error {payload : Json.Dict} {e : Exc} (h : require_version payload = .error e) :
    (∃ why, e = .ValidationError why) ∧ ∀ rows, Shaped payload rows →
      ∃ collection i row, (rows collection)[i]? = some row ∧ Names collection i row e := by
  refine ⟨?_, ?_⟩
  · rw [require_version] at h
    split at h
    · split at h
      · cases h
      · exact ⟨_, (Except.error.inj h).symm⟩
    · exact ⟨_, (Except.error.inj h).symm⟩
  · intro rows hshape
    -- a payload with the right shape passes the version check
    rw [require_version_eq_ok.mpr hshape.version] at h
    cases h

theorem rows_error {E : Type} {check : ℕ → List Text → Json → Except Exc E} {id : E → Text}
    (hcheck : ∀ n seen row, Blames collection n row (check n seen row)) {payload : Json.Dict}
    {seen : List Text} {listed : List Json} {e : Exc}
    (harray : require_array payload collection = .ok listed)
    (h : validate_rows check id 0 seen listed = .error e) :
    (∃ why, e = .ValidationError why) ∧ ∀ rows, Shaped payload rows →
      ∃ collection i row, (rows collection)[i]? = some row ∧ Names collection i row e := by
  obtain ⟨i, row, hi, fault, rfl⟩ := validate_rows_error hcheck h
  refine ⟨⟨_, rfl⟩, ?_⟩
  intro rows hshape
  have hrows : rows collection = listed := by
    have hget := (hshape.arrays collection).symm.trans (require_array_eq_ok.mp harray)
    exact Json.list.inj hget
  rw [Nat.zero_add]
  exact ⟨collection, i, row, hrows ▸ hi, fault, rfl⟩

/-- **A rejection** is a `ValidationError`, and once the version and the two arrays are in
order it names the row it is about. -/
theorem validate_envelope_error {existing : List Text} {payload : Json.Dict} {e : Exc}
    (h : validate_envelope iso existing payload = .error e) :
    (∃ why, e = .ValidationError why) ∧ ∀ rows, Shaped payload rows →
      ∃ collection i row, (rows collection)[i]? = some row ∧ Names collection i row e := by
  rw [validate_envelope, bind_eq_error] at h
  rcases h with h | ⟨u, -, h⟩
  · exact version_error h
  rw [bind_eq_error] at h
  rcases h with h | ⟨rp, hrp, h⟩
  · exact array_error h
  rw [bind_eq_error] at h
  rcases h with h | ⟨rm, hrm, h⟩
  · exact array_error h
  rw [bind_eq_error] at h
  rcases h with h | ⟨ps, -, h⟩
  · exact rows_error (fun _ => blames_validate_project) hrp h
  rw [bind_eq_error] at h
  rcases h with h | ⟨ms, -, h⟩
  · exact rows_error (fun _ => blames_validate_memory _) hrm h
  · cases h

end Rejected

end OpenChronicle
