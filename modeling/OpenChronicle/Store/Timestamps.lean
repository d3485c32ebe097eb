/-
What `created_at` is stored as, and what `ORDER BY created_at` makes of it.

Elsewhere a timestamp is an instant. Here it is the `datetime` the program holds, a reading of the clock
with the offset of its time zone, and the TEXT column it is bound to. The text of a datetime in UTC
sorts as its instant, byte by byte as SQLite compares it, so every `ORDER BY created_at` of the store is
the chronological order the other modules use.

That is not plain, since `isoformat` leaves the fraction out when it is zero. The texts of two instants
in one second have different lengths, and the one without a fraction goes on with the `+` of its offset
where the other has a point. `+` is below the point, which is the right order; `Z` would not be.

Instants that `datetime` cannot hold have no text. The store refuses them when they are bound, so
`Storable` is a fact about every row.
-/
import OpenChronicle.Lib.IsoText
import OpenChronicle.Store.Search
import OpenChronicle.Transfer.Envelope

set_option autoImplicit false

namespace OpenChronicle

open Calendar

/-! ## Datetimes -/

/-- A `datetime` of the program. An offset from UTC, in microseconds, is shorter than a day. -/
structure PyDatetime where
  reading : DateTime
  utcoffset : Option ℤ
  utcoffset_lt : ∀ offset ∈ utcoffset, offset.natAbs < DAY

/-- 1970, in microseconds since the start of year 1. -/
def EPOCH : ℤ := 62135596800000000

namespace PyDatetime

/-- A reading in UTC. -/
def utc (reading : DateTime) : PyDatetime where
  reading
  utcoffset := some 0
  utcoffset_lt := by
    rintro _ ⟨⟩
    decide

/-- What the other modules keep of it: the instant, if it has an offset. -/
def datetime (value : PyDatetime) : Datetime :=
  match value.utcoffset with
  | none => .naive
  | some offset => .aware (value.reading.micros - offset - EPOCH)

/-- `isoformat`. -/
def isoformat (value : PyDatetime) : String :=
  String.ofList (IsoText.isoformat value.reading value.utcoffset)

/-- `fromisoformat`. -/
def fromisoformat (text : String) : Option PyDatetime :=
  match IsoText.fromisoformat text.toList with
  | none => none
  | some (reading, utcoffset) =>
      if h : ∀ offset ∈ utcoffset, offset.natAbs < DAY then some ⟨reading, utcoffset, h⟩ else none

/-- `require_utc`. -/
def require_utc (value : PyDatetime) (field : String) : Except Exc PyDatetime :=
  match value.utcoffset with
  | none => .error (.ValidationError (.bad_datetime field .naive))
  | some offset =>
      match DateTime.of_micros (value.reading.micros - offset) with
      | some reading => .ok (utc reading)
      | none => .error (.ValidationError (.bad_datetime field .out_of_range))

/-- `require_utc(value, field=field).isoformat()`: what a TEXT column is bound to. -/
def stored_text (value : PyDatetime) (field : String) : Except Exc String :=
  (value.require_utc field).map isoformat

/-- A datetime is read back from its text, offset included. -/
theorem fromisoformat_isoformat (value : PyDatetime) : fromisoformat value.isoformat = some value := by
  rw [fromisoformat, isoformat, String.toList_ofList, IsoText.fromisoformat_isoformat _ value.utcoffset_lt]
  exact dif_pos value.utcoffset_lt

/-- The instants `datetime` can hold. -/
theorem of_micros_isSome (t : ℤ) :
    (MIN_INSTANT ≤ t ∧ t ≤ MAX_INSTANT) ↔ ∃ reading, DateTime.of_micros (t + EPOCH) = some reading := by
  have hrange : (MIN_INSTANT ≤ t ∧ t ≤ MAX_INSTANT) ↔ 0 ≤ t + EPOCH ∧ t + EPOCH < MAX_DAYS * DAY := by
    have hmax : (MAX_DAYS : ℤ) * DAY = 315537897600000000 := by decide
    have hepoch : t + EPOCH = (t : ℤ) + 62135596800000000 := rfl
    rw [hmax, hepoch]
    constructor
    · rintro ⟨hlow, hhigh⟩
      have hlow' : (-62135596800000000 : ℤ) ≤ t := hlow
      have hhigh' : (t : ℤ) ≤ 253402300799999999 := hhigh
      omega
    · rintro ⟨hlow, hhigh⟩
      have hlow' : (-62135596800000000 : ℤ) ≤ t := by omega
      have hhigh' : (t : ℤ) ≤ 253402300799999999 := by omega
      exact ⟨hlow', hhigh'⟩
  rw [hrange]
  constructor
  · intro h
    obtain ⟨reading, hreading, -⟩ := DateTime.of_micros_pos h
    exact ⟨reading, hreading⟩
  · rintro ⟨reading, hreading⟩
    by_contra hout
    rw [DateTime.of_micros_eq_none.mpr (by omega)] at hreading
    cases hreading

/-- **The conversion keeps the instant**, and refuses what `require_utc` of an instant refuses. -/
theorem require_utc_datetime (value : PyDatetime) (field : String) :
    (∀ e, value.require_utc field = .error e ↔ OpenChronicle.require_utc field value.datetime = .error e)
      ∧ ∀ converted, value.require_utc field = .ok converted →
        converted.utcoffset = some 0 ∧ converted.datetime = value.datetime
          ∧ ∃ t, value.datetime = .aware t ∧ OpenChronicle.require_utc field value.datetime = .ok t := by
  rw [PyDatetime.require_utc, PyDatetime.datetime]
  rcases hoffset : value.utcoffset with _ | offset
  · refine ⟨?_, nofun⟩
    intro e
    simp only [OpenChronicle.require_utc, Except.error.injEq]
  · dsimp only
    have hsum : (value.reading.micros : ℤ) - offset - EPOCH + EPOCH = value.reading.micros - offset := by ring
    have hrange := of_micros_isSome (value.reading.micros - offset - EPOCH)
    rw [hsum] at hrange
    rw [OpenChronicle.require_utc]
    rcases hread : DateTime.of_micros (value.reading.micros - offset) with _ | reading
    · rw [hread] at hrange
      rw [if_neg (fun h => by obtain ⟨_, hbad⟩ := hrange.mp h; cases hbad)]
      refine ⟨?_, nofun⟩
      intro e
      simp only [Except.error.injEq]
    · rw [if_pos (hrange.mpr ⟨reading, hread⟩)]
      refine ⟨fun e => ⟨nofun, nofun⟩, ?_⟩
      intro converted hconverted
      obtain rfl := Except.ok.inj hconverted
      have hmicros := DateTime.micros_of_micros hread
      refine ⟨rfl, ?_, _, rfl, rfl⟩
      show Datetime.aware (reading.micros - 0 - EPOCH) = _
      rw [hmicros, Int.sub_zero]

end PyDatetime

/-! ## Columns -/

/-- The text of an instant in a TEXT column. -/
def created_text (t : Instant) : String :=
  match DateTime.of_micros (t + EPOCH) with
  | some reading => (PyDatetime.utc reading).isoformat
  | none => ""

/-- An instant that was stored. -/
def Storable (t : Instant) : Prop := MIN_INSTANT ≤ t ∧ t ≤ MAX_INSTANT

/-- The text of a reading in UTC. -/
theorem created_text_of_storable {t : Instant} (h : Storable t) :
    ∃ reading, created_text t = (PyDatetime.utc reading).isoformat ∧ (reading.micros : ℤ) = t + EPOCH := by
  obtain ⟨reading, hreading⟩ := (PyDatetime.of_micros_isSome t).mp h
  refine ⟨reading, ?_, DateTime.micros_of_micros hreading⟩
  rw [created_text, hreading]

/-- What a datetime is stored as is the text of its instant. -/
theorem stored_text_eq {value : PyDatetime} {field text : String} (h : value.stored_text field = .ok text) :
    ∃ t, value.datetime = .aware t ∧ Storable t ∧ text = created_text t := by
  rw [PyDatetime.stored_text] at h
  rcases hconv : value.require_utc field with e | converted
  · rw [hconv] at h
    cases h
  · rw [hconv] at h
    obtain rfl := Except.ok.inj h
    obtain ⟨-, hok⟩ := value.require_utc_datetime field
    obtain ⟨hzero, hsame, t, ht, hrange⟩ := hok converted hconv
    rw [ht, require_utc] at hrange
    have hstorable : Storable t := by
      by_contra hout
      rw [if_neg (show ¬(MIN_INSTANT ≤ t ∧ t ≤ MAX_INSTANT) from hout)] at hrange
      cases hrange
    obtain ⟨reading, htext, hmicros⟩ := created_text_of_storable hstorable
    refine ⟨t, ht, hstorable, ?_⟩
    -- both are the reading in UTC of one instant
    rw [ht, PyDatetime.datetime, hzero] at hsame
    have hcount : (converted.reading.micros : ℤ) - 0 - EPOCH = t := Datetime.aware.inj hsame
    have hreading : converted.reading = reading := by
      apply DateTime.micros_inj
      omega
    rw [htext, PyDatetime.isoformat, PyDatetime.isoformat, hreading, hzero]
    rfl

/-- **The texts sort as the instants.** -/
theorem created_text_lt_iff {t u : Instant} (ht : Storable t) (hu : Storable u) :
    created_text t < created_text u ↔ t < u := by
  obtain ⟨reading, htext, hmicros⟩ := created_text_of_storable ht
  obtain ⟨reading', htext', hmicros'⟩ := created_text_of_storable hu
  rw [htext, htext', String.lt_iff_toList_lt, PyDatetime.isoformat, PyDatetime.isoformat,
    String.toList_ofList, String.toList_ofList]
  have hlt := IsoText.isoformat_lt_iff reading reading'
  rw [show (PyDatetime.utc reading).utcoffset = some 0 from rfl,
    show (PyDatetime.utc reading').utcoffset = some 0 from rfl]
  refine hlt.trans ?_
  rw [← Nat.cast_lt (α := ℤ), hmicros, hmicros']
  exact add_lt_add_iff_right EPOCH

/-- Different instants have different texts. -/
theorem created_text_inj {t u : Instant} (ht : Storable t) (hu : Storable u) :
    created_text t = created_text u ↔ t = u := by
  constructor
  · intro h
    have hle := mt (created_text_lt_iff ht hu).mpr (by rw [h]; exact lt_irrefl _)
    have hge := mt (created_text_lt_iff hu ht).mpr (by rw [h]; exact lt_irrefl _)
    exact Int.le_antisymm (Int.not_lt.mp hge) (Int.not_lt.mp hle)
  · rintro rfl
    rfl

/-- The text names its instant. -/
theorem fromisoformat_created_text {t : Instant} (h : Storable t) :
    ∃ value, PyDatetime.fromisoformat (created_text t) = some value ∧ value.datetime = .aware t
      ∧ value.utcoffset = some 0 := by
  obtain ⟨reading, htext, hmicros⟩ := created_text_of_storable h
  refine ⟨.utc reading, ?_, ?_, rfl⟩
  · rw [htext]
    exact PyDatetime.fromisoformat_isoformat _
  · show Datetime.aware (reading.micros - 0 - EPOCH) = _
    rw [hmicros, Int.sub_zero, add_sub_cancel_right]

/-- The text form that import and export take as given. -/
def iso_format : IsoFormat where
  isoformat t := PyStr.Text.ofString (created_text t)
  fromisoformat text := (text.encode.bind PyDatetime.fromisoformat).map PyDatetime.datetime
  fromisoformat_isoformat := by
    intro t hlow hhigh
    obtain ⟨value, hvalue, hinstant, -⟩ := fromisoformat_created_text ⟨hlow, hhigh⟩
    rw [PyStr.Text.encode_ofString, Option.bind_some, hvalue, Option.map_some, hinstant]
  fromisoformat_empty := by decide

/-! ## `ORDER BY` -/

/-- `ORDER BY created_at DESC, id DESC` on the column. -/
def sql_newest_first (rows : List MemoryItem) : List MemoryItem :=
  rows.insertionSort fun a b =>
    toLex (created_text b.created_at, b.id) ≤ toLex (created_text a.created_at, a.id)

/-- `ORDER BY pinned DESC, created_at DESC, id DESC` on the column. -/
def sql_pinned_first (rows : List MemoryItem) : List MemoryItem :=
  rows.insertionSort fun a b =>
    toLex (b.pinned, toLex (created_text b.created_at, b.id))
      ≤ toLex (a.pinned, toLex (created_text a.created_at, a.id))

/-- `SELECT * FROM projects ORDER BY created_at DESC, id DESC` on the column. -/
def sql_list_projects (rows : List Project) : List Project :=
  rows.insertionSort fun a b =>
    toLex (created_text b.created_at, b.id) ≤ toLex (created_text a.created_at, a.id)

/-- `ORDER BY fts.rank, m.created_at DESC, m.id ASC` on the column. -/
def sql_fts5_order {R : Type} [LinearOrder R] (hits : List (R × MemoryItem)) : List (R × MemoryItem) :=
  hits.insertionSort fun a b =>
    toLex (a.1, toLex (OrderDual.toDual (created_text a.2.created_at), a.2.id))
      ≤ toLex (b.1, toLex (OrderDual.toDual (created_text b.2.created_at), b.2.id))

section OrderBy

variable {t u : Instant} {ι : Type} [LinearOrder ι]

theorem key_le_iff (ht : Storable t) (hu : Storable u) (x y : ι) :
    toLex (created_text t, x) ≤ toLex (created_text u, y) ↔ toLex (t, x) ≤ toLex (u, y) := by
  rw [Prod.Lex.toLex_le_toLex, Prod.Lex.toLex_le_toLex, created_text_lt_iff ht hu, created_text_inj ht hu]

theorem descending_key_le_iff (ht : Storable t) (hu : Storable u) (x y : ι) :
    toLex (OrderDual.toDual (created_text t), x) ≤ toLex (OrderDual.toDual (created_text u), y)
      ↔ toLex (-t, x) ≤ toLex (-u, y) := by
  rw [Prod.Lex.toLex_le_toLex, Prod.Lex.toLex_le_toLex, OrderDual.toDual_lt_toDual,
    created_text_lt_iff hu ht, OrderDual.toDual_inj, created_text_inj ht hu, neg_lt_neg_iff, neg_inj]

/-- A key in front of the timestamp changes nothing. -/
theorem leading_key_le_iff {κ α β : Type} [LinearOrder κ] [LinearOrder α] [LinearOrder β] {a b : α} {c d : β}
    (h : a ≤ b ↔ c ≤ d) (x y : κ) : toLex (x, a) ≤ toLex (y, b) ↔ toLex (x, c) ≤ toLex (y, d) := by
  rw [Prod.Lex.toLex_le_toLex, Prod.Lex.toLex_le_toLex, h]

end OrderBy

/-- **Stored timestamp text sorts chronologically.** The texts of two datetimes `require_utc`
accepts compare as their instants, and `fromisoformat` of one is its instant in UTC. So each
`ORDER BY` on the column is the chronological order, ties broken by id as it says. -/
theorem stored_text_is_chronological :
    (∀ (a b : PyDatetime) (field field' text text' : String),
      a.stored_text field = .ok text → b.stored_text field' = .ok text' →
      ∃ t u, a.datetime = .aware t ∧ b.datetime = .aware u
        ∧ (text < text' ↔ t < u) ∧ (text = text' ↔ t = u) ∧ (text' < text ↔ u < t)
        ∧ (PyDatetime.fromisoformat text).map PyDatetime.datetime = some (.aware t)
        ∧ (PyDatetime.fromisoformat text).map PyDatetime.utcoffset = some (some 0))
      ∧ (∀ rows : List MemoryItem, (∀ m ∈ rows, Storable m.created_at) →
        sql_newest_first rows = Db.newest_first rows ∧ sql_pinned_first rows = Db.pinned_first rows)
      ∧ (∀ {F : Type} (db : Db F), (∀ p ∈ db.projects, Storable p.created_at) →
        sql_list_projects db.projects = db.list_projects)
      ∧ ∀ {R : Type} [LinearOrder R] (hits : List (R × MemoryItem)), (∀ h ∈ hits, Storable h.2.created_at) →
        sql_fts5_order hits = SqliteStore.fts5_order hits := by
  refine ⟨?_, ?_, ?_, ?_⟩
  · intro a b field field' text text' ha hb
    obtain ⟨t, ht, hst, rfl⟩ := stored_text_eq ha
    obtain ⟨u, hu, hsu, rfl⟩ := stored_text_eq hb
    obtain ⟨value, hread, hinstant, hzero⟩ := fromisoformat_created_text hst
    refine ⟨t, u, ht, hu, created_text_lt_iff hst hsu, created_text_inj hst hsu,
      created_text_lt_iff hsu hst, ?_, ?_⟩
    · rw [hread, Option.map_some, hinstant]
    · rw [hread, Option.map_some, hzero]
  · intro rows h
    constructor
    · apply Ranking.insertionSort_congr
      intro a ha b hb
      exact key_le_iff (h b hb) (h a ha) _ _
    · apply Ranking.insertionSort_congr
      intro a ha b hb
      exact leading_key_le_iff (key_le_iff (h b hb) (h a ha) _ _) _ _
  · intro F db h
    apply Ranking.insertionSort_congr
    intro a ha b hb
    exact key_le_iff (h b hb) (h a ha) _ _
  · intro R _ hits h
    apply Ranking.insertionSort_congr
    intro a ha b hb
    exact leading_key_le_iff (descending_key_le_iff (h a ha) (h b hb) _ _) _ _

namespace Offsets

/-- 04:41:37.123456, five hours behind UTC. -/
def central : PyDatetime where
  reading := ⟨2026, 9, 23, 4, 41, 37, 123456, by decide, by decide, by decide, by decide, by decide,
    by decide, by decide⟩
  utcoffset := some (-18000000000)
  utcoffset_lt := by
    rintro _ ⟨⟩
    decide

/-- 09:41:37 in UTC, without a fraction. -/
def whole_second : PyDatetime :=
  .utc ⟨2026, 9, 23, 9, 41, 37, 0, by decide, by decide, by decide, by decide, by decide, by decide, by decide⟩

/-- On a whole second, whose text has no fraction, and half a second later. -/
def early : MemoryItem := { id := "b", created_at := 0 }

def late : MemoryItem := { id := "a", created_at := 500000 }

def early_project : Project := { id := "p", name := "p", created_at := 0 }

def late_project : Project := { id := "q", name := "q", created_at := 500000 }

theorem projects_apart : ([early_project, late_project].map fun p => p.id).Nodup := by decide

theorem no_rows : ∀ m ∈ ([] : List MemoryRow), ∀ p, m.project_id = some p →
    ∃ q ∈ [early_project, late_project], q.id = p := by
  intro m hm
  cases hm

def two_projects : Db Unit where
  projects := [early_project, late_project]
  project_pk := projects_apart
  memory_fk := no_rows

theorem stored_text_is_chronological_sample :
    (∃ t u, whole_second.datetime = .aware t ∧ central.datetime = .aware u
        ∧ ("2026-09-23T09:41:37+00:00" < "2026-09-23T09:41:37.123456+00:00" ↔ t < u))
      ∧ sql_newest_first [early, late] = [late, early]
      ∧ sql_pinned_first [late, { early with pinned := true }] = [{ early with pinned := true }, late]
      ∧ sql_list_projects two_projects.projects = [late_project, early_project]
      ∧ sql_fts5_order [((1 : ℕ), early), (1, late)] = [(1, late), (1, early)] := by
  obtain ⟨htexts, hrows, hprojects, hhits⟩ := stored_text_is_chronological
  have hstorable : Storable 0 ∧ Storable 500000 := ⟨⟨by decide, by decide⟩, by decide, by decide⟩
  have hboth : ∀ m ∈ [early, late], Storable m.created_at := by
    simpa [early, late] using hstorable
  refine ⟨?_, ?_, ?_, ?_, ?_⟩
  · obtain ⟨t, u, ht, hu, hlt, -⟩ := htexts whole_second central "created_at" "created_at"
      "2026-09-23T09:41:37+00:00" "2026-09-23T09:41:37.123456+00:00" (by decide +kernel) (by decide +kernel)
    exact ⟨t, u, ht, hu, hlt⟩
  · rw [(hrows _ hboth).1]
    rfl
  · rw [(hrows _ (by simpa [early, late] using hstorable.symm)).2]
    rfl
  · rw [hprojects two_projects (by simpa [two_projects, early_project, late_project] using hstorable)]
    rfl
  · rw [hhits _ (by simpa [early, late] using hstorable)]
    rfl

end Offsets

end OpenChronicle
