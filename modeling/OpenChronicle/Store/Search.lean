/-
The two search engines of `SqliteStore` and the methods over them.

`ranked_search` is the dispatch; both engines below it are prefixes of one list
that does not depend on the limit (`ranking`), which is the fact every paging
argument rests on. The fallback engine only ever looks at the newest
`MEMORY_SEARCH_LIMIT` rows in scope: that bounds its ranking, not its pages.

The two engines differ in how far a page can lie. The fallback slices a list in
Python, where any limit will do. FTS5 is handed the limit as the parameter of
`LIMIT ?`, and SQLite has no integer from `2 ^ 63` on: the statement is prepared,
and binding raises `OverflowError` (`LimitOverflows`). So every fact about a
slice below is about a limit that can be bound, and the methods are
characterized on both sides of it.
-/
import Mathlib.Data.List.Perm.Subperm
import OpenChronicle.Lib.Ranking
import OpenChronicle.Store.Query

set_option autoImplicit false

namespace OpenChronicle

variable {F R : Type}

/-- `_MEMORY_SEARCH_LIMIT`. -/
def MEMORY_SEARCH_LIMIT : ℕ := 200

/-! ## Text helpers -/

/-- `_fts5_escape`: each whitespace token quoted and OR-joined, or, for a phrase,
the whole query as one quoted string. -/
def fts5_escape (query : String) (phrase : Bool) : String :=
  if PyStr.isBlank query.toList then ""
  else if phrase then
    let clean := PyStr.join [' '] (PyStr.split (PyStr.without '"' query.toList))
    if clean = [] then "" else String.ofList ('"' :: clean ++ ['"'])
  else
    let tokens := (PyStr.split query.toList).map (PyStr.without '"')
    String.ofList (PyStr.join " OR ".toList
      ((tokens.filter (· ≠ [])).map fun t => '"' :: t ++ ['"']))

/-- `_normalize_tokens`. -/
def normalize_tokens (P : Platform R) (text : String) : List (List Char) :=
  PyStr.split ((P.lower text).toList.filter (· ∉ PyStr.punctuation))

/-- `_tag_match_count`: tags that are a token, or contain one. -/
def tag_match_count (P : Platform R) (tags : List PyStr.Text) (q_tokens : List (List Char)) : ℕ :=
  let tokens := q_tokens.map (·.map PyStr.CodePoint.scalar)
  tags.countP fun tag =>
    let tag_lower := P.lower_tag tag
    tag_lower ∈ tokens || tokens.any (PyStr.contains · tag_lower)

/-- `_keyword_match_count`: tokens the content contains. -/
def keyword_match_count (P : Platform R) (content : String) (q_tokens : List (List Char)) : ℕ :=
  if content = "" then 0
  else q_tokens.countP (PyStr.contains · (P.lower content).toList)

/-- The whitespace-normalized, casefolded text of the fallback's phrase search. -/
def phrase_text (P : Platform R) (s : String) : List Char :=
  (P.casefold (String.ofList (PyStr.join [' '] (PyStr.split s.toList)))).toList

namespace SqliteStore

variable [LinearOrder R] (P : Platform R) (s : SqliteStore F)

/-! ## FTS5 -/

/-- The rows the index matches, with their rank: the join of `memory_fts` and
`memory_items` on the rowid. -/
def fts5_hits (rank : ℕ → Option R) : List (R × MemoryItem) :=
  s.db.memory_items.filterMap fun m => (rank m.rowid).map (·, m.toMemoryItem)

/-- `ORDER BY fts.rank, m.created_at DESC, m.id ASC`. -/
def fts5_order (hits : List (R × MemoryItem)) : List (R × MemoryItem) :=
  hits.insertionSort fun a b =>
    toLex (a.1, toLex (-a.2.created_at, a.2.id)) ≤ toLex (b.1, toLex (-b.2.created_at, b.2.id))

/-- `_fts5_search_memory` before its `LIMIT`. A table that was never created
raises, as the statement would. -/
def fts5_ranking (query : String) (project_id : Option String) (tags : Option (List PyStr.Text))
    (phrase : Bool) (mode : PinnedMode) : Except Exc (List MemoryItem) :=
  let escaped := fts5_escape query phrase
  if escaped = "" then .ok []
  else
    match s.db.memory_fts with
    | none => .error .OperationalError
    | some idx =>
        match P.fts5_match idx escaped with
        | .error e => .error e
        | .ok rank =>
            .ok ((fts5_order ((s.fts5_hits rank).filter fun h =>
              in_scope mode project_id tags h.2)).map (·.2))

/-- `_fts5_search_memory`. A limit of more than 63 bits cannot be bound to `LIMIT ?`; by
then the statement is prepared, so a table that was never created raises first. -/
def fts5_search_memory (query : String) (limit : ℕ) (project_id : Option String)
    (tags : Option (List PyStr.Text)) (phrase : Bool) (mode : PinnedMode) :
    Except Exc (List MemoryItem) :=
  if fts5_escape query phrase ≠ "" ∧ s.db.memory_fts.isSome ∧ 2 ^ 63 ≤ limit then
    .error .OverflowError
  else (s.fts5_ranking P query project_id tags phrase mode).map (·.take limit)

/-! ## The fallback -/

/-- The key `_fallback_search_memory` sorts by, largest first. -/
def fallback_score (q_tokens : List (List Char)) (m : MemoryItem) : ℕ ×ₗ ℕ ×ₗ ℤ ×ₗ String :=
  toLex (tag_match_count P m.tags q_tokens,
    toLex (keyword_match_count P m.content q_tokens, toLex (m.created_at, m.id)))

/-- `_fallback_search_memory` before its slice: the newest rows in scope, then
either the phrase filter or the score. -/
def fallback_ranking (query : String) (project_id : Option String) (tags : Option (List PyStr.Text))
    (phrase : Bool) (mode : PinnedMode) : List MemoryItem :=
  let items := (Db.newest_first (s.db.items.filter fun m =>
    in_scope mode project_id tags m)).take MEMORY_SEARCH_LIMIT
  if phrase then
    let needle := phrase_text P query
    if needle = [] then []
    else items.filter fun m => PyStr.contains needle (phrase_text P m.content)
  else
    let q_tokens := normalize_tokens P query
    items.insertionSort fun a b => fallback_score P q_tokens b ≤ fallback_score P q_tokens a

/-- `_fallback_search_memory`. -/
def fallback_search_memory (query : String) (limit : ℕ) (project_id : Option String)
    (tags : Option (List PyStr.Text)) (phrase : Bool) (mode : PinnedMode) : List MemoryItem :=
  (s.fallback_ranking P query project_id tags phrase mode).take limit

/-! ## The methods -/

/-- `_ranked_search`. -/
def ranked_search (query : String) (limit : ℕ) (project_id : Option String)
    (tags : Option (List PyStr.Text)) (phrase : Bool) (mode : PinnedMode) :
    Except Exc (List MemoryItem) :=
  if s.fts5_active then s.fts5_search_memory P query limit project_id tags phrase mode
  else .ok (s.fallback_search_memory P query limit project_id tags phrase mode)

/-- `search_pinned`: the float set. -/
def search_pinned (query : String) (limit : ℤ) (project_id : Option String)
    (tags : Option (List PyStr.Text)) (phrase : Bool) : Except Exc (List MemoryItem) :=
  if limit ≤ 0 then .ok []
  else
    (s.ranked_search P query limit.toNat project_id tags phrase .only_pins).map
      (·.take limit.toNat)

/-- `"include" if include_pinned else "exclude"`. -/
def ranked_mode (include_pinned : Bool) : PinnedMode :=
  if include_pinned then .include_pins else .exclude_pins

/-- `search_memory`: pure ranking, over-fetched by the size of the exclusion. -/
def search_memory (query : String) (top_k : ℕ) (project_id : Option String)
    (include_pinned : Bool) (tags : Option (List PyStr.Text)) (offset : ℕ) (phrase : Bool)
    (exclude_ids : List String) : Except Exc (List MemoryItem) :=
  let fetch := top_k + offset + exclude_ids.length
  (s.ranked_search P query fetch project_id tags phrase (ranked_mode include_pinned)).map
    fun ranked => ((ranked.filter fun m => m.id ∉ exclude_ids).drop offset).take top_k

/-! ## One ranking behind every limit -/

/-- The complete ranking of the active engine. -/
def ranking (query : String) (project_id : Option String) (tags : Option (List PyStr.Text))
    (phrase : Bool) (mode : PinnedMode) : Except Exc (List MemoryItem) :=
  if s.fts5_active then s.fts5_ranking P query project_id tags phrase mode
  else .ok (s.fallback_ranking P query project_id tags phrase mode)

/-- The limit reaches FTS5 and cannot be bound there. -/
def LimitOverflows (query : String) (phrase : Bool) (limit : ℕ) : Prop :=
  s.fts5_active = true ∧ fts5_escape query phrase ≠ "" ∧ s.db.memory_fts.isSome ∧ 2 ^ 63 ≤ limit

instance (query : String) (phrase : Bool) (limit : ℕ) :
    Decidable (s.LimitOverflows query phrase limit) :=
  inferInstanceAs (Decidable (_ ∧ _ ∧ _ ∧ _))

variable {s} in
theorem not_limitOverflows_of_le {query : String} {phrase : Bool} {m n : ℕ} (hle : m ≤ n)
    (h : ¬ s.LimitOverflows query phrase n) : ¬ s.LimitOverflows query phrase m := by
  rintro ⟨hactive, hquery, hindex, hlarge⟩
  exact h ⟨hactive, hquery, hindex, hlarge.trans hle⟩

/-- **A limit only cuts the ranking short**, or cannot be bound at all. -/
theorem ranked_search_eq_ite (query : String) (limit : ℕ) (project_id : Option String)
    (tags : Option (List PyStr.Text)) (phrase : Bool) (mode : PinnedMode) :
    s.ranked_search P query limit project_id tags phrase mode
      = if s.LimitOverflows query phrase limit then .error .OverflowError
        else (s.ranking P query project_id tags phrase mode).map (·.take limit) := by
  unfold ranked_search ranking
  by_cases hactive : s.fts5_active = true
  · rw [if_pos hactive, if_pos hactive, fts5_search_memory]
    by_cases hover : fts5_escape query phrase ≠ "" ∧ s.db.memory_fts.isSome ∧ 2 ^ 63 ≤ limit
    · rw [if_pos hover, if_pos ⟨hactive, hover⟩]
    · rw [if_neg hover, if_neg fun h => hover h.2]
  · -- the fallback slices in Python
    rw [if_neg hactive, if_neg hactive, if_neg fun h => hactive h.1]
    rfl

variable {P s} in
/-- A search that returns was cut from the ranking. -/
theorem ranked_search_ok {query : String} {limit : ℕ} {project_id : Option String}
    {tags : Option (List PyStr.Text)} {phrase : Bool} {mode : PinnedMode} {l : List MemoryItem}
    (h : s.ranked_search P query limit project_id tags phrase mode = .ok l) :
    ∃ r, s.ranking P query project_id tags phrase mode = .ok r ∧ l = r.take limit := by
  rw [ranked_search_eq_ite] at h
  split at h
  · cases h
  · cases hr : s.ranking P query project_id tags phrase mode with
    | error e => rw [hr] at h; cases h
    | ok r =>
        rw [hr] at h
        exact ⟨r, rfl, (Except.ok.inj h).symm⟩

/-! ## What a ranking holds

Whatever the engine, a ranking lists rows of the store, each at most once, and
only rows in the scope of its mode. -/

variable {P s} {query : String} {project_id : Option String} {tags : Option (List PyStr.Text)}
  {phrase : Bool} {mode : PinnedMode} {l : List MemoryItem}

omit [LinearOrder R] in
theorem fts5_hits_ids (rank : ℕ → Option R) :
    ((s.fts5_hits rank).map fun h => h.2.id).Sublist (s.db.memory_items.map (·.id)) := by
  unfold fts5_hits
  induction s.db.memory_items with
  | nil => simp
  | cons m t ih =>
      rw [List.filterMap_cons]
      cases rank m.rowid with
      | none => exact ih.trans (List.sublist_cons_self _ _)
      | some r => exact ih.cons_cons _

theorem fts5_ranking_spec (h : s.fts5_ranking P query project_id tags phrase mode = .ok l) :
    (∀ m ∈ l, in_scope mode project_id tags m = true) ∧ (l.map (·.id)).Nodup := by
  unfold fts5_ranking at h
  dsimp only at h
  split at h
  · obtain rfl := Except.ok.inj h
    simp
  · split at h
    · simp at h
    · split at h
      · simp at h
      · next rank _ =>
          obtain rfl := Except.ok.inj h
          have hperm := List.perm_insertionSort (fun a b : R × MemoryItem =>
            toLex (a.1, toLex (-a.2.created_at, a.2.id))
              ≤ toLex (b.1, toLex (-b.2.created_at, b.2.id)))
            ((s.fts5_hits rank).filter fun h => in_scope mode project_id tags h.2)
          constructor
          · intro m hm
            obtain ⟨hit, hhit, rfl⟩ := List.mem_map.mp hm
            exact (List.mem_filter.mp (hperm.mem_iff.mp hhit)).2
          · rw [List.map_map]
            refine (hperm.map _).nodup_iff.mpr ?_
            exact s.db.memory_pk.sublist
              ((List.filter_sublist.map _).trans (fts5_hits_ids rank))

omit [LinearOrder R] in
theorem fallback_ranking_spec :
    (∀ m ∈ s.fallback_ranking P query project_id tags phrase mode,
      in_scope mode project_id tags m = true)
    ∧ ((s.fallback_ranking P query project_id tags phrase mode).map (·.id)).Nodup := by
  set items := (Db.newest_first (s.db.items.filter fun m =>
    in_scope mode project_id tags m)).take MEMORY_SEARCH_LIMIT with hitems
  have hscope : ∀ m ∈ items, in_scope mode project_id tags m = true := by
    intro m hm
    have hm' := (List.perm_insertionSort _ _).mem_iff.mp (List.mem_of_mem_take hm)
    exact (List.mem_filter.mp hm').2
  have hnd : (items.map (·.id)).Nodup := by
    have hall : ((s.db.items.filter fun m => in_scope mode project_id tags m).map (·.id)).Nodup :=
      s.db.items_nodup.sublist (List.filter_sublist.map _)
    have hsort : ((Db.newest_first _).map (·.id)).Nodup :=
      ((List.perm_insertionSort _ _).map _).nodup_iff.mpr hall
    exact hsort.sublist ((List.take_sublist _ _).map _)
  unfold fallback_ranking
  rw [← hitems]
  by_cases hph : phrase = true
  · rw [if_pos hph]
    dsimp only
    by_cases hne : phrase_text P query = []
    · rw [if_pos hne]
      simp
    · rw [if_neg hne]
      exact ⟨fun m hm => hscope m (List.mem_filter.mp hm).1, hnd.sublist (List.filter_sublist.map _)⟩
  · rw [if_neg hph]
    refine ⟨fun m hm => hscope m ((List.perm_insertionSort _ _).mem_iff.mp hm), ?_⟩
    exact ((List.perm_insertionSort _ _).map _).nodup_iff.mpr hnd

theorem ranking_spec (h : s.ranking P query project_id tags phrase mode = .ok l) :
    (∀ m ∈ l, in_scope mode project_id tags m = true) ∧ (l.map (·.id)).Nodup := by
  unfold ranking at h
  split at h
  · exact fts5_ranking_spec h
  · obtain rfl := Except.ok.inj h
    exact fallback_ranking_spec

/-- A ranking lists rows of the store, as they are stored. -/
theorem ranking_subset (h : s.ranking P query project_id tags phrase mode = .ok l) :
    ∀ m ∈ l, m ∈ s.db.items := by
  intro m hm
  unfold ranking at h
  split at h
  · unfold fts5_ranking at h
    dsimp only at h
    split at h
    · obtain rfl := Except.ok.inj h
      simp at hm
    · split at h
      · simp at h
      · split at h
        · simp at h
        · obtain rfl := Except.ok.inj h
          obtain ⟨hit, hhit, rfl⟩ := List.mem_map.mp hm
          have hhit' := (List.mem_filter.mp ((List.perm_insertionSort _ _).mem_iff.mp hhit)).1
          obtain ⟨row, hrow, hr⟩ := List.mem_filterMap.mp hhit'
          obtain ⟨r, -, rfl⟩ := Option.map_eq_some_iff.mp hr
          exact List.mem_map_of_mem hrow
  · obtain rfl := Except.ok.inj h
    have hwindow : ∀ x ∈ (Db.newest_first (s.db.items.filter fun m =>
        in_scope mode project_id tags m)).take MEMORY_SEARCH_LIMIT, x ∈ s.db.items := by
      intro x hx
      have hx' := (List.perm_insertionSort _ _).mem_iff.mp (List.mem_of_mem_take hx)
      exact (List.mem_filter.mp hx').1
    unfold fallback_ranking at hm
    dsimp only at hm
    split at hm
    · split at hm
      · simp at hm
      · exact hwindow m (List.mem_filter.mp hm).1
    · exact hwindow m ((List.perm_insertionSort _ _).mem_iff.mp hm)

/-- The float is a prefix of the ranking of the pins that match. -/
theorem search_pinned_eq {limit : ℤ} (hl : 0 < limit)
    (hbind : ¬ s.LimitOverflows query phrase limit.toNat) :
    s.search_pinned P query limit project_id tags phrase
      = (s.ranking P query project_id tags phrase .only_pins).map (·.take limit.toNat) := by
  rw [search_pinned, if_neg (by omega), ranked_search_eq_ite, if_neg hbind]
  cases s.ranking P query project_id tags phrase .only_pins with
  | error e => rfl
  | ok l => simp [Except.map, List.take_take]

theorem search_pinned_spec {limit : ℤ}
    (h : s.search_pinned P query limit project_id tags phrase = .ok l) :
    (∀ m ∈ l, in_scope .only_pins project_id tags m = true) ∧ (l.map (·.id)).Nodup := by
  unfold search_pinned at h
  split at h
  · obtain rfl := Except.ok.inj h
    simp
  · cases hs : s.ranked_search P query limit.toNat project_id tags phrase .only_pins with
    | error e => rw [hs] at h; cases h
    | ok l' =>
        rw [hs] at h
        obtain rfl := Except.ok.inj h
        obtain ⟨r, hr, rfl⟩ := ranked_search_ok hs
        obtain ⟨hscope, hnd⟩ := ranking_spec hr
        constructor
        · intro m hm
          exact hscope m (List.mem_of_mem_take (List.mem_of_mem_take hm))
        · exact hnd.sublist (((List.take_sublist _ _).trans (List.take_sublist _ _)).map _)

/-- **Over-fetching suffices.** With a fetch that can be bound, `search_memory` is a slice
of the ranking with the excluded ids taken out. -/
theorem search_memory_eq {top_k offset : ℕ} {include_pinned : Bool} {exclude_ids : List String}
    (hbind : ¬ s.LimitOverflows query phrase (top_k + offset + exclude_ids.length)) :
    s.search_memory P query top_k project_id include_pinned tags offset phrase exclude_ids
      = (s.ranking P query project_id tags phrase (ranked_mode include_pinned)).map fun r =>
          ((r.filter fun m => m.id ∉ exclude_ids).drop offset).take top_k := by
  rw [search_memory, ranked_search_eq_ite, if_neg hbind]
  cases hr : s.ranking P query project_id tags phrase (ranked_mode include_pinned) with
  | error e => rfl
  | ok r =>
      have hover := Ranking.take_filter_overfetch (fun m : MemoryItem => m.id) r (ranking_spec hr).2 exclude_ids
        (top_k + offset)
      simp only [Except.map]
      rw [List.take_drop, List.take_drop, Nat.add_comm offset, hover]

theorem search_memory_overflows {top_k offset : ℕ} {include_pinned : Bool}
    {exclude_ids : List String}
    (hover : s.LimitOverflows query phrase (top_k + offset + exclude_ids.length)) :
    s.search_memory P query top_k project_id include_pinned tags offset phrase exclude_ids
      = .error .OverflowError := by
  rw [search_memory, ranked_search_eq_ite, if_pos hover]
  rfl

/-- A ranking is no longer than the table. -/
theorem ranking_length_le (h : s.ranking P query project_id tags phrase mode = .ok l) :
    l.length ≤ s.db.memory_items.length := by
  have hsub : l.map (·.id) ⊆ s.db.items.map (·.id) := by
    intro id hid
    obtain ⟨m, hm, rfl⟩ := List.mem_map.mp hid
    exact List.mem_map_of_mem (ranking_subset h m hm)
  have hle := ((ranking_spec h).2.subperm hsub).length_le
  rwa [List.length_map, List.length_map, Db.items, List.length_map] at hle

/-- **One ranking.** Both engines rank once and for all: with a limit that no row exceeds,
`_ranked_search` gives a list `R`, and `search_memory` is a slice of `R` less the excluded
ids, whatever ids those are and wherever they stand. The exception is a fetch that FTS5
cannot be handed, which raises before anything is ranked. -/
theorem search_memory_slices_one_ranking (P : Platform R) (s : SqliteStore F) (query : String)
    (project_id : Option String) (include_pinned : Bool) (tags : Option (List PyStr.Text))
    (phrase : Bool) :
    ∃ complete : Except Exc (List MemoryItem),
      (∀ limit, s.db.memory_items.length ≤ limit → ¬ s.LimitOverflows query phrase limit →
        s.ranked_search P query limit project_id tags phrase (ranked_mode include_pinned) = complete)
      ∧ ∀ top_k offset exclude_ids,
        s.search_memory P query top_k project_id include_pinned tags offset phrase exclude_ids
          = if s.LimitOverflows query phrase (top_k + offset + exclude_ids.length) then
              .error .OverflowError
            else complete.map fun r =>
              ((r.filter fun m => m.id ∉ exclude_ids).drop offset).take top_k := by
  refine ⟨s.ranking P query project_id tags phrase (ranked_mode include_pinned), ?_, ?_⟩
  · intro limit hlimit hbind
    rw [ranked_search_eq_ite, if_neg hbind]
    cases hr : s.ranking P query project_id tags phrase (ranked_mode include_pinned) with
    | error e => rfl
    | ok r =>
        have hle := ranking_length_le hr
        show Except.ok (r.take limit) = .ok r
        rw [List.take_of_length_le (by omega)]
  · intro top_k offset exclude_ids
    by_cases hover : s.LimitOverflows query phrase (top_k + offset + exclude_ids.length)
    · rw [if_pos hover]
      exact search_memory_overflows hover
    · rw [if_neg hover]
      exact search_memory_eq hover

namespace Deep

/-- Every row is a match. -/
def platform : Platform ℕ := ⟨id, id, id, fun _ _ => .ok fun _ => some 0⟩

def note : MemoryItem := { id := "m", content := "alpha", created_at := 0 }

theorem note_id_unique : ([⟨note, 1⟩].map fun m : MemoryRow => m.id).Nodup := List.nodup_singleton _

def store : SqliteStore Unit where
  db :=
    { memory_items := [⟨note, 1⟩]
      memory_fts := some [⟨1, "alpha", []⟩]
      memory_pk := note_id_unique
      memory_fk := by decide
      rowid_pk := by decide }
  fts5_active := true

/-- One row that matches: it is the first page, and the page at offset `2 ^ 63` raises where
a slice of the ranking would be empty. -/
theorem deep_offset_is_no_slice :
    store.search_memory platform "alpha" 1 none true none 0 false [] = .ok [note]
      ∧ store.search_memory platform "alpha" 1 none true none (2 ^ 63) false []
        = .error .OverflowError
      ∧ ¬ ∃ complete : Except Exc (List MemoryItem), ∀ top_k offset exclude_ids,
        store.search_memory platform "alpha" top_k none true none offset false exclude_ids
          = complete.map fun r =>
              ((r.filter fun m => m.id ∉ exclude_ids).drop offset).take top_k := by
  have hfirst : store.search_memory platform "alpha" 1 none true none 0 false [] = .ok [note] := by
    rfl
  have hdeep : store.search_memory platform "alpha" 1 none true none (2 ^ 63) false []
      = .error .OverflowError :=
    search_memory_overflows ⟨rfl, by decide +kernel, rfl, by decide +kernel⟩
  refine ⟨hfirst, hdeep, ?_⟩
  rintro ⟨complete, hslices⟩
  cases complete with
  | error e =>
      have h := (hslices 1 0 []).symm.trans hfirst
      cases h
  | ok r =>
      have h := (hslices 1 (2 ^ 63) []).symm.trans hdeep
      cases h

end Deep

theorem search_memory_spec {top_k offset : ℕ} {include_pinned : Bool} {exclude_ids : List String}
    (h : s.search_memory P query top_k project_id include_pinned tags offset phrase exclude_ids
      = .ok l) :
    (∀ m ∈ l, in_scope (ranked_mode include_pinned) project_id tags m = true
      ∧ m.id ∉ exclude_ids) ∧ (l.map (·.id)).Nodup := by
  by_cases hover : s.LimitOverflows query phrase (top_k + offset + exclude_ids.length)
  · rw [search_memory_overflows hover] at h
    cases h
  rw [search_memory_eq hover] at h
  cases hr : s.ranking P query project_id tags phrase (ranked_mode include_pinned) with
  | error e => rw [hr] at h; cases h
  | ok r =>
      rw [hr] at h
      obtain rfl := Except.ok.inj h
      obtain ⟨hscope, hnd⟩ := ranking_spec hr
      constructor
      · intro m hm
        have hm' := List.mem_filter.mp (List.mem_of_mem_drop (List.mem_of_mem_take hm))
        exact ⟨hscope m hm'.1, by simpa using hm'.2⟩
      · refine hnd.sublist (List.Sublist.map _ ?_)
        exact (List.take_sublist _ _).trans ((List.drop_sublist _ _).trans List.filter_sublist)

end SqliteStore

end OpenChronicle
