/-
The search engine of a build without FTS5: what it returns, and what it misses.

The fallback reads the newest rows in scope and ranks them in Python. It keeps every row it read,
whether or not a token of the query occurs in it, and it never looks at a row outside its window. Both
are exact: the rows that match are a prefix of the ranking, so a page holds only matches when it ends
inside that prefix, and a match is found when it is in the window.

That the matches are a prefix is what makes the first condition simple. The ranking sorts by the number
of matching tags and then by the number of matching tokens, so a row that matches nothing has the lowest
score of all (`token_match_of_score`), and counting the matches tells how far a page may reach.

A phrase is ranked otherwise. The branch returns before the sort, with the rows as they were read,
newest first; so for a phrase it is also asked when that order happens to be the order of the scores.
An instance whose index is inactive slices in Python, with any limit, and nothing overflows.
-/
import OpenChronicle.Store.Search

set_option autoImplicit false

namespace OpenChronicle

variable {F R : Type}

/-! ## What matches -/

/-- A normalized token of the query occurs in the content. -/
def in_content (P : Platform R) (m : MemoryItem) (token : List Char) : Bool :=
  m.content ≠ "" && PyStr.contains token (P.lower m.content).toList

/-- It occurs in a tag. -/
def in_tags (P : Platform R) (m : MemoryItem) (token : List Char) : Bool :=
  m.tags.any fun tag => PyStr.contains (token.map PyStr.CodePoint.scalar) (P.lower_tag tag)

/-- At least one normalized token of the query occurs in content or tags. -/
def token_match (P : Platform R) (query : String) (m : MemoryItem) : Bool :=
  (normalize_tokens P query).any fun token => in_content P m token || in_tags P m token

/-- The normalized phrase occurs in the content; a blank query has no phrase. -/
def phrase_match (P : Platform R) (query : String) (m : MemoryItem) : Bool :=
  phrase_text P query ≠ [] && PyStr.contains (phrase_text P query) (phrase_text P m.content)

/-- The row matches, for a phrase or for tokens. -/
def query_match (P : Platform R) (query : String) (phrase : Bool) (m : MemoryItem) : Bool :=
  if phrase then phrase_match P query m else token_match P query m

section Counts

variable (P : Platform R) (tokens : List (List Char)) (m : MemoryItem)

/-- A count is positive if one of the tokens occurs. -/
theorem keyword_match_count_pos :
    0 < keyword_match_count P m.content tokens ↔ ∃ token ∈ tokens, in_content P m token = true := by
  rw [keyword_match_count]
  by_cases hempty : m.content = ""
  · rw [if_pos hempty]
    simp [in_content, hempty]
  · rw [if_neg hempty, List.countP_pos_iff]
    simp [in_content, hempty]

/-- A tag that is a token contains it. -/
theorem tag_match_count_pos :
    0 < tag_match_count P m.tags tokens ↔ ∃ token ∈ tokens, in_tags P m token = true := by
  rw [tag_match_count, List.countP_pos_iff]
  simp only [in_tags, List.any_eq_true, Bool.or_eq_true, decide_eq_true_eq, List.mem_map]
  constructor
  · rintro ⟨tag, htag, htoken⟩
    rcases htoken with ⟨token, htoken, heq⟩ | ⟨_, ⟨token, htoken, rfl⟩, hin⟩
    · refine ⟨token, htoken, tag, htag, ?_⟩
      rw [heq, PyStr.contains, decide_eq_true_eq]
    · exact ⟨token, htoken, tag, htag, hin⟩
  · rintro ⟨token, htoken, tag, htag, hin⟩
    exact ⟨tag, htag, .inr ⟨_, ⟨token, htoken, rfl⟩, hin⟩⟩

theorem token_match_iff (query : String) :
    token_match P query m = true
      ↔ 0 < tag_match_count P m.tags (normalize_tokens P query)
        ∨ 0 < keyword_match_count P m.content (normalize_tokens P query) := by
  rw [keyword_match_count_pos, tag_match_count_pos, token_match, List.any_eq_true]
  constructor
  · rintro ⟨token, htoken, h⟩
    rcases Bool.or_eq_true_iff.mp h with hcontent | htags
    · exact .inr ⟨token, htoken, hcontent⟩
    · exact .inl ⟨token, htoken, htags⟩
  · rintro (⟨token, htoken, h⟩ | ⟨token, htoken, h⟩)
    · exact ⟨token, htoken, Bool.or_eq_true_iff.mpr (.inr h)⟩
    · exact ⟨token, htoken, Bool.or_eq_true_iff.mpr (.inl h)⟩

/-- A row that outranks a match is a match. -/
theorem token_match_of_score {query : String} {a b : MemoryItem}
    (hle : SqliteStore.fallback_score P (normalize_tokens P query) b
      ≤ SqliteStore.fallback_score P (normalize_tokens P query) a)
    (hb : token_match P query b = true) : token_match P query a = true := by
  rw [token_match_iff] at hb ⊢
  rw [SqliteStore.fallback_score, SqliteStore.fallback_score, Prod.Lex.toLex_le_toLex, Prod.Lex.toLex_le_toLex] at hle
  dsimp only at hle
  omega

end Counts

/-! ## The window -/

/-- Python slices with any limit. -/
theorem not_limitOverflows_fallback (db : Db F) (query : String) (phrase : Bool) (limit : ℕ) :
    ¬ (⟨db, false⟩ : SqliteStore F).LimitOverflows query phrase limit := by
  rintro ⟨hactive, -⟩
  cases hactive

/-- The rows the fallback reads. -/
def fallback_window (db : Db F) (project_id : Option String) (tags : Option (List PyStr.Text))
    (mode : PinnedMode) : List MemoryItem :=
  (Db.newest_first (db.items.filter fun m => in_scope mode project_id tags m)).take MEMORY_SEARCH_LIMIT

section Ranking

variable (P : Platform R) (db : Db F) (query : String) (project_id : Option String)
  (tags : Option (List PyStr.Text)) (mode : PinnedMode)

/-- The ranking drops no row of its window, matching or not. -/
theorem fallback_ranking_perm :
    ((⟨db, false⟩ : SqliteStore F).fallback_ranking P query project_id tags false mode).Perm
      (fallback_window db project_id tags mode) := List.perm_insertionSort _ _

/-- By score, ties as they were read. -/
theorem fallback_ranking_sorted :
    ((⟨db, false⟩ : SqliteStore F).fallback_ranking P query project_id tags false mode).Pairwise fun a b =>
      SqliteStore.fallback_score P (normalize_tokens P query) b
        ≤ SqliteStore.fallback_score P (normalize_tokens P query) a := List.pairwise_insertionSort _ _

/-- The rows that match come first. -/
theorem fallback_matches_first :
    ((⟨db, false⟩ : SqliteStore F).fallback_ranking P query project_id tags false mode).Pairwise fun a b =>
      token_match P query b = true → token_match P query a = true := by
  refine (fallback_ranking_sorted P db query project_id tags mode).imp ?_
  intro a b hle hb
  exact token_match_of_score P hle hb

variable [LinearOrder R] (phrase : Bool)

/-- The float is a prefix of the ranking of pins. -/
theorem search_pinned_fallback (limit : ℤ) :
    (⟨db, false⟩ : SqliteStore F).search_pinned P query limit project_id tags phrase
      = .ok (((⟨db, false⟩ : SqliteStore F).fallback_ranking P query project_id tags phrase .only_pins).take
          limit.toNat) := by
  by_cases hpos : 0 < limit
  · rw [SqliteStore.search_pinned_eq hpos (not_limitOverflows_fallback _ _ _ _)]
    rfl
  · rw [SqliteStore.search_pinned, if_pos (by omega), Int.toNat_of_nonpos (by omega), List.take_zero]

theorem search_memory_fallback (top_k offset : ℕ) (include_pinned : Bool) (exclude_ids : List String) :
    (⟨db, false⟩ : SqliteStore F).search_memory P query top_k project_id include_pinned tags offset phrase
        exclude_ids
      = .ok (Ranking.slice (((⟨db, false⟩ : SqliteStore F).fallback_ranking P query project_id tags phrase
          (SqliteStore.ranked_mode include_pinned)).filter fun m => m.id ∉ exclude_ids) offset top_k) := by
  rw [SqliteStore.search_memory_eq (not_limitOverflows_fallback _ _ _ _)]
  rfl

end Ranking

/-- **The fallback returns only matches exactly when enough rows match.** With FTS5 inactive and
no phrase, a float holds only pins that match iff at least as many of the newest pins in scope
match as it can return; a page of `search_memory` holds only matches iff it ends among the
matching rows of the window, or holds nothing. -/
theorem fallback_only_matches_iff (P : Platform R) [LinearOrder R] (db : Db F) (query : String)
    (project_id : Option String) (tags : Option (List PyStr.Text)) :
    (∀ limit : ℤ,
      (∀ l, (⟨db, false⟩ : SqliteStore F).search_pinned P query limit project_id tags false = .ok l →
        ∀ m ∈ l, token_match P query m = true)
      ↔ min (fallback_window db project_id tags .only_pins).length limit.toNat
          ≤ (fallback_window db project_id tags .only_pins).countP (token_match P query))
    ∧ ∀ (top_k offset : ℕ) (include_pinned : Bool) (exclude_ids : List String),
      let window := (fallback_window db project_id tags (SqliteStore.ranked_mode include_pinned)).filter
        fun m => m.id ∉ exclude_ids
      (∀ l, (⟨db, false⟩ : SqliteStore F).search_memory P query top_k project_id include_pinned tags offset
          false exclude_ids = .ok l → ∀ m ∈ l, token_match P query m = true)
      ↔ min window.length (offset + top_k) ≤ max (window.countP (token_match P query)) offset := by
  constructor
  · intro limit
    -- the matches lead the ranking, so a page is free of others as long as they last
    have hperm := fallback_ranking_perm P db query project_id tags .only_pins
    have hslice := Ranking.forall_mem_slice_iff
      (fallback_matches_first P db query project_id tags .only_pins) 0 limit.toNat
    rw [search_pinned_fallback, ← hperm.length_eq, ← hperm.countP_eq]
    rw [Ranking.slice, List.drop_zero, Nat.zero_add, Nat.max_zero] at hslice
    rw [← hslice]
    constructor
    · intro h
      exact h _ rfl
    · rintro h _ ⟨⟩
      exact h
  · intro top_k offset include_pinned exclude_ids window
    have hperm := (fallback_ranking_perm P db query project_id tags (SqliteStore.ranked_mode include_pinned)).filter
      fun m => decide (m.id ∉ exclude_ids)
    have hfirst := (fallback_matches_first P db query project_id tags
      (SqliteStore.ranked_mode include_pinned)).filter fun m => decide (m.id ∉ exclude_ids)
    have hslice := Ranking.forall_mem_slice_iff hfirst offset top_k
    rw [hperm.length_eq, hperm.countP_eq] at hslice
    rw [search_memory_fallback, ← hslice]
    constructor
    · intro h
      exact h _ rfl
    · rintro h _ ⟨⟩
      exact h

namespace Unmatched

/-- Text in lower case already. -/
def platform : Platform ℕ := ⟨id, id, id, fun _ _ => .error .OperationalError⟩

def pin : MemoryItem := { id := "m", content := "alpha", created_at := 0, pinned := true }

def db : Db Unit where
  memory_items := [⟨pin, 1⟩]
  memory_pk := by decide
  memory_fk := by decide
  rowid_pk := by decide

/-- One pin, and a query that is nowhere in it: both methods return the pin. -/
theorem fallback_returns_an_unmatched_pin :
    token_match platform "zebra" pin = false
      ∧ (⟨db, false⟩ : SqliteStore Unit).search_pinned platform "zebra" 10 none none false = .ok [pin]
      ∧ (⟨db, false⟩ : SqliteStore Unit).search_memory platform "zebra" 8 none true none 0 false []
        = .ok [pin] := by
  refine ⟨by decide +kernel, ?_, ?_⟩
  · rfl
  · rfl

end Unmatched

/-! ## What is missed -/

/-- Every match is in the full result, that is ranked by (tag matches, keyword matches,
`created_at`, id), and a smaller `top_k` returns a prefix of it. -/
def RanksEveryMatch (P : Platform R) [LinearOrder R] (db : Db F) (query : String)
    (project_id : Option String) (tags : Option (List PyStr.Text)) (phrase include_pinned : Bool) : Prop :=
  ∃ full : List MemoryItem,
    (∀ m ∈ db.items, in_scope (SqliteStore.ranked_mode include_pinned) project_id tags m = true →
      query_match P query phrase m = true → m ∈ full)
    ∧ (full.Pairwise fun a b => SqliteStore.fallback_score P (normalize_tokens P query) b
      ≤ SqliteStore.fallback_score P (normalize_tokens P query) a)
    ∧ (∀ top_k, db.items.length ≤ top_k →
      (⟨db, false⟩ : SqliteStore F).search_memory P query top_k project_id include_pinned tags 0 phrase [] = .ok full)
    ∧ ∀ top_k,
      (⟨db, false⟩ : SqliteStore F).search_memory P query top_k project_id include_pinned tags 0 phrase []
        = .ok (full.take top_k)

section Missed

variable (P : Platform R) (db : Db F) (query : String) (project_id : Option String)
  (tags : Option (List PyStr.Text)) (mode : PinnedMode) (phrase : Bool)

/-- For a phrase nothing is sorted. -/
theorem fallback_ranking_phrase :
    (⟨db, false⟩ : SqliteStore F).fallback_ranking P query project_id tags true mode
      = (fallback_window db project_id tags mode).filter (phrase_match P query) := by
  rw [SqliteStore.fallback_ranking, if_pos rfl]
  dsimp only
  by_cases hblank : phrase_text P query = []
  · rw [if_pos hblank]
    symm
    rw [List.filter_eq_nil_iff]
    intro m _
    simp [phrase_match, hblank]
  · rw [if_neg hblank]
    apply List.filter_congr
    intro m _
    simp [phrase_match, hblank]

/-- A match is found if it was read. -/
theorem mem_fallback_ranking_iff {m : MemoryItem} (hmatch : query_match P query phrase m = true) :
    m ∈ (⟨db, false⟩ : SqliteStore F).fallback_ranking P query project_id tags phrase mode
      ↔ m ∈ fallback_window db project_id tags mode := by
  cases phrase with
  | true =>
      rw [fallback_ranking_phrase, List.mem_filter]
      exact and_iff_left hmatch
  | false => exact (fallback_ranking_perm P db query project_id tags mode).mem_iff

theorem window_length : (fallback_window db project_id tags mode).length ≤ db.items.length := by
  rw [fallback_window, List.length_take, Db.newest_first, List.length_insertionSort]
  exact (Nat.min_le_right _ _).trans (List.length_filter_le _ _)

/-- A page can be asked for that holds everything. -/
theorem fallback_ranking_length :
    ((⟨db, false⟩ : SqliteStore F).fallback_ranking P query project_id tags phrase mode).length
      ≤ db.items.length := by
  refine le_trans ?_ (window_length db project_id tags mode)
  cases phrase with
  | true =>
      rw [fallback_ranking_phrase]
      exact List.length_filter_le _ _
  | false => exact (fallback_ranking_perm P db query project_id tags mode).length_eq.le

variable {db project_id tags mode} in
theorem mem_items_of_window {m : MemoryItem} (h : m ∈ fallback_window db project_id tags mode) :
    m ∈ db.items := by
  have hsorted := List.mem_of_mem_take h
  rw [Db.newest_first, List.mem_insertionSort] at hsorted
  exact (List.mem_filter.mp hsorted).1

/-- Newest first is in the order of the scores iff a newer match never scores lower. -/
theorem phrase_ranking_sorted_iff :
    (((⟨db, false⟩ : SqliteStore F).fallback_ranking P query project_id tags true mode).Pairwise fun a b =>
      SqliteStore.fallback_score P (normalize_tokens P query) b
        ≤ SqliteStore.fallback_score P (normalize_tokens P query) a)
    ↔ ∀ a ∈ fallback_window db project_id tags mode, ∀ b ∈ fallback_window db project_id tags mode,
      phrase_match P query a = true → phrase_match P query b = true →
      toLex (a.created_at, a.id) < toLex (b.created_at, b.id) →
      SqliteStore.fallback_score P (normalize_tokens P query) a
        ≤ SqliteStore.fallback_score P (normalize_tokens P query) b := by
  -- the rows come newest first, whatever their scores
  have hnewest : ((fallback_window db project_id tags mode).filter (phrase_match P query)).Pairwise fun a b =>
      toLex (b.created_at, b.id) ≤ toLex (a.created_at, a.id) :=
    ((List.pairwise_insertionSort _ _).sublist (List.take_sublist _ _)).filter _
  rw [fallback_ranking_phrase]
  constructor
  · intro hsorted a ha b hb hma hmb hlt
    -- of two rows the later one comes first, so the order of the scores is asked of it
    have hboth := hnewest.and hsorted
    refine List.Pairwise.forall_of_forall_of_flip (R := fun a b =>
      toLex (a.created_at, a.id) < toLex (b.created_at, b.id) →
        SqliteStore.fallback_score P (normalize_tokens P query) a
          ≤ SqliteStore.fallback_score P (normalize_tokens P query) b) ?_ ?_ ?_
      (List.mem_filter.mpr ⟨ha, hma⟩) (List.mem_filter.mpr ⟨hb, hmb⟩) hlt
    · intro x _ hx
      exact absurd hx (lt_irrefl _)
    · refine hboth.imp ?_
      intro x y h hlt
      exact absurd hlt (not_lt.mpr h.1)
    · refine hboth.imp ?_
      intro x y h _
      exact h.2
  · intro hnewer
    refine hnewest.imp_of_mem ?_
    intro a b ha hb hle
    obtain ⟨haw, hma⟩ := List.mem_filter.mp ha
    obtain ⟨hbw, hmb⟩ := List.mem_filter.mp hb
    rcases hle.lt_or_eq with hlt | heq
    · exact hnewer b hbw a haw hmb hma hlt
    · -- the same id is the same row
      have hid : b.id = a.id := (Prod.mk.inj (toLex_inj.mp heq)).2
      have hga := (db.mem_items_iff).mp (mem_items_of_window haw)
      have hgb := (db.mem_items_iff).mp (mem_items_of_window hbw)
      rw [hid, hga] at hgb
      rw [Option.some.inj hgb]

end Missed

/-- **The fallback misses no match exactly when each is in the window**, and, for a phrase, when
newest first happens to be the order of the scores: the phrase branch returns before the sort. -/
theorem fallback_ranks_every_match_iff (P : Platform R) [LinearOrder R] (db : Db F) (query : String)
    (project_id : Option String) (tags : Option (List PyStr.Text)) (phrase include_pinned : Bool) :
    RanksEveryMatch P db query project_id tags phrase include_pinned
      ↔ (∀ m ∈ db.items, in_scope (SqliteStore.ranked_mode include_pinned) project_id tags m = true →
          query_match P query phrase m = true →
          m ∈ fallback_window db project_id tags (SqliteStore.ranked_mode include_pinned))
        ∧ (phrase = true →
          ∀ a ∈ fallback_window db project_id tags (SqliteStore.ranked_mode include_pinned),
          ∀ b ∈ fallback_window db project_id tags (SqliteStore.ranked_mode include_pinned),
          phrase_match P query a = true → phrase_match P query b = true →
          toLex (a.created_at, a.id) < toLex (b.created_at, b.id) →
          SqliteStore.fallback_score P (normalize_tokens P query) a
            ≤ SqliteStore.fallback_score P (normalize_tokens P query) b) := by
  set mode := SqliteStore.ranked_mode include_pinned with hmode
  set ranking := (⟨db, false⟩ : SqliteStore F).fallback_ranking P query project_id tags phrase mode with hranking
  have hsearch : ∀ top_k, (⟨db, false⟩ : SqliteStore F).search_memory P query top_k project_id include_pinned
      tags 0 phrase [] = .ok (ranking.take top_k) := by
    intro top_k
    rw [search_memory_fallback, ← hmode, ← hranking, Ranking.slice, List.drop_zero]
    simp
  have hall : ranking.take db.items.length = ranking :=
    List.take_of_length_le (fallback_ranking_length P db query project_id tags mode phrase)
  constructor
  · rintro ⟨full, hmatches, hsorted, hlarge, -⟩
    -- the page of all rows is the ranking itself
    have hfull : full = ranking := by
      have h := hlarge db.items.length le_rfl
      rw [hsearch, hall] at h
      exact (Except.ok.inj h).symm
    subst hfull
    constructor
    · intro m hm hscope hmatch
      exact (mem_fallback_ranking_iff P db query project_id tags mode phrase hmatch).mp
        (hmatches m hm hscope hmatch)
    · rintro rfl
      exact (phrase_ranking_sorted_iff P db query project_id tags mode).mp hsorted
  · rintro ⟨hwindow, hphrase⟩
    refine ⟨ranking, ?_, ?_, ?_, hsearch⟩
    · intro m hm hscope hmatch
      exact (mem_fallback_ranking_iff P db query project_id tags mode phrase hmatch).mpr
        (hwindow m hm hscope hmatch)
    · cases phrase with
      | true => exact (phrase_ranking_sorted_iff P db query project_id tags mode).mpr (hphrase rfl)
      | false => exact fallback_ranking_sorted P db query project_id tags mode
    · intro top_k htop
      rw [hsearch, List.take_of_length_le
        ((fallback_ranking_length P db query project_id tags mode phrase).trans htop)]

namespace Missed

/-- Rows numbered from the newest: one row older than the window holds the word. -/
def row (i : ℕ) : MemoryRow where
  id := String.ofList (List.replicate i 'a')
  content := if i = MEMORY_SEARCH_LIMIT then "needle" else "hay"
  created_at := -i
  rowid := i

theorem row_id_injective : Function.Injective fun i => (row i).id := by
  intro i j hij
  have hlist : (String.ofList (List.replicate i 'a')).toList = (String.ofList (List.replicate j 'a')).toList :=
    congrArg String.toList hij
  rw [String.toList_ofList, String.toList_ofList] at hlist
  simpa using congrArg List.length hlist

def db : Db Unit where
  memory_items := (List.range (MEMORY_SEARCH_LIMIT + 1)).map row
  memory_pk := by
    rw [List.map_map]
    exact List.nodup_range.map row_id_injective
  rowid_pk := by
    rw [List.map_map]
    exact List.nodup_range.map fun _ _ h => h
  memory_fk := by
    intro m hm p hp
    obtain ⟨i, -, rfl⟩ := List.mem_map.mp hm
    cases hp

def needle : MemoryItem := (row MEMORY_SEARCH_LIMIT).toMemoryItem

/-- The table is newest first already, so the window is its first rows. -/
theorem window_eq :
    fallback_window db none none .include_pins
      = (List.range MEMORY_SEARCH_LIMIT).map fun i => (row i).toMemoryItem := by
  have hrows : db.items.filter (fun m => in_scope .include_pins none none m)
      = (List.range (MEMORY_SEARCH_LIMIT + 1)).map fun i => (row i).toMemoryItem := by
    rw [Db.items, db, List.map_map]
    exact List.filter_eq_self.mpr fun m _ => rfl
  have hsorted : ((List.range (MEMORY_SEARCH_LIMIT + 1)).map fun i => (row i).toMemoryItem).Pairwise
      fun a b => toLex (b.created_at, b.id) ≤ toLex (a.created_at, a.id) := by
    rw [List.pairwise_map]
    refine List.pairwise_lt_range.imp ?_
    intro i j hij
    have hlt : -(j : ℤ) < -(i : ℤ) := by omega
    exact Prod.Lex.toLex_le_toLex.mpr (.inl hlt)
  rw [fallback_window, hrows, Db.newest_first, hsorted.insertionSort_eq, ← List.map_take, List.take_range]
  rfl

/-- 201 memories, the oldest of which is the only one with the word: it is in scope, it matches,
and no `top_k` finds it. -/
theorem fallback_misses_a_match :
    ¬ RanksEveryMatch Unmatched.platform db "needle" none none false true
      ∧ query_match Unmatched.platform "needle" false needle = true
      ∧ ∀ top_k, ∃ l, (⟨db, false⟩ : SqliteStore Unit).search_memory Unmatched.platform "needle" top_k none true
          none 0 false [] = .ok l ∧ needle ∉ l := by
  have hmatch : query_match Unmatched.platform "needle" false needle = true := by decide +kernel
  have hstored : needle ∈ db.items := by
    rw [Db.items, db, List.map_map]
    exact List.mem_map.mpr ⟨MEMORY_SEARCH_LIMIT, List.mem_range.mpr (Nat.lt_succ_self _), rfl⟩
  have hmiss : ∀ top_k l, (⟨db, false⟩ : SqliteStore Unit).search_memory Unmatched.platform "needle" top_k none
      true none 0 false [] = .ok l → needle ∉ l := by
    intro top_k l hl hmem
    rw [search_memory_fallback] at hl
    obtain rfl := Except.ok.inj hl
    have hranked := (List.mem_filter.mp (Ranking.mem_of_mem_slice hmem)).1
    have hwindow := (mem_fallback_ranking_iff Unmatched.platform db "needle" none none .include_pins false
      hmatch).mp hranked
    rw [window_eq] at hwindow
    obtain ⟨i, hi, heq⟩ := List.mem_map.mp hwindow
    have hid : i = MEMORY_SEARCH_LIMIT := row_id_injective (congrArg MemoryItem.id heq)
    exact absurd (List.mem_range.mp hi) (by omega)
  refine ⟨?_, hmatch, ?_⟩
  · rintro ⟨full, hfull, -, hlarge, -⟩
    exact hmiss _ full (hlarge _ le_rfl) (hfull needle hstored rfl hmatch)
  · intro top_k
    exact ⟨_, search_memory_fallback _ _ _ _ _ _ _ _ _ _, hmiss top_k _ (search_memory_fallback _ _ _ _ _ _ _ _ _ _)⟩

end Missed

end OpenChronicle
