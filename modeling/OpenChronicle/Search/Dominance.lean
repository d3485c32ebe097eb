/-
What the fused order owes to the two rankings it is made of.

The merge of `search_hybrid` scores the ids of both rankings, drops those whose row is gone or is
filtered out, sorts and cuts. A fused score is a sum of two terms, each falling with the rank in one
channel and zero for an absent id, so a candidate that is nowhere behind another and ahead of it
somewhere scores strictly more: that is why ties, which keep the order of a Python set, can never
reverse the two.

An absent id has the place `⊤`, so that absence is the lowest rank and "nowhere behind" needs no cases.
The scores are rational numbers. The order of the set is a parameter that may depend on the ids in any
way; it decides between candidates of equal score and nothing else.
-/
import Mathlib.Algebra.Order.Field.Basic
import Mathlib.Data.Set.Card
import OpenChronicle.Search.Fusion

set_option autoImplicit false

namespace OpenChronicle

open Program Ranking

variable {F S R : Type}

/-! ## Ranks and scores -/

/-- The rank of an id in a ranking, an absent id last. -/
def place (ids : List String) (mid : String) : WithTop ℕ := rank_of ids mid

/-- Ranked at least as high in both channels, and strictly higher in one. -/
def Dominates (keyword_ids semantic_ids : List String) (a b : String) : Prop :=
  place keyword_ids a ≤ place keyword_ids b ∧ place semantic_ids a ≤ place semantic_ids b
    ∧ (place keyword_ids a < place keyword_ids b ∨ place semantic_ids a < place semantic_ids b)

/-- `1/(60+kr) + 1/(60+sr)`. -/
def rrf_score (keyword_ids semantic_ids : List String) (mid : String) : ℚ :=
  rrf_term (rank_of keyword_ids mid) + rrf_term (rank_of semantic_ids mid)

/-- A term of a ranked id is never zero, so being ranked at all counts. -/
theorem rrf_term_pos (r : ℕ) : 0 < rrf_term (some r) := by
  rw [rrf_term]
  have hpos : (0 : ℚ) < ((RRF_K + r : ℕ) : ℚ) := by
    rw [Nat.cast_pos, RRF_K]
    omega
  exact div_pos one_pos hpos

/-- A term falls with the rank, to zero for an absent id. -/
theorem rrf_term_lt {p q : WithTop ℕ} (h : p < q) : rrf_term q < rrf_term p := by
  cases p with
  | top => exact absurd h not_top_lt
  | coe i =>
      cases q with
      | top => exact rrf_term_pos i
      | coe j =>
          have hij : i < j := WithTop.coe_lt_coe.mp h
          have hpos : (0 : ℚ) < ((RRF_K + i : ℕ) : ℚ) := by
            rw [Nat.cast_pos, RRF_K]
            omega
          have hlt : ((RRF_K + i : ℕ) : ℚ) < ((RRF_K + j : ℕ) : ℚ) := by
            rw [Nat.cast_lt]
            omega
          exact div_lt_div_of_pos_left one_pos hpos hlt

/-- The same, for ranks that may be equal. -/
theorem rrf_term_le {p q : WithTop ℕ} (h : p ≤ q) : rrf_term q ≤ rrf_term p := by
  rcases h.lt_or_eq with hlt | rfl
  · exact (rrf_term_lt hlt).le
  · exact le_refl _

/-- Neither term is smaller and one is larger. -/
theorem Dominates.score_lt {keyword_ids semantic_ids : List String} {a b : String}
    (h : Dominates keyword_ids semantic_ids a b) :
    rrf_score keyword_ids semantic_ids b < rrf_score keyword_ids semantic_ids a := by
  obtain ⟨hkeyword, hsemantic, hstrict | hstrict⟩ := h
  · exact add_lt_add_of_lt_of_le (rrf_term_lt hstrict) (rrf_term_le hsemantic)
  · exact add_lt_add_of_le_of_lt (rrf_term_le hkeyword) (rrf_term_lt hstrict)

/-! ## Candidates -/

/-- The row of a ranked id: the keyword ranking brings its own, any other is read from the store,
where it may be gone. -/
def ranked_row (s : SqliteStore F) (keyword_results : List MemoryItem) (semantic_ids : List String)
    (mid : String) : Option MemoryItem :=
  (keyword_results.find? fun i => i.id = mid).or (if mid ∈ semantic_ids then s.db.get_memory mid else none)

/-- A ranked id whose row exists and passes the pin, tag and project filters. -/
def Candidate (s : SqliteStore F) (a : SearchArgs) (pinned_ids : List String)
    (keyword_results : List MemoryItem) (semantic_ids : List String) (mid : String) : Prop :=
  ∃ item, ranked_row s keyword_results semantic_ids mid = some item
    ∧ (item.pinned = true → mid ∉ pinned_ids ∧ a.include_pinned = true) ∧ post_filter a item = true

section Rows

variable {s : SqliteStore F} {keyword_results : List MemoryItem} {semantic_ids : List String} {mid : String}

/-- The keyword channel brings its rows along, one for each id. -/
theorem lookup_keyword (keyword_results : List MemoryItem) (mid : String) :
    (keyword_results.map fun i => (i.id, i)).lookup mid = keyword_results.find? fun i => i.id = mid := by
  induction keyword_results with
  | nil => rfl
  | cons i rest ih =>
      rw [List.map_cons, List.lookup_cons, List.find?_cons, ih]
      by_cases hid : i.id = mid
      · simp [hid]
      · have hne : (mid == i.id) = false := by simpa using Ne.symm hid
        rw [hne]
        simp [hid]

/-- The row of an id has this id. -/
theorem id_of_ranked_row {item : MemoryItem} (h : ranked_row s keyword_results semantic_ids mid = some item) :
    item.id = mid := by
  rw [ranked_row, Option.or_eq_some_iff] at h
  rcases h with h | ⟨-, h⟩
  · simpa using List.find?_some h
  · split at h
    · exact Db.id_of_get_memory h
    · cases h

/-- Only ranked ids have a row here. -/
theorem mem_ids_of_ranked_row {item : MemoryItem}
    (h : ranked_row s keyword_results semantic_ids mid = some item) :
    mid ∈ keyword_results.map (·.id) ∨ mid ∈ semantic_ids := by
  rw [ranked_row, Option.or_eq_some_iff] at h
  rcases h with h | ⟨-, h⟩
  · left
    have hid : item.id = mid := by simpa using List.find?_some h
    exact List.mem_map.mpr ⟨item, List.mem_of_find?_eq_some h, hid⟩
  · split at h
    · next hin => exact .inr hin
    · cases h

/-- Rows that are the store's stay the store's. -/
theorem ranked_row_stored {item : MemoryItem} (hstored : ∀ m ∈ keyword_results, s.db.get_memory m.id = some m)
    (h : ranked_row s keyword_results semantic_ids mid = some item) : s.db.get_memory mid = some item := by
  have hid := id_of_ranked_row h
  rw [ranked_row, Option.or_eq_some_iff] at h
  rcases h with h | ⟨-, h⟩
  · rw [← hid]
    exact hstored item (List.mem_of_find?_eq_some h)
  · split at h
    · exact h
    · cases h

/-- What the map of the merge holds for an id. -/
theorem lookup_fusion (semantic_ranked : List (String × S)) (mid : String) :
    (fusion s keyword_results semantic_ranked).item_map.lookup mid
      = ranked_row s keyword_results (semantic_ranked.map (·.1)) mid := by
  rw [fusion, lookup_fetched_eq, lookup_keyword, ranked_row]

/-- The candidates of the source, by their rows and filters. -/
theorem mem_fusion_candidates {sets : SetOrder} {a : SearchArgs} {pinned_ids : List String}
    {semantic_ranked : List (String × S)} :
    mid ∈ (fusion s keyword_results semantic_ranked).candidates sets a pinned_ids
      ↔ Candidate s a pinned_ids keyword_results (semantic_ranked.map (·.1)) mid := by
  have hadmits : ∀ item : MemoryItem, admits a pinned_ids mid item = true
      ↔ (item.pinned = true → mid ∉ pinned_ids ∧ a.include_pinned = true) ∧ post_filter a item = true := by
    intro item
    rw [admits, Bool.and_eq_true]
    refine and_congr_left fun _ => ?_
    cases item.pinned <;> cases a.include_pinned <;> simp
  rw [Fusion.candidates, List.mem_filter, mem_all_ids, lookup_fusion, Candidate]
  constructor
  · rintro ⟨-, h⟩
    cases hrow : ranked_row s keyword_results (semantic_ranked.map (·.1)) mid with
    | none =>
        rw [hrow] at h
        cases h
    | some item =>
        rw [hrow] at h
        exact ⟨item, rfl, (hadmits item).mp h⟩
  · rintro ⟨item, hrow, h⟩
    refine ⟨mem_ids_of_ranked_row hrow, ?_⟩
    rw [hrow]
    exact (hadmits item).mpr h

end Rows

/-! ## The merged list -/

/-- The merged list respects both rankings. -/
structure Respects (s : SqliteStore F) (a : SearchArgs) (pinned_ids : List String)
    (keyword_results : List MemoryItem) (semantic_ids : List String) (merged : List (ScoredMemory S)) : Prop where
  candidates : ∀ x ∈ merged, Candidate s a pinned_ids keyword_results semantic_ids x.item.id
    ∧ ranked_row s keyword_results semantic_ids x.item.id = some x.item
    ∧ x.rrf_score = some (rrf_score (keyword_results.map (·.id)) semantic_ids x.item.id)
  stored : (∀ m ∈ keyword_results, s.db.get_memory m.id = some m) →
    ∀ x ∈ merged, s.db.get_memory x.item.id = some x.item
  distinct : (merged.map (·.item.id)).Nodup
  length_eq : merged.length = min (a.top_k + a.offset)
    {mid | Candidate s a pinned_ids keyword_results semantic_ids mid}.ncard
  sorted : merged.Pairwise fun x y =>
    rrf_score (keyword_results.map (·.id)) semantic_ids y.item.id
      ≤ rrf_score (keyword_results.map (·.id)) semantic_ids x.item.id
  top : ∀ mid, Candidate s a pinned_ids keyword_results semantic_ids mid → mid ∉ merged.map (·.item.id) →
    ∀ x ∈ merged, rrf_score (keyword_results.map (·.id)) semantic_ids mid
      ≤ rrf_score (keyword_results.map (·.id)) semantic_ids x.item.id
  dominance : ∀ b c, Candidate s a pinned_ids keyword_results semantic_ids b →
    Candidate s a pinned_ids keyword_results semantic_ids c →
    Dominates (keyword_results.map (·.id)) semantic_ids b c → c ∈ merged.map (·.item.id) →
    b ∈ merged.map (·.item.id)
      ∧ (merged.map (·.item.id)).idxOf b < (merged.map (·.item.id)).idxOf c

section Merged

variable {s : SqliteStore F} {keyword_results : List MemoryItem} {semantic_ranked : List (String × S)}
  {sets : SetOrder} {a : SearchArgs} {pinned_ids : List String} {n : ℕ}

/-- Every id of the fused order becomes a hit with its row. -/
theorem fusion_hit {mid : String} (h : mid ∈ (fusion s keyword_results semantic_ranked).fused sets a pinned_ids) :
    ∃ x, (fusion s keyword_results semantic_ranked).hit mid = some x ∧ x.item.id = mid
      ∧ ranked_row s keyword_results (semantic_ranked.map (·.1)) mid = some x.item
      ∧ x.rrf_score = some (rrf_score (keyword_results.map (·.id)) (semantic_ranked.map (·.1)) mid) := by
  obtain ⟨item, hrow, -⟩ := mem_fusion_candidates.mp (mem_sortDesc.mp h)
  rw [Fusion.hit, lookup_fusion, hrow]
  exact ⟨_, rfl, id_of_ranked_row hrow, rfl, rfl⟩

/-- The merged list has the ids of the fused order, place by place. -/
theorem merged_ids : ∀ l : List String,
    (∀ mid ∈ l, mid ∈ (fusion s keyword_results semantic_ranked).fused sets a pinned_ids) →
    (l.filterMap (fusion s keyword_results semantic_ranked).hit).map (·.item.id) = l := by
  intro l hl
  induction l with
  | nil => rfl
  | cons mid rest ih =>
      obtain ⟨x, hx, hid, -⟩ := fusion_hit (hl mid List.mem_cons_self)
      rw [List.filterMap_cons, hx]
      dsimp only
      rw [List.map_cons, hid, ih fun m hm => hl m (List.mem_cons_of_mem _ hm)]

end Merged

/-- **RRF fusion respects both rankings.** For every pair of duplicate-free rankings and every store,
the merged list of `search_hybrid` holds candidates only, as many as fit or as there are, sorted by
fused score and leaving out none that scores more than one it keeps; and a candidate nowhere behind
another and ahead of it in one channel is kept and stands before it whenever the other is kept. -/
theorem rrf_merge_respects_rankings [LinearOrder S] [LinearOrder R] (P : Platform R) (w : SearchWorld F)
    (E : Provider F S) (a : SearchArgs) (pinned_ids : List String) (keyword_results : List MemoryItem)
    (semantic_ranked : List (String × S)) (_hkeyword : (keyword_results.map (·.id)).Nodup)
    (hsemantic : (semantic_ranked.map (·.1)).Nodup) :
    ∃ merged, (rrf_merge E a pinned_ids keyword_results semantic_ranked).eval (SearchWorld.answer P) w
        = (.ok merged, w)
      ∧ Respects w.store a pinned_ids keyword_results (semantic_ranked.map (·.1)) merged := by
  set f := fusion w.store keyword_results semantic_ranked with hf
  set order := f.fused E.sets a pinned_ids with horder
  have hnodup : order.Nodup := (sortDesc_perm _ _).nodup_iff.mpr (candidates_nodup hsemantic)
  set kept := order.take (a.top_k + a.offset) with hkept
  have hsub : ∀ mid ∈ kept, mid ∈ order := fun mid hmid => List.mem_of_mem_take hmid
  have hids : (kept.filterMap f.hit).map (·.item.id) = kept := merged_ids kept hsub
  -- a kept id makes a hit with its own row and score
  have hhit : ∀ x ∈ kept.filterMap f.hit, x.item.id ∈ order
      ∧ ranked_row w.store keyword_results (semantic_ranked.map (·.1)) x.item.id = some x.item
      ∧ x.rrf_score = some (rrf_score (keyword_results.map (·.id)) (semantic_ranked.map (·.1)) x.item.id) := by
    intro x hx
    obtain ⟨mid, hmid, hxhit⟩ := List.mem_filterMap.mp hx
    obtain ⟨y, hy, hid, hrow, hscore⟩ := fusion_hit (hsub mid hmid)
    rw [hf] at hxhit
    obtain rfl := Option.some.inj (hxhit.symm.trans hy)
    rw [hid]
    exact ⟨hsub mid hmid, hrow, hscore⟩
  have hcandidate : ∀ {mid}, mid ∈ order ↔ Candidate w.store a pinned_ids keyword_results
      (semantic_ranked.map (·.1)) mid := fun {mid} => mem_sortDesc.trans mem_fusion_candidates
  refine ⟨kept.filterMap f.hit, ?_, ?_⟩
  · rw [rrf_merge, Prog.eval_bind, eval_fetch_items]
    rfl
  · refine ⟨?_, ?_, ?_, ?_, ?_, ?_, ?_⟩
    · intro x hx
      obtain ⟨hmem, hrow, hscore⟩ := hhit x hx
      exact ⟨hcandidate.mp hmem, hrow, hscore⟩
    · intro hstored x hx
      exact ranked_row_stored hstored (hhit x hx).2.1
    · rw [hids]
      exact hnodup.sublist (List.take_sublist _ _)
    · -- the page is as long as the candidates allow
      have hset : {mid | Candidate w.store a pinned_ids keyword_results (semantic_ranked.map (·.1)) mid}
          = (order.toFinset : Set String) := by
        ext mid
        rw [List.coe_toFinset, Set.mem_ofPred_eq, Set.mem_ofPred_eq]
        exact hcandidate.symm
      have hlen := congrArg List.length hids
      rw [List.length_map] at hlen
      rw [hlen, hset, Set.ncard_coe_finset, List.toFinset_card_of_nodup hnodup, hkept, List.length_take]
    · have hsorted := (sortDesc_pairwise f.score (f.candidates E.sets a pinned_ids)).sublist
        (List.take_sublist (a.top_k + a.offset) _)
      have hmap : ((kept.filterMap f.hit).map (·.item.id)).Pairwise fun b c => f.score c ≤ f.score b := by
        rw [hids]
        exact hsorted
      exact List.pairwise_map.mp hmap
    · intro mid hmid hout x hx
      rw [hids] at hout
      have hin : x.item.id ∈ kept := by
        rw [← hids]
        exact List.mem_map_of_mem hx
      exact score_le_of_cut hin (mem_fusion_candidates.mpr hmid) hout
    · intro b c hb _ hdom hc
      rw [hids] at hc ⊢
      exact cut_of_lt (mem_fusion_candidates.mpr hb) hdom.score_lt hc

/-- Three rows in two rankings. -/
theorem rrf_merge_respects_rankings_sample :
    ∃ merged, (rrf_merge Sample.provider { query := "nas" } [] (Sample.store.db.items.take 2)
        [("restore", (4 / 5 : ℚ)), ("backup", 3 / 5)]).eval (SearchWorld.answer Sample.platform) Sample.world
        = (.ok merged, Sample.world)
      ∧ Respects Sample.store { query := "nas" } [] (Sample.store.db.items.take 2) ["restore", "backup"] merged :=
  rrf_merge_respects_rankings Sample.platform Sample.world Sample.provider { query := "nas" } []
    (Sample.store.db.items.take 2) [("restore", 4 / 5), ("backup", 3 / 5)] (by decide) (by decide)

end OpenChronicle
