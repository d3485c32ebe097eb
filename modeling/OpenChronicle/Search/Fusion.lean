/-
Pages of the hybrid stream.

Each page of a hybrid search recomputes the fusion from the two rankings cut to a window that grows with
the offset. On one store the cut is the only thing the pages differ in, so the fusion is written here as
a function of two complete rankings (`Rankings`), and a page's as that of their prefixes. The windows
are then those of `Lib/Windows.lean`.

What a cut can do to a score is one-sided: a rank is the same or lost, so a term of the score is the
same or zero (`rrf_term_take_le`). A memory may therefore move up in the fused order only by what others
lose, and it may be ahead of a memory in one window and behind it in a wider one. Pages tile one stream
exactly if this happens to no memory on the page on which it belongs (`SettledIn`, `WindowsSettle`), a
condition on the two rankings that can be computed.

Ties are part of it. The source orders equal scores by the order of a set, which is a parameter here
(`SetOrder`), and the condition asks that as many of the memories tied with a given one be ahead of it
in its window as in the whole.
-/
import OpenChronicle.Lib.Windows
import OpenChronicle.Search.Semantic

set_option autoImplicit false

namespace OpenChronicle

open Program Ranking

/-! ## Ranks in a window -/

/-- A window cuts off the ranks beyond it and leaves the others. -/
theorem rank_of_take (ids : List String) (n : ℕ) (mid : String) :
    rank_of (ids.take n) mid = (rank_of ids mid).filter (· ≤ n) := by
  unfold rank_of
  by_cases hmem : mid ∈ ids
  · rw [if_pos hmem, Option.filter_some]
    by_cases hin : mid ∈ ids.take n
    · have hlt := (List.mem_take_iff_idxOf_lt hmem).mp hin
      have hidx : ids.idxOf mid = (ids.take n).idxOf mid := by
        conv_lhs => rw [← List.take_append_drop n ids]
        rw [List.idxOf_append_of_mem hin]
      rw [if_pos hin, ← hidx, if_pos]
      rw [decide_eq_true_eq]
      omega
    · have hge : ¬ ids.idxOf mid < n := fun h => hin ((List.mem_take_iff_idxOf_lt hmem).mpr h)
      rw [if_neg hin, if_neg]
      rw [decide_eq_true_eq]
      omega
  · rw [if_neg hmem, if_neg fun h => hmem (List.mem_of_mem_take h)]
    rfl

/-- Who is in a ranking has a rank. -/
theorem rank_of_isSome {ids : List String} {mid : String} :
    (rank_of ids mid).isSome ↔ mid ∈ ids := by
  unfold rank_of
  by_cases h : mid ∈ ids
  · simp [h]
  · simp [h]

/-- A window that reaches every rank of `mid` in `ids` leaves its rank alone. -/
theorem rank_of_take_of_le {ids : List String} {n : ℕ} {mid : String}
    (h : ∀ i ∈ rank_of ids mid, i ≤ n) : rank_of (ids.take n) mid = rank_of ids mid := by
  rw [rank_of_take]
  cases hr : rank_of ids mid with
  | none => rfl
  | some i => rw [Option.filter_some, if_pos (by simpa using h i hr)]

/-- And only such a window does. -/
theorem le_of_rank_of_take {ids : List String} {n : ℕ} {mid : String}
    (h : rank_of (ids.take n) mid = rank_of ids mid) : ∀ i ∈ rank_of ids mid, i ≤ n := by
  intro i hi
  rw [rank_of_take, Option.mem_def.mp hi, Option.filter_some] at h
  by_contra hgt
  rw [if_neg (by simpa using hgt)] at h
  cases h

/-- A channel never takes anything away from a score. -/
theorem rrf_term_nonneg (o : Option ℕ) : 0 ≤ rrf_term o := by
  cases o with
  | none => exact le_refl 0
  | some r =>
      rw [rrf_term]
      exact div_nonneg zero_le_one (Nat.cast_nonneg _)

/-- So a term in a window is the whole term or nothing. -/
theorem rrf_term_take_le (ids : List String) (n : ℕ) (mid : String) :
    rrf_term (rank_of (ids.take n) mid) ≤ rrf_term (rank_of ids mid) := by
  by_cases h : ∀ i ∈ rank_of ids mid, i ≤ n
  · rw [rank_of_take_of_le h]
  · have hnone : rank_of (ids.take n) mid = none := by
      rw [rank_of_take]
      cases hr : rank_of ids mid with
      | none => rfl
      | some i =>
          rw [hr] at h
          rw [Option.filter_some, if_neg]
          simpa using h
    rw [hnone]
    exact rrf_term_nonneg _

/-! ## The merge on one store -/

section Merge

variable {F S R : Type}

/-- `fetch_items` on a store nobody touches. -/
def fetched (s : SqliteStore F) : List String → List (String × MemoryItem) →
    List (String × MemoryItem)
  | [], item_map => item_map
  | mid :: rest, item_map =>
      if mid ∈ item_map.map (·.1) then fetched s rest item_map
      else
        match s.db.get_memory mid with
        | none => fetched s rest item_map
        | some item => fetched s rest (item_map ++ [(mid, item)])

/-- Fetching answers from the store as it is. -/
theorem eval_fetch_items [LinearOrder R] {P : Platform R} {w : SearchWorld F} (mids : List String)
    (item_map : List (String × MemoryItem)) :
    (fetch_items mids item_map : SearchProg F _).eval (SearchWorld.answer P) w
      = (.ok (fetched w.store mids item_map), w) := by
  induction mids generalizing item_map with
  | nil => rfl
  | cons mid rest ih =>
      rw [fetch_items, fetched]
      by_cases hin : mid ∈ item_map.map (·.1)
      · rw [if_pos hin, if_pos hin]
        exact ih item_map
      · rw [if_neg hin, if_neg hin, Prog.eval_bind, ask, Prog.eval_op]
        dsimp only [SearchWorld.answer]
        cases w.store.db.get_memory mid with
        | none => exact ih item_map
        | some item => exact ih (item_map ++ [(mid, item)])

/-- A row the merge did not have is fetched, if it still exists. -/
theorem lookup_fetched_eq (s : SqliteStore F) (mids : List String) (item_map : List (String × MemoryItem))
    (mid : String) :
    (fetched s mids item_map).lookup mid
      = (item_map.lookup mid).or (if mid ∈ mids then s.db.get_memory mid else none) := by
  induction mids generalizing item_map with
  | nil => simp [fetched]
  | cons hd rest ih =>
      rw [fetched]
      -- an id that is in the map already is not asked for
      by_cases hin : hd ∈ item_map.map (·.1)
      · rw [if_pos hin, ih]
        by_cases heq : mid = hd
        · subst heq
          obtain ⟨item, hitem⟩ : ∃ item, item_map.lookup mid = some item := by
            rw [← Option.isSome_iff_exists, List.lookup_isSome_iff]
            obtain ⟨e, he, hkey⟩ := List.mem_map.mp hin
            exact ⟨e, he, by simp [hkey]⟩
          rw [hitem, Option.some_or, Option.some_or]
        · simp [heq]
      · rw [if_neg hin]
        by_cases heq : mid = hd
        · subst heq
          -- this id is new to the map: what the store has of it is added
          have hnone : item_map.lookup mid = none := by
            rw [List.lookup_eq_none_iff]
            intro e he
            have hne : mid ≠ e.1 := fun h => hin (List.mem_map.mpr ⟨e, he, h.symm⟩)
            simpa using hne
          rw [hnone, if_pos List.mem_cons_self, Option.none_or]
          cases hrow : s.db.get_memory mid with
          | none =>
              dsimp only
              rw [ih, hnone, hrow]
              simp
          | some item =>
              dsimp only
              rw [ih, List.lookup_append, hnone]
              simp
        · cases s.db.get_memory hd with
          | none =>
              dsimp only
              rw [ih]
              simp [heq]
          | some item =>
              dsimp only
              have hne : (mid == hd) = false := by simpa using heq
              rw [ih, List.lookup_append, List.lookup_cons, hne]
              simp [heq]

/-- The items the merge ends up with are the store's. -/
theorem lookup_fetched {s : SqliteStore F} {mids : List String}
    {item_map : List (String × MemoryItem)}
    (hmap : ∀ e ∈ item_map, s.db.get_memory e.1 = some e.2) {mid : String}
    (hmid : mid ∈ item_map.map (·.1) ∨ mid ∈ mids) :
    (fetched s mids item_map).lookup mid = s.db.get_memory mid := by
  rw [lookup_fetched_eq]
  cases hl : item_map.lookup mid with
  | some item =>
      obtain ⟨l₁, l₂, heq, -⟩ := List.lookup_eq_some_iff.mp hl
      exact (hmap (mid, item) (by rw [heq]; simp)).symm
  | none =>
      have hin : mid ∈ mids := by
        refine hmid.resolve_left ?_
        intro hkey
        obtain ⟨e, he, rfl⟩ := List.mem_map.mp hkey
        rw [List.lookup_eq_none_iff] at hl
        simpa using hl e he
      rw [Option.none_or, if_pos hin]

/-- The fusion of two rankings over one store. -/
def fusion (s : SqliteStore F) (keyword : List MemoryItem) (semantic : List (String × S)) :
    Fusion S :=
  ⟨keyword.map (·.id), semantic, fetched s (semantic.map (·.1)) (keyword.map fun i => (i.id, i))⟩

/-- Two complete rankings of memories of a store. -/
structure Rankings (s : SqliteStore F) (S : Type) where
  keyword : List MemoryItem
  semantic : List (String × S)
  keyword_stored : ∀ m ∈ keyword, s.db.get_memory m.id = some m
  keyword_nodup : (keyword.map (·.id)).Nodup
  semantic_stored : ∀ x ∈ semantic, (s.db.get_memory x.1).isSome
  semantic_nodup : (semantic.map (·.1)).Nodup

namespace Rankings

variable {s : SqliteStore F} (r : Rankings s S)

/-- Both rankings cut to a window of size `n`. -/
def take (n : ℕ) : Rankings s S where
  keyword := r.keyword.take n
  semantic := r.semantic.take n
  keyword_stored m hm := r.keyword_stored m (List.mem_of_mem_take hm)
  keyword_nodup := r.keyword_nodup.sublist ((List.take_sublist _ _).map _)
  semantic_stored x hx := r.semantic_stored x (List.mem_of_mem_take hx)
  semantic_nodup := r.semantic_nodup.sublist ((List.take_sublist _ _).map _)

/-- The fusion of both rankings in full. -/
def toFusion : Fusion S := fusion s r.keyword r.semantic

@[simp] theorem take_keyword_ids (n : ℕ) :
    (r.take n).toFusion.keyword_ids = r.toFusion.keyword_ids.take n :=
  List.map_take

@[simp] theorem take_semantic_ids (n : ℕ) :
    (r.take n).toFusion.semantic_ids = r.toFusion.semantic_ids.take n :=
  List.map_take

variable {r} {mid : String}

theorem lookup_item (hmid : mid ∈ r.toFusion.keyword_ids ∨ mid ∈ r.toFusion.semantic_ids) :
    r.toFusion.item_map.lookup mid = s.db.get_memory mid := by
  refine lookup_fetched ?_ ?_
  · intro e he
    obtain ⟨i, hi, rfl⟩ := List.mem_map.mp he
    exact r.keyword_stored i hi
  · refine hmid.imp_left ?_
    intro h
    rw [List.map_map]
    exact h

/-- Alone, every ranked id has its row. -/
theorem isSome_of_mem (hmid : mid ∈ r.toFusion.keyword_ids ∨ mid ∈ r.toFusion.semantic_ids) :
    (s.db.get_memory mid).isSome := by
  rcases hmid with h | h
  · obtain ⟨i, hi, rfl⟩ := List.mem_map.mp h
    rw [r.keyword_stored i hi]
    rfl
  · obtain ⟨x, hx, rfl⟩ := List.mem_map.mp h
    exact r.semantic_stored x hx

/-- A candidate is ranked and passes the filters; nothing else about the rankings matters. -/
theorem mem_candidates {sets : SetOrder} {a : SearchArgs} {pinned_ids : List String} :
    mid ∈ r.toFusion.candidates sets a pinned_ids
      ↔ (mid ∈ r.toFusion.keyword_ids ∨ mid ∈ r.toFusion.semantic_ids)
        ∧ (s.db.get_memory mid).any (admits a pinned_ids mid) = true := by
  rw [Fusion.candidates, List.mem_filter, mem_all_ids]
  refine and_congr_right fun hmid => ?_
  rw [lookup_item hmid]
  cases s.db.get_memory mid with
  | none => rfl
  | some item => rfl

/-- A window that cuts no rank of `mid` off. -/
def Inside (r : Rankings s S) (n : ℕ) (mid : String) : Prop :=
  (∀ i ∈ rank_of r.toFusion.keyword_ids mid, i ≤ n) ∧ (∀ i ∈ rank_of r.toFusion.semantic_ids mid, i ≤ n)

theorem mem_ids_of_inside {n : ℕ} (hin : r.Inside n mid)
    (hmid : mid ∈ r.toFusion.keyword_ids ∨ mid ∈ r.toFusion.semantic_ids) :
    mid ∈ (r.take n).toFusion.keyword_ids ∨ mid ∈ (r.take n).toFusion.semantic_ids := by
  rw [take_keyword_ids, take_semantic_ids]
  rcases hmid with h | h
  · left
    rw [← rank_of_isSome, rank_of_take_of_le hin.1, rank_of_isSome]
    exact h
  · right
    rw [← rank_of_isSome, rank_of_take_of_le hin.2, rank_of_isSome]
    exact h

/-- Distinct ids of stored memories are no more than the rows. -/
theorem stored_ids_length {ids : List String} (hnd : ids.Nodup)
    (hstored : ∀ id ∈ ids, (s.db.get_memory id).isSome) : ids.length ≤ s.db.memory_items.length := by
  have hsub : ids ⊆ s.db.items.map (·.id) := by
    intro id hid
    obtain ⟨m, hm⟩ := Option.isSome_iff_exists.mp (hstored id hid)
    have hmid := Db.id_of_get_memory hm
    exact List.mem_map.mpr ⟨m, (Db.mem_items_iff _).mpr (hmid ▸ hm), hmid⟩
  have hle := (hnd.subperm hsub).length_le
  rwa [List.length_map, Db.items, List.length_map] at hle

/-- No ranking is longer than the table, -/
theorem keyword_length_le (r : Rankings s S) : r.keyword.length ≤ s.db.memory_items.length := by
  have h := stored_ids_length (s := s) r.keyword_nodup fun id hid => isSome_of_mem (r := r) (.inl hid)
  rwa [List.length_map] at h

/-- in either channel, -/
theorem semantic_length_le (r : Rankings s S) : r.semantic.length ≤ s.db.memory_items.length := by
  have h := stored_ids_length (s := s) r.semantic_nodup fun id hid => isSome_of_mem (r := r) (.inr hid)
  rwa [List.length_map] at h

/-- nor is the fused order. -/
theorem fused_length_le (r : Rankings s S) (sets : SetOrder) (a : SearchArgs)
    (pinned_ids : List String) :
    (r.toFusion.fused sets a pinned_ids).length ≤ s.db.memory_items.length := by
  rw [Fusion.fused, (sortDesc_perm _ _).length_eq]
  refine stored_ids_length (candidates_nodup r.semantic_nodup) ?_
  intro id hid
  exact isSome_of_mem (mem_candidates.mp hid).1

theorem mem_ids_of_take {n : ℕ}
    (hmid : mid ∈ (r.take n).toFusion.keyword_ids ∨ mid ∈ (r.take n).toFusion.semantic_ids) :
    mid ∈ r.toFusion.keyword_ids ∨ mid ∈ r.toFusion.semantic_ids := by
  rw [take_keyword_ids, take_semantic_ids] at hmid
  exact hmid.imp List.mem_of_mem_take List.mem_of_mem_take

/-- The windows of a hybrid search. -/
def windows (r : Rankings s S) (sets : SetOrder) (a : SearchArgs) (pinned_ids : List String) :
    Windows String ℚ where
  cands n := (r.take n).toFusion.candidates sets a pinned_ids
  score n := (r.take n).toFusion.score
  all := r.toFusion.candidates sets a pinned_ids
  full := r.toFusion.score
  Inside n := r.Inside n
  nodup n := candidates_nodup (r.take n).semantic_nodup
  nodup_all := candidates_nodup r.semantic_nodup
  subset n := by
    intro x hx
    rw [mem_candidates] at hx ⊢
    exact ⟨mem_ids_of_take hx.1, hx.2⟩
  score_le n x := by
    rw [Fusion.score, Fusion.score, take_keyword_ids, take_semantic_ids]
    exact add_le_add (rrf_term_take_le _ n x) (rrf_term_take_le _ n x)
  mem_of_inside n x hx hin := by
    rw [mem_candidates] at hx ⊢
    exact ⟨mem_ids_of_inside hin hx.1, hx.2⟩
  score_of_inside n x hin := by
    rw [Fusion.score, Fusion.score, take_keyword_ids, take_semantic_ids,
      rank_of_take_of_le hin.1, rank_of_take_of_le hin.2]
  inside_mono n n' x hle hin :=
    ⟨fun i hi => (hin.1 i hi).trans hle, fun i hi => (hin.2 i hi).trans hle⟩

/-! ### What a hit shows of the window

A hit carries its keyword rank and its similarity, so it is the same in two
windows exactly when neither cuts one of them off. -/

/-- A window loses a similarity exactly when its rank is beyond the window. -/
theorem lookup_take_iff (sem : List (String × S)) (n : ℕ) (mid : String) :
    (sem.take n).lookup mid = sem.lookup mid
      ↔ ∀ i ∈ rank_of (sem.map (·.1)) mid, i ≤ n := by
  -- a score is found exactly for the ids of the list
  have hsome : ∀ l : List (String × S), (l.lookup mid).isSome ↔ mid ∈ l.map (·.1) := by
    intro l
    rw [List.lookup_isSome_iff, List.mem_map]
    exact exists_congr fun x => and_congr_right fun _ => by rw [beq_iff_eq, eq_comm]
  constructor
  · intro h i hi
    have hmem : mid ∈ sem.map (·.1) := by
      rw [← rank_of_isSome, Option.mem_def.mp hi]
      rfl
    have hin : mid ∈ (sem.map (·.1)).take n := by
      rw [← List.map_take, ← hsome, h, hsome]
      exact hmem
    refine le_of_rank_of_take ?_ i hi
    rw [rank_of_take]
    rw [← rank_of_isSome, rank_of_take] at hin
    cases hr : rank_of (sem.map (·.1)) mid with
    | none => rfl
    | some j =>
        rw [hr, Option.filter_some] at hin
        by_cases hj : decide (j ≤ n) = true
        · rw [Option.filter_some, if_pos hj]
        · rw [if_neg hj] at hin
          cases hin
  · intro h
    cases hl : sem.lookup mid with
    | none =>
        have : ¬ ((sem.take n).lookup mid).isSome := by
          rw [hsome, List.map_take]
          intro hin
          have := (hsome sem).mpr (List.mem_of_mem_take hin)
          rw [hl] at this
          cases this
        exact Option.not_isSome_iff_eq_none.mp this
    | some b =>
        have hmem : mid ∈ sem.map (·.1) := by
          rw [← hsome, hl]
          rfl
        have hin : ((sem.take n).lookup mid).isSome := by
          rw [hsome, List.map_take, ← rank_of_isSome, rank_of_take_of_le h, rank_of_isSome]
          exact hmem
        obtain ⟨c, hc⟩ := Option.isSome_iff_exists.mp hin
        have hpre : sem.take n <+: sem := List.take_prefix n sem
        rw [← hl, hpre.lookup_eq_some hc, hc]

theorem hit_eq (hmid : mid ∈ r.toFusion.keyword_ids ∨ mid ∈ r.toFusion.semantic_ids) :
    ∃ item, s.db.get_memory mid = some item
      ∧ r.toFusion.hit mid = some
        { item
          channel := if (rank_of r.toFusion.keyword_ids mid).isSome
              && (r.semantic.lookup mid).isSome then .hybrid
            else if (rank_of r.toFusion.keyword_ids mid).isSome then .keyword else .semantic
          rrf_score := some (r.toFusion.score mid)
          semantic_similarity := r.semantic.lookup mid
          keyword_rank := rank_of r.toFusion.keyword_ids mid } := by
  obtain ⟨item, hitem⟩ := Option.isSome_iff_exists.mp (isSome_of_mem hmid)
  refine ⟨item, hitem, ?_⟩
  rw [Fusion.hit, lookup_item hmid, hitem]
  rfl

/-- Every ranked id becomes a hit. -/
theorem hit_isSome (hmid : mid ∈ r.toFusion.keyword_ids ∨ mid ∈ r.toFusion.semantic_ids) :
    (r.toFusion.hit mid).isSome := by
  obtain ⟨item, -, hhit⟩ := hit_eq hmid
  rw [hhit]
  rfl

/-- A hit is the row of its id. -/
theorem hit_id (hmid : mid ∈ r.toFusion.keyword_ids ∨ mid ∈ r.toFusion.semantic_ids)
    {x : ScoredMemory S} (hx : r.toFusion.hit mid = some x) : x.item.id = mid := by
  obtain ⟨item, hitem, hhit⟩ := hit_eq hmid
  rw [hhit] at hx
  rw [← Option.some.inj hx]
  exact Db.id_of_get_memory hitem

/-- A hit from a window is the hit of the whole exactly if the window holds the id completely. -/
theorem hit_take_iff {n : ℕ}
    (hmid : mid ∈ (r.take n).toFusion.keyword_ids ∨ mid ∈ (r.take n).toFusion.semantic_ids) :
    (r.take n).toFusion.hit mid = r.toFusion.hit mid ↔ r.Inside n mid := by
  obtain ⟨item, hitem, hwin⟩ := hit_eq hmid
  obtain ⟨item', hitem', hfull⟩ := hit_eq (mem_ids_of_take hmid)
  rw [hitem] at hitem'
  obtain rfl := Option.some.inj hitem'
  have hsem : (r.take n).semantic.lookup mid = r.semantic.lookup mid
      ↔ ∀ i ∈ rank_of r.toFusion.semantic_ids mid, i ≤ n := lookup_take_iff r.semantic n mid
  rw [hwin, hfull, take_keyword_ids]
  constructor
  · intro h
    have heq := Option.some.inj h
    rw [ScoredMemory.mk.injEq] at heq
    obtain ⟨-, -, -, hsim, hkr⟩ := heq
    exact ⟨le_of_rank_of_take hkr, hsem.mp hsim⟩
  · intro hin
    have hscore : (r.take n).toFusion.score mid = r.toFusion.score mid := by
      rw [Fusion.score, Fusion.score, take_keyword_ids, take_semantic_ids,
        rank_of_take_of_le hin.1, rank_of_take_of_le hin.2]
    rw [rank_of_take_of_le hin.1, hsem.mpr hin.2, hscore]

variable {sets : SetOrder} {a : SearchArgs} {pinned_ids : List String}

/-- The fused order has ranked ids only. -/
theorem mem_ids_of_fused {x : String} (hx : x ∈ r.toFusion.fused sets a pinned_ids) :
    x ∈ r.toFusion.keyword_ids ∨ x ∈ r.toFusion.semantic_ids :=
  (mem_candidates.mp (mem_sortDesc.mp hx)).1

/-- The windows agree with the whole exactly when the hits they produce do. -/
theorem agree_iff_hits {win : ℕ → ℕ} : (r.windows sets a pinned_ids).Agree win ↔
    ∀ j, ((r.take (win j)).toFusion.fused sets a pinned_ids)[j]?.bind (r.take (win j)).toFusion.hit
      = (r.toFusion.fused sets a pinned_ids)[j]?.bind r.toFusion.hit := by
  refine forall_congr' fun j => ?_
  have horder : (r.windows sets a pinned_ids).order (win j)
      = (r.take (win j)).toFusion.fused sets a pinned_ids := rfl
  have hall : (r.windows sets a pinned_ids).orderAll = r.toFusion.fused sets a pinned_ids := rfl
  rw [horder, hall]
  constructor
  · rintro ⟨heq, hin⟩
    rw [heq]
    cases hj : (r.toFusion.fused sets a pinned_ids)[j]? with
    | none => rfl
    | some x =>
        rw [hj] at heq
        exact (hit_take_iff (mem_ids_of_fused (List.mem_of_getElem? heq))).mpr (hin x hj)
  · intro h
    cases hj : (r.toFusion.fused sets a pinned_ids)[j]? with
    | none =>
        rw [hj] at h
        refine ⟨?_, by simp⟩
        -- whatever the window put there would have produced a hit
        cases hw : ((r.take (win j)).toFusion.fused sets a pinned_ids)[j]? with
        | none => rfl
        | some y =>
            have hsome := hit_isSome (mem_ids_of_fused (List.mem_of_getElem? hw))
            rw [hw] at h
            rw [Option.bind_some, Option.bind_none] at h
            rw [h] at hsome
            cases hsome
    | some x =>
        have hx := mem_ids_of_fused (List.mem_of_getElem? hj)
        obtain ⟨hit, hhit⟩ := Option.isSome_iff_exists.mp (hit_isSome hx)
        rw [hj, Option.bind_some, hhit] at h
        obtain ⟨y, hy, hyhit⟩ := Option.bind_eq_some_iff.mp h
        have hyids := mem_ids_of_fused (List.mem_of_getElem? hy)
        have hxy : x = y := by rw [← hit_id hx hhit, hit_id hyids hyhit]
        subst hxy
        refine ⟨hy, ?_⟩
        intro z hz
        rw [← Option.some.inj hz]
        exact (hit_take_iff hyids).mp (hyhit.trans hhit.symm)

end Rankings

end Merge

/-! ## Pages -/

section Pages

variable {F S R : Type} [LinearOrder S] [LinearOrder R] {P : Platform R} {w : SearchWorld F}
  {E : Provider F S} {a : SearchArgs} {vec : List F} {snap : RevisionSnapshot}
  {pins rk : List MemoryItem} {k : ℕ}

/-- One vector for each memory. -/
theorem space_nodup (s : SqliteStore F) : ((space E s vec snap).map (·.1)).Nodup :=
  list_embeddings_nodup _ _ _ _ _ _ _

/-- The rankings a hybrid search fuses: the keyword ranking without the float, and
the similarity ranking of the pool. -/
def hybrid_rankings (E : Provider F S) (vec : List F) (snap : RevisionSnapshot)
    (pins : List MemoryItem) (hr : full_ranking P w.store a = .ok rk) : Rankings w.store S where
  keyword := unfloated pins rk
  semantic := sortDesc Prod.snd (pool E w.store vec snap a (pins.map (·.id)))
  keyword_stored m hm := by
    have := SqliteStore.ranking_subset hr m (List.mem_filter.mp hm).1
    exact (Db.mem_items_iff _).mp this
  keyword_nodup := (SqliteStore.ranking_spec hr).2.sublist (List.filter_sublist.map _)
  semantic_stored x hx := by
    obtain ⟨m, hm, -⟩ := (Option.any_eq_true _ _).mp (pool_eligible (mem_sortDesc.mp hx))
    rw [hm]
    rfl
  semantic_nodup := by
    refine ((sortDesc_perm _ _).map _).nodup_iff.mpr ?_
    rw [pool, List.map_map]
    exact (space_nodup w.store).sublist (List.filter_sublist.map _)

/-- No two candidates are equally similar to the query. -/
def NoTies (E : Provider F S) (s : SqliteStore F) (vec : List F) (snap : RevisionSnapshot)
    (a : SearchArgs) (exclude_ids : List String) : Prop :=
  ∀ x ∈ pool E s vec snap a exclude_ids, ∀ y ∈ pool E s vec snap a exclude_ids, x.2 = y.2 → x = y

/-- The successful branch of `search_hybrid`, on a store nobody touches. -/
theorem run_merge (w : SearchWorld F) (items : List MemoryItem) (sem : List (String × S)) :
    run_alone P w (do
        ask (.note .recovered)
        let merged ← rrf_merge E a (pins.map (·.id)) items sem
        pure (page a pins merged))
      = .ok (page a pins ((((fusion w.store items sem).fused E.sets a (pins.map (·.id))).take
          (a.top_k + a.offset)).filterMap (fusion w.store items sem).hit)) := by
  unfold run_alone
  rw [Prog.eval_bind, ask, Prog.eval_op]
  dsimp only [SearchWorld.answer]
  rw [Prog.eval_bind, rrf_merge, Prog.eval_bind, eval_fetch_items]
  rfl

/-- A hybrid search on one store: the page of the fusion of both windows. -/
theorem run_search_hybrid (hq : run_alone P w (query_vector a.query) = .ok (vec, snap))
    (hfl : floated P w.store a a.phrase = .ok pins) (hr : full_ranking P w.store a = .ok rk)
    (hbind : ¬ WindowOverflows w.store a pins ((a.top_k + a.offset) * 2))
    (hties : NoTies E w.store vec snap a (pins.map (·.id))) :
    run_alone P w (search_hybrid E a) = .ok (page a pins
      (((((hybrid_rankings E vec snap pins hr).take ((a.top_k + a.offset) * 2)).toFusion.fused
        E.sets a (pins.map (·.id))).take (a.top_k + a.offset)).filterMap
          ((hybrid_rankings E vec snap pins hr).take ((a.top_k + a.offset) * 2)).toFusion.hit)) := by
  have hkw := search_memory_eq_take P w.store a pins hbind
  rw [hr] at hkw
  have hsem := run_semantic_search (E := E) hq (pins.map (·.id)) ((a.top_k + a.offset) * 2)
  rw [(E.numpy.isTop _ _).eq_take hties] at hsem
  rw [search_hybrid, run_alone_bind (eval_float_pins P w a a.phrase), hfl, except_ok_bind,
    run_alone_bind (eval_search_memory P w a _ pins), hkw, Except.map, except_ok_bind,
    run_alone_attempt, hsem]
  dsimp only
  rw [run_merge, store_eval]
  rfl

/-- The stream a caller pages through: the float, then the first `m` of the fused
order. -/
def hybrid_stream (pins : List MemoryItem) (f : Fusion S) (order : List String) :
    List (ScoredMemory S) :=
  wrap_pinned pins ++ order.filterMap f.hit

/-- The window in use at place `j` of the ranked part: that of the page the place
falls on, `p` pins leading the stream. -/
def page_window (k p j : ℕ) : ℕ := (k + (p + j) / k * k) * 2

/-- Later pages look further. -/
theorem page_window_mono (k p : ℕ) : Monotone (page_window k p) := by
  intro i j hij
  have hdiv : (p + i) / k ≤ (p + j) / k := Nat.div_le_div_right (by omega)
  have hmul := Nat.mul_le_mul_right k hdiv
  unfold page_window
  omega

section Stream

variable {s : SqliteStore F} (r : Rankings s S) (sets : SetOrder) (pinned_ids : List String)

omit [LinearOrder S] in
theorem hit_isSome_of_fused (x : String) (hx : x ∈ r.toFusion.fused sets a pinned_ids) :
    (r.toFusion.hit x).isSome :=
  Rankings.hit_isSome (Rankings.mem_ids_of_fused hx)

omit [LinearOrder S] in
/-- Behind the pins, the stream holds the hits of the fused order. -/
theorem getElem?_hybrid_stream (pins : List MemoryItem) (m j : ℕ) (hj : j < m) :
    (hybrid_stream pins r.toFusion ((r.toFusion.fused sets a pinned_ids).take m))[pins.length + j]?
      = (r.toFusion.fused sets a pinned_ids)[j]?.bind r.toFusion.hit := by
  have hlen : (wrap_pinned pins : List (ScoredMemory S)).length = pins.length := by
    rw [wrap_pinned, List.length_map]
  rw [hybrid_stream, List.getElem?_append_right (by omega), hlen, Nat.add_sub_cancel_left,
    getElem?_filterMap fun x hx => hit_isSome_of_fused r sets pinned_ids x (List.mem_of_mem_take hx),
    List.getElem?_take, if_pos hj]

omit [LinearOrder S] in
/-- Every page is a slice of the whole stream exactly when every place behind the
pins holds, on the page it falls on, the hit it holds in the whole. -/
theorem pages_eq_iff (hk : 1 ≤ k) (pins : List MemoryItem) :
    (∀ n, slice (hybrid_stream pins (r.take ((k + n * k) * 2)).toFusion
          (((r.take ((k + n * k) * 2)).toFusion.fused sets a pinned_ids).take (k + n * k))) (n * k) k
        = slice (hybrid_stream pins r.toFusion (r.toFusion.fused sets a pinned_ids)) (n * k) k)
    ↔ ∀ j, ((r.take (page_window k pins.length j)).toFusion.fused sets a pinned_ids)[j]?.bind
          (r.take (page_window k pins.length j)).toFusion.hit
        = (r.toFusion.fused sets a pinned_ids)[j]?.bind r.toFusion.hit := by
  have hwhole : ∀ j, (hybrid_stream pins r.toFusion
      (r.toFusion.fused sets a pinned_ids))[pins.length + j]?
        = (r.toFusion.fused sets a pinned_ids)[j]?.bind r.toFusion.hit := by
    intro j
    have := getElem?_hybrid_stream (a := a) r sets pinned_ids pins
      (max (j + 1) (r.toFusion.fused sets a pinned_ids).length) j (by omega)
    rwa [List.take_of_length_le (by omega)] at this
  constructor
  · intro h j
    -- place `p + j` of the stream, read off its page
    have hsplit : (pins.length + j) / k * k + (pins.length + j) % k = pins.length + j :=
      Nat.div_add_mod' _ _
    have hmod : (pins.length + j) % k < k := Nat.mod_lt _ (by omega)
    have hpage := congrArg (fun l => l[(pins.length + j) % k]?) (h ((pins.length + j) / k))
    rw [getElem?_slice, getElem?_slice, if_pos hmod, if_pos hmod, hsplit, hwhole,
      getElem?_hybrid_stream _ _ _ _ _ _ (by omega)] at hpage
    exact hpage
  · intro h n
    apply List.ext_getElem?
    intro i
    rw [getElem?_slice, getElem?_slice]
    by_cases hi : i < k
    · rw [if_pos hi, if_pos hi]
      by_cases hp : n * k + i < pins.length
      · -- the pins lead every page alike
        have hlen : n * k + i < (wrap_pinned pins : List (ScoredMemory S)).length := by
          rw [wrap_pinned, List.length_map]
          exact hp
        rw [hybrid_stream, hybrid_stream, List.getElem?_append_left hlen,
          List.getElem?_append_left hlen]
      · obtain ⟨j, hj⟩ : ∃ j, n * k + i = pins.length + j := ⟨n * k + i - pins.length, by omega⟩
        have hdiv : (pins.length + j) / k = n := by
          rw [← hj, Nat.mul_comm n k, Nat.mul_add_div (by omega), Nat.div_eq_of_lt hi, Nat.add_zero]
        have hplace := h j
        rw [page_window, hdiv] at hplace
        rw [hj, hwhole, getElem?_hybrid_stream _ _ _ _ _ _ (by omega)]
        exact hplace
    · rw [if_neg hi, if_neg hi]

end Stream

/-- **Hybrid pages tile one stream.** Every page of size `k` is a slice of one list
that names no memory twice and is what a single call returns once its `top_k` is
large enough. It is said of the windows that FTS5 can be asked for, the single
call's among them: past 63 bits the keyword channel raises. -/
def HybridTiles (P : Platform R) (w : SearchWorld F) (E : Provider F S) (a : SearchArgs) (k : ℕ) :
    Prop :=
  ∃ L : List (ScoredMemory S),
    (∀ n, WindowBinds P w.store a ((k + n * k) * 2) →
      run_alone P w (search_hybrid E (a.nth_page k n)) = .ok (slice L (n * k) k))
    ∧ (L.map (·.item.id)).Nodup
    ∧ ∃ T, WindowBinds P w.store a (T * 2)
      ∧ ∀ t, T ≤ t → WindowBinds P w.store a (t * 2) →
        run_alone P w (search_hybrid E { a with top_k := t, offset := 0 }) = .ok L

/-- Windows of size `n` settle `x`: they reach every rank it has in the complete
rankings, and put as many of the memories tied with it ahead of it. -/
def SettledIn (s : SqliteStore F) (sets : SetOrder) (a : SearchArgs) (pinned_ids : List String)
    (keyword : List MemoryItem) (semantic : List (String × S)) (n : ℕ) (x : String) : Prop :=
  ((∀ i ∈ rank_of (keyword.map (·.id)) x, i ≤ n) ∧ ∀ i ∈ rank_of (semantic.map (·.1)) x, i ≤ n)
  ∧ tiesBefore (fusion s (keyword.take n) (semantic.take n)).score
      ((fusion s (keyword.take n) (semantic.take n)).candidates sets a pinned_ids) x
    = tiesBefore (fusion s keyword semantic).score
      ((fusion s keyword semantic).candidates sets a pinned_ids) x

/-- Every memory is settled by the windows of its own page, the page on which the
number of memories that beat it in the complete fusion puts it. -/
def WindowsSettle (s : SqliteStore F) (sets : SetOrder) (a : SearchArgs) (k : ℕ)
    (pins keyword : List MemoryItem) (semantic : List (String × S)) : Prop :=
  ∀ x ∈ (fusion s keyword semantic).candidates sets a (pins.map (·.id)),
    SettledIn s sets a (pins.map (·.id)) keyword semantic
      (page_window k pins.length
        (((fusion s keyword semantic).candidates sets a (pins.map (·.id))).countP fun y =>
          Beats (fusion s keyword semantic).score
            ((fusion s keyword semantic).candidates sets a (pins.map (·.id))) y x)) x

instance (s : SqliteStore F) (sets : SetOrder) (a : SearchArgs) (k : ℕ)
    (pins keyword : List MemoryItem) (semantic : List (String × S)) :
    Decidable (WindowsSettle s sets a k pins keyword semantic) :=
  inferInstanceAs (Decidable (∀ x ∈ _, ((∀ i ∈ _, _) ∧ ∀ i ∈ _, _) ∧ _))

omit [LinearOrder S] in
/-- A stream has a place for each pin and for each row at most. -/
theorem hybrid_stream_length (a : SearchArgs) (pins : List MemoryItem) (r : Rankings w.store S)
    (sets : SetOrder) (m : ℕ) :
    (hybrid_stream pins r.toFusion
      ((r.toFusion.fused sets a (pins.map (·.id))).take m)).length
        ≤ w.store.db.memory_items.length + pins.length := by
  have hhits := List.length_filterMap_le r.toFusion.hit
    ((r.toFusion.fused sets a (pins.map (·.id))).take m)
  have htake := (List.take_sublist m (r.toFusion.fused sets a (pins.map (·.id)))).length_le
  have hfused := Rankings.fused_length_le r sets a (pins.map (·.id))
  rw [hybrid_stream, List.length_append, wrap_pinned, List.length_map]
  omega

/-- A single call with room for everything returns the whole stream. -/
theorem run_search_hybrid_large (hq : run_alone P w (query_vector a.query) = .ok (vec, snap))
    (hfl : floated P w.store a a.phrase = .ok pins) (hr : full_ranking P w.store a = .ok rk)
    (hties : NoTies E w.store vec snap a (pins.map (·.id))) {t : ℕ}
    (ht : w.store.db.memory_items.length + pins.length ≤ t)
    (hbind : WindowBinds P w.store a (t * 2)) :
    run_alone P w (search_hybrid E { a with top_k := t, offset := 0 })
      = .ok (hybrid_stream pins (hybrid_rankings E vec snap pins hr).toFusion
          ((hybrid_rankings E vec snap pins hr).toFusion.fused E.sets a (pins.map (·.id)))) := by
  set r := hybrid_rankings E vec snap pins hr with hrk
  have hrun := run_search_hybrid (a := { a with top_k := t, offset := 0 }) hq hfl hr
    (hbind pins hfl) hties
  -- windows this wide cut nothing
  have htake : r.take ((t + 0) * 2) = r := by
    have hkeyword := Rankings.keyword_length_le r
    have hsemantic := Rankings.semantic_length_le r
    unfold Rankings.take
    congr 1
    · exact List.take_of_length_le (by omega)
    · exact List.take_of_length_le (by omega)
  have hfused := Rankings.fused_length_le r E.sets a (pins.map (·.id))
  have hwhole : (r.toFusion.fused E.sets a (pins.map (·.id))).take t
      = r.toFusion.fused E.sets a (pins.map (·.id)) := List.take_of_length_le (by omega)
  have hstream := hybrid_stream_length a pins r E.sets t
  rw [hwhole] at hstream
  rw [hrun]
  show Except.ok (slice (hybrid_stream pins (r.take ((t + 0) * 2)).toFusion
    (((r.take ((t + 0) * 2)).toFusion.fused E.sets a (pins.map (·.id))).take (t + 0))) 0 t) = _
  rw [htake, Nat.add_zero, hwhole, slice, List.drop_zero, List.take_of_length_le (by omega)]

/-- The whole stream names no memory twice. -/
theorem hybrid_stream_nodup (hfl : floated P w.store a a.phrase = .ok pins)
    (hr : full_ranking P w.store a = .ok rk) :
    ((hybrid_stream pins (hybrid_rankings E vec snap pins hr).toFusion
      ((hybrid_rankings E vec snap pins hr).toFusion.fused E.sets a (pins.map (·.id)))).map
        (·.item.id)).Nodup := by
  set r := hybrid_rankings E vec snap pins hr with hrk
  have hpins : (wrap_pinned pins : List (ScoredMemory S)).map (·.item.id) = pins.map (·.id) := by
    rw [wrap_pinned, List.map_map]
    rfl
  have hids : ∀ x ∈ (r.toFusion.fused E.sets a (pins.map (·.id))).filterMap r.toFusion.hit,
      x.item.id ∈ r.toFusion.fused E.sets a (pins.map (·.id)) := by
    intro x hx
    obtain ⟨mid, hmid, hhit⟩ := List.mem_filterMap.mp hx
    rw [Rankings.hit_id (Rankings.mem_ids_of_fused hmid) hhit]
    exact hmid
  rw [hybrid_stream, List.map_append, hpins, List.nodup_append]
  refine ⟨floated_nodup P hfl, ?_, ?_⟩
  · refine List.Nodup.sublist (hits_ids_sublist ?_) ?_
    · intro mid hmid x hx
      exact Rankings.hit_id (Rankings.mem_ids_of_fused hmid) hx
    · exact (sortDesc_perm _ _).nodup_iff.mpr (candidates_nodup r.semantic_nodup)
  · intro i hi j hj hij
    obtain ⟨x, hx, rfl⟩ := List.mem_map.mp hj
    -- neither channel names a floated id
    rcases Rankings.mem_ids_of_fused (hids x hx) with hk | hk
    · obtain ⟨m, hm, hmid⟩ := List.mem_map.mp hk
      have : m.id ∉ pins.map (·.id) := by simpa using (List.mem_filter.mp hm).2
      rw [hmid, ← hij] at this
      exact this hi
    · obtain ⟨y, hy, hyid⟩ := List.mem_map.mp hk
      obtain ⟨v, hv, rfl⟩ := List.mem_map.mp (mem_sortDesc.mp hy)
      have hnot := (List.mem_filter.mp hv).2
      simp only [Bool.and_eq_true, decide_eq_true_eq] at hnot
      rw [← hij] at hyid
      exact hnot.1 (hyid ▸ hi)

/-- A page that starts past the end is the same empty slice of either stream. -/
theorem slice_past_end {α : Type} {l l' : List α} {m k : ℕ} (h : l.length ≤ m) (h' : l'.length ≤ m) :
    slice l m k = slice l' m k := by
  rw [slice, slice, List.drop_eq_nil_of_le h, List.drop_eq_nil_of_le h']

/-- **When hybrid pages tile one stream.** For a page size, a provider that answers
the query and no ties in similarity: exactly when the windows settle every memory
by its own page. A call for every place of the stream and a page more can be made
(`hfit`), which on FTS5 is a bound of 61 bits on page size, rows and pins together. -/
theorem hybrid_pages_tile_iff (P : Platform R) (w : SearchWorld F) (E : Provider F S)
    (a : SearchArgs) (k : ℕ) (hk : 1 ≤ k) (vec : List F) (snap : RevisionSnapshot)
    (hq : run_alone P w (query_vector a.query) = .ok (vec, snap)) (pins rk : List MemoryItem)
    (hfl : floated P w.store a a.phrase = .ok pins) (hr : full_ranking P w.store a = .ok rk)
    (hfit : ¬ WindowOverflows w.store a pins
      ((k + (w.store.db.memory_items.length + pins.length)) * 2))
    (hties : NoTies E w.store vec snap a (pins.map (·.id))) :
    HybridTiles P w E a k ↔ WindowsSettle w.store E.sets a k pins (unfloated pins rk)
      (sortDesc Prod.snd (pool E w.store vec snap a (pins.map (·.id)))) := by
  set r := hybrid_rankings E vec snap pins hr with hrk
  set L := hybrid_stream pins r.toFusion (r.toFusion.fused E.sets a (pins.map (·.id))) with hL
  set T := w.store.db.memory_items.length + pins.length with hT
  have hLlen : L.length ≤ T := by
    have h := hybrid_stream_length a pins r E.sets
      (r.toFusion.fused E.sets a (pins.map (·.id))).length
    rwa [List.take_length] at h
  have hroom : WindowBinds P w.store a ((k + T) * 2) := (windowBinds_iff hfl _).mpr hfit
  have hpage : ∀ n, WindowBinds P w.store a ((k + n * k) * 2) →
      run_alone P w (search_hybrid E (a.nth_page k n))
        = .ok (slice (hybrid_stream pins (r.take ((k + n * k) * 2)).toFusion
          (((r.take ((k + n * k) * 2)).toFusion.fused E.sets a (pins.map (·.id))).take (k + n * k)))
          (n * k) k) :=
    fun n hbind => run_search_hybrid (a := a.nth_page k n) hq hfl hr (hbind pins hfl) hties
  have hlarge : ∀ t, T ≤ t → WindowBinds P w.store a (t * 2) →
      run_alone P w (search_hybrid E { a with top_k := t, offset := 0 }) = .ok L :=
    fun t ht hbind => run_search_hybrid_large hq hfl hr hties ht hbind
  have hpages : HybridTiles P w E a k ↔ ∀ n, slice (hybrid_stream pins
      (r.take ((k + n * k) * 2)).toFusion (((r.take ((k + n * k) * 2)).toFusion.fused E.sets a
        (pins.map (·.id))).take (k + n * k))) (n * k) k = slice L (n * k) k := by
    constructor
    · rintro ⟨L', hslices, -, T', hbind', hT'⟩
      -- one large call pins the list down
      have hsame : L' = L := by
        rcases le_total T T' with hle | hle
        · have h₁ := hT' T' le_rfl hbind'
          rw [hlarge T' hle hbind'] at h₁
          exact (Except.ok.inj h₁).symm
        · have hbind := hroom.mono (m := T * 2) (by omega)
          have h₁ := hT' T hle hbind
          rw [hlarge T le_rfl hbind] at h₁
          exact (Except.ok.inj h₁).symm
      intro n
      by_cases hn : n * k ≤ T
      · have hbind := hroom.mono (m := (k + n * k) * 2) (by omega)
        have h₁ := hslices n hbind
        rw [hpage n hbind, hsame] at h₁
        exact Except.ok.inj h₁
      · -- past the end of every stream there is nothing to compare
        have hwindow := hybrid_stream_length a pins (r.take ((k + n * k) * 2))
          E.sets (k + n * k)
        exact slice_past_end (by omega) (by omega)
    · intro h
      refine ⟨L, ?_, hybrid_stream_nodup hfl hr, T, hroom.mono (by omega), hlarge⟩
      intro n hbind
      rw [hpage n hbind, h n]
  rw [hpages, pages_eq_iff r E.sets (pins.map (·.id)) hk pins, ← Rankings.agree_iff_hits,
    Windows.agree_iff (page_window_mono k pins.length)]
  exact Iff.rfl

end Pages

/-- Pages of three on the small deployment: their windows reach everything. -/
theorem hybrid_pages_tile_sample :
    HybridTiles Sample.platform Sample.world Sample.provider { query := "nas" } 3 := by
  have hpins : floated Sample.platform Sample.world.store { query := "nas" } false
      = .ok ([] : List MemoryItem) := by
    apply ok_of_toOption
    decide +kernel
  obtain ⟨rk, hrk⟩ : ∃ rk, full_ranking Sample.platform Sample.world.store { query := "nas" }
      = .ok rk := ⟨_, rfl⟩
  have hrk' : rk = [Sample.memory "agenda" 1 false, Sample.memory "backup" 2 false,
      Sample.memory "restore" 3 false].map (·.toMemoryItem) := by
    apply Except.ok.inj (ε := Exc)
    rw [← hrk]
    apply ok_of_toOption
    decide +kernel
  refine (hybrid_pages_tile_iff Sample.platform Sample.world Sample.provider { query := "nas" } 3
    (by decide) [4 / 5, 3 / 5] ⟨true, some "r1"⟩ rfl [] rk hpins hrk ?_ ?_).mpr ?_
  · rintro ⟨hactive, -⟩
    cases hactive
  · unfold NoTies
    decide +kernel
  · rw [hrk']
    decide +kernel

/-- Pages of one on the small deployment: `backup`, which both channels rank
second, leads the first page, and again the second, where the wider window has
found `restore` to be third in the keyword ranking. `restore` is on no page. -/
theorem hybrid_pages_overlap :
    ((run_alone Sample.platform Sample.world (search_hybrid Sample.provider
        (SearchArgs.nth_page { query := "nas" } 1 0))).toOption.map fun l => l.map (·.item.id))
      = some ["backup"]
    ∧ ((run_alone Sample.platform Sample.world (search_hybrid Sample.provider
        (SearchArgs.nth_page { query := "nas" } 1 1))).toOption.map fun l => l.map (·.item.id))
      = some ["backup"]
    ∧ ((run_alone Sample.platform Sample.world (search_hybrid Sample.provider
        (SearchArgs.nth_page { query := "nas" } 1 2))).toOption.map fun l => l.map (·.item.id))
      = some ["agenda"]
    ∧ ¬ HybridTiles Sample.platform Sample.world Sample.provider { query := "nas" } 1 := by
  have hfst : ((run_alone Sample.platform Sample.world (search_hybrid Sample.provider
      (SearchArgs.nth_page { query := "nas" } 1 0))).toOption.map fun l => l.map (·.item.id))
        = some ["backup"] := by decide +kernel
  have hsnd : ((run_alone Sample.platform Sample.world (search_hybrid Sample.provider
      (SearchArgs.nth_page { query := "nas" } 1 1))).toOption.map fun l => l.map (·.item.id))
        = some ["backup"] := by decide +kernel
  refine ⟨hfst, hsnd, by decide +kernel, ?_⟩
  rintro ⟨L, hpages, hnd, -⟩
  have hbind : ∀ m, WindowBinds Sample.platform Sample.world.store { query := "nas" } m := by
    rintro m pins - ⟨hactive, -⟩
    cases hactive
  rw [hpages 0 (hbind _)] at hfst
  rw [hpages 1 (hbind _)] at hsnd
  have hplace : ∀ q, ((.ok (slice L (q * 1) 1) : Except Exc (List (ScoredMemory ℚ))).toOption.map
      fun l => l.map (·.item.id)) = some ["backup"] → (L.map (·.item.id))[q]? = some "backup" := by
    intro q h
    have hids : (slice L (q * 1) 1).map (·.item.id) = ["backup"] := Option.some.inj h
    have hget : ((slice L (q * 1) 1).map (·.item.id))[0]? = some "backup" := by rw [hids]; rfl
    rw [List.getElem?_map, getElem?_slice, if_pos (by decide), Nat.mul_one, Nat.add_zero] at hget
    rw [List.getElem?_map]
    exact hget
  -- the first two places of the list would hold the same memory
  have hne := List.nodup_iff_getElem?_ne_getElem?.mp hnd 0 1 (by decide)
  have hlt : 1 < (L.map (·.item.id)).length :=
    (List.getElem?_eq_some_iff.mp (hplace 1 hsnd)).1
  exact hne hlt ((hplace 0 hfst).trans (hplace 1 hsnd).symm)

end OpenChronicle
