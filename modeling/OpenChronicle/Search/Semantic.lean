/-
The semantic channel on one store, and what hidden pins do to its window.

No search operation writes, so every call of a search that runs alone sees the store it started with.
That turns `_semantic_search` into a selection from one pool: the vectors of the query's space whose
memories are in scope.

`search_semantic` with pins hidden selects its window from that pool and drops the pinned rows
afterwards. The window is twice the page's end, which is enough exactly as long as not too many pins
stand ahead of the page.

numpy promises nothing about ties. That the pins leave room is enough for every order it may leave ties
in; that it is necessary is shown with one order, in which pins come first among equals (`pins_first`).
So the condition is about the scores alone, and the theorem quantifies over the selection.
-/
import OpenChronicle.Search.Paging

set_option autoImplicit false

namespace OpenChronicle

open Program Ranking

variable {F S R : Type} [LinearOrder S] [LinearOrder R] {P : Platform R} {w : SearchWorld F}
  {E : Provider F S} {a : SearchArgs} {vec : List F} {snap : RevisionSnapshot}

/-! ## The pool -/

/-- The vectors in the query's space: ok rows of this provider, model, settings,
dimension and, once it is known, revision. -/
def space (E : Provider F S) (s : SqliteStore F) (vec : List F) (snap : RevisionSnapshot) :
    List (String × List F) :=
  s.db.list_embeddings E.model_name E.provider_name vec.length E.settings_fingerprint snap.value
    snap.known

/-- The memory is in the scope of a semantic search, pins included. -/
def eligible (s : SqliteStore F) (a : SearchArgs) (memory_id : String) : Bool :=
  (s.db.get_memory memory_id).any fun m =>
    scope_clause .include_pins a.project_id m && tags_clause a.tags m

/-- The scored candidates a window is selected from. -/
def pool (E : Provider F S) (s : SqliteStore F) (vec : List F) (snap : RevisionSnapshot)
    (a : SearchArgs) (exclude_ids : List String) : List (String × S) :=
  ((space E s vec snap).filter fun v => v.1 ∉ exclude_ids && eligible s a v.1).map
    fun v => (v.1, E.similarity v.2 vec)

omit [LinearOrder S] in
/-- No search operation writes. -/
theorem store_eval {α : Type} (p : SearchProg F α) (w : SearchWorld F) :
    (p.eval (SearchWorld.answer P) w).2.store = w.store := by
  induction p generalizing w with
  | ret a => rfl
  | raise e => rfl
  | call o k ih =>
      rw [Prog.eval_call, ih]
      cases o with
      | note n => cases n <;> rfl
      | _ => rfl

/-- Every embedded memory exists. -/
theorem get_memory_of_space {s : SqliteStore F} {v : String × List F} (hv : v ∈ space E s vec snap) :
    ∃ m, s.db.get_memory v.1 = some m := by
  obtain ⟨row, hrow, rfl⟩ := List.mem_map.mp hv
  obtain ⟨m, hm, hid⟩ := s.db.embedding_fk row (List.mem_filter.mp hrow).1
  exact ⟨m.toMemoryItem, hid ▸ Db.get_memory_of_mem hm⟩

omit [LinearOrder S] in
/-- The query of the store and the filter in Python agree on the scope. -/
theorem mem_eligible_memory_ids {s : SqliteStore F} {memory_id : String} :
    memory_id ∈ s.db.eligible_memory_ids a.project_id a.tags ↔ eligible s a memory_id = true := by
  unfold Db.eligible_memory_ids eligible
  constructor
  · intro h
    obtain ⟨m, hm, rfl⟩ := List.mem_map.mp h
    obtain ⟨hmem, hscope⟩ := List.mem_filter.mp hm
    rw [(Db.mem_items_iff s.db).mp hmem]
    exact hscope
  · intro h
    obtain ⟨m, hm, hscope⟩ := (Option.any_eq_true _ _).mp h
    have hid := Db.id_of_get_memory hm
    refine List.mem_map.mpr ⟨m, List.mem_filter.mpr ⟨?_, hscope⟩, hid⟩
    rw [Db.mem_items_iff, hid]
    exact hm

omit [LinearOrder S] in
/-- The eligibility filter is skipped only when it would keep everything. -/
theorem eval_eligible_vectors {vectors : List (String × List F)}
    (hv : ∀ v ∈ vectors, ∃ m, w.store.db.get_memory v.1 = some m) :
    (eligible_vectors a.project_id a.tags vectors).eval (SearchWorld.answer P) w
      = (.ok (vectors.filter fun v => eligible w.store a v.1), w) := by
  unfold eligible_vectors
  by_cases hc : (a.project_id.isSome || decide (a.tags.getD [] ≠ [])) = true
  · rw [if_pos hc, Prog.eval_bind, ask, Prog.eval_op]
    have hsame : (vectors.filter fun v =>
        decide (v.1 ∈ w.store.db.eligible_memory_ids a.project_id a.tags))
        = vectors.filter fun v => eligible w.store a v.1 := by
      apply List.filter_congr
      intro v _
      rw [Bool.eq_iff_iff, decide_eq_true_eq]
      exact mem_eligible_memory_ids
    rw [← hsame]
    rfl
  · rw [if_neg hc]
    have hall : (vectors.filter fun v => eligible w.store a v.1) = vectors := by
      rw [List.filter_eq_self]
      intro v hmem
      obtain ⟨m, hm⟩ := hv v hmem
      simp only [Bool.or_eq_true, decide_eq_true_eq, not_or, not_not,
        Option.isSome_iff_exists, not_exists] at hc
      have hproj : a.project_id = none := by
        cases hp : a.project_id with
        | none => rfl
        | some p => exact absurd hp (hc.1 p)
      simp [eligible, hm, hproj, scope_clause, tags_clause, hc.2]
    rw [hall]
    rfl

/-- Nothing to choose from. -/
theorem select_nil (limit : ℕ) : E.numpy.select [] limit = [] := by
  have h := (E.numpy.isTop [] limit).length_eq
  simp only [List.length_nil, Nat.min_zero] at h
  exact List.length_eq_zero_iff.mp h

/-- Scoring reads no more than the eligible ids, and those only where they can differ. -/
theorem eval_rank_vectors (exclude_ids : List String) (limit : ℕ) :
    (rank_vectors E a.project_id a.tags exclude_ids limit vec snap).eval (SearchWorld.answer P) w
      = (.ok (E.numpy.select (pool E w.store vec snap a exclude_ids) limit), w) := by
  unfold rank_vectors
  rw [Prog.eval_bind, ask, Prog.eval_op]
  dsimp only [SearchWorld.answer]
  rw [← space]
  have hpool : pool E w.store vec snap a exclude_ids
      = (((space E w.store vec snap).filter fun v => v.1 ∉ exclude_ids).filter
          fun v => eligible w.store a v.1).map fun v => (v.1, E.similarity v.2 vec) := by
    rw [List.filter_filter, pool]
    congr 2
    funext v
    rw [Bool.and_comm]
  rw [hpool]
  by_cases hempty : space E w.store vec snap = []
  · rw [if_pos hempty, hempty]
    simp [select_nil]
  · rw [if_neg hempty, Prog.eval_bind, eval_eligible_vectors]
    · dsimp only
      set vectors := ((space E w.store vec snap).filter fun v => v.1 ∉ exclude_ids).filter
        fun v => eligible w.store a v.1
      by_cases hv : vectors = []
      · rw [if_pos hv, hv]
        simp [select_nil]
      · rw [if_neg hv]
        rfl
    · intro v hv
      exact get_memory_of_space (List.mem_filter.mp hv).1

/-- **The semantic channel is a selection from the pool**, whenever the provider
answers the query. -/
theorem run_semantic_search (hq : run_alone P w (query_vector a.query) = .ok (vec, snap))
    (exclude_ids : List String) (limit : ℕ) :
    run_alone P w (semantic_search E a.query a.project_id a.tags exclude_ids limit)
      = .ok (E.numpy.select (pool E w.store vec snap a exclude_ids) limit) := by
  unfold run_alone at hq ⊢
  have hstore := store_eval (P := P) (query_vector a.query) w
  rw [semantic_search, Prog.eval_bind]
  generalize (query_vector a.query).eval (SearchWorld.answer P) w = out at hq hstore
  obtain ⟨res, w'⟩ := out
  dsimp only at hq hstore
  rw [hq]
  dsimp only
  rw [eval_rank_vectors, hstore]

/-! ## Semantic search with pins hidden -/

/-- The hit a ranked id becomes once its row is read again. -/
def semantic_hit (s : SqliteStore F) (x : String × S) : Option (ScoredMemory S) :=
  (s.db.get_memory x.1).map fun item =>
    { item, channel := .semantic, semantic_similarity := some x.2 }

/-- The row is there and is not a pin. -/
def is_unpinned (s : SqliteStore F) (memory_id : String) : Bool :=
  (s.db.get_memory memory_id).any fun m => !m.pinned

/-- The memories a caller that hides pins is searching: unpinned, in scope, with a
vector in the query's space. -/
def unpinned_in_scope (E : Provider F S) (s : SqliteStore F) (vec : List F)
    (snap : RevisionSnapshot) (a : SearchArgs) : List (String × S) :=
  ((space E s vec snap).filter fun v =>
      (s.db.get_memory v.1).any (in_scope .exclude_pins a.project_id a.tags)).map
    fun v => (v.1, E.similarity v.2 vec)

/-- The pins in scope with a vector in that space. -/
def pins_in_scope (E : Provider F S) (s : SqliteStore F) (vec : List F)
    (snap : RevisionSnapshot) (a : SearchArgs) : List (String × S) :=
  ((space E s vec snap).filter fun v => !is_unpinned s v.1 && eligible s a v.1).map
    fun v => (v.1, E.similarity v.2 vec)

/-- The page a caller that hides pins asks for: the places `offset` to
`offset + top_k` of some similarity ranking of the memories `searched`, ties in
any order. -/
structure ServesPage (s : SqliteStore F) (searched : List (String × S)) (a : SearchArgs)
    (res : List (ScoredMemory S)) : Prop where
  length_eq : res.length = min a.top_k (searched.length - a.offset)
  ranked : ∃ ρ : List (String × S), ρ.Perm searched ∧ (ρ.Pairwise fun x y => y.2 ≤ x.2)
    ∧ res = (slice ρ a.offset a.top_k).filterMap (semantic_hit s)

/-- The pins ahead of the page leave it room: with `j` the places up to the page's
end, the pins at least as similar as the `j`th best unpinned memory, and `j` more,
fit the window of `2 * (top_k + offset)`. -/
def PinsLeaveRoom (E : Provider F S) (s : SqliteStore F) (vec : List F)
    (snap : RevisionSnapshot) (a : SearchArgs) : Prop :=
  (unpinned_in_scope E s vec snap a).length ≤ a.offset
  ∨ ∀ j u, j + 1 = min (a.offset + a.top_k) (unpinned_in_scope E s vec snap a).length →
      (sortDesc Prod.snd (unpinned_in_scope E s vec snap a))[j]? = some u →
      ((pins_in_scope E s vec snap a).countP fun y => u.2 ≤ y.2) + (j + 1)
        ≤ (a.top_k + a.offset) * 2

/-! ### The pool, split by pinning -/

omit [LinearOrder S] in
/-- What passed the eligibility filter passes the post-filters. -/
theorem post_filter_of_scope {m : MemoryItem}
    (hscope : scope_clause .include_pins a.project_id m = true)
    (htags : tags_clause a.tags m = true) : post_filter a m = true := by
  unfold post_filter
  unfold tags_clause at htags
  rw [htags, Bool.true_and]
  cases hp : a.project_id with
  | none => rfl
  | some p =>
      rw [hp] at hscope
      simp only [scope_clause, Bool.or_eq_true, decide_eq_true_eq] at hscope
      dsimp only
      rcases hscope with h | h
      · simp [h]
      · simp [h]

/-- The two halves of the pool: what the page is made of, -/
theorem pool_filter_unpinned (s : SqliteStore F) :
    (pool E s vec snap a []).filter (fun x => is_unpinned s x.1)
      = unpinned_in_scope E s vec snap a := by
  unfold pool unpinned_in_scope
  rw [List.filter_map, List.filter_filter]
  congr 1
  apply List.filter_congr
  intro v _
  simp only [Function.comp_def, is_unpinned, eligible, List.not_mem_nil, not_false_eq_true,
    decide_true, Bool.true_and]
  cases s.db.get_memory v.1 with
  | none => rfl
  | some m =>
      simp only [Option.any_some, in_scope, pinned_clause]
      cases hp : a.project_id with
      | none => simp [scope_clause]
      | some p =>
          cases hpin : m.pinned with
          | true => simp
          | false => simp [scope_clause, hpin]

/-- and the pins that may stand ahead of it. -/
theorem pool_countP_pinned (s : SqliteStore F) (q : S → Bool) :
    ((pool E s vec snap a []).countP fun x => !is_unpinned s x.1 && q x.2)
      = (pins_in_scope E s vec snap a).countP fun x => q x.2 := by
  unfold pool pins_in_scope
  rw [List.countP_map, List.countP_map, List.countP_filter, List.countP_filter]
  congr 1
  funext v
  simp only [Function.comp_def, List.not_mem_nil, not_false_eq_true, decide_true, Bool.true_and]
  cases is_unpinned s v.1 <;> cases q (E.similarity v.2 vec) <;> rfl

omit [LinearOrder S] in
/-- Reading the ranked rows again drops the pins and nothing else. -/
theorem eval_semantic_hits (hincl : a.include_pinned = false) (ranked : List (String × S))
    (hr : ∀ x ∈ ranked, eligible w.store a x.1 = true) :
    (semantic_hits a ranked : SearchProg F _).eval (SearchWorld.answer P) w
      = (.ok ((ranked.filter fun x => is_unpinned w.store x.1).filterMap
          (semantic_hit w.store)), w) := by
  induction ranked with
  | nil => rfl
  | cons hd rest ih =>
      obtain ⟨mid, sim⟩ := hd
      have hel := hr (mid, sim) List.mem_cons_self
      obtain ⟨m, hm, hscope⟩ := (Option.any_eq_true _ _).mp hel
      simp only [Bool.and_eq_true] at hscope
      have hpost := post_filter_of_scope hscope.1 hscope.2
      rw [semantic_hits, Prog.eval_bind, ask, Prog.eval_op]
      dsimp only [SearchWorld.answer]
      rw [Prog.eval_bind, ih fun x hx => hr x (List.mem_cons_of_mem _ hx), hm]
      dsimp only
      rw [List.filter_cons, is_unpinned, hm, Option.any_some, hpost, hincl]
      cases hpin : m.pinned with
      | true => rfl
      | false => simp [semantic_hit, hm]

/-- Every candidate is in scope. -/
theorem pool_eligible {exclude_ids : List String} {s : SqliteStore F} {x : String × S}
    (hx : x ∈ pool E s vec snap a exclude_ids) : eligible s a x.1 = true := by
  obtain ⟨v, hv, rfl⟩ := List.mem_map.mp hx
  have := (List.mem_filter.mp hv).2
  simp only [Bool.and_eq_true] at this
  exact this.2

omit [LinearOrder S] in
/-- So its row can be read again. -/
theorem semantic_hit_isSome {s : SqliteStore F} {x : String × S}
    (hx : eligible s a x.1 = true) : (semantic_hit s x).isSome := by
  obtain ⟨m, hm, -⟩ := (Option.any_eq_true _ _).mp hx
  simp [semantic_hit, hm]

/-- What is left of the window once the pins are dropped. -/
def unpinned_window (E : Provider F S) (s : SqliteStore F) (vec : List F)
    (snap : RevisionSnapshot) (a : SearchArgs) : List (String × S) :=
  (E.numpy.select (pool E s vec snap a []) ((a.top_k + a.offset) * 2)).filter
    fun x => is_unpinned s x.1

/-- What is left of the window is in scope too. -/
theorem unpinned_window_eligible {s : SqliteStore F} {x : String × S}
    (hx : x ∈ unpinned_window E s vec snap a) : eligible s a x.1 = true :=
  pool_eligible ((E.numpy.isTop _ _).subset (List.mem_filter.mp hx).1)

/-- The whole operation: the window, less its pins, then the page. -/
theorem run_search_semantic_hidden (hincl : a.include_pinned = false)
    (hq : run_alone P w (query_vector a.query) = .ok (vec, snap)) :
    run_alone P w (search_semantic E a)
      = .ok ((slice (unpinned_window E w.store vec snap a) a.offset a.top_k).filterMap
          (semantic_hit w.store)) := by
  have hpins : (float_pins a false : SearchProg F _) = pure [] := by
    unfold float_pins
    rw [hincl, Bool.false_and, if_neg (by decide)]
  rw [← slice_filterMap fun x hx => semantic_hit_isSome (unpinned_window_eligible hx)]
  rw [search_semantic, hpins]
  have hsem := run_semantic_search (E := E) hq [] ((a.top_k + a.offset) * 2)
  have hstore := store_eval (P := P)
    (semantic_search E a.query a.project_id a.tags [] ((a.top_k + a.offset) * 2)) w
  unfold run_alone at hsem ⊢
  rw [Prog.pure_eq, Prog.ret_bind, List.map_nil, Prog.eval_bind]
  -- the channel's answer, and a world with the same store
  generalize (semantic_search E a.query a.project_id a.tags []
    ((a.top_k + a.offset) * 2)).eval (SearchWorld.answer P) w = out at hsem hstore ⊢
  obtain ⟨res, w'⟩ := out
  dsimp only at hsem hstore
  rw [hsem]
  dsimp only
  rw [Prog.eval_bind, eval_semantic_hits hincl]
  · rw [hstore]
    rfl
  · intro x hx
    rw [hstore]
    exact pool_eligible ((E.numpy.isTop _ _).subset hx)

/-- The page is served exactly when the window still reaches its end. -/
theorem servesPage_iff (hk : 1 ≤ a.top_k) (s : SqliteStore F) :
    ServesPage s (unpinned_in_scope E s vec snap a) a
        ((slice (unpinned_window E s vec snap a) a.offset a.top_k).filterMap (semantic_hit s))
      ↔ (unpinned_in_scope E s vec snap a).length ≤ a.offset
        ∨ min (a.offset + a.top_k) (unpinned_in_scope E s vec snap a).length
            ≤ (unpinned_window E s vec snap a).length := by
  obtain ⟨ρ, hperm, hsorted, hpre, -⟩ := (E.numpy.isTop (pool E s vec snap a [])
    ((a.top_k + a.offset) * 2)).filter_leads fun x => is_unpinned s x.1
  rw [pool_filter_unpinned] at hperm
  have hN := hperm.length_eq
  have hlen : ((slice (unpinned_window E s vec snap a) a.offset a.top_k).filterMap
      (semantic_hit s)).length
        = min a.top_k ((unpinned_window E s vec snap a).length - a.offset) := by
    rw [← length_slice, List.filterMap_length_eq_length]
    exact fun x hx => semantic_hit_isSome (unpinned_window_eligible (mem_of_mem_slice hx))
  constructor
  · intro h
    have := h.length_eq
    rw [hlen] at this
    omega
  · intro h
    rw [← hN] at h
    have hslice := slice_of_leading hpre h
    refine ⟨?_, ρ, hperm, hsorted, ?_⟩
    · rw [hlen]
      have := congrArg List.length hslice
      rw [length_slice, length_slice, hN] at this
      exact this
    · rw [← hslice]
      rfl

/-- numpy leaving ties with those that will be dropped in front. -/
def pins_first (s : SqliteStore F) : TopK S where
  select l k := (l.insertionSort (worstFirst Prod.snd fun x => is_unpinned s x.1)).take k
  isTop l k := isTop_of_sort (fun _ _ h => worstFirst_le h) k l

/-- **When hidden pins do not consume the window.** Whatever order numpy leaves ties
in, `search_semantic` with pins hidden serves its page if and only if the pins
ahead of the page's end leave it room in the window. -/
theorem search_semantic_serves_iff (P : Platform R) (w : SearchWorld F) (E : Provider F S)
    (a : SearchArgs) (vec : List F) (snap : RevisionSnapshot) (hk : 1 ≤ a.top_k)
    (hincl : a.include_pinned = false)
    (hq : run_alone P w (query_vector a.query) = .ok (vec, snap)) :
    (∀ numpy : TopK S, ∃ res, run_alone P w (search_semantic { E with numpy } a) = .ok res
        ∧ ServesPage w.store (unpinned_in_scope E w.store vec snap a) a res)
      ↔ PinsLeaveRoom E w.store vec snap a := by
  -- for one order of equal scores, the page is served if the window leaves room for it
  have hserves : ∀ numpy : TopK S,
      (∃ res, run_alone P w (search_semantic { E with numpy } a) = .ok res
          ∧ ServesPage w.store (unpinned_in_scope E w.store vec snap a) a res)
        ↔ (unpinned_in_scope E w.store vec snap a).length ≤ a.offset
          ∨ min (a.offset + a.top_k) (unpinned_in_scope E w.store vec snap a).length
              ≤ (unpinned_window { E with numpy } w.store vec snap a).length := by
    intro numpy
    rw [run_search_semantic_hidden hincl hq]
    constructor
    · rintro ⟨res, hres, hpage⟩
      obtain rfl := Except.ok.inj hres
      exact (servesPage_iff (E := { E with numpy }) hk w.store).mp hpage
    · intro h
      exact ⟨_, rfl, (servesPage_iff (E := { E with numpy }) hk w.store).mpr h⟩
  constructor
  · intro h
    -- the least kind of these orders puts the pins first
    rcases (hserves (pins_first w.store)).mp (h _) with hN | hroom
    · exact .inl hN
    · refine .inr ?_
      intro j u hj hu
      rw [← hj] at hroom
      rw [← pool_filter_unpinned] at hu
      have := room_of_survivors _ hu hroom
      rwa [pool_countP_pinned w.store fun y => decide (u.2 ≤ y)] at this
  · intro h numpy
    refine (hserves numpy).mpr ?_
    rcases h with hN | hroom
    · exact .inl hN
    · by_cases hN : (unpinned_in_scope E w.store vec snap a).length ≤ a.offset
      · exact .inl hN
      · refine .inr ?_
        obtain ⟨j, hj⟩ : ∃ j, j + 1
            = min (a.offset + a.top_k) (unpinned_in_scope E w.store vec snap a).length :=
          ⟨min (a.offset + a.top_k) (unpinned_in_scope E w.store vec snap a).length - 1, by omega⟩
        have hlt : j < (sortDesc Prod.snd (unpinned_in_scope E w.store vec snap a)).length := by
          rw [length_sortDesc]
          omega
        obtain ⟨u, hu⟩ : ∃ u, (sortDesc Prod.snd (unpinned_in_scope E w.store vec snap a))[j]?
            = some u := ⟨_, List.getElem?_eq_getElem hlt⟩
        -- the last hit of the page survives the cut in every order
        have hcount := hroom j u hj hu
        rw [← pool_countP_pinned w.store fun y => decide (u.2 ≤ y)] at hcount
        rw [← hj]
        rw [← pool_filter_unpinned] at hu
        exact (numpy.isTop _ _).survivors _ hu hcount

/-- On the small deployment no pin is in the way. -/
theorem search_semantic_serves_sample :
    ∃ res, run_alone Sample.platform Sample.world (search_semantic Sample.provider
        { query := "nas", top_k := 1, include_pinned := false }) = .ok res
      ∧ ServesPage Sample.store (unpinned_in_scope Sample.provider Sample.store [4 / 5, 3 / 5]
          ⟨true, some "r1"⟩ { query := "nas", top_k := 1, include_pinned := false })
          { query := "nas", top_k := 1, include_pinned := false } res := by
  refine (search_semantic_serves_iff Sample.platform Sample.world Sample.provider _ [4 / 5, 3 / 5]
    ⟨true, some "r1"⟩ (by decide) rfl rfl).mpr (.inr ?_) Sample.provider.numpy
  intro j u hj _
  have hpins : pins_in_scope Sample.provider Sample.world.store [4 / 5, 3 / 5] ⟨true, some "r1"⟩
      { query := "nas", top_k := 1, include_pinned := false } = [] := by decide +kernel
  rw [hpins, List.countP_nil]
  dsimp only at hj ⊢
  omega

namespace Sample

/-- Two standing rules closer to the query than the one note. -/
def pinned_store : SqliteStore ℚ where
  db :=
    { memory_items := [memory "backup" 1 true, memory "restore" 2 true, memory "agenda" 3 false]
      memory_embeddings := [vector "backup" [1, 0], vector "restore" [4 / 5, 3 / 5],
        vector "agenda" [0, 1]]
      memory_pk := by decide
      rowid_pk := by decide
      embedding_pk := by decide
      memory_fk := by simp [memory]
      embedding_fk := by decide }
  fts5_active := false

end Sample

/-- Two hidden pins fill the window of a page of one: the only unpinned memory in
scope is not returned. -/
theorem hidden_pins_fill_the_window :
    (unpinned_in_scope Sample.provider Sample.pinned_store [4 / 5, 3 / 5] ⟨true, some "r1"⟩
        { query := "nas", top_k := 1, include_pinned := false }).map (·.1) = ["agenda"]
    ∧ (run_alone Sample.platform { store := Sample.pinned_store, port := Sample.port }
        (search_semantic Sample.provider
          { query := "nas", top_k := 1, include_pinned := false })).toOption = some []
    ∧ ¬ ServesPage Sample.pinned_store (unpinned_in_scope Sample.provider Sample.pinned_store
        [4 / 5, 3 / 5] ⟨true, some "r1"⟩ { query := "nas", top_k := 1, include_pinned := false })
        { query := "nas", top_k := 1, include_pinned := false } [] := by
  have hsearched : (unpinned_in_scope Sample.provider Sample.pinned_store [4 / 5, 3 / 5]
      ⟨true, some "r1"⟩ { query := "nas", top_k := 1, include_pinned := false }).map (·.1)
        = ["agenda"] := by decide +kernel
  refine ⟨hsearched, by decide +kernel, ?_⟩
  intro h
  have hlen := congrArg List.length hsearched
  rw [List.length_map] at hlen
  have := h.length_eq
  rw [hlen] at this
  simp at this

end OpenChronicle
