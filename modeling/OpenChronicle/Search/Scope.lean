/-
What a search may return, whatever the other clients do meanwhile.

The filters sit in three places: SQL clauses, id exclusions, and Python post-filters over rows that are
read again later. Each lemma here is about one of those places and holds for any store that may have
answered the call, so no two of them need to have seen the same store.

A search is a program of store calls, and its result is looked at through `Yields`: some sequence of
answers, each of which a store might have given, leads to it. So a fact about the result has to be drawn
from single answers, and only what one answer says by itself can be used. That the rows of an answer are
in scope is such a fact; that two answers agree is not. It is the reason for the post-filters in the
source, and the proof needs each of them: a row that is read again may have lost a tag, been pinned, or
moved to another project in the meantime.

That no memory comes twice has its own argument. Each channel names a memory once, the floated pins are
excluded by their ids from what is ranked, and a hit is filed under the id that it was fetched by,
whatever its row has become.
-/
import OpenChronicle.Search.Run

set_option autoImplicit false

namespace OpenChronicle

open Program Ranking

/-! ## What a caller is promised -/

/-- What the arguments `a` allow a returned memory to be. -/
structure Visible (a : SearchArgs) (m : MemoryItem) : Prop where
  tagged : ∀ t ∈ a.tags.getD [], t ∈ m.tags
  unpinned : a.include_pinned = false → m.pinned = false
  scope : ∀ p, a.project_id = some p →
    m.project_id = some p ∨ (m.pinned = true ∧ m.project_id = none)
  strict : ∀ p, a.project_id = some p → a.include_pinned = false → m.project_id = some p

/-- What the arguments `a` allow a whole response to be. -/
structure WellScoped {S : Type} (a : SearchArgs) (res : List (ScoredMemory S)) : Prop where
  length_le : res.length ≤ a.top_k
  ids_nodup : (res.map (·.item.id)).Nodup
  visible : ∀ h ∈ res, Visible a h.item

/-- The strict half of the scope rule is no extra work: without pins the other
half has no second case. -/
theorem visible_intro {a : SearchArgs} {m : MemoryItem} (htags : ∀ t ∈ a.tags.getD [], t ∈ m.tags)
    (hpin : a.include_pinned = false → m.pinned = false)
    (hscope : ∀ p, a.project_id = some p →
      m.project_id = some p ∨ (m.pinned = true ∧ m.project_id = none)) : Visible a m := by
  refine ⟨htags, hpin, hscope, ?_⟩
  intro p hp hincl
  rcases hscope p hp with h | ⟨h, -⟩
  · exact h
  · rw [hpin hincl] at h
    cases h

/-- A ranked row of the store is visible. -/
theorem visible_of_ranked {a : SearchArgs} {m : MemoryItem}
    (h : in_scope (SqliteStore.ranked_mode a.include_pinned) a.project_id a.tags m = true) :
    Visible a m := by
  simp only [in_scope, Bool.and_eq_true] at h
  obtain ⟨⟨hpin, hscope⟩, htags⟩ := h
  refine visible_intro (tags_clause_iff.mp htags) ?_ ?_
  · intro hincl
    simpa [SqliteStore.ranked_mode, hincl, pinned_clause] using hpin
  · intro p hp
    rw [hp] at hscope
    refine scope_clause_ranked hscope ?_
    cases a.include_pinned <;> simp [SqliteStore.ranked_mode]

/-- A floated pin is visible, as long as the caller lets pins float. -/
theorem visible_of_floated {a : SearchArgs} {m : MemoryItem} (hincl : a.include_pinned = true)
    (h : in_scope .only_pins a.project_id a.tags m = true) : Visible a m := by
  simp only [in_scope, Bool.and_eq_true, pinned_clause] at h
  obtain ⟨⟨hpin, hscope⟩, htags⟩ := h
  refine visible_intro (tags_clause_iff.mp htags) ?_ ?_
  · intro hno
    rw [hincl] at hno
    cases hno
  · intro p hp
    rw [hp] at hscope
    have : m.project_id = some p ∨ m.project_id = none := by simpa [scope_clause] using hscope
    exact this.imp_right fun h => ⟨hpin, h⟩

/-- A row that passed the Python post-filters is visible. The empty project id is
falsy there, and only there. -/
theorem visible_of_post_filter {a : SearchArgs} {m : MemoryItem} (hp : a.project_id ≠ some "")
    (hpin : a.include_pinned = false → m.pinned = false) (h : post_filter a m = true) :
    Visible a m := by
  simp only [post_filter, Bool.and_eq_true] at h
  refine visible_intro (by simpa using h.1) hpin ?_
  intro p hproj
  have hne : p ≠ "" := by
    rintro rfl
    exact hp hproj
  have hscope := h.2
  rw [hproj] at hscope
  simpa [hne] using hscope

section Interference

variable {F S R : Type} [LinearOrder S] [LinearOrder R] {P : Platform R} {E : Provider F S}
  {a : SearchArgs}

/-! ## The pieces -/

/-- The floated pins, from the one call that reads them. -/
theorem yields_float_pins {phrase : Bool} {l : List MemoryItem}
    (h : (float_pins a phrase : SearchProg F _).Yields (MayAnswer P) (.ok l)) :
    (∀ m ∈ l, Visible a m) ∧ (l.map (·.id)).Nodup := by
  by_cases hc : (a.include_pinned && decide (0 < a.pinned_limit)) = true
  · rw [float_pins, if_pos hc] at h
    obtain ⟨s, hs⟩ := yields_search_pinned h
    obtain ⟨hscope, hnd⟩ := SqliteStore.search_pinned_spec hs
    simp only [Bool.and_eq_true] at hc
    exact ⟨fun m hm => visible_of_floated hc.1 (hscope m hm), hnd⟩
  · rw [float_pins, if_neg hc] at h
    obtain rfl := Prog.yields_pure_ok.mp h
    simp

/-- One row for each memory. -/
theorem list_embeddings_nodup (db : Db F) (model provider : String) (dims : ℕ) (fp : String)
    (rev : Option String) (known : Bool) :
    ((db.list_embeddings model provider dims fp rev known).map (·.1)).Nodup := by
  rw [Db.list_embeddings, List.map_map]
  exact db.embedding_pk.sublist (List.filter_sublist.map _)

/-- Scoring keeps the ids apart and inside the candidates. -/
theorem top_similar_spec (query_vec : List F) {vectors : List (String × List F)} (limit : ℕ)
    (hn : (vectors.map (·.1)).Nodup) :
    ((top_similar E query_vec vectors limit).map (·.1)).Nodup
      ∧ ∀ x ∈ top_similar E query_vec vectors limit, x.1 ∈ vectors.map (·.1) := by
  have htop := E.numpy.isTop (vectors.map fun v => (v.1, E.similarity v.2 query_vec)) limit
  constructor
  · refine htop.nodup_map Prod.fst ?_
    rwa [List.map_map]
  · intro x hx
    obtain ⟨v, hv, rfl⟩ := List.mem_map.mp (htop.subset hx)
    exact List.mem_map.mpr ⟨v, hv, rfl⟩

omit [LinearOrder S] in
/-- The vectors that are scored are some of those that were loaded. -/
theorem yields_eligible_vectors {project_id : Option String} {tags : Option (List PyStr.Text)}
    {vectors out : List (String × List F)}
    (h : (eligible_vectors project_id tags vectors).Yields (MayAnswer P) (.ok out)) :
    out.Sublist vectors := by
  unfold eligible_vectors at h
  split at h
  · obtain ⟨eligible, -, h⟩ := Prog.yields_bind_ok.mp h
    obtain rfl := Prog.yields_pure_ok.mp h
    exact List.filter_sublist
  · obtain rfl := Prog.yields_pure_ok.mp h
    exact List.Sublist.refl _

/-- The semantic channel names each memory once and none of the excluded ones,
whatever the provider answered and whoever wrote in between. -/
theorem yields_semantic_search {query : String} {project_id : Option String}
    {tags : Option (List PyStr.Text)} {exclude_ids : List String} {limit : ℕ} {l : List (String × S)}
    (h : (semantic_search E query project_id tags exclude_ids limit).Yields (MayAnswer P) (.ok l)) :
    (l.map (·.1)).Nodup ∧ ∀ x ∈ l, x.1 ∉ exclude_ids := by
  obtain ⟨⟨query_vec, snapshot⟩, -, h⟩ := Prog.yields_bind_ok.mp h
  unfold rank_vectors at h
  obtain ⟨rows, hrows, h⟩ := Prog.yields_bind_ok.mp h
  obtain ⟨s, rfl⟩ := yields_list_embeddings hrows
  have hnd := list_embeddings_nodup s.db E.model_name E.provider_name query_vec.length
    E.settings_fingerprint snapshot.value snapshot.known
  split at h
  · obtain rfl := Prog.yields_pure_ok.mp h
    simp
  · obtain ⟨vectors, hvec, h⟩ := Prog.yields_bind_ok.mp h
    have hsub := yields_eligible_vectors hvec
    have hvnd : (vectors.map (·.1)).Nodup :=
      hnd.sublist ((hsub.trans List.filter_sublist).map _)
    split at h
    · obtain rfl := Prog.yields_pure_ok.mp h
      simp
    · obtain rfl := Prog.yields_pure_ok.mp h
      obtain ⟨hn, hin⟩ := top_similar_spec (E := E) query_vec limit hvnd
      refine ⟨hn, ?_⟩
      intro x hx
      obtain ⟨v, hv, hvx⟩ := List.mem_map.mp (hin x hx)
      rw [← hvx]
      simpa using (List.mem_filter.mp (hsub.subset hv)).2

/-- Every item the merge knows is filed under its own id. -/
theorem yields_fetch_items {mids : List String} {item_map out : List (String × MemoryItem)}
    (hmap : ∀ e ∈ item_map, e.2.id = e.1)
    (h : (fetch_items mids item_map : SearchProg F _).Yields (MayAnswer P) (.ok out)) :
    ∀ e ∈ out, e.2.id = e.1 := by
  induction mids generalizing item_map with
  | nil =>
      obtain rfl := Prog.yields_pure_ok.mp h
      exact hmap
  | cons mid rest ih =>
      rw [fetch_items] at h
      split at h
      · exact ih hmap h
      · obtain ⟨mem, hmem, h⟩ := Prog.yields_bind_ok.mp h
        obtain ⟨s, hs⟩ := yields_get_memory hmem
        cases mem with
        | none => exact ih hmap h
        | some item =>
            refine ih ?_ h
            intro e he
            rcases List.mem_append.mp he with he | he
            · exact hmap e he
            · obtain rfl := List.mem_singleton.mp he
              exact Db.id_of_get_memory hs

omit [LinearOrder S] in
/-- The re-read rows of `search_semantic`: visible, and in the order and with the
ids of the ranking. -/
theorem yields_semantic_hits (hp : a.project_id ≠ some "") {ranked : List (String × S)}
    {res : List (ScoredMemory S)}
    (h : (semantic_hits a ranked : SearchProg F _).Yields (MayAnswer P) (.ok res)) :
    (∀ x ∈ res, Visible a x.item) ∧ (res.map (·.item.id)).Sublist (ranked.map (·.1)) := by
  induction ranked generalizing res with
  | nil =>
      obtain rfl := Prog.yields_pure_ok.mp h
      simp
  | cons hd rest ih =>
      obtain ⟨mid, sim⟩ := hd
      rw [semantic_hits] at h
      obtain ⟨item, hitem, h⟩ := Prog.yields_bind_ok.mp h
      obtain ⟨hits, hhits, h⟩ := Prog.yields_bind_ok.mp h
      obtain ⟨hvis, hsub⟩ := ih hhits
      obtain ⟨s, hs⟩ := yields_get_memory hitem
      cases item with
      | none =>
          obtain rfl := Prog.yields_pure_ok.mp h
          exact ⟨hvis, hsub.trans (List.sublist_cons_self _ _)⟩
      | some item =>
          dsimp only at h
          split at h
          · obtain rfl := Prog.yields_pure_ok.mp h
            exact ⟨hvis, hsub.trans (List.sublist_cons_self _ _)⟩
          · next hkeep =>
              obtain rfl := Prog.yields_pure_ok.mp h
              simp only [Bool.or_eq_true, Bool.and_eq_true, not_or, not_and] at hkeep
              constructor
              · intro x hx
                rcases List.mem_cons.mp hx with rfl | hx
                · refine visible_of_post_filter hp ?_ (by simpa using hkeep.2)
                  intro hincl
                  by_contra hpin
                  exact hkeep.1 (by simpa using hpin) (by simp [hincl])
                · exact hvis x hx
              · rw [List.map_cons, List.map_cons, Db.id_of_get_memory hs]
                exact hsub.cons_cons _

/-! ## Whole searches -/

omit [LinearOrder S] in
/-- A page of two visible, distinct and disjoint halves is a proper response. -/
theorem wellScoped_page {pins : List MemoryItem} {ranked : List (ScoredMemory S)}
    (hpins : ∀ m ∈ pins, Visible a m) (hpins_nd : (pins.map (·.id)).Nodup)
    (hranked : ∀ x ∈ ranked, Visible a x.item) (hranked_nd : (ranked.map (·.item.id)).Nodup)
    (hdisj : ∀ x ∈ ranked, x.item.id ∉ pins.map (·.id)) : WellScoped a (page a pins ranked) := by
  have hwrap : (wrap_pinned pins : List (ScoredMemory S)).map (·.item.id) = pins.map (·.id) := by
    rw [wrap_pinned, List.map_map]
    rfl
  refine ⟨slice_length_le _ _ _, ?_, ?_⟩
  · refine List.Nodup.sublist ((slice_sublist _ _ _).map _) ?_
    rw [List.map_append, hwrap, List.nodup_append]
    refine ⟨hpins_nd, hranked_nd, ?_⟩
    intro i hi j hj hij
    obtain ⟨x, hx, rfl⟩ := List.mem_map.mp hj
    exact hdisj x hx (hij ▸ hi)
  · intro x hx
    rcases List.mem_append.mp (mem_of_mem_slice hx) with hx | hx
    · obtain ⟨m, hm, rfl⟩ := List.mem_map.mp hx
      exact hpins m hm
    · exact hranked x hx

omit [LinearOrder S] in
theorem wrap_keyword_ranked_items (items : List MemoryItem) :
    (wrap_keyword_ranked items : List (ScoredMemory S)).map (·.item) = items := by
  rw [wrap_keyword_ranked, List.map_map]
  exact List.zipIdx_map_fst 1 items

omit [LinearOrder S] in
/-- The keyword page: what `search_memory` returned after the floated pins. -/
theorem wellScoped_keyword_page {pins items : List MemoryItem} {top_k : ℕ}
    (hpins : ∀ m ∈ pins, Visible a m) (hpins_nd : (pins.map (·.id)).Nodup)
    (hitems : (ask (.search_memory a.query top_k a.project_id a.include_pinned a.tags a.phrase
      (pins.map (·.id))) : SearchProg F _).Yields (MayAnswer P) (.ok items)) :
    WellScoped (S := S) a (page a pins (wrap_keyword_ranked items)) := by
  obtain ⟨s, hs⟩ := yields_search_memory hitems
  obtain ⟨hscope, hnd⟩ := SqliteStore.search_memory_spec hs
  have hmem : ∀ x ∈ (wrap_keyword_ranked items : List (ScoredMemory S)), x.item ∈ items := by
    intro x hx
    rw [← wrap_keyword_ranked_items (S := S) items]
    exact List.mem_map_of_mem hx
  refine wellScoped_page hpins hpins_nd ?_ ?_ ?_
  · intro x hx
    exact visible_of_ranked (hscope x.item (hmem x hx)).1
  · rw [← wrap_keyword_ranked_items (S := S) items, List.map_map] at hnd
    exact hnd
  · intro x hx
    exact (hscope x.item (hmem x hx)).2

omit [LinearOrder S] in
/-- The three modes, each from its pieces. -/
theorem yields_keyword_search {res : List (ScoredMemory S)}
    (h : (keyword_search a : SearchProg F _).Yields (MayAnswer P) (.ok res)) :
    WellScoped a res := by
  unfold keyword_search at h
  obtain ⟨floated, hfl, h⟩ := Prog.yields_bind_ok.mp h
  obtain ⟨items, hitems, h⟩ := Prog.yields_bind_ok.mp h
  obtain rfl := Prog.yields_pure_ok.mp h
  obtain ⟨hpins, hnd⟩ := yields_float_pins hfl
  exact wellScoped_keyword_page hpins hnd hitems

theorem yields_search_semantic (hp : a.project_id ≠ some "") {res : List (ScoredMemory S)}
    (h : (search_semantic E a).Yields (MayAnswer P) (.ok res)) : WellScoped a res := by
  unfold search_semantic at h
  obtain ⟨floated, hfl, h⟩ := Prog.yields_bind_ok.mp h
  obtain ⟨ranked, hranked, h⟩ := Prog.yields_bind_ok.mp h
  obtain ⟨hits, hhits, h⟩ := Prog.yields_bind_ok.mp h
  obtain rfl := Prog.yields_pure_ok.mp h
  obtain ⟨hpins, hnd⟩ := yields_float_pins hfl
  obtain ⟨hrnd, hexcl⟩ := yields_semantic_search hranked
  obtain ⟨hvis, hsub⟩ := yields_semantic_hits hp hhits
  refine wellScoped_page hpins hnd hvis (hrnd.sublist hsub) ?_
  intro x hx
  obtain ⟨r, hr, hrx⟩ := List.mem_map.mp (hsub.subset (List.mem_map_of_mem hx))
  rw [← hrx]
  exact hexcl r hr

/-! ### The merge -/

section Merge

variable {f : Fusion S} {sets : SetOrder} {pinned_ids : List String}

omit [LinearOrder S] in
theorem lookup_item_id (hmap : ∀ e ∈ f.item_map, e.2.id = e.1) {mid : String} {item : MemoryItem}
    (h : f.item_map.lookup mid = some item) : item.id = mid := by
  obtain ⟨l₁, l₂, heq, -⟩ := List.lookup_eq_some_iff.mp h
  refine hmap (mid, item) ?_
  rw [heq]
  simp

omit [LinearOrder S] in
/-- What the merge makes of a fused id: a hit for that id, admitted. -/
theorem hit_spec (hmap : ∀ e ∈ f.item_map, e.2.id = e.1) {mid : String} {x : ScoredMemory S}
    (hmem : mid ∈ f.fused sets a pinned_ids) (hx : f.hit mid = some x) :
    x.item.id = mid ∧ admits a pinned_ids mid x.item = true := by
  obtain ⟨item, hitem, rfl⟩ := Option.map_eq_some_iff.mp hx
  constructor
  · exact lookup_item_id hmap hitem
  · have := (List.mem_filter.mp (mem_sortDesc.mp hmem)).2
    rwa [hitem] at this

omit [LinearOrder S] in
/-- What the merge ranks comes from one of the two channels. -/
theorem mem_all_ids {mid : String} :
    mid ∈ f.all_ids sets ↔ mid ∈ f.keyword_ids ∨ mid ∈ f.semantic_ids := by
  rw [Fusion.all_ids, (sets.perm _ _).mem_iff, List.mem_union_iff]

omit [LinearOrder S] in
theorem candidates_nodup (hs : f.semantic_ids.Nodup) :
    (f.candidates sets a pinned_ids).Nodup := by
  refine List.Nodup.sublist List.filter_sublist ?_
  exact (sets.perm _ _).nodup_iff.mpr (List.Nodup.union _ hs)

omit [LinearOrder S] in
/-- The ids of the hits are the fused ids, so they are distinct. -/
theorem hits_ids_sublist {l : List String}
    (hid : ∀ mid ∈ l, ∀ x, f.hit mid = some x → x.item.id = mid) :
    ((l.filterMap f.hit).map (·.item.id)).Sublist l := by
  induction l with
  | nil => simp
  | cons mid rest ih =>
      have hrest := ih fun m hm => hid m (List.mem_cons_of_mem _ hm)
      rw [List.filterMap_cons]
      cases hx : f.hit mid with
      | none => exact hrest.trans (List.sublist_cons_self _ _)
      | some x =>
          rw [List.map_cons, hid mid List.mem_cons_self x hx]
          exact hrest.cons_cons _

/-- An admitted row is visible: both channels already left the floated ids out, so
the pin test of the merge only has to hide pins. -/
theorem visible_of_admits (hp : a.project_id ≠ some "") {mid : String} {m : MemoryItem}
    (h : admits a pinned_ids mid m = true) : Visible a m := by
  simp only [admits, Bool.and_eq_true] at h
  refine visible_of_post_filter hp ?_ h.2
  intro hincl
  by_contra hpin
  have hpin' : m.pinned = true := by simpa using hpin
  simp [hpin', hincl] at h

end Merge

/-- The merge, whatever the rows it read again have become. -/
theorem yields_rrf_merge (hp : a.project_id ≠ some "") {pinned_ids : List String}
    {items : List MemoryItem} {semantic_ranked : List (String × S)} {res : List (ScoredMemory S)}
    (hitems : ∀ i ∈ items, i.id ∉ pinned_ids) (hnd : (semantic_ranked.map (·.1)).Nodup)
    (hexcl : ∀ x ∈ semantic_ranked, x.1 ∉ pinned_ids)
    (h : (rrf_merge E a pinned_ids items semantic_ranked).Yields (MayAnswer P) (.ok res)) :
    (∀ x ∈ res, Visible a x.item ∧ x.item.id ∉ pinned_ids) ∧ (res.map (·.item.id)).Nodup := by
  unfold rrf_merge at h
  obtain ⟨item_map, hfetch, h⟩ := Prog.yields_bind_ok.mp h
  obtain rfl := Prog.yields_pure_ok.mp h
  have hmap : ∀ e ∈ item_map, e.2.id = e.1 := by
    refine yields_fetch_items ?_ hfetch
    intro e he
    obtain ⟨i, -, rfl⟩ := List.mem_map.mp he
    rfl
  constructor
  · intro x hx
    obtain ⟨mid, hmid, hx⟩ := List.mem_filterMap.mp hx
    replace hmid := List.mem_of_mem_take hmid
    obtain ⟨hid, hadm⟩ := hit_spec hmap hmid hx
    refine ⟨visible_of_admits hp hadm, ?_⟩
    -- no fused id is a floated one: both channels excluded those
    rw [hid]
    rcases mem_all_ids.mp (List.mem_filter.mp (mem_sortDesc.mp hmid)).1 with hk | hk
    · obtain ⟨i, hi, rfl⟩ := List.mem_map.mp hk
      exact hitems i hi
    · obtain ⟨r, hr, rfl⟩ := List.mem_map.mp hk
      exact hexcl r hr
  · refine List.Nodup.sublist (hits_ids_sublist ?_) ?_
    · intro mid hmid x hx
      exact (hit_spec hmap (List.mem_of_mem_take hmid) hx).1
    refine List.Nodup.sublist (List.take_sublist _ _) ?_
    exact (sortDesc_perm _ _).nodup_iff.mpr (candidates_nodup hnd)

/-- A hybrid search that has lost its provider is a keyword search; otherwise it is the merge. -/
theorem yields_search_hybrid (hp : a.project_id ≠ some "") {res : List (ScoredMemory S)}
    (h : (search_hybrid E a).Yields (MayAnswer P) (.ok res)) : WellScoped a res := by
  unfold search_hybrid at h
  obtain ⟨pins, hfl, h⟩ := Prog.yields_bind_ok.mp h
  obtain ⟨items, hitems, h⟩ := Prog.yields_bind_ok.mp h
  obtain ⟨outcome, hout, h⟩ := Prog.yields_bind_ok.mp h
  obtain ⟨hpins, hpins_nd⟩ := yields_float_pins hfl
  cases outcome with
  | error e =>
      obtain ⟨-, -, h⟩ := Prog.yields_bind_ok.mp h
      obtain rfl := Prog.yields_pure_ok.mp h
      exact wellScoped_keyword_page hpins hpins_nd hitems
  | ok semantic_ranked =>
      obtain ⟨-, -, h⟩ := Prog.yields_bind_ok.mp h
      obtain ⟨merged, hmerge, h⟩ := Prog.yields_bind_ok.mp h
      obtain rfl := Prog.yields_pure_ok.mp h
      obtain ⟨s, hs⟩ := yields_search_memory hitems
      obtain ⟨hscope, -⟩ := SqliteStore.search_memory_spec hs
      obtain ⟨hnd, hexcl⟩ := yields_semantic_search (Prog.yields_attempt.mp hout)
      obtain ⟨hres, hres_nd⟩ := yields_rrf_merge hp (fun i hi => (hscope i hi).2) hnd hexcl hmerge
      exact wellScoped_page hpins hpins_nd (fun x hx => (hres x hx).1) hres_nd
        (fun x hx => (hres x hx).2)

/-- **Every search keeps its scope.** In any mode, on any store, with any provider
and any writes by others between its calls, `execute` returns at most `top_k`
distinct memories, each with every requested tag, none pinned unless pins are
included, and each inside the project asked for. -/
theorem execute_well_scoped (P : Platform R) (embedding_service : Option (Provider F S))
    (mode : String) (a : SearchArgs) (hp : a.project_id ≠ some "") (res : List (ScoredMemory S))
    (h : (execute embedding_service mode a).Yields (MayAnswer P) (.ok res)) :
    WellScoped a res := by
  -- clamping the float cap changes nothing the promise is about
  set a' : SearchArgs := { a with pinned_limit := max 0 a.pinned_limit } with ha'
  suffices hw : WellScoped a' res by
    exact ⟨hw.length_le, hw.ids_nodup, fun x hx =>
      ⟨(hw.visible x hx).tagged, (hw.visible x hx).unpinned, (hw.visible x hx).scope,
        (hw.visible x hx).strict⟩⟩
  unfold execute at h
  rw [← ha'] at h
  dsimp only at h
  split at h
  · cases Prog.yields_raise _ _ |>.mp h
  · split at h
    · cases embedding_service with
      | none => cases Prog.yields_raise _ _ |>.mp h
      | some E => exact yields_search_semantic (a := a') hp h
    · split at h
      · cases embedding_service with
        | none => exact yields_keyword_search h
        | some E => exact yields_search_hybrid (a := a') hp h
      · exact yields_keyword_search h

end Interference

/-- On the small deployment a hybrid search returns both hits of its page. -/
theorem execute_well_scoped_sample :
    ∃ res, run_alone Sample.platform Sample.world
        (execute (some Sample.provider) "hybrid" { query := "nas", top_k := 2 }) = .ok res
      ∧ res.map (·.item.id) = ["restore", "backup"]
      ∧ WellScoped { query := "nas", top_k := 2 } res := by
  have hrun : ((run_alone Sample.platform Sample.world
      (execute (some Sample.provider) "hybrid" { query := "nas", top_k := 2 })).toOption.map
        fun res => res.map (·.item.id)) = some ["restore", "backup"] := by decide +kernel
  obtain ⟨res, hres, hids⟩ := Option.map_eq_some_iff.mp hrun
  have hok := ok_of_toOption hres
  refine ⟨res, hok, hids, execute_well_scoped Sample.platform (some Sample.provider) "hybrid" _
    (by simp) res ?_⟩
  rw [← hok]
  exact yields_run_alone _ _ _

end OpenChronicle
