/-
Pages of the keyword stream, and the degraded hybrid search.

On a store nobody else touches, a search is a function of the store. Here each
piece of it is evaluated, and the keyword page turns out to be a slice of one
stream that depends neither on `top_k` nor on `offset`: the float, then the
ranking without it. The degraded hybrid search over-fetches twice as far and
slices the same stream.

Every page asks the store for a window, the places up to its end and one more
for each floated id. On FTS5 that number goes into `LIMIT ?`, so a page far
enough out raises instead of being an empty slice (`WindowOverflows`). What a
page is, on both sides of that line, is `stream_page`; all that follows about
slices is about pages whose window can be asked for.
-/
import OpenChronicle.Search.Scope

set_option autoImplicit false

namespace OpenChronicle

open Program Ranking

variable {F S R : Type} [LinearOrder R] (P : Platform R)

/-- The arguments of the `n`th page of size `k`. -/
def SearchArgs.nth_page (a : SearchArgs) (k n : ℕ) : SearchArgs :=
  { a with top_k := k, offset := n * k }

/-! ## The pieces, on one store -/

/-- The pins that float. -/
def floated (s : SqliteStore F) (a : SearchArgs) (phrase : Bool) : Except Exc (List MemoryItem) :=
  if a.include_pinned && 0 < a.pinned_limit then
    s.search_pinned P a.query a.pinned_limit a.project_id a.tags phrase
  else .ok []

/-- The complete ranking a search pages through, before any exclusion. -/
def full_ranking (s : SqliteStore F) (a : SearchArgs) : Except Exc (List MemoryItem) :=
  s.ranking P a.query a.project_id a.tags a.phrase (SqliteStore.ranked_mode a.include_pinned)

/-- The ranking without the floated ids. -/
def unfloated (pins r : List MemoryItem) : List MemoryItem :=
  r.filter fun m => m.id ∉ pins.map (·.id)

/-- **The combined stream**: the float, then the ranking without it. -/
def keyword_stream (S : Type) (s : SqliteStore F) (a : SearchArgs) :
    Except Exc (List (ScoredMemory S)) := do
  let pins ← floated P s a a.phrase
  let r ← full_ranking P s a
  pure (wrap_pinned pins ++ wrap_keyword_ranked (unfloated pins r))

theorem eval_float_pins (w : SearchWorld F) (a : SearchArgs) (phrase : Bool) :
    (float_pins a phrase : SearchProg F _).eval (SearchWorld.answer P) w
      = (floated P w.store a phrase, w) := by
  unfold float_pins floated
  by_cases hc : (a.include_pinned && decide (0 < a.pinned_limit)) = true
  · rw [if_pos hc, if_pos hc]
    exact Prog.eval_op _ _ _
  · rw [if_neg hc, if_neg hc]
    rfl

theorem eval_search_memory (w : SearchWorld F) (a : SearchArgs) (top_k : ℕ)
    (pins : List MemoryItem) :
    (ask (.search_memory a.query top_k a.project_id a.include_pinned a.tags a.phrase
        (pins.map (·.id))) : SearchProg F _).eval (SearchWorld.answer P) w
      = (w.store.search_memory P a.query top_k a.project_id a.include_pinned a.tags 0 a.phrase
          (pins.map (·.id)), w) :=
  Prog.eval_op _ _ _

/-- A window of `m` places, and room for the floated ids to exclude, is more than FTS5 can
be asked for. -/
def WindowOverflows (s : SqliteStore F) (a : SearchArgs) (pins : List MemoryItem) (m : ℕ) : Prop :=
  s.LimitOverflows a.query a.phrase (m + pins.length)

instance (s : SqliteStore F) (a : SearchArgs) (pins : List MemoryItem) (m : ℕ) :
    Decidable (WindowOverflows s a pins m) :=
  inferInstanceAs (Decidable (s.LimitOverflows _ _ _))

omit [LinearOrder R] in
theorem not_windowOverflows_of_le {s : SqliteStore F} {a : SearchArgs} {pins : List MemoryItem}
    {m n : ℕ} (hle : m ≤ n) (h : ¬ WindowOverflows s a pins n) : ¬ WindowOverflows s a pins m :=
  SqliteStore.not_limitOverflows_of_le (Nat.add_le_add_right hle _) h

/-- Nothing that floats makes a window of `m` places too wide to be asked for. -/
def WindowBinds (s : SqliteStore F) (a : SearchArgs) (m : ℕ) : Prop :=
  ∀ pins, floated P s a a.phrase = .ok pins → ¬ WindowOverflows s a pins m

variable {P} in
theorem WindowBinds.mono {s : SqliteStore F} {a : SearchArgs} {m n : ℕ} (hle : m ≤ n)
    (h : WindowBinds P s a n) : WindowBinds P s a m := by
  intro pins hfl
  exact not_windowOverflows_of_le hle (h pins hfl)

variable {P} in
theorem windowBinds_iff {s : SqliteStore F} {a : SearchArgs} {pins : List MemoryItem}
    (hfl : floated P s a a.phrase = .ok pins) (m : ℕ) :
    WindowBinds P s a m ↔ ¬ WindowOverflows s a pins m := by
  constructor
  · intro h
    exact h pins hfl
  · intro h pins' hfl'
    obtain rfl := Except.ok.inj (hfl.symm.trans hfl')
    exact h

/-- A window of the keyword channel is a prefix of the ranking without the float. -/
theorem search_memory_eq_take (s : SqliteStore F) (a : SearchArgs) {top_k : ℕ}
    (pins : List MemoryItem) (hbind : ¬ WindowOverflows s a pins top_k) :
    s.search_memory P a.query top_k a.project_id a.include_pinned a.tags 0 a.phrase
        (pins.map (·.id))
      = (full_ranking P s a).map fun r => (unfloated pins r).take top_k := by
  have hfetch : ¬ s.LimitOverflows a.query a.phrase (top_k + 0 + (pins.map (·.id)).length) := by
    rw [List.length_map]
    exact hbind
  rw [SqliteStore.search_memory_eq hfetch, full_ranking]
  rfl

theorem search_memory_of_overflows {s : SqliteStore F} {a : SearchArgs} {top_k : ℕ}
    {pins : List MemoryItem} (hover : WindowOverflows s a pins top_k) :
    s.search_memory P a.query top_k a.project_id a.include_pinned a.tags 0 a.phrase
        (pins.map (·.id)) = .error .OverflowError := by
  refine SqliteStore.search_memory_overflows ?_
  rw [List.length_map]
  exact hover

/-- With no exclusion and room enough, `search_memory` returns the ranking itself. -/
theorem search_memory_full {s : SqliteStore F} {a : SearchArgs} {r : List MemoryItem}
    (hr : full_ranking P s a = .ok r) {t : ℕ} (ht : r.length ≤ t)
    (hbind : ¬ s.LimitOverflows a.query a.phrase t) :
    s.search_memory P a.query t a.project_id a.include_pinned a.tags 0 a.phrase [] = .ok r := by
  have h := search_memory_eq_take P s a [] hbind
  rw [List.map_nil, hr] at h
  rw [h]
  simp [Except.map, unfloated, List.take_of_length_le ht]

omit [LinearOrder R] in
theorem wrap_keyword_ranked_take (items : List MemoryItem) (n : ℕ) :
    (wrap_keyword_ranked (items.take n) : List (ScoredMemory S))
      = (wrap_keyword_ranked items).take n := by
  unfold wrap_keyword_ranked
  rw [← List.map_take]
  congr 1
  apply List.ext_getElem?
  intro i
  rw [List.getElem?_zipIdx, List.getElem?_take, List.getElem?_take]
  by_cases hi : i < n
  · rw [if_pos hi, if_pos hi, List.getElem?_zipIdx]
  · rw [if_neg hi, if_neg hi]
    rfl

/-- A page that is cut from a window of `m` places: the slice of the stream, or what the
store raises for the window. -/
def stream_page (S : Type) (s : SqliteStore F) (a : SearchArgs) (m : ℕ) :
    Except Exc (List (ScoredMemory S)) := do
  let pins ← floated P s a a.phrase
  if WindowOverflows s a pins m then .error .OverflowError
  else (keyword_stream P S s a).map fun L => slice L a.offset a.top_k

/-- A page cut from any window that reaches its end is the page of the stream. -/
theorem page_of_window (s : SqliteStore F) (a : SearchArgs) {m : ℕ} (hm : a.offset + a.top_k ≤ m) :
    (do let pins ← floated P s a a.phrase
        let items ← s.search_memory P a.query m a.project_id a.include_pinned a.tags 0 a.phrase
          (pins.map (·.id))
        pure (page a pins (wrap_keyword_ranked items)) : Except Exc (List (ScoredMemory S)))
      = stream_page P S s a m := by
  unfold stream_page
  refine except_bind_congr fun pins hfl => ?_
  by_cases hover : WindowOverflows s a pins m
  · rw [if_pos hover, search_memory_of_overflows P hover]
    rfl
  · rw [if_neg hover, search_memory_eq_take P s a pins hover]
    unfold keyword_stream
    rw [hfl, except_ok_bind]
    cases full_ranking P s a with
    | error e => rfl
    | ok r =>
        simp only [bind, Except.bind, Except.map, pure, Except.pure, page]
        rw [wrap_keyword_ranked_take, slice_append_take _ _ hm]

/-- A page whose window can be asked for is a slice of the stream. -/
theorem stream_page_eq {s : SqliteStore F} {a : SearchArgs} {m : ℕ} (hbind : WindowBinds P s a m) :
    stream_page P S s a m = (keyword_stream P S s a).map fun L => slice L a.offset a.top_k := by
  unfold stream_page
  cases hfl : floated P s a a.phrase with
  | error e =>
      unfold keyword_stream
      rw [hfl]
      rfl
  | ok pins =>
      rw [except_ok_bind, if_neg (hbind pins hfl)]

/-! ## The keyword page -/

omit [LinearOrder R] in
/-- `max(0, pinned_limit)` floats what `pinned_limit` does. -/
theorem stream_page_clamp [LinearOrder R] (s : SqliteStore F) (a : SearchArgs) (m : ℕ) :
    stream_page P S s { a with pinned_limit := max 0 a.pinned_limit } m = stream_page P S s a m := by
  have hfl : floated P s { a with pinned_limit := max 0 a.pinned_limit } a.phrase
      = floated P s a a.phrase := by
    unfold floated
    by_cases hl : 0 < a.pinned_limit
    · rw [max_eq_right hl.le]
    · simp [hl]
  unfold stream_page keyword_stream
  rw [hfl]
  rfl

theorem run_keyword_search (w : SearchWorld F) (a : SearchArgs) :
    run_alone P w (keyword_search a : SearchProg F (List (ScoredMemory S)))
      = stream_page P S w.store a (a.offset + a.top_k) := by
  rw [← page_of_window P w.store a (le_refl (a.offset + a.top_k)), keyword_search,
    run_alone_bind (eval_float_pins P w a a.phrase)]
  congr 1
  funext pins
  rw [run_alone_bind (eval_search_memory P w a (a.offset + a.top_k) pins)]
  rfl

theorem run_execute_keyword [LinearOrder S] (w : SearchWorld F)
    (embedding_service : Option (Provider F S)) (a : SearchArgs) :
    run_alone P w (execute embedding_service "keyword" a)
      = stream_page P S w.store a (a.offset + a.top_k) := by
  have hmode : execute embedding_service "keyword" a
      = keyword_search { a with pinned_limit := max 0 a.pinned_limit } := by
    unfold execute
    rw [if_neg (by decide), if_neg (by decide), if_neg (by decide)]
  rw [hmode, run_keyword_search]
  exact stream_page_clamp P w.store a _

omit [LinearOrder R] in
theorem getElem?_wrap_keyword_ranked {items : List MemoryItem} {i : ℕ} {m : MemoryItem}
    (h : items[i]? = some m) :
    (wrap_keyword_ranked items : List (ScoredMemory S))[i]?
      = some { item := m, channel := .keyword, keyword_rank := some (i + 1) } := by
  unfold wrap_keyword_ranked
  rw [List.getElem?_map, List.getElem?_zipIdx, h]
  simp [Nat.add_comm]

omit [LinearOrder R] in
theorem wrap_pinned_items (pins : List MemoryItem) :
    (wrap_pinned pins : List (ScoredMemory S)).map (·.item) = pins := by
  rw [wrap_pinned, List.map_map]
  exact List.map_id _

/-- What the combined stream is made of. -/
theorem keyword_stream_spec {s : SqliteStore F} {a : SearchArgs} {L : List (ScoredMemory S)}
    (hL : keyword_stream P S s a = .ok L) :
    ∃ pins r, floated P s a a.phrase = .ok pins ∧ full_ranking P s a = .ok r
      ∧ L = wrap_pinned pins ++ wrap_keyword_ranked (unfloated pins r) := by
  unfold keyword_stream at hL
  cases hfl : floated P s a a.phrase with
  | error e => rw [hfl] at hL; cases hL
  | ok pins =>
      cases hr : full_ranking P s a with
      | error e => rw [hfl, hr] at hL; cases hL
      | ok r =>
          rw [hfl, hr] at hL
          exact ⟨pins, r, rfl, rfl, (Except.ok.inj hL).symm⟩

theorem floated_nodup {s : SqliteStore F} {a : SearchArgs} {phrase : Bool} {pins : List MemoryItem}
    (h : floated P s a phrase = .ok pins) : (pins.map (·.id)).Nodup := by
  unfold floated at h
  split at h
  · exact (SqliteStore.search_pinned_spec h).2
  · obtain rfl := Except.ok.inj h
    simp

/-- The stream names no memory twice: the ranking lost exactly the floated ids. -/
theorem keyword_stream_nodup {s : SqliteStore F} {a : SearchArgs} {L : List (ScoredMemory S)}
    (hL : keyword_stream P S s a = .ok L) : (L.map (·.item.id)).Nodup := by
  obtain ⟨pins, r, hfl, hr, rfl⟩ := keyword_stream_spec P hL
  have hids : ∀ l : List (ScoredMemory S), l.map (·.item.id) = (l.map (·.item)).map (·.id) := by
    intro l
    rw [List.map_map]
    rfl
  rw [hids, List.map_append, wrap_pinned_items, wrap_keyword_ranked_items, List.map_append,
    List.nodup_append]
  refine ⟨floated_nodup P hfl, ?_, ?_⟩
  · exact (SqliteStore.ranking_spec hr).2.sublist (List.filter_sublist.map _)
  · intro i hi j hj hij
    obtain ⟨m, hm, rfl⟩ := List.mem_map.mp hj
    have hout : m.id ∉ pins.map (·.id) := by simpa using (List.mem_filter.mp hm).2
    exact hout (hij ▸ hi)

omit [LinearOrder R] in
/-- Pages that all succeed, concatenated. -/
theorem mapM_pages {α : Type} {f : ℕ → Except Exc (List α)} {g : ℕ → List α} (l : List ℕ)
    (h : ∀ n ∈ l, f n = .ok (g n)) : (l.mapM f).map List.flatten = .ok (l.flatMap g) := by
  have hmap : l.mapM f = .ok (l.map g) := by
    induction l with
    | nil => rfl
    | cons n t ih =>
        have hrest := ih fun m hm => h m (List.mem_cons_of_mem _ hm)
        rw [List.mapM_cons, h n List.mem_cons_self]
        simp [bind, Except.bind, hrest, pure, Except.pure]
  rw [hmap]
  rfl

/-- **Keyword pages tile one stream.** Page `n` of size `k` is the `n`th slice of
the combined stream, or raises what the stream raises, unless its window is more
than FTS5 can be asked for, which raises `OverflowError`. The pages of a stream
concatenate to it, no memory stands in it twice, and a ranked memory carries its
1-based place in the ranking without the float, whatever page it falls on. -/
theorem keyword_pages_tile [LinearOrder S] (w : SearchWorld F)
    (embedding_service : Option (Provider F S)) (a : SearchArgs) (k : ℕ) :
    (∀ n, run_alone P w (execute embedding_service "keyword" (a.nth_page k n)) = do
        let pins ← floated P w.store a a.phrase
        if WindowOverflows w.store a pins (n * k + k) then .error .OverflowError
        else (keyword_stream P S w.store a).map fun L => slice L (n * k) k)
    ∧ ∀ L, keyword_stream P S w.store a = .ok L →
      (L.map (·.item.id)).Nodup
      ∧ ∃ pins r, floated P w.store a a.phrase = .ok pins
        ∧ (∀ N, L.length ≤ N * k → ¬ WindowOverflows w.store a pins (N * k) →
          ((List.range N).mapM fun n =>
            run_alone P w (execute embedding_service "keyword" (a.nth_page k n))).map List.flatten
              = .ok L)
        ∧ (∀ t, r.length ≤ t → ¬ w.store.LimitOverflows a.query a.phrase t →
          w.store.search_memory P a.query t a.project_id a.include_pinned a.tags 0 a.phrase []
            = .ok r)
        ∧ L.map (·.item) = pins ++ unfloated pins r
        ∧ ∀ i m, (unfloated pins r)[i]? = some m → L[pins.length + i]?
            = some { item := m, channel := .keyword, keyword_rank := some (i + 1) } := by
  have hpage : ∀ n, run_alone P w (execute embedding_service "keyword" (a.nth_page k n))
      = stream_page P S w.store (a.nth_page k n) (n * k + k) := by
    intro n
    rw [run_execute_keyword]
    rfl
  refine ⟨hpage, ?_⟩
  intro L hL
  obtain ⟨pins, r, hfl, hr, rfl⟩ := keyword_stream_spec P hL
  refine ⟨keyword_stream_nodup P hL, pins, r, hfl, ?_, fun t ht => search_memory_full P hr ht, ?_, ?_⟩
  · intro N hN hbind
    -- the last page has the widest window
    have hok : ∀ n ∈ List.range N,
        run_alone P w (execute embedding_service "keyword" (a.nth_page k n))
          = .ok (slice (wrap_pinned pins ++ wrap_keyword_ranked (unfloated pins r)) (n * k) k) := by
      intro n hn
      have hwindow : n * k + k ≤ N * k := by
        rw [← Nat.succ_mul]
        exact Nat.mul_le_mul_right k (List.mem_range.mp hn)
      rw [hpage n, stream_page_eq]
      · show (keyword_stream P S w.store a).map _ = _
        rw [hL]
        rfl
      · exact WindowBinds.mono hwindow ((windowBinds_iff hfl _).mpr hbind)
    rw [mapM_pages _ hok, flatMap_slices, List.take_of_length_le hN]
  · rw [List.map_append, wrap_pinned_items, wrap_keyword_ranked_items]
  · intro i m hm
    have hlen : (wrap_pinned pins : List (ScoredMemory S)).length = pins.length := by
      rw [wrap_pinned, List.length_map]
    rw [← hlen, List.getElem?_append_right (Nat.le_add_right _ _), Nat.add_sub_cancel_left]
    exact getElem?_wrap_keyword_ranked hm

/-- Three pages of one hit each, and their concatenation, on the small deployment. -/
theorem keyword_pages_tile_sample :
    ∃ L : List (ScoredMemory ℚ),
      keyword_stream Sample.platform ℚ Sample.store { query := "nas" } = .ok L
      ∧ L.map (·.item.id) = ["agenda", "backup", "restore"]
      ∧ ((List.range 3).mapM fun n => run_alone Sample.platform Sample.world
          (execute (some Sample.provider) "keyword"
            (SearchArgs.nth_page { query := "nas" } 1 n))).map List.flatten = .ok L := by
  have hids : ((keyword_stream Sample.platform ℚ Sample.store { query := "nas" }).toOption.map
      fun L => L.map (·.item.id)) = some ["agenda", "backup", "restore"] := by decide +kernel
  obtain ⟨L, hL, hids⟩ := Option.map_eq_some_iff.mp hids
  have hok := ok_of_toOption hL
  have hlen : L.length ≤ 3 * 1 := by
    have := congrArg List.length hids
    rw [List.length_map] at this
    rw [this]
    decide
  obtain ⟨-, pins, r, -, htile, -⟩ := (keyword_pages_tile Sample.platform Sample.world
    (some Sample.provider) { query := "nas" } 1).2 L hok
  refine ⟨L, hok, hids, htile 3 hlen ?_⟩
  rintro ⟨hactive, -⟩
  cases hactive

/-- One note that matches, served by FTS5: the page that starts at `2 ^ 63` raises, where
the stream has an empty slice for it. -/
theorem far_page_raises :
    (run_alone SqliteStore.Deep.platform
        { store := SqliteStore.Deep.store, port := ⟨fun _ _ => .error .Other, fun _ => ⟨false, none⟩⟩ }
        (execute (none : Option (Provider Unit ℚ)) "keyword"
          (SearchArgs.nth_page { query := "alpha" } 1 (2 ^ 63)))) = .error .OverflowError
    ∧ ((keyword_stream SqliteStore.Deep.platform ℚ SqliteStore.Deep.store
        { query := "alpha" }).toOption.map fun L => L.map (·.item)) = some [SqliteStore.Deep.note]
    ∧ ¬ ∀ n, run_alone SqliteStore.Deep.platform
        { store := SqliteStore.Deep.store, port := ⟨fun _ _ => .error .Other, fun _ => ⟨false, none⟩⟩ }
        (execute (none : Option (Provider Unit ℚ)) "keyword"
          (SearchArgs.nth_page { query := "alpha" } 1 n))
      = (keyword_stream SqliteStore.Deep.platform ℚ SqliteStore.Deep.store { query := "alpha" }).map
          fun L => slice L (n * 1) 1 := by
  have hraises : run_alone SqliteStore.Deep.platform
      { store := SqliteStore.Deep.store, port := ⟨fun _ _ => .error .Other, fun _ => ⟨false, none⟩⟩ }
      (execute (none : Option (Provider Unit ℚ)) "keyword"
        (SearchArgs.nth_page { query := "alpha" } 1 (2 ^ 63))) = .error .OverflowError := by
    rw [run_execute_keyword, stream_page]
    have hfl : floated SqliteStore.Deep.platform SqliteStore.Deep.store
        (SearchArgs.nth_page { query := "alpha" } 1 (2 ^ 63)) false = .ok [] := by rfl
    rw [show (SearchArgs.nth_page { query := "alpha" } 1 (2 ^ 63)).phrase = false from rfl, hfl,
      except_ok_bind, if_pos]
    exact ⟨rfl, by decide +kernel, rfl, by decide +kernel⟩
  have hstream : ((keyword_stream SqliteStore.Deep.platform ℚ SqliteStore.Deep.store
      { query := "alpha" }).toOption.map fun L => L.map (·.item))
        = some [SqliteStore.Deep.note] := by decide +kernel
  refine ⟨hraises, hstream, ?_⟩
  intro hslices
  have hslice := (hslices (2 ^ 63)).symm.trans hraises
  cases hL : keyword_stream SqliteStore.Deep.platform ℚ SqliteStore.Deep.store { query := "alpha" } with
  | error e => rw [hL] at hstream; cases hstream
  | ok L => rw [hL] at hslice; cases hslice

/-! ## The degraded hybrid search -/

/-- The two `except` clauses return the same page, whatever they did to the
counters. -/
theorem run_degraded (w : SearchWorld F) (e : Exc) (res : List (ScoredMemory S)) :
    run_alone P w (do note_degraded e; pure res) = .ok res := by
  unfold note_degraded
  by_cases hrev : e = .RevisionChangedError
  · rw [if_pos hrev]
    rfl
  · rw [if_neg hrev]
    by_cases hlong : is_content_too_long e = true
    · rw [if_pos hlong]
      rfl
    · rw [if_neg hlong]
      rfl

/-- **Degraded hybrid is keyword mode.** Whenever the semantic channel is reached and
raises, for whatever reason, `search_hybrid` returns what keyword mode returns, although
it fetched a window twice as wide. The channel is reached once the store has answered for
that window, which FTS5 cannot be asked for past 63 bits. -/
theorem search_hybrid_degraded [LinearOrder S] (w : SearchWorld F) (E : Provider F S)
    (embedding_service : Option (Provider F S)) (a : SearchArgs)
    (hbind : WindowBinds P w.store a ((a.top_k + a.offset) * 2))
    (hraise : ∀ pins, floated P w.store a a.phrase = .ok pins →
      ∃ e, run_alone P w (semantic_search E a.query a.project_id a.tags (pins.map (·.id))
        ((a.top_k + a.offset) * 2)) = .error e) :
    run_alone P w (search_hybrid E a) = run_alone P w (execute embedding_service "keyword" a) := by
  have hwide : a.offset + a.top_k ≤ (a.top_k + a.offset) * 2 := by omega
  rw [run_execute_keyword, stream_page_eq P (hbind.mono hwide), ← stream_page_eq P hbind,
    ← page_of_window P w.store a hwide, search_hybrid,
    run_alone_bind (eval_float_pins P w a a.phrase)]
  refine except_bind_congr fun pins hfl => ?_
  obtain ⟨e, he⟩ := hraise pins hfl
  rw [run_alone_bind (eval_search_memory P w a _ pins)]
  refine except_bind_congr fun items _ => ?_
  rw [run_alone_attempt, he]
  exact run_degraded P _ e _

/-- A provider that is down: the page is the keyword page. -/
theorem search_hybrid_degraded_sample :
    ((run_alone Sample.platform { Sample.world with
          port := ⟨fun _ _ => .error (.ProviderError .CONNECTION_ERROR), Sample.port.revision_snapshot⟩ }
        (search_hybrid Sample.provider { query := "nas", top_k := 2 })).toOption.map
          fun res => res.map (·.item.id)) = some ["agenda", "backup"]
    ∧ run_alone Sample.platform { Sample.world with
          port := ⟨fun _ _ => .error (.ProviderError .CONNECTION_ERROR), Sample.port.revision_snapshot⟩ }
        (search_hybrid Sample.provider { query := "nas", top_k := 2 })
      = run_alone Sample.platform { Sample.world with
          port := ⟨fun _ _ => .error (.ProviderError .CONNECTION_ERROR), Sample.port.revision_snapshot⟩ }
        (execute (some Sample.provider) "keyword" { query := "nas", top_k := 2 }) := by
  refine ⟨by decide +kernel, search_hybrid_degraded Sample.platform _ Sample.provider _ _ ?_ ?_⟩
  · rintro pins - ⟨hactive, -⟩
    cases hactive
  · intro pins _
    exact ⟨.ProviderError .CONNECTION_ERROR, rfl⟩

end OpenChronicle
