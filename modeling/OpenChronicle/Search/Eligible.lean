/-
One rule of eligibility, written three times.

`eligible_memory_ids` and the searches of the store apply it in SQL, `search_hybrid` and
`search_semantic` again in Python on the rows they get back. The three agree on every row, so on a store
nobody writes to the filters after the window find nothing to remove.

They are still needed: between the window and the reading of its rows another client may edit, pin or
delete one. What they do then is no part of this file. Nor do they agree on every argument: Python takes
an empty project id for none, where SQL looks for rows with the empty id, so the id is asked not to be
empty.
-/
import OpenChronicle.Store.Clauses
import OpenChronicle.Search.Semantic

set_option autoImplicit false

namespace OpenChronicle

open Program

variable {F S R : Type} [LinearOrder S] [LinearOrder R]

/-! ## The rule -/

/-- `eligible_memory_ids` with its `WHERE` evaluated as SQL does. -/
def select_eligible_ids (db : Db F) (project_id : Option String) (tags : Option (List PyStr.Text)) : List String :=
  (db.items.filter fun m => (eligible_where project_id tags).selects m).map (·.id)

/-- The `WHERE` and the predicates select the same ids, in the same order. -/
theorem select_eligible_ids_eq (db : Db F) (project_id : Option String) (tags : Option (List PyStr.Text)) :
    select_eligible_ids db project_id tags = db.eligible_memory_ids project_id tags := by
  rw [select_eligible_ids, Db.eligible_memory_ids]
  congr 2
  funext m
  exact selects_eligible_where project_id tags m

/-- Python's filter is the SQL's, as long as the project id is not the empty text, which Python
takes for no project. -/
theorem post_filter_eq {a : SearchArgs} (hproject : a.project_id ≠ some "") (m : MemoryItem) :
    post_filter a m = (eligible_where a.project_id a.tags).selects m := by
  rw [selects_eligible_where, post_filter, tags_clause, Bool.and_comm]
  congr 1
  cases hp : a.project_id with
  | none => rfl
  | some p =>
      have hne : p ≠ "" := fun h => hproject (by rw [hp, h])
      simp [scope_clause, hne]

/-- An id is eligible when its row satisfies the `WHERE`. -/
theorem mem_select_eligible_ids {db : Db F} {project_id : Option String} {tags : Option (List PyStr.Text)}
    {m : MemoryItem} (hm : m ∈ db.items) :
    m.id ∈ select_eligible_ids db project_id tags ↔ (eligible_where project_id tags).selects m = true := by
  rw [select_eligible_ids, List.mem_map]
  constructor
  · rintro ⟨m', hm', hid⟩
    obtain ⟨hmem', hselects⟩ := List.mem_filter.mp hm'
    -- the id is the key of the row
    have hrow := (db.mem_items_iff).mp hm
    have hrow' := (db.mem_items_iff).mp hmem'
    rw [hid, hrow] at hrow'
    rwa [Option.some.inj hrow']
  · intro hselects
    exact ⟨m, List.mem_filter.mpr ⟨hm, hselects⟩, rfl⟩

/-- The condition of a search that includes pins is that of `eligible_memory_ids`. -/
theorem selects_include_pins (project_id : Option String) (tags : Option (List PyStr.Text)) (m : MemoryItem) :
    (search_where .include_pins project_id tags).selects m = (eligible_where project_id tags).selects m := rfl

/-! ## The window -/

/-- Every id of a semantic window is a row of the store that passes the filters. -/
theorem window_passes {P : Platform R} {w : SearchWorld F} {E : Provider F S} {a : SearchArgs}
    {exclude_ids : List String} {limit : ℕ} {ranked : List (String × S)}
    (h : run_alone P w (semantic_search E a.query a.project_id a.tags exclude_ids limit) = .ok ranked) :
    ∀ x ∈ ranked, x.1 ∉ exclude_ids
      ∧ ∃ m, w.store.db.get_memory x.1 = some m ∧ post_filter a m = true := by
  obtain ⟨vec, snap, hq⟩ : ∃ vec snap, run_alone P w (query_vector a.query) = .ok (vec, snap) := by
    rw [run_alone, semantic_search, Prog.eval_bind] at h
    rw [run_alone]
    generalize (query_vector a.query).eval (SearchWorld.answer P) w = out at h ⊢
    obtain ⟨_ | ⟨vec, snap⟩, w'⟩ := out
    · cases h
    · exact ⟨vec, snap, rfl⟩
  rw [run_semantic_search hq] at h
  obtain rfl := Except.ok.inj h
  intro x hx
  obtain ⟨v, hv, rfl⟩ := List.mem_map.mp ((E.numpy.isTop _ _).subset hx)
  have hkept := (List.mem_filter.mp hv).2
  rw [Bool.and_eq_true, decide_eq_true_eq] at hkept
  obtain ⟨m, hm, hscope⟩ := (Option.any_eq_true _ _).mp hkept.2
  rw [Bool.and_eq_true] at hscope
  exact ⟨hkept.1, m, hm, post_filter_of_scope hscope.1 hscope.2⟩

omit [LinearOrder S] in
/-- With pins shown, the loop of `search_semantic` keeps a row that passes the filters. -/
theorem eval_semantic_hits_shown {P : Platform R} {w : SearchWorld F} {a : SearchArgs}
    (hincl : a.include_pinned = true) (ranked : List (String × S))
    (hr : ∀ x ∈ ranked, ∃ m, w.store.db.get_memory x.1 = some m ∧ post_filter a m = true) :
    ∃ hits, (semantic_hits a ranked : SearchProg F _).eval (SearchWorld.answer P) w = (.ok hits, w)
      ∧ hits.map (·.item.id) = ranked.map (·.1) := by
  induction ranked with
  | nil => exact ⟨[], rfl, rfl⟩
  | cons hd rest ih =>
      obtain ⟨mid, sim⟩ := hd
      obtain ⟨hits, heval, hids⟩ := ih fun x hx => hr x (List.mem_cons_of_mem _ hx)
      obtain ⟨m, hm, hpost⟩ := hr (mid, sim) List.mem_cons_self
      refine ⟨{ item := m, channel := .semantic, semantic_similarity := some sim } :: hits, ?_, ?_⟩
      · rw [semantic_hits, Prog.eval_bind, ask, Prog.eval_op]
        dsimp only [SearchWorld.answer]
        rw [Prog.eval_bind, heval, hm]
        dsimp only
        rw [hincl, hpost, Bool.not_true, Bool.and_false, Bool.or_false, if_neg (by decide)]
        rfl
      · rw [List.map_cons, List.map_cons, hids]
        congr 1
        exact Db.id_of_get_memory hm

/-- **Eligibility is one rule.** A row passes the filters of `search_hybrid` and `search_semantic`
exactly when its id is among `eligible_memory_ids`, and exactly when it satisfies the `WHERE` of a
`search_memory` that includes pins. On a store nobody writes to, neither search removes a row of
the semantic window. -/
theorem post_filters_agree_with_sql (P : Platform R) (w : SearchWorld F) (E : Provider F S) (a : SearchArgs)
    (hincl : a.include_pinned = true) (hproject : a.project_id ≠ some "") :
    (∀ m ∈ w.store.db.items,
      (post_filter a m = true ↔ m.id ∈ select_eligible_ids w.store.db a.project_id a.tags)
      ∧ (post_filter a m = true ↔ (search_where .include_pins a.project_id a.tags).selects m = true))
    ∧ ∀ (pinned_ids : List String) (limit : ℕ) (ranked : List (String × S)),
      run_alone P w (semantic_search E a.query a.project_id a.tags pinned_ids limit) = .ok ranked →
      (∀ x ∈ ranked, ∃ m, w.store.db.get_memory x.1 = some m ∧ admits a pinned_ids x.1 m = true)
      ∧ ∃ hits, (semantic_hits a ranked : SearchProg F _).eval (SearchWorld.answer P) w = (.ok hits, w)
        ∧ hits.map (·.item.id) = ranked.map (·.1) := by
  constructor
  · intro m hm
    rw [post_filter_eq hproject, mem_select_eligible_ids hm, selects_include_pins]
    exact ⟨Iff.rfl, Iff.rfl⟩
  · intro pinned_ids limit ranked hranked
    have hpass := window_passes hranked
    constructor
    · intro x hx
      obtain ⟨hfloat, m, hm, hpost⟩ := hpass x hx
      refine ⟨m, hm, ?_⟩
      rw [admits, hpost, hincl]
      simp [hfloat]
    · exact eval_semantic_hits_shown hincl ranked fun x hx => (hpass x hx).2

/-- A pin of no project, seen from inside one. -/
theorem post_filters_agree_with_sql_sample :
    (∀ m ∈ Sample.pinned_store.db.items,
      (post_filter { query := "nas", project_id := some "home" } m = true
        ↔ m.id ∈ select_eligible_ids Sample.pinned_store.db (some "home") none)
      ∧ (post_filter { query := "nas", project_id := some "home" } m = true
        ↔ (search_where .include_pins (some "home") none).selects m = true))
    ∧ ∀ (pinned_ids : List String) (limit : ℕ) (ranked : List (String × ℚ)),
      run_alone Sample.platform { store := Sample.pinned_store, port := Sample.port }
        (semantic_search Sample.provider "nas" (some "home") none pinned_ids limit) = .ok ranked →
      (∀ x ∈ ranked, ∃ m, Sample.pinned_store.db.get_memory x.1 = some m
        ∧ admits { query := "nas", project_id := some "home" } pinned_ids x.1 m = true)
      ∧ ∃ hits, (semantic_hits { query := "nas", project_id := some "home" } ranked : SearchProg ℚ _).eval
          (SearchWorld.answer Sample.platform) { store := Sample.pinned_store, port := Sample.port }
            = (.ok hits, { store := Sample.pinned_store, port := Sample.port })
        ∧ hits.map (·.item.id) = ranked.map (·.1) :=
  post_filters_agree_with_sql Sample.platform { store := Sample.pinned_store, port := Sample.port } Sample.provider
    { query := "nas", project_id := some "home" } rfl (by decide)

end OpenChronicle
