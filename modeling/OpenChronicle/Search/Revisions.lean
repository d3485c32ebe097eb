/-
The revision a query is scored against.

`_semantic_search` reads the revision before and after it embeds the query and loads vectors only when
both reads agree. What follows reads this off the trace of the call, that is for every sequence of
answers: there is no assumption on the port, whose snapshots may change between any two reads, nor on
the store.

A trace is cut where the functions of the source meet: the attempts (`trace_query_vector`), the load
with the scope (`trace_eligible_vectors`), the scoring (`trace_rank_vectors`). For each part it is said
which events it has, and the theorem puts the three together. The number of attempts is two, so the
snapshots of a call are at most three, and `Unsettled` can name them.

That both snapshots are unknown is agreement too: then the vectors are loaded without a revision, as the
source does while no probe has been made.
-/
import OpenChronicle.Search.Run

set_option autoImplicit false

namespace OpenChronicle

open Program

variable {F S : Type} [LinearOrder S]

/-- A call of a search and its answer. -/
abbrev SearchEvent (F : Type) : Type := Prog.Answered (searchSig F) Exc

/-! ## Reading a trace -/

/-- The snapshots the port returned. -/
def revisions (t : List (SearchEvent F)) : List RevisionSnapshot :=
  t.filterMap fun
    | ⟨.revision_snapshot, .ok s⟩ => some s
    | _ => none

/-- How often the provider was asked for a vector. -/
def embeds (t : List (SearchEvent F)) : ℕ :=
  t.countP fun
    | ⟨.embed _, _⟩ => true
    | _ => false

/-- No vector was loaded. -/
def NoLoad (t : List (SearchEvent F)) : Prop :=
  ∀ model provider dims fp rev known r, ⟨.list_embeddings model provider dims fp rev known, r⟩ ∉ t

/-- The vectors are loaded once, right after an embed of the query between two snapshots that
agree, and the row filter is that snapshot's. -/
structure Loads (E : Provider F S) (query : String) (t : List (SearchEvent F)) (snapshot : RevisionSnapshot)
    (vec : List F) (stored : Except Exc (List (String × List F))) : Prop where
  bracketed : ∃ before after, NoLoad before ∧ NoLoad after ∧
    t = before ++ [⟨.revision_snapshot, .ok snapshot⟩, ⟨.embed query, .ok vec⟩,
      ⟨.revision_snapshot, .ok snapshot⟩,
      ⟨.list_embeddings E.model_name E.provider_name vec.length E.settings_fingerprint
        snapshot.value snapshot.known, stored⟩] ++ after
  agnostic : snapshot.known = false → ∀ s ∈ revisions t, s.known = false

/-- Snapshots no vector may be scored under: the second attempt was interrupted too, or a revision
was known when the call began and is not any more. -/
def Unsettled (snapshots : List RevisionSnapshot) : Prop :=
  ∃ s₀ s₁ s₂, snapshots = [s₀, s₁, s₂] ∧ s₀ ≠ s₁ ∧ (s₁ ≠ s₂ ∨ (s₀.known = true ∧ s₁.known = false))

/-- A call failed, and its error is the result. -/
def Failed {α : Type} (t : List (SearchEvent F)) (res : Except Exc α) : Prop :=
  ∃ before o e, t = before ++ [⟨o, .error e⟩] ∧ res = .error e

section Reading

variable {t t' : List (SearchEvent F)}

/-- Piece by piece of a trace. -/
theorem revisions_append : revisions (t ++ t') = revisions t ++ revisions t' := List.filterMap_append

/-- The same for the calls of the provider, -/
theorem embeds_append (t t' : List (SearchEvent F)) : embeds (t ++ t') = embeds t + embeds t' := List.countP_append

/-- and for the load. -/
theorem noLoad_append : NoLoad (t ++ t') ↔ NoLoad t ∧ NoLoad t' := by
  simp only [NoLoad, List.mem_append, not_or]
  exact ⟨fun h => ⟨fun m p d f r k x => (h m p d f r k x).1, fun m p d f r k x => (h m p d f r k x).2⟩,
    fun h m p d f r k x => ⟨h.1 m p d f r k x, h.2 m p d f r k x⟩⟩

end Reading

/-! ## The two attempts -/

/-- One turn of the loop. -/
theorem trace_stable_query {query : String} {opening snapshot : RevisionSnapshot} {left : ℕ}
    {t : List (SearchEvent F)} {res : Except Exc (List F × RevisionSnapshot)}
    (h : (stable_query query opening (left + 1) snapshot).Trace t res) :
    (embeds t ≤ 1 ∧ revisions t = [] ∧ NoLoad t ∧ Failed t res)
      ∨ ∃ vec after_embed rest,
        t = ⟨.embed query, .ok vec⟩ :: ⟨.revision_snapshot, .ok after_embed⟩ :: rest
        ∧ (snapshot = after_embed → rest = [] ∧
          res = if opening.known && !after_embed.known then .error .RevisionChangedError
            else .ok (vec, snapshot))
        ∧ (snapshot ≠ after_embed → left = 0 → rest = [] ∧ res = .error .RevisionChangedError)
        ∧ (snapshot ≠ after_embed → left ≠ 0 →
          (stable_query query opening left after_embed).Trace rest res) := by
  rw [stable_query, ask] at h
  rcases Prog.trace_op_bind.mp h with ⟨vec, t', rfl, h'⟩ | ⟨e, rfl, rfl⟩
  · rw [ask] at h'
    rcases Prog.trace_op_bind.mp h' with ⟨after_embed, rest, rfl, hrest⟩ | ⟨e, rfl, rfl⟩
    · -- both calls were answered; the loop compares and returns, raises or goes on
      refine .inr ⟨vec, after_embed, rest, rfl, ?_, ?_, ?_⟩
      · intro heq
        rw [if_pos heq] at hrest
        by_cases hlost : (opening.known && !after_embed.known) = true
        · rw [if_pos hlost] at hrest
          rw [if_pos hlost]
          exact hrest
        · rw [if_neg hlost] at hrest
          rw [if_neg hlost]
          exact hrest
      · intro hne hleft
        rw [if_neg hne, if_pos hleft] at hrest
        exact hrest
      · intro hne hleft
        rw [if_neg hne, if_neg hleft] at hrest
        exact hrest
    · -- the second read failed
      refine .inl ⟨by simp [embeds], by simp [revisions], by simp [NoLoad], [⟨.embed query, .ok vec⟩], _, e, rfl, rfl⟩
  · -- the embed failed
    exact .inl ⟨by simp [embeds], by simp [revisions], by simp [NoLoad], [], _, e, rfl, rfl⟩

/-- The query's vector belongs to a revision, or there is none and the call ends. -/
theorem trace_query_vector {query : String} {t : List (SearchEvent F)}
    {res : Except Exc (List F × RevisionSnapshot)} (h : (query_vector query).Trace t res) :
    NoLoad t ∧ embeds t ≤ 2 ∧
      ((∃ vec snapshot before, res = .ok (vec, snapshot)
          ∧ t = before ++ [⟨.revision_snapshot, .ok snapshot⟩, ⟨.embed query, .ok vec⟩,
            ⟨.revision_snapshot, .ok snapshot⟩]
          ∧ (snapshot.known = false → ∀ s ∈ revisions t, s.known = false))
        ∨ (res = .error .RevisionChangedError ∧ Unsettled (revisions t))
        ∨ Failed t res) := by
  rw [query_vector, ask] at h
  rcases Prog.trace_op_bind.mp h with ⟨opening, t₀, rfl, h₀⟩ | ⟨e, rfl, rfl⟩
  · rcases trace_stable_query h₀ with ⟨hembeds, -, hload, before, o, e, rfl, rfl⟩ | ⟨vec, s₁, t₁, rfl, hsame, -, hagain⟩
    · refine ⟨by simpa [NoLoad] using hload, ?_, .inr (.inr ⟨⟨.revision_snapshot, .ok opening⟩ :: before, o, e, rfl, rfl⟩)⟩
      rw [← List.singleton_append, embeds_append]
      exact Nat.add_le_add (by simp [embeds] : _ ≤ 1) hembeds
    · by_cases heq : opening = s₁
      · -- the first attempt is stable: the opening snapshot is the one that is used
        subst heq
        obtain ⟨rfl, rfl⟩ := hsame rfl
        refine ⟨by simp [NoLoad], by simp [embeds], .inl ⟨vec, opening, [], ?_, rfl, ?_⟩⟩
        · rw [if_neg (by simp)]
        · intro hknown s hs
          simp only [revisions, List.filterMap_cons, List.filterMap_nil, List.mem_cons, List.not_mem_nil,
            or_false, or_self] at hs
          rw [hs, hknown]
      · rcases trace_stable_query (hagain heq (by decide)) with
          ⟨hembeds, -, hload, before, o, e, rfl, rfl⟩ | ⟨vec₂, s₂, t₂, rfl, hsame₂, hlast, -⟩
        · refine ⟨by simpa [NoLoad] using hload, ?_, .inr (.inr ⟨⟨.revision_snapshot, .ok opening⟩ :: ⟨.embed query, .ok vec⟩
            :: ⟨.revision_snapshot, .ok s₁⟩ :: before, o, e, rfl, rfl⟩)⟩
          have hfirst : embeds ([⟨.revision_snapshot, .ok opening⟩, ⟨.embed query, .ok vec⟩,
              ⟨.revision_snapshot, .ok s₁⟩] : List (SearchEvent F)) = 1 := rfl
          have hsplit := embeds_append ([⟨.revision_snapshot, .ok opening⟩, ⟨.embed query, .ok vec⟩,
              ⟨.revision_snapshot, .ok s₁⟩] : List (SearchEvent F)) (before ++ [⟨o, .error e⟩])
          rw [hfirst] at hsplit
          exact hsplit.trans_le (by omega)
        · by_cases heq₂ : s₁ = s₂
          · subst heq₂
            obtain ⟨rfl, rfl⟩ := hsame₂ rfl
            by_cases hlost : (opening.known && !s₁.known) = true
            · rw [if_pos hlost]
              rw [Bool.and_eq_true, Bool.not_eq_true'] at hlost
              exact ⟨by simp [NoLoad], by simp [embeds], .inr (.inl ⟨rfl, opening, s₁, s₁, rfl, heq, .inr hlost⟩)⟩
            · rw [if_neg hlost]
              refine ⟨by simp [NoLoad], by simp [embeds], .inl ⟨vec₂, s₁,
                [⟨.revision_snapshot, .ok opening⟩, ⟨.embed query, .ok vec⟩], rfl, rfl, ?_⟩⟩
              -- no snapshot of the call was known, or the last would have to be
              intro hknown s hs
              simp only [revisions, List.filterMap_cons, List.filterMap_nil, List.mem_cons, List.not_mem_nil,
                or_false] at hs
              rcases hs with rfl | rfl | rfl
              · simpa [hknown] using hlost
              · exact hknown
              · exact hknown
          · obtain ⟨rfl, rfl⟩ := hlast heq₂ rfl
            exact ⟨by simp [NoLoad], by simp [embeds], .inr (.inl ⟨rfl, opening, s₁, s₂, rfl, heq, .inl heq₂⟩)⟩
  · exact ⟨by simp [NoLoad], by simp [embeds], .inr (.inr ⟨[], _, e, rfl, rfl⟩)⟩

/-! ## The load -/

omit [LinearOrder S] in
/-- Which memories are in scope is asked of the store, once or not at all. -/
theorem trace_eligible_vectors {project_id : Option String} {tags : Option (List PyStr.Text)}
    {vectors : List (String × List F)} {t : List (SearchEvent F)}
    {res : Except Exc (List (String × List F))}
    (h : (eligible_vectors project_id tags vectors).Trace t res) :
    NoLoad t ∧ embeds t = 0 ∧ revisions t = [] ∧ ∀ kept, res = .ok kept → ∀ v ∈ kept, v ∈ vectors := by
  rw [eligible_vectors] at h
  by_cases hscoped : (project_id.isSome || tags.getD [] ≠ []) = true
  · rw [if_pos hscoped, ask] at h
    rcases Prog.trace_op_bind.mp h with ⟨eligible, rest, rfl, rfl, rfl⟩ | ⟨e, rfl, rfl⟩
    · refine ⟨by simp [NoLoad], rfl, rfl, ?_⟩
      rintro _ ⟨⟩ v hv
      exact (List.mem_filter.mp hv).1
    · exact ⟨by simp [NoLoad], rfl, rfl, by simp⟩
  · rw [if_neg hscoped] at h
    obtain ⟨rfl, rfl⟩ := h
    refine ⟨by simp [NoLoad], rfl, rfl, ?_⟩
    rintro _ ⟨⟩ v hv
    exact hv

variable (E : Provider F S)

/-- After the load nothing is embedded, no revision is read and nothing is loaded again; the hits
are loaded vectors with their similarity to the query's. -/
theorem trace_rank_vectors {project_id : Option String} {tags : Option (List PyStr.Text)}
    {exclude_ids : List String} {limit : ℕ} {vec : List F} {snapshot : RevisionSnapshot}
    {t : List (SearchEvent F)} {res : Except Exc (List (String × S))}
    (h : (rank_vectors E project_id tags exclude_ids limit vec snapshot).Trace t res) :
    ∃ stored after, t = ⟨.list_embeddings E.model_name E.provider_name vec.length E.settings_fingerprint
          snapshot.value snapshot.known, stored⟩ :: after
      ∧ NoLoad after ∧ embeds t = 0 ∧ revisions t = []
      ∧ ∀ hits, res = .ok hits → ∃ all, stored = .ok all ∧ ∀ x ∈ hits, ∃ v ∈ all, x = (v.1, E.similarity v.2 vec) := by
  rw [rank_vectors, ask] at h
  rcases Prog.trace_op_bind.mp h with ⟨all, t₁, rfl, h₁⟩ | ⟨e, rfl, rfl⟩
  · refine ⟨.ok all, t₁, rfl, ?_⟩
    -- without vectors, or without eligible ones, there are no hits
    by_cases hempty : all = []
    · rw [if_pos hempty] at h₁
      obtain ⟨rfl, rfl⟩ := h₁
      refine ⟨by simp [NoLoad], rfl, rfl, ?_⟩
      rintro _ ⟨⟩
      exact ⟨all, rfl, by simp⟩
    rw [if_neg hempty] at h₁
    rcases Prog.trace_bind.mp h₁ with ⟨vectors, t₂, t₃, rfl, hkept, hscored⟩ | ⟨e, hkept, rfl⟩
    · obtain ⟨hload, hembeds, hrevisions, hsub⟩ := trace_eligible_vectors hkept
      by_cases hnone : vectors = []
      · rw [if_pos hnone] at hscored
        obtain ⟨rfl, rfl⟩ := hscored
        rw [List.append_nil]
        refine ⟨hload, by simpa [embeds] using hembeds, by simpa [revisions] using hrevisions, ?_⟩
        rintro _ ⟨⟩
        exact ⟨all, rfl, by simp⟩
      · rw [if_neg hnone] at hscored
        obtain ⟨rfl, rfl⟩ := hscored
        rw [List.append_nil]
        refine ⟨hload, by simpa [embeds] using hembeds, by simpa [revisions] using hrevisions, ?_⟩
        rintro _ ⟨⟩
        refine ⟨all, rfl, ?_⟩
        intro x hx
        -- what numpy selects is among what it was given
        obtain ⟨v, hv, rfl⟩ := List.mem_map.mp ((E.numpy.isTop _ _).subset hx)
        exact ⟨v, (List.mem_filter.mp (hsub vectors rfl v hv)).1, rfl⟩
    · obtain ⟨hload, hembeds, hrevisions, -⟩ := trace_eligible_vectors hkept
      exact ⟨hload, by simpa [embeds] using hembeds, by simpa [revisions] using hrevisions, by simp⟩
  · exact ⟨_, [], rfl, by simp [NoLoad], rfl, rfl, by simp⟩

/-- **A query is scored only against a stable revision.** Whatever the port, the provider and the
store answer, the query is embedded at most twice. Either the vectors are loaded, under the revision
of the two equal snapshots around the embed whose vector every hit is scored against, and without a
revision only when no snapshot of the call was known; or nothing is loaded, and the call raises
`RevisionChangedError` because its snapshots did not settle, or the error of a call that failed. -/
theorem semantic_search_scores_a_stable_revision (query : String) (project_id : Option String)
    (tags : Option (List PyStr.Text)) (exclude_ids : List String) (limit : ℕ) (t : List (SearchEvent F))
    (res : Except Exc (List (String × S)))
    (h : (semantic_search E query project_id tags exclude_ids limit).Trace t res) :
    embeds t ≤ 2 ∧
      ((∃ snapshot vec stored, Loads E query t snapshot vec stored
          ∧ ∀ hits, res = .ok hits → ∃ all, stored = .ok all
            ∧ ∀ x ∈ hits, ∃ v ∈ all, x = (v.1, E.similarity v.2 vec))
        ∨ (NoLoad t ∧ ((res = .error .RevisionChangedError ∧ Unsettled (revisions t)) ∨ Failed t res))) := by
  rw [semantic_search] at h
  rcases Prog.trace_bind.mp h with ⟨⟨vec, snapshot⟩, t₁, t₂, rfl, hquery, hrank⟩ | ⟨e, hquery, rfl⟩
  · obtain ⟨hload, hembeds, hsettled⟩ := trace_query_vector hquery
    obtain ⟨stored, after, rfl, hafter, hembeds', hrevisions, hscored⟩ := trace_rank_vectors E hrank
    rcases hsettled with ⟨vec', snapshot', before, hres, rfl, hagnostic⟩ | ⟨hres, -⟩ | ⟨_, _, _, -, hres⟩
    · obtain ⟨rfl, rfl⟩ := Prod.mk.inj (Except.ok.inj hres)
      constructor
      · rw [embeds_append, hembeds']
        exact hembeds
      · refine .inl ⟨snapshot, vec, stored, ⟨⟨before, after, (noLoad_append.mp hload).1, hafter, by simp⟩, ?_⟩, hscored⟩
        intro hknown s hs
        rw [revisions_append, hrevisions, List.append_nil] at hs
        exact hagnostic hknown s hs
    · cases hres
    · cases hres
  · obtain ⟨hload, hembeds, hsettled⟩ := trace_query_vector hquery
    refine ⟨hembeds, .inr ⟨hload, ?_⟩⟩
    rcases hsettled with ⟨vec, snapshot, before, hres, -⟩ | ⟨hres, hsnapshots⟩ | ⟨before, o, e', ht, hres⟩
    · cases hres
    · exact .inl ⟨congrArg Except.error (Except.error.inj hres), hsnapshots⟩
    · exact .inr ⟨before, o, e', ht, congrArg Except.error (Except.error.inj hres)⟩

namespace Sample

/-- The model is updated while the query is embedded for the first time. -/
def updated : List (SearchEvent ℚ) :=
  [⟨.revision_snapshot, .ok ⟨true, some "r1"⟩⟩, ⟨.embed "nas", .ok [1, 0]⟩,
    ⟨.revision_snapshot, .ok ⟨true, some "r2"⟩⟩, ⟨.embed "nas", .ok [4 / 5, 3 / 5]⟩,
    ⟨.revision_snapshot, .ok ⟨true, some "r2"⟩⟩,
    ⟨.list_embeddings "nomic-embed-text" "ollama" 2 "" (some "r2") true, .ok [("restore", [1, 0])]⟩]

/-- The second vector is the one that is scored. -/
theorem trace_updated : (semantic_search provider "nas" none none [] 2).Trace updated (.ok [("restore", 4 / 5)]) := by
  have hscored : top_similar provider [4 / 5, 3 / 5] [("restore", [1, 0])] 2 = [("restore", 4 / 5)] := by
    decide +kernel
  refine ⟨_, _, rfl, _, _, rfl, _, _, rfl, _, _, rfl, _, _, rfl, _, _, rfl, rfl, ?_⟩
  exact congrArg Except.ok hscored.symm

end Sample

theorem semantic_search_scores_a_stable_revision_sample :
    embeds Sample.updated ≤ 2 ∧
      ((∃ snapshot vec stored, Loads Sample.provider "nas" Sample.updated snapshot vec stored
          ∧ ∀ hits, (Except.ok [("restore", 4 / 5)] : Except Exc (List (String × ℚ))) = .ok hits →
            ∃ all, stored = .ok all ∧ ∀ x ∈ hits, ∃ v ∈ all, x = (v.1, Sample.provider.similarity v.2 vec))
        ∨ (NoLoad Sample.updated
          ∧ (((.ok [("restore", 4 / 5)] : Except Exc (List (String × ℚ))) = .error .RevisionChangedError
              ∧ Unsettled (revisions Sample.updated))
            ∨ Failed Sample.updated (.ok [("restore", 4 / 5)] : Except Exc (List (String × ℚ)))))) :=
  semantic_search_scores_a_stable_revision Sample.provider "nas" none none [] 2 Sample.updated _ Sample.trace_updated

end OpenChronicle
