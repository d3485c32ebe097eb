/-
Search: `EmbeddingService.search_hybrid`, `_semantic_search` and
`search_semantic`, and the use case `search_memory.execute` over them.

A search is a program over `SearchOp`: each store call and each provider call is
one operation, and everything between two of them is a pure function below. So
the same text is read twice. Against a store nobody else touches it is
evaluated (`SearchWorld.answer`); among other clients each call may see any
store at all (`MayAnswer`).

Three things the source leans on have no source here and are parameters of
`Provider`: the similarity numpy computes, the order `argpartition` and
`argsort` leave ties in, and the order CPython iterates a set in. The last two
come with what is documented of them, as fields.

Metrics observations are left out: they are wrapped so that they can change no
result.
-/
import Mathlib.Algebra.Order.Field.Rat
import OpenChronicle.Lib.Program
import OpenChronicle.Lib.Ranking
import OpenChronicle.Store.Search

set_option autoImplicit false

namespace OpenChronicle

open Program Ranking

/-- `_RRF_K`. -/
def RRF_K : ℕ := 60

/-- `DEFAULT_PINNED_LIMIT`. -/
def DEFAULT_PINNED_LIMIT : ℤ := 10

/-- Which signal surfaced a hit. -/
inductive Channel where
  | pinned
  | keyword
  | semantic
  | hybrid
  deriving DecidableEq, Repr

/-- `models/scored_memory.py`; fused scores are exact rationals. -/
structure ScoredMemory (S : Type) where
  item : MemoryItem
  channel : Channel
  rrf_score : Option ℚ := none
  semantic_similarity : Option S := none
  keyword_rank : Option ℕ := none
  deriving DecidableEq

/-- The arguments every search takes, with the defaults of `execute`. -/
structure SearchArgs where
  query : String
  top_k : ℕ := 8
  project_id : Option String := none
  include_pinned : Bool := true
  tags : Option (List PyStr.Text) := none
  offset : ℕ := 0
  phrase : Bool := false
  pinned_limit : ℤ := DEFAULT_PINNED_LIMIT

/-! ## What the service is built on -/

/-- Numpy's top-k selection: ties in any order, the rest as documented. -/
structure TopK (S : Type) [LinearOrder S] where
  select : List (String × S) → ℕ → List (String × S)
  isTop : ∀ l k, IsTop Prod.snd k l (select l k)

/-- CPython's iteration order of `set(k) | set(s)`, as a function of how the two
were filled: some order of the elements. -/
structure SetOrder where
  iter : List String → List String → List String
  perm : ∀ k s, (iter k s).Perm (k ∪ s)

/-- The identity of an embedding port and the libraries its scores go through. -/
structure Provider (F S : Type) [LinearOrder S] where
  model_name : String
  provider_name : String
  settings_fingerprint : String
  similarity : List F → List F → S
  numpy : TopK S
  sets : SetOrder

/-! ## Operations -/

/-- The failure bookkeeping of `EmbeddingService` a search touches. -/
inductive SearchNote where
  /-- `_search_failure_count = 0` and `_record_success()`. -/
  | recovered
  /-- `_search_failure_count += 1` and `_record_failure("search")`. -/
  | failed
  deriving DecidableEq, Repr

inductive SearchOp (F : Type) where
  | search_pinned (query : String) (limit : ℤ) (project_id : Option String)
      (tags : Option (List PyStr.Text)) (phrase : Bool)
  | search_memory (query : String) (top_k : ℕ) (project_id : Option String)
      (include_pinned : Bool) (tags : Option (List PyStr.Text)) (phrase : Bool)
      (exclude_ids : List String)
  | list_embeddings (model provider : String) (dimensions : ℕ) (settings_fingerprint : String)
      (model_revision : Option String) (match_revision : Bool)
  | eligible_memory_ids (project_id : Option String) (tags : Option (List PyStr.Text))
  | get_memory (memory_id : String)
  | embed (text : String)
  | revision_snapshot
  | note (n : SearchNote)

@[reducible] def SearchOp.Resp {F : Type} : SearchOp F → Type
  | search_pinned .. => List MemoryItem
  | search_memory .. => List MemoryItem
  | list_embeddings .. => List (String × List F)
  | eligible_memory_ids .. => List String
  | get_memory _ => Option MemoryItem
  | embed _ => List F
  | revision_snapshot => RevisionSnapshot
  | note _ => Unit

abbrev searchSig (F : Type) : Sig := ⟨SearchOp F, SearchOp.Resp⟩

abbrev SearchProg (F : Type) := Prog (searchSig F) Exc

/-- Perform one search operation. -/
def ask {F : Type} (o : SearchOp F) : SearchProg F o.Resp := Prog.op (S := searchSig F) o

section Service

variable {F S : Type} [LinearOrder S] (E : Provider F S)

/-! ## `_semantic_search` -/

/-- The loop `for attempt in range(2)`: embed the query until the revision read
before and the one read after agree. `left` counts the attempts still allowed. -/
def stable_query (query : String) (opening : RevisionSnapshot) :
    ℕ → RevisionSnapshot → SearchProg F (List F × RevisionSnapshot)
  | 0, _ => .raise .RevisionChangedError
  | left + 1, snapshot => do
      let query_vec ← ask (.embed query)
      let after_embed : RevisionSnapshot ← ask .revision_snapshot
      if snapshot = after_embed then
        -- once this request has seen a known revision, the agnostic filter is out
        if opening.known && !after_embed.known then .raise .RevisionChangedError
        else pure (query_vec, snapshot)
      else if left = 0 then .raise .RevisionChangedError
      else stable_query query opening left after_embed

/-- Score the candidate vectors and keep the `limit` most similar. -/
def top_similar (query_vec : List F) (vectors : List (String × List F)) (limit : ℕ) :
    List (String × S) :=
  E.numpy.select (vectors.map fun v => (v.1, E.similarity v.2 query_vec)) limit

/-- The eligibility filter of `_semantic_search`, applied before the top-k window. -/
def eligible_vectors (project_id : Option String) (tags : Option (List PyStr.Text))
    (vectors : List (String × List F)) : SearchProg F (List (String × List F)) :=
  if project_id.isSome || tags.getD [] ≠ [] then do
    let eligible : List String ← ask (.eligible_memory_ids project_id tags)
    pure (vectors.filter fun v => v.1 ∈ eligible)
  else pure vectors

/-- The first half of `_semantic_search`: the query's vector, and the revision it
was embedded under. -/
def query_vector (query : String) : SearchProg F (List F × RevisionSnapshot) := do
  let opening_snapshot : RevisionSnapshot ← ask .revision_snapshot
  stable_query query opening_snapshot 2 opening_snapshot

/-- The second half: load the vectors of the space and rank them. -/
def rank_vectors (project_id : Option String) (tags : Option (List PyStr.Text))
    (exclude_ids : List String) (limit : ℕ) (query_vec : List F) (snapshot : RevisionSnapshot) :
    SearchProg F (List (String × S)) := do
  let all_embeddings : List (String × List F) ← ask (.list_embeddings E.model_name
    E.provider_name query_vec.length E.settings_fingerprint snapshot.value snapshot.known)
  if all_embeddings = [] then pure []
  else
    let vectors ← eligible_vectors project_id tags
      (all_embeddings.filter fun v => v.1 ∉ exclude_ids)
    if vectors = [] then pure [] else pure (top_similar E query_vec vectors limit)

def semantic_search (query : String) (project_id : Option String) (tags : Option (List PyStr.Text))
    (exclude_ids : List String) (limit : ℕ) : SearchProg F (List (String × S)) := do
  let q ← query_vector query
  rank_vectors E project_id tags exclude_ids limit q.1 q.2

/-! ## The pieces of `search_hybrid` -/

/-- `[ScoredMemory(item=i, channel="pinned") for i in pinned_items]`. -/
def wrap_pinned (items : List MemoryItem) : List (ScoredMemory S) :=
  items.map fun i => { item := i, channel := .pinned }

/-- `_wrap_keyword_ranked`. -/
def wrap_keyword_ranked (items : List MemoryItem) : List (ScoredMemory S) :=
  (items.zipIdx 1).map fun (i, rank) => { item := i, channel := .keyword, keyword_rank := some rank }

/-- `_page`: floated pins lead one stream that `top_k` bounds and `offset`
paginates. -/
def page (a : SearchArgs) (pinned_items : List MemoryItem) (ranked : List (ScoredMemory S)) :
    List (ScoredMemory S) :=
  slice (wrap_pinned pinned_items ++ ranked) a.offset a.top_k

/-- `{id: rank for rank, id in enumerate(ids, start=1)}.get(mid)`. -/
def rank_of (ids : List String) (mid : String) : Option ℕ :=
  if mid ∈ ids then some (ids.idxOf mid + 1) else none

/-- One channel's term of the fused score. -/
def rrf_term : Option ℕ → ℚ
  | none => 0
  | some r => 1 / ((RRF_K + r : ℕ) : ℚ)

/-- The tag and project post-filters of `search_hybrid` and `search_semantic`. -/
def post_filter (a : SearchArgs) (item : MemoryItem) : Bool :=
  ((a.tags.getD []).all fun t => t ∈ item.tags)
    && match a.project_id with
      | none => true
      | some p => p = "" || item.project_id = some p || (item.pinned && item.project_id = none)

/-- What the merge loop keeps of a candidate. -/
def admits (a : SearchArgs) (pinned_ids : List String) (mid : String) (item : MemoryItem) : Bool :=
  !(item.pinned && (mid ∈ pinned_ids || !a.include_pinned)) && post_filter a item

/-- The two rankings that are merged, and the items known for their ids. -/
structure Fusion (S : Type) where
  keyword_ids : List String
  semantic_ranked : List (String × S)
  item_map : List (String × MemoryItem)

namespace Fusion

variable (f : Fusion S)

def semantic_ids : List String := f.semantic_ranked.map (·.1)

/-- `1/(60+kr) + 1/(60+sr)`, a missing rank contributing nothing. -/
def score (mid : String) : ℚ :=
  rrf_term (rank_of f.keyword_ids mid) + rrf_term (rank_of f.semantic_ids mid)

/-- `set(keyword_rank) | set(semantic_rank)`, in the order it is iterated. -/
def all_ids (sets : SetOrder) : List String := sets.iter f.keyword_ids f.semantic_ids

/-- The ids the merge loop scores. -/
def candidates (sets : SetOrder) (a : SearchArgs) (pinned_ids : List String) : List String :=
  (f.all_ids sets).filter fun mid =>
    match f.item_map.lookup mid with
    | none => false
    | some item => admits a pinned_ids mid item

/-- `rrf_scores.sort(key=score, reverse=True)`: the fused order. -/
def fused (sets : SetOrder) (a : SearchArgs) (pinned_ids : List String) : List String :=
  sortDesc f.score (f.candidates sets a pinned_ids)

/-- The hit a fused id becomes. -/
def hit (mid : String) : Option (ScoredMemory S) :=
  (f.item_map.lookup mid).map fun item =>
    let kr := rank_of f.keyword_ids mid
    let sim := f.semantic_ranked.lookup mid
    { item
      channel := if kr.isSome && sim.isSome then .hybrid
        else if kr.isSome then .keyword else .semantic
      rrf_score := some (f.score mid)
      semantic_similarity := sim
      keyword_rank := kr }

end Fusion

/-- `for mid in semantic_rank: if mid not in item_map: get_memory(mid)`. -/
def fetch_items : List String → List (String × MemoryItem) →
    SearchProg F (List (String × MemoryItem))
  | [], item_map => pure item_map
  | mid :: rest, item_map =>
      if mid ∈ item_map.map (·.1) then fetch_items rest item_map
      else do
        let mem ← ask (.get_memory mid)
        match mem with
        | none => fetch_items rest item_map
        | some item => fetch_items rest (item_map ++ [(mid, item)])

/-- The pinned float: pins that match the query, capped. -/
def float_pins (a : SearchArgs) (phrase : Bool) : SearchProg F (List MemoryItem) :=
  if a.include_pinned && 0 < a.pinned_limit then
    ask (.search_pinned a.query a.pinned_limit a.project_id a.tags phrase)
  else pure []

/-- The two `except` clauses around the semantic channel: what each failure does
to the counters. Both then return the keyword page. -/
def note_degraded (e : Exc) : SearchProg F Unit :=
  if e = .RevisionChangedError then pure ()
  -- an over-length query is caller content, not provider health
  else if is_content_too_long e then pure ()
  else ask (.note .failed)

/-- The RRF merge, up to the cut at `effective_top_k`. -/
def rrf_merge (a : SearchArgs) (pinned_ids : List String) (keyword_results : List MemoryItem)
    (semantic_ranked : List (String × S)) : SearchProg F (List (ScoredMemory S)) := do
  let item_map ← fetch_items (semantic_ranked.map (·.1)) (keyword_results.map fun i => (i.id, i))
  let f : Fusion S := ⟨keyword_results.map (·.id), semantic_ranked, item_map⟩
  pure (((f.fused E.sets a pinned_ids).take (a.top_k + a.offset)).filterMap f.hit)

def search_hybrid (a : SearchArgs) : SearchProg F (List (ScoredMemory S)) := do
  let effective_top_k := a.top_k + a.offset
  let pinned_items ← float_pins a a.phrase
  let pinned_ids := pinned_items.map (·.id)
  let keyword_results ← ask (.search_memory a.query (effective_top_k * 2) a.project_id
    a.include_pinned a.tags a.phrase pinned_ids)
  match ← (semantic_search E a.query a.project_id a.tags pinned_ids (effective_top_k * 2)).attempt
    with
  | .error e => do
      note_degraded e
      pure (page a pinned_items (wrap_keyword_ranked keyword_results))
  | .ok semantic_ranked => do
      ask (.note .recovered)
      let merged ← rrf_merge E a pinned_ids keyword_results semantic_ranked
      pure (page a pinned_items merged)

/-! ## `search_semantic` -/

/-- The loop over the ranked ids, each row read again. -/
def semantic_hits (a : SearchArgs) : List (String × S) → SearchProg F (List (ScoredMemory S))
  | [] => pure []
  | (mid, sim) :: rest => do
      let item ← ask (.get_memory mid)
      let hits ← semantic_hits a rest
      match item with
      | none => pure hits
      | some item =>
          if (item.pinned && !a.include_pinned) || !post_filter a item then pure hits
          else pure ({ item, channel := .semantic, semantic_similarity := some sim } :: hits)

/-- The float matches tokens here: the caller's `phrase` is not passed on. -/
def search_semantic (a : SearchArgs) : SearchProg F (List (ScoredMemory S)) := do
  let pinned_items ← float_pins a false
  let pinned_ids := pinned_items.map (·.id)
  let ranked ← semantic_search E a.query a.project_id a.tags pinned_ids ((a.top_k + a.offset) * 2)
  let results ← semantic_hits a ranked
  pure (page a pinned_items results)

end Service

/-! ## The use case -/

section Execute

variable {F S : Type} [LinearOrder S]

/-- The keyword path of `execute`: also hybrid on a keyword-only deployment. -/
def keyword_search (a : SearchArgs) : SearchProg F (List (ScoredMemory S)) := do
  let floated ← float_pins a a.phrase
  let floated_ids := floated.map (·.id)
  let items ← ask (.search_memory a.query (a.offset + a.top_k) a.project_id a.include_pinned a.tags
    a.phrase floated_ids)
  pure (slice (wrap_pinned floated ++ wrap_keyword_ranked items) a.offset a.top_k)

/-- `search_memory.execute`. -/
def execute (embedding_service : Option (Provider F S)) (mode : String) (a : SearchArgs) :
    SearchProg F (List (ScoredMemory S)) :=
  let a := { a with pinned_limit := max 0 a.pinned_limit }
  if mode ∉ ["hybrid", "keyword", "semantic"] then .raise (.ValidationError (.unknown_mode mode))
  else if mode = "semantic" then
    match embedding_service with
    | none => .raise (.ValidationError .semantic_without_provider)
    | some E => search_semantic E a
  else if mode = "hybrid" then
    match embedding_service with
    | some E => search_hybrid E a
    | none => keyword_search a
  else keyword_search a

end Execute

end OpenChronicle
