/-
The chunks of a backfill, and the loop over its candidates.

`_backfill` sends its candidates to `embed_batch` in chunks, and a chunk item by item where that raises
or answers with the wrong number of vectors. Against a provider whose batch answers are those of its
single calls this is the loop that calls `embed` for each candidate in order: the same program, whatever
the store answers and other clients do meanwhile. Run alone it does to the rows and to the counters what
`one_by_one` says.

The first half is an equation between programs. That is stronger than a statement about results: the
store calls are the same, in the same order, so whatever happens between two of them happens to both.
The calls of the provider are answered in place (`port`), since a deterministic provider answers a text
always in the same way, and what it answers to the batch is then no call that anything can come between.

The second half runs the loop alone and is an induction over the candidates, rows and counters together.
-/
import OpenChronicle.Embedding.Backfill
import OpenChronicle.Embedding.World

set_option autoImplicit false

namespace OpenChronicle

open Program

variable {F : Type}

/-! ## Providers -/

/-- A deterministic provider: what the two calls of the port come to. -/
structure EmbeddingProvider (F : Type) where
  embed : String → Except Exc (List F)
  embed_batch : List String → Except Exc (List (List F))

/-- A call that returns this or raises it. -/
def returns {α : Type} : Except Exc α → EmbProg F α
  | .ok a => pure a
  | .error e => .raise e

namespace EmbeddingProvider

/-- The port in front of the provider. -/
def port (P : EmbeddingProvider F) : EmbeddingPort F where
  embed text := returns (P.embed text)
  embed_batch texts := returns (P.embed_batch texts)

/-- A batch raises whatever it raises, or has the wrong length, or every text embeds by
itself and the batch answers just that. -/
def Agrees (P : EmbeddingProvider F) : Prop :=
  ∀ texts, (∃ e, P.embed_batch texts = .error e)
    ∨ (∃ vectors, P.embed_batch texts = .ok vectors ∧ vectors.length ≠ texts.length)
    ∨ ∃ vectors, P.embed_batch texts = .ok vectors
      ∧ List.Forall₂ (fun text v => P.embed text = .ok v) texts vectors

end EmbeddingProvider

/-! ## One by one -/

section OneByOne

variable (D : Deployment F) (P : EmbeddingProvider F) (revision : Option String) (now : Instant)

/-- One candidate: `embed` and `save_embedding`, or a tombstone if the text is too long. -/
def settle_one (db : Db F) (health : Health) (item : MemoryItem) : BackfillResult × Db F × Health :=
  match P.embed item.content with
  | .ok v =>
      let saved := (publication D item.id item.content v revision .ok).save D db
      ({ generated := if saved.1 then 1 else 0 }, saved.2, health.record_success)
  | .error e =>
      if is_content_too_long e then
        let parked := (publication D item.id item.content [] revision .content_too_long).save D db
        ({ tombstoned := if parked.1 then 1 else 0 }, parked.2, health)
      else ({ failed := 1 }, db, health.record_failure now "backfill")

/-- The loop. -/
def one_by_one (db : Db F) (health : Health) : List MemoryItem → BackfillResult × Db F × Health
  | [] => ({}, db, health)
  | item :: rest =>
      let one := settle_one D P revision now db health item
      let others := one_by_one one.2.1 one.2.2 rest
      (one.1.add others.1, others.2)

end OneByOne

/-! ## The chunked program -/

section Program

variable {D : Deployment F} {P : EmbeddingProvider F} {revision : Option String}

/-- Every item sent by itself. -/
def alone_each (items : List MemoryItem) : List (MemoryItem × Option (List F)) :=
  items.map fun item => (item, none)

/-- A vector at hand or the same vector from its own call. -/
theorem embed_item_at_hand {item : MemoryItem} {v : List F} (h : P.embed item.content = .ok v) :
    embed_item D revision item (some v) P.port = embed_item D revision item none P.port := by
  have hvector : item_vector item none P.port = item_vector item (some v) P.port := by
    show returns (P.embed item.content) = pure v
    rw [h, returns]
  rw [embed_item, embed_item, embed_item_body, embed_item_body, hvector]

/-- The same for a list of items and the vectors of their batch. -/
theorem embed_items_at_hand {items : List MemoryItem} {vectors : List (List F)}
    (h : List.Forall₂ (fun text v => P.embed text = .ok v) (items.map (·.content)) vectors) :
    embed_items D revision (items.zip (vectors.map some)) P.port
      = embed_items D revision (alone_each items) P.port := by
  induction items generalizing vectors with
  | nil => rfl
  | cons item rest ih =>
      rw [List.map_cons, List.forall₂_cons_left_iff] at h
      obtain ⟨v, others, hv, hrest, rfl⟩ := h
      show embed_items D revision ((item, some v) :: rest.zip (others.map some)) P.port
        = embed_items D revision ((item, none) :: alone_each rest) P.port
      rw [embed_items, embed_items, embed_item_at_hand hv, ih hrest]

/-- **A chunk is its items sent alone**, whichever way its batch call ends. -/
theorem embed_chunk_eq_alone (hP : P.Agrees) (chunk : List MemoryItem) :
    embed_chunk D revision chunk P.port = embed_items D revision (alone_each chunk) P.port := by
  rw [embed_chunk_eq, chunk_vectors]
  rcases hP (chunk.map (·.content)) with ⟨e, he⟩ | ⟨vectors, hv, hlen⟩ | ⟨vectors, hv, hall⟩
  · -- raised: the code does not look at which exception it was
    have hbatch : P.port.embed_batch (chunk.map (·.content)) = .raise e := by
      show returns _ = _
      rw [he, returns]
    rw [hbatch]
    rfl
  · have hbatch : P.port.embed_batch (chunk.map (·.content)) = pure vectors := by
      show returns _ = _
      rw [hv, returns]
    rw [List.length_map] at hlen
    rw [hbatch]
    show embed_items D revision
      (work_of chunk (if vectors.length = chunk.length then some vectors else none)) P.port = _
    rw [if_neg hlen]
    rfl
  · have hbatch : P.port.embed_batch (chunk.map (·.content)) = pure vectors := by
      show returns _ = _
      rw [hv, returns]
    have hlen : vectors.length = chunk.length := by
      rw [← hall.length_eq, List.length_map]
    rw [hbatch]
    show embed_items D revision
      (work_of chunk (if vectors.length = chunk.length then some vectors else none)) P.port = _
    rw [if_pos hlen]
    exact embed_items_at_hand hall

/-- An item settled by itself counts as nothing skipped. -/
theorem skipped_of_item {item : MemoryItem} {vec : Option (List F)} {port : EmbeddingPort F}
    {one : BackfillResult}
    (h : (embed_item D revision item vec port).Yields (fun _ _ => True) (.ok one)) :
    one.skipped = false := by
  have hfailed : ∀ {r : BackfillResult}, (item_failed : EmbProg F _).Yields (fun _ _ => True) (.ok r) →
      r.skipped = false := by
    intro r hr
    rw [item_failed, Prog.yields_bind_ok] at hr
    obtain ⟨-, -, hr⟩ := hr
    rw [Prog.yields_pure_ok.mp hr]
  rw [embed_item, Prog.yields_bind_ok] at h
  obtain ⟨body, -, h⟩ := h
  cases body with
  | ok published => rw [Prog.yields_pure_ok.mp h]
  | error e =>
      dsimp only at h
      split at h
      · rw [Prog.yields_bind_ok] at h
        obtain ⟨parked, -, h⟩ := h
        cases parked with
        | ok published => rw [Prog.yields_pure_ok.mp h]
        | error e => exact hfailed h
      · exact hfailed h

/-- Nor does the loop count any. -/
theorem skipped_of_items {work : List (MemoryItem × Option (List F))} {port : EmbeddingPort F}
    {r : BackfillResult}
    (h : (embed_items D revision work port).Yields (fun _ _ => True) (.ok r)) : r.skipped = false := by
  cases work with
  | nil => rw [Prog.yields_pure_ok.mp h]
  | cons x rest =>
      obtain ⟨item, vec⟩ := x
      rw [embed_items, Prog.yields_bind_ok] at h
      obtain ⟨one, hone, h⟩ := h
      rw [Prog.yields_bind_ok] at h
      obtain ⟨others, -, h⟩ := h
      have hskipped : one.skipped = false := skipped_of_item hone
      rw [Prog.yields_pure_ok.mp h]
      exact hskipped

/-- One loop and then another is the loop over both. -/
theorem embed_items_append (work work' : List (MemoryItem × Option (List F))) (port : EmbeddingPort F) :
    (embed_items D revision work port >>= fun one =>
        embed_items D revision work' port >>= fun others => pure (one.add others))
      = embed_items D revision (work ++ work') port := by
  induction work with
  | nil =>
      have hzero : (embed_items D revision work' port >>= fun others =>
            pure (BackfillResult.add {} others))
          = (embed_items D revision work' port >>= pure) := by
        apply Prog.bind_congr_yields
        intro r hr
        have hs := skipped_of_items hr
        rcases r with ⟨g, f, t, skipped⟩
        obtain rfl : skipped = false := hs
        simp [BackfillResult.add]
      exact hzero.trans (Prog.bind_ret _)
  | cons x rest ih =>
      obtain ⟨item, vec⟩ := x
      rw [List.cons_append, embed_items, embed_items, ← ih]
      simp only [Prog.bind_assoc]
      congr 1
      funext one
      congr 1
      funext others
      simp only [Prog.pure_eq, Prog.ret_bind]
      congr 1
      funext more
      simp only [BackfillResult.add, Nat.add_assoc]

/-- **The chunks are the loop.** -/
theorem embed_chunks_eq_alone (hP : P.Agrees) (cs : List (List MemoryItem)) :
    embed_chunks D revision cs P.port = embed_items D revision (alone_each cs.flatten) P.port := by
  induction cs with
  | nil => rfl
  | cons chunk rest ih =>
      rw [embed_chunks, embed_chunk_eq_alone hP, ih, embed_items_append, List.flatten_cons, alone_each,
        alone_each, alone_each, List.map_append]

end Program

/-! ## Alone -/

section Alone

variable {D : Deployment F} {P : EmbeddingProvider F} {revision : Option String}

/-- One round of the item loop, its vector not at hand. -/
theorem eval_embed_item (item : MemoryItem) (w : EmbWorld F) (script : List (Answer F)) :
    (embed_item D revision item none P.port).eval (S := embSig F) (alone D) (w, script)
      = (.ok (settle_one D P revision w.now w.db w.health item).1,
          ({ w with
              db := (settle_one D P revision w.now w.db w.health item).2.1
              health := (settle_one D P revision w.now w.db w.health item).2.2 }, script)) := by
  have hvector : item_vector item none P.port = returns (P.embed item.content) := rfl
  rw [embed_item, embed_item_body, hvector, settle_one]
  rcases P.embed item.content with e | v
  · -- nothing was sent to the store yet
    rw [Prog.eval_bind, Prog.eval_attempt]
    dsimp only [returns, Prog.raise_bind, Prog.eval_raise]
    split
    · rfl
    · rfl
  · rfl

/-- By induction over the items. -/
theorem eval_embed_items (items : List MemoryItem) (w : EmbWorld F) (script : List (Answer F)) :
    (embed_items D revision (alone_each items) P.port).eval (S := embSig F) (alone D) (w, script)
      = (.ok (one_by_one D P revision w.now w.db w.health items).1,
          ({ w with
              db := (one_by_one D P revision w.now w.db w.health items).2.1
              health := (one_by_one D P revision w.now w.db w.health items).2.2 }, script)) := by
  induction items generalizing w with
  | nil => rfl
  | cons item rest ih =>
      show (embed_items D revision ((item, none) :: alone_each rest) P.port).eval (S := embSig F)
        (alone D) (w, script) = _
      rw [embed_items, Prog.eval_bind, eval_embed_item]
      dsimp only
      rw [Prog.eval_bind, ih]
      rfl

end Alone

/-- **A chunked backfill is the loop over its candidates.** Against a deterministic provider
whose batches agree with its single calls, the chunks of any list of candidates are one
program with the loop that sends each of them by itself, so nothing that runs with them can
tell them apart. Alone, that loop and a whole backfill do to the embedding rows, to the
counters of the result and to the failure counters what one `embed` and one save or
tombstone for each candidate do, in order. -/
theorem backfill_chunks_eq_one_by_one (D : Deployment F) (P : EmbeddingProvider F) (hP : P.Agrees)
    (revision : Option String) :
    (∀ candidates, embed_chunks D revision (chunks candidates) P.port
        = embed_items D revision (alone_each candidates) P.port)
      ∧ (∀ candidates w script,
        let loop := one_by_one D P revision w.now w.db w.health candidates
        (embed_chunks D revision (chunks candidates) P.port).eval (S := embSig F) (alone D) (w, script)
          = (.ok loop.1, ({ w with db := loop.2.1, health := loop.2.2 }, script)))
      ∧ ∀ project_id force w script,
        let candidates := (w.db.scoped project_id).filter (is_candidate D w.db revision force)
        let loop := one_by_one D P revision w.now w.db w.health candidates
        (backfill D revision project_id force P.port).eval (S := embSig F) (alone D) (w, script)
          = (.ok loop.1, ({ w with db := loop.2.1, health := loop.2.2 }, script)) := by
  have hchunks : ∀ candidates, embed_chunks D revision (chunks candidates) P.port
      = embed_items D revision (alone_each candidates) P.port := by
    intro candidates
    rw [embed_chunks_eq_alone hP, flatten_chunks]
  refine ⟨hchunks, ?_, ?_⟩
  · intro candidates w script loop
    rw [hchunks]
    exact eval_embed_items candidates w script
  · intro project_id force w script candidates loop
    rw [eval_backfill_eq project_id force w script P.port, hchunks]
    exact eval_embed_items candidates w script

namespace Parking

/-- A server that rejects a text of more than five characters, and a batch with such a text
as a whole. -/
def provider : EmbeddingProvider ℕ where
  embed text := if text.length ≤ 5 then .ok [text.length] else .error (.ProviderError .CONTENT_TOO_LONG)
  embed_batch texts :=
    if texts.all (·.length ≤ 5) then .ok (texts.map fun text => [text.length])
    else .error (.ProviderError .CONTENT_TOO_LONG)

/-- Its batch is its single calls, or is rejected as a whole. -/
theorem provider_agrees : provider.Agrees := by
  intro texts
  by_cases h : texts.all (·.length ≤ 5) = true
  · right; right
    refine ⟨_, if_pos h, ?_⟩
    rw [List.forall₂_map_right_iff, List.forall₂_same]
    intro text htext
    have hshort := List.all_eq_true.mp h text htext
    exact if_pos (of_decide_eq_true hshort)
  · left
    exact ⟨_, if_neg h⟩

/-- The batch is rejected as too long, but only the memory that is too long is parked. -/
theorem backfill_chunks_eq_one_by_one_sample :
    ((backfill deployment (some "sha256:1") none false provider.port).eval (S := embSig ℕ)
        (alone deployment) (world, [])).1 = .ok { generated := 1, tombstoned := 1 } := by
  have h := (backfill_chunks_eq_one_by_one deployment provider provider_agrees (some "sha256:1")).2.2
    none false world []
  rw [h]
  decide +kernel

end Parking

end OpenChronicle
