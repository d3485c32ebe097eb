/-
No stale vector outlives an edit.

`update_memory.execute` writes the content, then drops the row, then embeds; every save is a
compare-and-swap on the content's hash. So a row for another content than the current one can only be
the one an update has not dropped yet. The invariant is about one store step: a save matches the content
it finds, a deletion takes the row along, and the only write that can part a row from its content is the
content write of an update, which is in flight from that step on.

An update stays in flight until its own `delete_embedding`, whatever others do: there may be several of
one memory, and a row is excused as long as one of them is. An update that raises between the two writes
stays in flight for good, and that is what the statement says of it.
-/
import OpenChronicle.Embedding.World

set_option autoImplicit false

namespace OpenChronicle

open Program Machine

variable {F : Type} {D : Deployment F}

/-- Thread `t` runs `update_memory.execute` of the memory's content, has done its
`store.update_memory` and has not done its `delete_embedding`. -/
def InFlight (log : List (EmbEvent D)) (t : ℕ) (memory_id : String) : Prop :=
  ∃ content tags service updated,
    .started t (.update_memory memory_id (some content) tags service) ∈ log
    ∧ .called t ⟨.update_memory memory_id (some content) tags, .ok updated⟩ ∈ log
    ∧ .called t ⟨.delete_embedding memory_id, .ok ()⟩ ∉ log

/-- An event that is not the update's own deletion leaves it in flight. -/
theorem InFlight.cons {log : List (EmbEvent D)} {t : ℕ} {memory_id : String} {e : EmbEvent D}
    (h : InFlight log t memory_id) (he : e ≠ .called t ⟨.delete_embedding memory_id, .ok ()⟩) :
    InFlight (e :: log) t memory_id := by
  obtain ⟨content, tags, service, updated, hstart, hupd, hdel⟩ := h
  refine ⟨content, tags, service, updated, List.mem_cons_of_mem _ hstart,
    List.mem_cons_of_mem _ hupd, ?_⟩
  rw [List.mem_cons, not_or]
  exact ⟨he.symm, hdel⟩

/-- Every row is for its memory's content, unless an update is in flight. -/
def Fresh (c : EmbConf D) : Prop :=
  ∀ id row item, c.world.db.embedding_row id = some row → c.world.db.get_memory id = some item →
    row.content_hash ≠ D.hash_content item.content → ∃ t, InFlight c.log t id

/-- An update's content write puts it in flight. -/
theorem inFlight_of_updated {c : EmbConf D} (ho : InOrder (Ordered D) Ended c)
    {log : List (EmbEvent D)} {t : ℕ} {id content : String} {tags : Option (List PyStr.Text)}
    {updated : MemoryItem}
    (hlog : c.log = .called t ⟨.update_memory id (some content) tags, .ok updated⟩ :: log) :
    InFlight c.log t id := by
  obtain ⟨task, hstart, hfirst, service, rfl⟩ := ho.each _ log ⟨[], hlog.symm⟩
  rw [hlog]
  refine ⟨content, tags, service, updated, List.mem_cons_of_mem _ hstart, List.mem_cons_self, ?_⟩
  -- the update is the thread's first call, so its `delete_embedding` is still to come
  intro hdel
  rcases List.mem_cons.mp hdel with heq | hdel
  · cases heq
  · rw [← mem_own, hfirst] at hdel
    cases hdel

/-- **One step.** By the kinds of store call: a save, a deletion, a content write, and those that touch
neither rows nor contents. -/
theorem fresh_step {c c' : EmbConf D} {a : (embedding D).Action} (hc : Fresh c)
    (ho : InOrder (Ordered D) Ended c') (h : c.step a = some c') : Fresh c' := by
  obtain ⟨e, hlog, hmove⟩ := step_db h
  intro id row item hrow hitem hne
  -- a row that was stale before stays in flight past any other event
  have kept : c.world.db.embedding_row id = some row →
      (∃ old, c.world.db.get_memory id = some old ∧ old.content = item.content) →
      (∀ t, e ≠ .called t ⟨.delete_embedding id, .ok ()⟩) → ∃ t, InFlight c'.log t id := by
    rintro hrow ⟨old, hold, hcontent⟩ he
    obtain ⟨t, ht⟩ := hc id row old hrow hold (by rwa [hcontent])
    rw [hlog]
    exact ⟨t, ht.cons (he t)⟩
  generalize c.world.db = db, c'.world.db = db' at hmove hrow hitem kept
  cases hmove with
  | quiet hq =>
      refine kept hrow ⟨item, hitem, rfl⟩ ?_
      rintro t rfl
      cases hq
  | added hadd =>
      have hold : db.embedding_row id = some row := by
        rw [Db.embedding_row, ← (Db.add_memory_ok hadd).2.1]
        exact hrow
      rw [(Db.add_memory_ok hadd).1] at hitem
      split at hitem
      · next hid =>
          obtain ⟨old, hget⟩ := Db.memory_of_embedding_row hold
          rw [hid, Db.add_memory_fresh hadd] at hget
          cases hget
      · exact kept hold ⟨item, hitem, rfl⟩ fun t heq => by cases heq
  | @updated t now uid content tags updated _ _ hupd =>
      have hold : db.embedding_row id = some row := by
        rw [Db.embedding_row, ← (Db.update_row_ok hupd).2.2.1]
        exact hrow
      rw [(Db.update_row_ok hupd).2.1] at hitem
      split at hitem
      · next hid =>
          subst hid
          cases content with
          | some text => exact ⟨t, inFlight_of_updated ho hlog⟩
          | none =>
              -- tags only: the content is what it was
              obtain ⟨old, hget, rfl⟩ := Option.map_eq_some_iff.mp hitem
              exact kept hold ⟨old, hget, rfl⟩ fun t heq => by cases heq
      · exact kept hold ⟨item, hitem, rfl⟩ fun t heq => by cases heq
  | deleted hdel =>
      rw [(Db.delete_memory_ok hdel).1] at hitem
      rw [(Db.delete_memory_ok hdel).2.1] at hrow
      split at hitem
      · cases hitem
      · next hid =>
          rw [if_neg hid] at hrow
          exact kept hrow ⟨item, hitem, rfl⟩ fun t heq => by cases heq
  | saved hsave =>
      obtain ⟨⟨old, hget, hhash⟩, hitems, hrows⟩ := save_true hsave
      rw [hitems] at hitem
      rw [hrows] at hrow
      split at hrow
      · next hid =>
          -- the compare-and-swap: the row written is for the content it found
          subst hid
          obtain rfl := Option.some.inj hrow
          obtain rfl := Option.some.inj (hitem.symm.trans hget)
          exact absurd hhash.symm hne
      · exact kept hrow ⟨item, hitem, rfl⟩ fun t heq => by cases heq
  | unembedded =>
      rw [Db.delete_embedding_row] at hrow
      split at hrow
      · cases hrow
      · next hid =>
          refine kept hrow ⟨item, hitem, rfl⟩ ?_
          rintro t ⟨⟩
          exact hid rfl

/-- A store without vectors is fresh. -/
theorem reach_fresh {ok : EmbConf D → (embedding D).Action → Prop} {db : Db F}
    (hdb : db.memory_embeddings = []) {c : EmbConf D} (h : Reach ok (Conf.initial (boot db)) c) :
    Fresh c := by
  induction h with
  | init =>
      intro id row item hrow
      change db.embedding_row id = some row at hrow
      rw [Db.embedding_row, hdb] at hrow
      cases hrow
  | step hr ha hs ih => exact fresh_step ih (reach_ordered (hr.step ha hs)) hs

/-- **No stale vector outlives an edit.** In every configuration of every run from a
store without vectors: a row for another content than its memory's current one has
an update in flight; without one, every row is for the current content, and a vector
was embedded from exactly it; a memory that is gone has no row; and a save that
answers `False` leaves the store as it was. -/
theorem stale_row_has_update_in_flight (hinj : Function.Injective D.hash_content) {db : Db F}
    (hdb : db.memory_embeddings = []) {c : EmbConf D}
    (h : Reach (fun _ _ => True) (Conf.initial (boot db)) c) :
    (∀ id row item, c.world.db.embedding_row id = some row → c.world.db.get_memory id = some item →
        row.content_hash ≠ D.hash_content item.content → ∃ t, InFlight c.log t id)
    ∧ ((∀ t id, ¬ InFlight c.log t id) → ∀ id row, c.world.db.embedding_row id = some row →
        ∃ item, c.world.db.get_memory id = some item
          ∧ row.content_hash = D.hash_content item.content
          ∧ (row.status = .ok → ∃ t texts vecs,
              .called t ⟨.http_post_embed texts, .ok vecs⟩ ∈ c.log
              ∧ (item.content, row.embedding) ∈ texts.zip vecs))
    ∧ (∀ id, c.world.db.get_memory id = none → c.world.db.embedding_row id = none)
    ∧ ∀ a c' t p, c.step a = some c' →
        c'.log = .called t ⟨.save_embedding p, .ok false⟩ :: c.log → c'.world.db = c.world.db := by
  have hfresh := reach_fresh hdb h
  refine ⟨hfresh, ?_, ?_, ?_⟩
  · intro hnone id row hrow
    obtain ⟨item, hitem⟩ := Db.memory_of_embedding_row hrow
    have hhash : row.content_hash = D.hash_content item.content := by
      by_contra hne
      obtain ⟨t, ht⟩ := hfresh id row item hrow hitem hne
      exact hnone t id ht
    refine ⟨item, hitem, hhash, ?_⟩
    intro hok
    obtain ⟨t, text, texts, vecs, pre, hembed, -, hzip, htext⟩ := reach_embedded hdb h hrow hok
    -- the hash leaves only one text the vector can come from
    have hsame : text = item.content := hinj (htext.symm.trans hhash)
    exact ⟨t, texts, vecs, hembed.subset List.mem_cons_self, by rwa [← hsame]⟩
  · intro id hgone
    by_contra hrow
    obtain ⟨row, hrow⟩ := Option.ne_none_iff_exists'.mp hrow
    obtain ⟨item, hitem⟩ := Db.memory_of_embedding_row hrow
    rw [hgone] at hitem
    cases hitem
  · intro a c' t p hs hlog
    obtain ⟨e, hlog', hmove⟩ := step_db hs
    obtain ⟨rfl, -⟩ := List.cons.inj (hlog.symm.trans hlog')
    generalize c.world.db = db₁, c'.world.db = db₂ at hmove
    cases hmove with
    | quiet _ => rfl

/-- The note is embedded as a draft and then edited: until the edit drops it, the old
vector is there, and thread 2 is the update in flight. -/
theorem stale_row_has_update_in_flight_sample :
    ∃ c : EmbConf Scenario.server, Reach (fun _ _ => True) (Conf.initial (boot Scenario.store)) c
      ∧ (∃ row item, c.world.db.embedding_row "note" = some row
        ∧ c.world.db.get_memory "note" = some item
        ∧ row.content_hash ≠ Scenario.server.hash_content item.content)
      ∧ ∃ t, InFlight c.log t "note" := by
  obtain ⟨c, hc, hp⟩ := @Scenario.reach_after (Scenario.verify 0
      ++ .start (.generate_for_memory "note" "draft" false) :: Scenario.go 1 6
      ++ .start (.update_memory "note" (some "final") none true) :: Scenario.go 2 1)
    (fun c => (c.world.db.embedding_row "note").any fun row =>
      (c.world.db.get_memory "note").any fun item => row.content_hash ≠ item.content)
    (by decide +kernel)
  obtain ⟨row, hrow, hp⟩ := (Option.any_eq_true _ _).mp hp
  obtain ⟨item, hitem, hne⟩ := (Option.any_eq_true _ _).mp hp
  have hne : row.content_hash ≠ Scenario.server.hash_content item.content := of_decide_eq_true hne
  refine ⟨c, hc, ⟨row, item, hrow, hitem, hne⟩, ?_⟩
  exact (stale_row_has_update_in_flight (fun _ _ h => h) rfl hc).1 "note" row item hrow hitem hne

end OpenChronicle
