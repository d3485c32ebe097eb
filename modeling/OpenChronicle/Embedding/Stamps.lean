/-
When a publication moves a row back to an older revision.

The snapshot a save is stamped with is read before the provider call, and `save_embedding` compares only
the content's hash. A writer that is overtaken by a probe, or by a whole backfill, therefore still
publishes, over a row with a newer stamp. As long as no publication is overtaken, stamps only move
forward, and what a backfill recorded as reconciled stays so until a newer revision is verified.

The condition `PublishesCurrent` is about the step that saves: it looks at the adapter's snapshot and
the memory's content in the state before it, and at no state after it. A save that finds another content
writes nothing and is under no condition.

"Older" is an order of events: a revision is older if it was verified earlier. Digests do not recur, so
every digest has one place in that order, and `later_row` follows a memory's row along it, one step
after the other.
-/
import OpenChronicle.Embedding.Probes

set_option autoImplicit false

namespace OpenChronicle

open Program Machine

variable {F : Type} {D : Deployment F}

/-- Whether the step about to be taken publishes only under the revision that is still
the verified one: if it is a save whose memory still has the content it was made
from, the adapter's snapshot is the one it is stamped with. -/
def PublishesCurrent (c : EmbConf D) (a : (embedding D).Action) : Prop :=
  ∀ t choice p k item, a = .run t choice → c.threads t = some (.call (.save_embedding p) k) →
    c.world.db.get_memory p.memory_id = some item → D.hash_content item.content = p.content_hash →
    c.world.revision = ⟨true, p.model_revision⟩

/-- The event edits the memory's content or drops its row. -/
def edits (memory_id : String) : EmbEvent D → Bool
  | .called _ ⟨.update_memory id (some _) _, .ok _⟩ => id = memory_id
  | .called _ ⟨.delete_memory id, .ok _⟩ => id = memory_id
  | .called _ ⟨.delete_embedding id, .ok _⟩ => id = memory_id
  | _ => false

section Steps

variable {c c' : EmbConf D} {a : (embedding D).Action}

/-- A step that wrote a save found the memory with the content it was made from. -/
theorem step_saved {t : ℕ} {p : Publication F} (h : c.step a = some c')
    (hlog : c'.log = .called t ⟨.save_embedding p, .ok true⟩ :: c.log) :
    p.save D c.world.db = (true, c'.world.db)
      ∧ ∃ choice k, a = .run t choice ∧ c.threads t = some (.call (.save_embedding p) k) := by
  obtain ⟨e, hlog', hmove⟩ := step_db h
  obtain ⟨rfl, -⟩ := List.cons.inj (hlog.symm.trans hlog')
  constructor
  · generalize c.world.db = db, c'.world.db = db' at hmove
    cases hmove with
    | quiet hq => cases hq
    | saved hsave => exact hsave
  · obtain ⟨task, w, -, -, rfl⟩ | ⟨u, choice, o, k, r, w, rfl, hk, -, rfl⟩ | ⟨e, -, rfl⟩ :=
      Conf.step_cases h
    · cases (List.cons.inj hlog).1
    · obtain ⟨rfl, hcall⟩ := Event.called.inj (List.cons.inj hlog).1
      cases hcall
      exact ⟨choice, k, rfl, hk⟩
    · cases (List.cons.inj hlog).1

/-- Under the condition, a row is stamped with the latest revision when it is saved. -/
theorem latest_of_saved (ht : Tracked c) (hok : PublishesCurrent c a) (h : c.step a = some c')
    {t : ℕ} {p : Publication F}
    (hlog : c'.log = .called t ⟨.save_embedding p, .ok true⟩ :: c.log) :
    (verified c.log).head? = some p.model_revision := by
  obtain ⟨hsave, choice, k, rfl, hk⟩ := step_saved h hlog
  obtain ⟨⟨item, hitem, hhash⟩, -, -⟩ := save_true hsave
  have hcurrent := hok t choice p k item rfl hk hitem hhash
  rw [ht.revision] at hcurrent
  exact snapshot_of_known hcurrent

end Steps

section Runs

variable {db : Db F} {c c' : EmbConf D}

/-- A stored stamp has been verified. -/
theorem stamp_verified {ok : EmbConf D → (embedding D).Action → Prop}
    (hdb : db.memory_embeddings = []) (h : Reach ok (Conf.initial (boot db)) c) {id : String}
    {row : EmbeddingRow F} (hrow : c.world.db.embedding_row id = some row) :
    row.model_revision ∈ verified c.log := by
  obtain ⟨t, p, hmem, rfl⟩ := reach_sourced hdb h id row hrow
  obtain ⟨pre, hsave⟩ := suffix_of_mem hmem
  obtain ⟨task, -, hknown, -⟩ := (reach_ordered h).each _ pre hsave
  obtain ⟨pre', hread⟩ := suffix_of_mem (mem_own.mp hknown)
  have hread' := hread.trans ((List.suffix_cons _ _).trans hsave)
  exact (verified_suffix ((List.suffix_cons _ _).trans hread')).subset (verified_of_read h hread')

/-- From a row on, a memory's row is that one, or was stamped with the revision that was
the latest at some point since. -/
theorem later_row (h : Reach PublishesCurrent (Conf.initial (boot db)) c)
    (h' : Reach PublishesCurrent c c') {id : String} {row row' : EmbeddingRow F}
    (hrow : c.world.db.embedding_row id = some row)
    (hrow' : c'.world.db.embedding_row id = some row') :
    row' = row ∨ ∃ now, c.log <:+ now ∧ now <:+ c'.log
      ∧ (verified now).head? = some row'.model_revision := by
  induction h' generalizing row' with
  | init => exact .inl (Option.some.inj (hrow'.symm.trans hrow))
  | @step c₁ c₂ a hr ha hs ih =>
      obtain ⟨e, hlog, hmove⟩ := step_db hs
      rcases hmove.row hrow' with hold | ⟨t, p, rfl, rfl⟩
      · rcases ih hold with heq | ⟨now, hsince, hnow, hlatest⟩
        · exact .inl heq
        · refine .inr ⟨now, hsince, ?_, hlatest⟩
          rw [hlog]
          exact hnow.trans (List.suffix_cons _ _)
      · refine .inr ⟨c₁.log, hr.log_suffix, ?_, ?_⟩
        · rw [hlog]
          exact List.suffix_cons _ _
        · exact latest_of_saved (reach_tracked (h.trans hr)) ha hs hlog

/-- Without an edit a memory keeps its content and a row for it. -/
theorem row_kept {ok : EmbConf D → (embedding D).Action → Prop} {content_hash : String}
    (h : Reach ok c c') {id : String} {since : List (EmbEvent D)} (hsince : c'.log = since ++ c.log)
    (hedits : ∀ e ∈ since, edits id e = false)
    (hitem : ∃ item, c.world.db.get_memory id = some item
      ∧ D.hash_content item.content = content_hash)
    (hrow : ∃ row, c.world.db.embedding_row id = some row ∧ row.content_hash = content_hash) :
    (∃ item, c'.world.db.get_memory id = some item ∧ D.hash_content item.content = content_hash)
      ∧ ∃ row, c'.world.db.embedding_row id = some row ∧ row.content_hash = content_hash := by
  induction h generalizing since with
  | init => exact ⟨hitem, hrow⟩
  | @step c₁ c₂ a hr ha hs ih =>
      obtain ⟨e, hlog, hmove⟩ := step_db hs
      obtain ⟨before, hbefore⟩ := hr.log_suffix
      -- the last event of the run is this step's
      have hcons : since = e :: before := by
        rw [hlog, ← hbefore, ← List.cons_append] at hsince
        exact (List.append_cancel_right hsince).symm
      subst hcons
      obtain ⟨⟨item, hitem, hhash⟩, row, hrow, hrhash⟩ :=
        ih hbefore.symm fun e he => hedits e (List.mem_cons_of_mem _ he)
      have he : edits id e = false := hedits e List.mem_cons_self
      clear ih
      generalize c₁.world.db = db₁, c₂.world.db = db₂ at hmove hitem hrow
      cases hmove with
      | quiet _ => exact ⟨⟨item, hitem, hhash⟩, row, hrow, hrhash⟩
      | @added _ new _ _ hadd =>
          -- the memory was there, so the new one has another id
          have hne : id ≠ new.id := by
            rintro rfl
            rw [Db.add_memory_fresh hadd] at hitem
            cases hitem
          refine ⟨⟨item, ?_, hhash⟩, row, ?_, hrhash⟩
          · rw [(Db.add_memory_ok hadd).1, if_neg hne]
            exact hitem
          · rw [Db.embedding_row, (Db.add_memory_ok hadd).2.1]
            exact hrow
      | @updated t now uid content tags updated _ _ hupd =>
          refine ⟨?_, row, ?_, hrhash⟩
          · rw [(Db.update_row_ok hupd).2.1]
            by_cases hid : id = uid
            · cases content with
              -- new content would be an edit
              | some text => exact absurd he (by simp [edits, hid])
              | none =>
                  rw [if_pos hid, hitem]
                  exact ⟨_, rfl, hhash⟩
            · rw [if_neg hid]
              exact ⟨item, hitem, hhash⟩
          · rw [Db.embedding_row, (Db.update_row_ok hupd).2.2.1]
            exact hrow
      | @deleted t uid _ _ hdel =>
          have hne : id ≠ uid := fun hid => absurd he (by simp [edits, hid])
          refine ⟨⟨item, ?_, hhash⟩, row, ?_, hrhash⟩
          · rw [(Db.delete_memory_ok hdel).1, if_neg hne]
            exact hitem
          · rw [(Db.delete_memory_ok hdel).2.1, if_neg hne]
            exact hrow
      | @saved t p _ _ hsave =>
          obtain ⟨⟨found, hfound, hfhash⟩, hitems, hrows⟩ := save_true hsave
          refine ⟨⟨item, (hitems id).trans hitem, hhash⟩, ?_⟩
          rw [hrows]
          by_cases hid : id = p.memory_id
          · subst hid
            -- the row saved is for the content the store has, whose hash it carries
            obtain rfl := Option.some.inj (hfound.symm.trans hitem)
            rw [if_pos rfl]
            exact ⟨_, rfl, hfhash.symm.trans hhash⟩
          · rw [if_neg hid]
            exact ⟨row, hrow, hrhash⟩
      | @unembedded t uid _ =>
          have hne : id ≠ uid := fun hid => absurd he (by simp [edits, hid])
          refine ⟨⟨item, hitem, hhash⟩, row, ?_, hrhash⟩
          rw [Db.delete_embedding_row, if_neg hne]
          exact hrow

/-- **Stamps never move back** in a run whose publications are all made under the
revision still verified. From a row on, whatever its memory is given later, for the
same content or another, is not stamped with a revision verified before the row's. And
what a backfill wrote before it recorded `revision` as reconciled is stamped with it as
long as it is the latest verified; without an edit it is also still there. -/
theorem stamps_never_move_back (hinj : Function.Injective D.digest)
    (hdb : db.memory_embeddings = []) (h : Reach PublishesCurrent (Conf.initial (boot db)) c) :
    (∀ c' id row row', Reach PublishesCurrent c c' → c.world.db.embedding_row id = some row →
      c'.world.db.embedding_row id = some row' →
      ¬ VerifiedBefore c'.log row'.model_revision row.model_revision)
    ∧ ∀ b p revision since past, c.log = since ++ .called b ⟨.save_embedding p, .ok true⟩ :: past →
      .called b ⟨.set_reconciled revision, .ok ()⟩ ∈ since →
      (verified c.log).head? = some revision →
      (∀ row, c.world.db.embedding_row p.memory_id = some row → row.model_revision = revision)
      ∧ ((∀ e ∈ since, edits p.memory_id e = false) →
        ∃ row, c.world.db.embedding_row p.memory_id = some row
          ∧ row.content_hash = p.content_hash ∧ row.model_revision = revision) := by
  constructor
  · intro c' id row row' h' hrow hrow'
    have hverified := stamp_verified hdb h hrow
    rcases later_row h h' hrow hrow' with rfl | ⟨now, hsince, hnow, hlatest⟩
    · rintro ⟨past, -, hold, hnew⟩
      exact hnew hold
    · exact not_verifiedBefore_latest hinj (h.trans h') hnow hlatest
        ((verified_suffix hsince).subset hverified)
  · intro b p revision since past hlog hrecord hlatest
    have hsaved : .called b ⟨.save_embedding p, .ok true⟩ :: past <:+ c.log :=
      ⟨since, hlog.symm⟩
    -- the backfill stamps with one revision, the one it records
    have hstamp : p.model_revision = revision := by
      obtain ⟨s₁, s₂, rfl⟩ := List.append_of_mem hrecord
      have hrec : .called b ⟨.set_reconciled revision, .ok ()⟩
          :: (s₂ ++ .called b ⟨.save_embedding p, .ok true⟩ :: past) <:+ c.log :=
        ⟨s₁, by rw [hlog, List.append_assoc]; rfl⟩
      obtain ⟨task, -, -, hstamps⟩ := (reach_ordered h).each _ _ hrec
      refine hstamps ⟨.save_embedding p, .ok true⟩ (mem_own.mpr ?_) p rfl
      exact List.mem_append_right _ List.mem_cons_self
    obtain ⟨c₁, a, c₂, h₁, rfl, ha, hs, hlog₂, h₂⟩ := h.cut hsaved
    have hthen : (verified c₁.log).head? = some revision := by
      rw [← hstamp]
      exact latest_of_saved (reach_tracked h₁) ha hs hlog₂
    obtain ⟨hfound, -, hrows⟩ := save_true (step_saved hs hlog₂).1
    have hrow₂ : c₂.world.db.embedding_row p.memory_id = some p.row := by
      rw [hrows, if_pos rfl]
    have hstamped : ∀ row, c.world.db.embedding_row p.memory_id = some row →
        row.model_revision = revision := by
      intro row hrow
      rcases later_row (h₁.step ha hs) h₂ hrow₂ hrow with rfl | ⟨now, hsince, hnow, hnow'⟩
      · exact hstamp
      · refine latest_between hinj h hnow ?_ hthen hlatest hnow'
        rw [hlog₂] at hsince
        exact (List.suffix_cons _ _).trans hsince
    refine ⟨hstamped, ?_⟩
    intro hedits
    have hitem₂ : ∃ item, c₂.world.db.get_memory p.memory_id = some item
        ∧ D.hash_content item.content = p.content_hash := by
      obtain ⟨item, hitem, hhash⟩ := hfound
      refine ⟨item, ?_, hhash⟩
      rw [(save_true (step_saved hs hlog₂).1).2.1]
      exact hitem
    have hlog' : c.log = since ++ c₂.log := by rw [hlog, hlog₂]
    obtain ⟨-, row, hrow, hhash⟩ := row_kept h₂ hlog' hedits hitem₂ ⟨p.row, hrow₂, rfl⟩
    exact ⟨row, hrow, hhash, hstamped row hrow⟩

end Runs

/-! ## A writer overtaken by a backfill -/

namespace Scenario

/-- `PublishesCurrent`, computed. -/
def publishes_current (c : EmbConf server) : Step → Bool
  | .run t _ =>
      match c.threads t with
      | some (.call (.save_embedding p) _) =>
          (c.world.db.get_memory p.memory_id).all fun item =>
            server.hash_content item.content ≠ p.content_hash
              || c.world.revision = ⟨true, p.model_revision⟩
      | _ => true
  | _ => true

/-- The scenario is checked by running it. -/
theorem publishes_current_sound (c : EmbConf server) (a : Step)
    (h : publishes_current c a = true) : PublishesCurrent c a := by
  rintro t choice p k item rfl hk hitem hhash
  simp only [publishes_current, hk, hitem, Option.all_some, Bool.or_eq_true,
    decide_eq_true_eq] at h
  rcases h with hne | hcurrent
  · exact absurd hhash hne
  · exact hcurrent

/-- A writer embeds the draft under the first digest and is about to save it. -/
def slow_writer : List Step :=
  verify 0 ++ .start (.generate_for_memory "note" "draft" false) :: go 1 4

/-- The tag is re-pulled; a backfill of the whole corpus verifies the second digest,
embeds the note and records that it is reconciled. -/
def overtaking_backfill (t : ℕ) : List Step :=
  .env .repull :: .start (.generate_missing none false) :: go t 15

end Scenario

/-- A writer that is done before the re-pull: the backfill moves the stamp forward. -/
theorem stamps_never_move_back_sample :
    ∃ c c' : EmbConf Scenario.server,
      Reach PublishesCurrent (Conf.initial (boot Scenario.store)) c ∧ Reach PublishesCurrent c c'
      ∧ ∃ row row', c.world.db.embedding_row "note" = some row
        ∧ c'.world.db.embedding_row "note" = some row' ∧ row'.model_revision ≠ row.model_revision
        ∧ ¬ VerifiedBefore c'.log row'.model_revision row.model_revision := by
  have hrun : ((Conf.initial (M := embedding Scenario.server) (boot Scenario.store)).steps
      Scenario.publishes_current (Scenario.slow_writer ++ Scenario.go 1 2)).any
      (fun c => (c.steps Scenario.publishes_current (Scenario.overtaking_backfill 2)).any fun c' =>
        (c.world.db.embedding_row "note").any fun row =>
          (c'.world.db.embedding_row "note").any fun row' =>
            decide (row'.model_revision ≠ row.model_revision)) = true := by decide +kernel
  obtain ⟨c, hsteps, hrun⟩ := (Option.any_eq_true _ _).mp hrun
  obtain ⟨c', hsteps', hrun⟩ := (Option.any_eq_true _ _).mp hrun
  obtain ⟨row, hrow, hrun⟩ := (Option.any_eq_true _ _).mp hrun
  obtain ⟨row', hrow', hne⟩ := (Option.any_eq_true _ _).mp hrun
  have hc := reach_of_steps Scenario.publishes_current_sound hsteps
  have hc' := reach_of_steps Scenario.publishes_current_sound hsteps'
  refine ⟨c, c', hc, hc', row, row', hrow, hrow', of_decide_eq_true hne, ?_⟩
  exact (stamps_never_move_back Scenario.server_digest_injective rfl hc).1 c' "note" row row' hc'
    hrow hrow'

/-- The slow writer publishes last: over the backfill's row for the same content, with
the digest verified before it, while the second one stays recorded as reconciled and is
the latest verified. -/
theorem slow_writer_publishes_last :
    ∃ c c' : EmbConf Scenario.server,
      Reach (fun _ _ => True) (Conf.initial (boot Scenario.store)) c
      ∧ Reach (fun _ _ => True) c c'
      ∧ ∃ row row', c.world.db.embedding_row "note" = some row
        ∧ c'.world.db.embedding_row "note" = some row'
        ∧ row.status = .ok ∧ row'.content_hash = row.content_hash
        ∧ VerifiedBefore c'.log row'.model_revision row.model_revision
        ∧ c'.world.reconciled_revision = some row.model_revision
        ∧ (verified c'.log).head? = some row.model_revision := by
  have hrun : (Scenario.after (Scenario.slow_writer ++ Scenario.overtaking_backfill 2)).any
      (fun c => (c.steps (fun _ _ => true) (Scenario.go 1 1)).any fun c' =>
        (c.world.db.embedding_row "note").any fun row =>
          (c'.world.db.embedding_row "note").any fun row' =>
            decide (row.status = .ok ∧ row'.content_hash = row.content_hash
              ∧ (row'.model_revision ∈ verified (c'.log.drop 18)
                ∧ row.model_revision ∉ verified (c'.log.drop 18))
              ∧ c'.world.reconciled_revision = some row.model_revision
              ∧ (verified c'.log).head? = some row.model_revision)) = true := by decide +kernel
  obtain ⟨c, hc, hrun⟩ := (Option.any_eq_true _ _).mp hrun
  obtain ⟨c', hc', hrun⟩ := (Option.any_eq_true _ _).mp hrun
  obtain ⟨row, hrow, hrun⟩ := (Option.any_eq_true _ _).mp hrun
  obtain ⟨row', hrow', hrun⟩ := (Option.any_eq_true _ _).mp hrun
  obtain ⟨hok, hhash, hbefore, hrec, hlatest⟩ := of_decide_eq_true hrun
  refine ⟨c, c', reach_of_steps (fun _ _ _ => trivial) hc,
    reach_of_steps (fun _ _ _ => trivial) hc', row, row', hrow, hrow', hok, hhash, ?_, hrec, hlatest⟩
  exact ⟨c'.log.drop 18, List.drop_suffix _ _, hbefore⟩

end OpenChronicle
