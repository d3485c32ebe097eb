/-
What a step does to the world, and what the log says about it.

A configuration's log determines the parts of the world that the results below speak of: how often the
tag was re-pulled, which revisions probes verified, and where each stored row came from. `DbMove` is the
store's half: every event either leaves the store alone or is one successful write method.

The operations of the machine are many and the proofs about runs should not know them all. So they are
inverted here, once for the store (`exec_db`, and `step_db` for a whole step) and once for the
attributes of the service (`exec_outside`, `exec_tracked`), and every invariant of the modules that
follow is proved from these. An operation that is added to the machine has to be added to `DbMove` or to
be shown to write nothing.

`Tracked` and `Sourced` are the two invariants that all others rest on. The first says that the revision
which the adapter holds is the last one that was verified, by the log; the second, that every row of the
table was saved by a call that is in the log.
-/
import OpenChronicle.Embedding.Order

set_option autoImplicit false

namespace OpenChronicle

open Program Machine

variable {F : Type} {D : Deployment F}

/-- The events and configurations of the machine for one deployment. -/
abbrev EmbEvent (D : Deployment F) := (embedding D).Event

/-- A configuration of the machine. -/
abbrev EmbConf (D : Deployment F) := (embedding D).Conf

/-- A process that has just started on this file. -/
def boot (db : Db F) : EmbWorld F := { db }

/-! ## The store -/

/-- `save_embedding` of a publication. -/
def Publication.save (D : Deployment F) (p : Publication F) (db : Db F) : Bool × Db F :=
  db.save_embedding D.hash_content p.memory_id p.embedding p.model p.provider p.content_hash
    p.model_revision p.settings_fingerprint p.status

/-- The call changed the store. -/
def writes : EmbEvent D → Bool
  | .called _ ⟨.add_memory _, .ok _⟩ => true
  | .called _ ⟨.update_memory _ _ _, .ok _⟩ => true
  | .called _ ⟨.delete_memory _, .ok _⟩ => true
  | .called _ ⟨.save_embedding _, .ok published⟩ => published
  | .called _ ⟨.delete_embedding _, .ok _⟩ => true
  | _ => false

inductive DbMove (D : Deployment F) : EmbEvent D → Db F → Db F → Prop
  | quiet {e : EmbEvent D} {db : Db F} (h : writes e = false) : DbMove D e db db
  | added {t : ℕ} {item : MemoryItem} {db db' : Db F} (h : db.add_memory item = .ok db') :
      DbMove D (.called t ⟨.add_memory item, .ok ()⟩) db db'
  | updated {t : ℕ} {now : Instant} {id : String} {content : Option String}
      {tags : Option (List PyStr.Text)} {updated : MemoryItem} {db db' : Db F}
      (h : db.update_memory now id content tags = .ok db') :
      DbMove D (.called t ⟨.update_memory id content tags, .ok updated⟩) db db'
  | deleted {t : ℕ} {id : String} {db db' : Db F} (h : db.delete_memory id = .ok db') :
      DbMove D (.called t ⟨.delete_memory id, .ok ()⟩) db db'
  | saved {t : ℕ} {p : Publication F} {db db' : Db F} (h : p.save D db = (true, db')) :
      DbMove D (.called t ⟨.save_embedding p, .ok true⟩) db db'
  | unembedded {t : ℕ} {id : String} {db : Db F} :
      DbMove D (.called t ⟨.delete_embedding id, .ok ()⟩) db (db.delete_embedding id)

/-- A call that may fail: it goes through, or it raises and has done nothing. -/
theorem fallible_cases {α : Type} {w : EmbWorld F} {outcome : Outcome}
    {x y : Except Exc α × EmbWorld F} (h : w.fallible outcome x = some y) :
    y = x ∨ ∃ e, y = (.error e, w) := by
  cases outcome with
  | raises e => exact .inr ⟨e, (Option.some.inj h).symm⟩
  | goes => exact .inl (Option.some.inj h).symm
  | times_out => exact .inl (Option.some.inj h).symm
  | unlisted => exact .inl (Option.some.inj h).symm

/-- A write method that raises leaves the file alone. -/
theorem write_cases {w w' : EmbWorld F} {x : Except Exc (Db F)} {r : Except Exc Unit}
    (h : (r, w') = w.write x) : (r = .ok () ∧ x = .ok w'.db) ∨ ∃ e, r = .error e ∧ w' = w := by
  cases x with
  | ok db =>
      obtain ⟨rfl, rfl⟩ := Prod.mk.inj h
      exact .inl ⟨rfl, rfl⟩
  | error e =>
      obtain ⟨rfl, rfl⟩ := Prod.mk.inj h
      exact .inr ⟨e, rfl, rfl⟩

/-- The store after an operation, whatever the operation was. -/
theorem exec_db {t : ℕ} {o : EmbOp F} {outcome : Outcome} {w w' : EmbWorld F}
    {r : Except Exc o.Resp} (h : w.exec D t o outcome = some (r, w')) :
    DbMove D (.called t ⟨o, r⟩) w.db w'.db := by
  -- a call that raises changes nothing, and no error answer counts as a write
  have raised : ∀ {o : EmbOp F} (e : Exc),
      DbMove D (.called t ⟨o, .error e⟩) w.db w.db := by
    intro o e
    apply DbMove.quiet
    cases o <;> rfl
  cases o with
  | add_memory item =>
      rcases fallible_cases h with hx | ⟨e, hx⟩
      · rcases write_cases hx with ⟨rfl, hdb⟩ | ⟨e, rfl, rfl⟩
        · exact .added hdb
        · exact raised e
      · obtain ⟨rfl, rfl⟩ := Prod.mk.inj hx
        exact raised e
  | update_memory id content tags =>
      rcases fallible_cases h with hx | ⟨e, hx⟩
      · cases hdb : w.db.update_memory w.now id content tags with
        | ok db =>
            rw [hdb] at hx
            dsimp only at hx
            cases hget : db.get_memory id with
            | some item =>
                rw [hget] at hx
                obtain ⟨rfl, rfl⟩ := Prod.mk.inj hx
                exact .updated hdb
            | none =>
                rw [hget] at hx
                obtain ⟨rfl, rfl⟩ := Prod.mk.inj hx
                exact raised _
        | error e =>
            rw [hdb] at hx
            obtain ⟨rfl, rfl⟩ := Prod.mk.inj hx
            exact raised e
      · obtain ⟨rfl, rfl⟩ := Prod.mk.inj hx
        exact raised e
  | delete_memory id =>
      rcases fallible_cases h with hx | ⟨e, hx⟩
      · rcases write_cases hx with ⟨rfl, hdb⟩ | ⟨e, rfl, rfl⟩
        · exact .deleted hdb
        · exact raised e
      · obtain ⟨rfl, rfl⟩ := Prod.mk.inj hx
        exact raised e
  | save_embedding p =>
      rcases fallible_cases h with hx | ⟨e, hx⟩
      · obtain ⟨rfl, rfl⟩ := Prod.mk.inj hx
        rcases Db.save_embedding_cases D.hash_content w.db p.memory_id p.embedding p.model p.provider
          p.content_hash p.model_revision p.settings_fingerprint p.status with
          ⟨hout, -⟩ | ⟨htrue, -⟩
        · rw [hout]
          exact .quiet rfl
        · rw [htrue]
          exact .saved (Prod.ext htrue rfl)
      · obtain ⟨rfl, rfl⟩ := Prod.mk.inj hx
        exact raised e
  | delete_embedding id =>
      rcases fallible_cases h with hx | ⟨e, hx⟩
      · obtain ⟨rfl, rfl⟩ := Prod.mk.inj hx
        exact .unembedded
      · obtain ⟨rfl, rfl⟩ := Prod.mk.inj hx
        exact raised e
  | list_memory project_id =>
      rcases fallible_cases h with hx | ⟨e, hx⟩ <;> obtain ⟨rfl, rfl⟩ := Prod.mk.inj hx <;>
        exact .quiet rfl
  | get_embedding_identity id =>
      rcases fallible_cases h with hx | ⟨e, hx⟩ <;> obtain ⟨rfl, rfl⟩ := Prod.mk.inj hx <;>
        exact .quiet rfl
  | http_post_embed texts =>
      rcases fallible_cases h with hx | ⟨e, hx⟩ <;> obtain ⟨rfl, rfl⟩ := Prod.mk.inj hx <;>
        exact .quiet rfl
  | http_get_tags =>
      cases outcome <;> obtain ⟨rfl, rfl⟩ := Prod.mk.inj (Option.some.inj h) <;>
        exact .quiet rfl
  | acquire_probe_lock =>
      simp only [EmbWorld.exec] at h
      split at h
      · obtain ⟨rfl, rfl⟩ := Prod.mk.inj (Option.some.inj h)
        exact .quiet rfl
      · obtain ⟨rfl, rfl⟩ := Prod.mk.inj (Option.some.inj h)
        exact .quiet rfl
      · cases h
  | _ =>
      obtain ⟨rfl, rfl⟩ := Prod.mk.inj (Option.some.inj h)
      exact .quiet rfl

/-! ## The attributes -/

/-- Calls to the store and to the provider. -/
def leaves_process : EmbOp F → Bool
  | .add_memory _ | .update_memory .. | .delete_memory _ | .list_memory _ | .get_embedding_identity _
  | .save_embedding _ | .delete_embedding _ | .http_post_embed _ | .http_get_tags => true
  | _ => false

/-- A call that leaves the process changes the store at most, and no attribute. -/
theorem exec_outside {t : ℕ} {o : EmbOp F} {outcome : Outcome} {w w' : EmbWorld F}
    {r : Except Exc o.Resp} (ho : leaves_process o = true) (h : w.exec D t o outcome = some (r, w')) :
    ∃ db, w' = { w with db } := by
  have written : ∀ {x : Except Exc (Db F)} {y : Except Exc Unit × EmbWorld F},
      w.fallible outcome (w.write x) = some y → ∃ db, y.2 = { w with db } := by
    intro x y hx
    rcases fallible_cases hx with rfl | ⟨e, rfl⟩
    · unfold EmbWorld.write
      split
      · exact ⟨_, rfl⟩
      · exact ⟨w.db, rfl⟩
    · exact ⟨w.db, rfl⟩
  cases o with
  | add_memory item => exact written h
  | delete_memory id => exact written h
  | update_memory id content tags =>
      rcases fallible_cases h with hx | ⟨e, hx⟩
      · -- the row is read back after the update
        split at hx
        · split at hx
          · exact ⟨_, (Prod.mk.inj hx).2⟩
          · exact ⟨w.db, (Prod.mk.inj hx).2⟩
        · exact ⟨w.db, (Prod.mk.inj hx).2⟩
      · exact ⟨w.db, (Prod.mk.inj hx).2⟩
  | list_memory _ | get_embedding_identity _ | save_embedding _ | delete_embedding _ | http_post_embed _ =>
      rcases fallible_cases h with hx | ⟨e, hx⟩
      · exact ⟨_, (Prod.mk.inj hx).2⟩
      · exact ⟨w.db, (Prod.mk.inj hx).2⟩
  | http_get_tags =>
      cases outcome <;> exact ⟨w.db, (Prod.mk.inj (Option.some.inj h)).2.symm⟩
  | _ => cases ho

/-- Starting a task touches at most the background slot. -/
theorem task_admitted_cases {task : EmbTask} {w w' : EmbWorld F}
    (h : task_admitted task w = some w') : w' = { w with background := w'.background } := by
  cases task with
  | background_backfill force =>
      simp only [task_admitted] at h
      split at h
      · obtain rfl := Option.some.inj h
        rfl
      · cases h
  | _ =>
      obtain rfl := Option.some.inj h
      rfl

/-- Every step writes one event and moves the store as that event says. -/
theorem step_db {c c' : EmbConf D} {a : (embedding D).Action} (h : c.step a = some c') :
    ∃ e, c'.log = e :: c.log ∧ DbMove D e c.world.db c'.world.db := by
  obtain ⟨task, w, -, hw, rfl⟩ | ⟨t, choice, o, k, r, w, -, -, hx, rfl⟩ | ⟨e, -, rfl⟩ :=
    Conf.step_cases h
  · refine ⟨_, rfl, ?_⟩
    have hdb : w.db = c.world.db := by
      rw [task_admitted_cases hw]
    dsimp only
    rw [hdb]
    exact .quiet rfl
  · exact ⟨_, rfl, exec_db hx⟩
  · refine ⟨_, rfl, ?_⟩
    cases e <;> exact .quiet rfl

/-- What a successful save found and left. -/
theorem save_true {p : Publication F} {db db' : Db F} (h : p.save D db = (true, db')) :
    (∃ item, db.get_memory p.memory_id = some item ∧ D.hash_content item.content = p.content_hash)
      ∧ (∀ id, db'.get_memory id = db.get_memory id)
      ∧ ∀ id, db'.embedding_row id = if id = p.memory_id then some p.row else db.embedding_row id := by
  rcases Db.save_embedding_cases D.hash_content db p.memory_id p.embedding p.model p.provider
    p.content_hash p.model_revision p.settings_fingerprint p.status with
    ⟨hout, -⟩ | ⟨-, hitem, hitems, -, hrow⟩
  · rw [Publication.save, hout] at h
    cases h
  · rw [Publication.save] at h
    rw [h] at hitems hrow
    refine ⟨hitem, ?_, hrow⟩
    intro id
    unfold Db.get_memory Db.memory_row
    rw [hitems]

/-! ## Re-pulls and verified revisions -/

/-- How often the tag was re-pulled. -/
def repulls (log : List (EmbEvent D)) : ℕ :=
  log.countP fun
    | .env .repull => true
    | _ => false

/-- The revisions probes have verified, the latest first. -/
def verified (log : List (EmbEvent D)) : List (Option String) :=
  log.filterMap fun
    | .called _ ⟨.probe_succeeded digest, _⟩ => some digest
    | _ => none

/-- The snapshot the adapter holds: the latest verified revision of this process. -/
def snapshot_of : List (EmbEvent D) → RevisionSnapshot
  | [] => UNKNOWN_REVISION
  | .called _ ⟨.probe_succeeded digest, _⟩ :: _ => ⟨true, digest⟩
  | .env .restart :: _ => UNKNOWN_REVISION
  | _ :: log => snapshot_of log

/-- A log that goes on has no fewer re-pulls. -/
theorem repulls_mono {log log' : List (EmbEvent D)} (h : log <:+ log') :
    repulls log ≤ repulls log' := by
  obtain ⟨post, rfl⟩ := h
  unfold repulls
  rw [List.countP_append]
  exact Nat.le_add_left _ _

/-- What was verified stays verified. -/
theorem verified_suffix {log log' : List (EmbEvent D)} (h : log <:+ log') :
    verified log <:+ verified log' := by
  obtain ⟨post, rfl⟩ := h
  unfold verified
  rw [List.filterMap_append]
  exact List.suffix_append _ _

/-- Only a probe that succeeds verifies a revision. -/
theorem verified_cons_of_ne {e : EmbEvent D} {log : List (EmbEvent D)}
    (he : ∀ t digest r, e = .called t ⟨.probe_succeeded digest, r⟩ → False) :
    verified (e :: log) = verified log := by
  unfold verified
  rw [List.filterMap_cons]
  split
  · rfl
  · next digest heq =>
      split at heq
      · next u d r => exact (he u d r rfl).elim
      · cases heq

/-- A known snapshot was put there by the latest probe that verified one. -/
theorem snapshot_of_known {log : List (EmbEvent D)} {value : Option String}
    (h : snapshot_of log = ⟨true, value⟩) : (verified log).head? = some value := by
  fun_induction snapshot_of log with
  | case1 => cases h
  | case2 t digest r log =>
      obtain rfl := (RevisionSnapshot.mk.inj h).2
      rfl
  | case3 log => cases h
  | case4 e log hprobe hrestart ih =>
      rw [verified_cons_of_ne hprobe]
      exact ih h

/-- What the answer of a call says about the log before it. -/
def Answered (D : Deployment F) (pre : List (EmbEvent D)) : EmbEvent D → Prop
  | .called _ ⟨.read_revision, .ok snapshot⟩ => snapshot = snapshot_of pre
  | .called _ ⟨.http_get_tags, .ok (some digest)⟩ => digest = D.digest (repulls pre)
  | .called _ ⟨.http_post_embed texts, .ok vecs⟩ => vecs = texts.map (D.produce (repulls pre))
  | _ => True

/-- The log accounts for the world. -/
structure Tracked (c : EmbConf D) : Prop where
  pulls : c.world.pulls = repulls c.log
  revision : c.world.revision = snapshot_of c.log
  answered : Each (Answered D) c.log

/-- A call moves the snapshot as its event says, and re-pulls nothing. -/
theorem exec_tracked {t : ℕ} {o : EmbOp F} {outcome : Outcome} {w w' : EmbWorld F}
    {r : Except Exc o.Resp} (h : w.exec D t o outcome = some (r, w')) {pre : List (EmbEvent D)}
    (hp : w.pulls = repulls pre) (hv : w.revision = snapshot_of pre) :
    w'.pulls = w.pulls ∧ w'.revision = snapshot_of (.called t ⟨o, r⟩ :: pre)
      ∧ Answered D pre (.called t ⟨o, r⟩) := by
  cases o with
  | add_memory _ | update_memory _ _ _ | delete_memory _ | list_memory _ | get_embedding_identity _
  | save_embedding _ | delete_embedding _ =>
      obtain ⟨db, rfl⟩ := exec_outside rfl h
      exact ⟨rfl, hv, trivial⟩
  | http_post_embed texts =>
      rcases fallible_cases h with hx | ⟨e, hx⟩ <;> obtain ⟨rfl, rfl⟩ := Prod.mk.inj hx
      · exact ⟨rfl, hv, by rw [Answered, hp]⟩
      · exact ⟨rfl, hv, trivial⟩
  | http_get_tags =>
      cases outcome <;> obtain ⟨rfl, rfl⟩ := Prod.mk.inj (Option.some.inj h)
      · exact ⟨rfl, hv, by rw [Answered, hp]⟩
      · exact ⟨rfl, hv, trivial⟩
      · exact ⟨rfl, hv, by rw [Answered, hp]⟩
      · exact ⟨rfl, hv, trivial⟩
  | acquire_probe_lock =>
      simp only [EmbWorld.exec] at h
      split at h
      · obtain ⟨rfl, rfl⟩ := Prod.mk.inj (Option.some.inj h)
        exact ⟨rfl, hv, trivial⟩
      · obtain ⟨rfl, rfl⟩ := Prod.mk.inj (Option.some.inj h)
        exact ⟨rfl, hv, trivial⟩
      · cases h
  | probe_succeeded digest =>
      obtain ⟨rfl, rfl⟩ := Prod.mk.inj (Option.some.inj h)
      exact ⟨rfl, rfl, trivial⟩
  | read_revision =>
      obtain ⟨rfl, rfl⟩ := Prod.mk.inj (Option.some.inj h)
      exact ⟨rfl, hv, hv⟩
  | _ =>
      obtain ⟨rfl, rfl⟩ := Prod.mk.inj (Option.some.inj h)
      exact ⟨rfl, hv, trivial⟩

/-- Nothing is verified in a process that has just started. -/
theorem tracked_boot (db : Db F) : Tracked (Conf.initial (M := embedding D) (boot db)) :=
  ⟨rfl, rfl, each_nil⟩

/-- Each step keeps the account. -/
theorem tracked_step {c c' : EmbConf D} {a : (embedding D).Action} (hc : Tracked c)
    (h : c.step a = some c') : Tracked c' := by
  obtain ⟨task, w, -, hw, rfl⟩ | ⟨t, choice, o, k, r, w, -, -, hx, rfl⟩ | ⟨e, -, rfl⟩ :=
    Conf.step_cases h
  · have hfields : w.pulls = c.world.pulls ∧ w.revision = c.world.revision := by
      rw [task_admitted_cases hw]
      exact ⟨rfl, rfl⟩
    exact ⟨hfields.1.trans hc.pulls, hfields.2.trans hc.revision,
      each_cons.mpr ⟨trivial, hc.answered⟩⟩
  · obtain ⟨hp, hv, ha⟩ := exec_tracked hx hc.pulls hc.revision
    exact ⟨hp.trans hc.pulls, hv, each_cons.mpr ⟨ha, hc.answered⟩⟩
  · refine ⟨?_, ?_, each_cons.mpr ⟨trivial, hc.answered⟩⟩
    · cases e with
      | repull =>
          change c.world.pulls + 1 = repulls (.env .repull :: c.log)
          rw [hc.pulls, repulls, repulls, List.countP_cons_of_pos rfl]
      | pass ms => exact hc.pulls
      | restart => exact hc.pulls
    · cases e with
      | repull => exact hc.revision
      | pass ms => exact hc.revision
      | restart => rfl

/-- In every run the adapter's snapshot is what the log says. -/
theorem reach_tracked {ok : EmbConf D → (embedding D).Action → Prop} {db : Db F} {c : EmbConf D}
    (h : Reach ok (Conf.initial (boot db)) c) : Tracked c := by
  induction h with
  | init => exact tracked_boot db
  | step _ _ hs ih => exact tracked_step ih hs

/-- In every run, every call keeps its program's order. -/
theorem reach_ordered {ok : EmbConf D → (embedding D).Action → Prop} {w : EmbWorld F}
    {c : EmbConf D} (h : Reach ok (Conf.initial w) c) : InOrder (Ordered D) Ended c :=
  reach_inOrder (task_ordered D) h

/-! ## Where the rows come from -/

/-- A row after a step was there before it, or the step saved it. -/
theorem DbMove.row {e : EmbEvent D} {db db' : Db F} (h : DbMove D e db db') {id : String}
    {row : EmbeddingRow F} (hrow : db'.embedding_row id = some row) :
    db.embedding_row id = some row
      ∨ ∃ t p, e = .called t ⟨.save_embedding p, .ok true⟩ ∧ p.row = row := by
  cases h with
  | quiet _ => exact .inl hrow
  | added hadd =>
      left
      rw [Db.embedding_row, ← (Db.add_memory_ok hadd).2.1]
      exact hrow
  | updated hupd =>
      left
      rw [Db.embedding_row, ← (Db.update_row_ok hupd).2.2.1]
      exact hrow
  | deleted hdel =>
      rw [(Db.delete_memory_ok hdel).2.1] at hrow
      split at hrow
      · cases hrow
      · exact .inl hrow
  | @saved t p _ _ hsave =>
      rw [(save_true hsave).2.2] at hrow
      split at hrow
      · obtain rfl := Option.some.inj hrow
        exact .inr ⟨t, p, rfl, rfl⟩
      · exact .inl hrow
  | unembedded =>
      rw [Db.delete_embedding_row] at hrow
      split at hrow
      · cases hrow
      · exact .inl hrow

/-- Every stored row was put there by a save in the log. -/
def Sourced (c : EmbConf D) : Prop :=
  ∀ id row, c.world.db.embedding_row id = some row →
    ∃ t p, .called t ⟨.save_embedding p, .ok true⟩ ∈ c.log ∧ p.row = row

/-- A row comes from a save, and saves are never taken out of the log. -/
theorem sourced_step {c c' : EmbConf D} {a : (embedding D).Action} (hc : Sourced c)
    (h : c.step a = some c') : Sourced c' := by
  obtain ⟨e, hlog, hmove⟩ := step_db h
  intro id row hrow
  rw [hlog]
  rcases hmove.row hrow with hold | ⟨t, p, rfl, hp⟩
  · obtain ⟨t, p, hmem, hp⟩ := hc id row hold
    exact ⟨t, p, List.mem_cons_of_mem _ hmem, hp⟩
  · exact ⟨t, p, List.mem_cons_self, hp⟩

/-- In every run from a store without vectors each row comes from a save. -/
theorem reach_sourced {ok : EmbConf D → (embedding D).Action → Prop} {db : Db F}
    (hdb : db.memory_embeddings = []) {c : EmbConf D} (h : Reach ok (Conf.initial (boot db)) c) :
    Sourced c := by
  induction h with
  | init =>
      intro id row hrow
      change db.embedding_row id = some row at hrow
      rw [Db.embedding_row, hdb] at hrow
      cases hrow
  | step _ _ hs ih => exact sourced_step ih hs

/-- A stored vector was embedded by a thread that had read its stamp as verified, from a
text with the row's hash. -/
theorem reach_embedded {ok : EmbConf D → (embedding D).Action → Prop} {db : Db F}
    (hdb : db.memory_embeddings = []) {c : EmbConf D} (h : Reach ok (Conf.initial (boot db)) c)
    {id : String} {row : EmbeddingRow F} (hrow : c.world.db.embedding_row id = some row)
    (hok : row.status = .ok) :
    ∃ t text texts vecs, ∃ pre : List (EmbEvent D),
      .called t ⟨.http_post_embed texts, .ok vecs⟩ :: pre <:+ c.log
      ∧ KnownRead row.model_revision (own t pre) ∧ (text, row.embedding) ∈ texts.zip vecs
      ∧ row.content_hash = D.hash_content text := by
  obtain ⟨t, p, hmem, rfl⟩ := reach_sourced hdb h id row hrow
  obtain ⟨pre, hsave⟩ := suffix_of_mem hmem
  obtain ⟨task, -, -, text, hhash, hfrom⟩ := (reach_ordered h).each _ pre hsave
  obtain ⟨before, hread, texts, vecs, h', hcall, hbefore, hzip⟩ := hfrom hok
  obtain ⟨pre', hembed, hpre'⟩ := own_split hcall
  refine ⟨t, text, texts, vecs, pre', ?_, ?_, hzip, hhash⟩
  · exact hembed.trans ((List.suffix_cons _ _).trans hsave)
  · rw [hpre']
    exact hread.mono hbefore

/-! ## A small run -/

namespace Scenario

/-- A server whose digests are `r`, `rr`, … and whose vectors name the weights they
were made by. -/
def server : Deployment ℕ where
  model_name := "nomic-embed-text"
  provider_name := "ollama"
  settings_fingerprint := ""
  hash_content := id
  digest n := some (String.ofList (List.replicate (n + 1) 'r'))
  produce n text := [n, text.length]

/-- The sample server never gives a digest twice. -/
theorem server_digest_injective : Function.Injective server.digest := by
  intro m n h
  have hlen := congrArg (fun d : Option String => (d.getD "").length) h
  simpa [server] using hlen

/-- One note, not embedded yet. -/
def store : Db ℕ where
  memory_items := [{ id := "note", content := "draft", created_at := 0, rowid := 1 }]
  memory_pk := by decide
  rowid_pk := by decide

abbrev Step := (embedding server).Action

/-- Let thread `t` make `n` calls, all of them going through. -/
def go (t n : ℕ) : List Step := List.replicate n (.run t .goes)

/-- Thread `t` verifies the revision. -/
def verify (t : ℕ) : List Step := .start (.refresh_revision true) :: go t 5

/-- The configuration after some steps from the note's store. -/
def after (acts : List Step) : Option (EmbConf server) :=
  (Conf.initial (M := embedding server) (boot store)).steps (fun _ _ => true) acts

/-- A property of the configuration some steps lead to, with the run that shows it
reachable. -/
theorem reach_after {acts : List Step} {p : EmbConf server → Bool}
    (h : (after acts).any p = true) :
    ∃ c, Reach (fun _ _ => True) (Conf.initial (boot store)) c ∧ p c = true := by
  obtain ⟨c, hc, hp⟩ := (Option.any_eq_true _ _).mp h
  exact ⟨c, reach_of_steps (fun _ _ _ => trivial) hc, hp⟩

end Scenario

end OpenChronicle
