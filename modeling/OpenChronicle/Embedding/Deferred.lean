/-
A write refused for an unknown revision is not lost.

A use case stores its memory before `generate_for_memory` reads the revision, and a backfill lists the
corpus after it read a verified one. Within a process a verified revision never becomes unknown again.
So a listing comes after every read that refused a write, and finds the memory. What a backfill then
leaves out it found current when it checked it, which may be later than the listing.

The argument is about the order of events, and so the file works on the log of a run and not on its
states. The pieces are: where a recorded revision comes from (`Recorded`), that an unknown snapshot has
nothing verified before it (`verified_of_unknown`), and that a listing after the store call has the
memory among its items (`listed_of_stored`). `taken_in_of_recorded` puts them in sequence.

A restart is left out by `SameProcess`: after it the revision is unknown again although a backfill has
completed, and the two clauses about the refresher tick would then be about two processes.
-/
import OpenChronicle.Embedding.Revision

set_option autoImplicit false

namespace OpenChronicle

open Program Machine

variable {F : Type} {D : Deployment F}

/-- Any step but a restart. -/
def SameProcess (_ : EmbConf D) (a : (embedding D).Action) : Prop := a ≠ .env .restart

/-- The task is `add_memory.execute` or `update_memory.execute`. -/
def is_write : EmbTask → Bool
  | .add_memory .. => true
  | .update_memory .. => true
  | _ => false

/-- The call stored the memory. -/
def stores (memory_id : String) : EmbCall F → Prop
  | ⟨.add_memory item, .ok _⟩ => item.id = memory_id
  | ⟨.update_memory id _ _, .ok _⟩ => id = memory_id
  | _ => False

/-- The backfill of thread `b` that recorded `revision` listed the memory, and not before
the point `since`; it chose the memory, or found it current when it checked it. -/
def TakenIn (D : Deployment F) (b : ℕ) (revision : Option String) (memory_id : String)
    (since at_record : List (EmbEvent D)) : Prop :=
  ∃ ids r items item, ∃ at_choice at_list : List (EmbEvent D),
    .called b ⟨.candidates ids, r⟩ :: at_choice <:+ at_record
    ∧ .called b ⟨.list_memory none, .ok items⟩ :: at_list <:+ at_choice ∧ since <:+ at_list
    ∧ item ∈ items ∧ item.id = memory_id
    ∧ (memory_id ∈ ids ∨ ∃ identity, ∃ at_check : List (EmbEvent D),
      .called b ⟨.get_embedding_identity memory_id, .ok (some identity)⟩ :: at_check <:+ at_choice
      ∧ .called b ⟨.list_memory none, .ok items⟩ :: at_list <:+ at_check
      ∧ identity_current D identity item.content revision = true)

/-! ## The recorded revision -/

/-- What a call does to `_reconciled_revision`, and what it reads of it. -/
theorem exec_reconciled {t : ℕ} {o : EmbOp F} {outcome : Outcome} {w w' : EmbWorld F}
    {r : Except Exc o.Resp} (h : w.exec D t o outcome = some (r, w')) :
    (∃ revision, (⟨o, r⟩ : EmbCall F) = ⟨.set_reconciled revision, .ok ()⟩
        ∧ w'.reconciled_revision = some revision)
      ∨ (w'.reconciled_revision = w.reconciled_revision
        ∧ ∀ x, (⟨o, r⟩ : EmbCall F) = ⟨.read_reconciled, .ok x⟩ → x = w.reconciled_revision) := by
  cases o with
  | add_memory _ | update_memory _ _ _ | delete_memory _ | list_memory _ | get_embedding_identity _
  | save_embedding _ | delete_embedding _ | http_post_embed _ | http_get_tags =>
      obtain ⟨db, rfl⟩ := exec_outside rfl h
      exact .inr ⟨rfl, fun _ heq => by cases heq⟩
  | acquire_probe_lock =>
      simp only [EmbWorld.exec] at h
      split at h
      · obtain ⟨rfl, rfl⟩ := Prod.mk.inj (Option.some.inj h)
        exact .inr ⟨rfl, fun _ heq => by cases heq⟩
      · obtain ⟨rfl, rfl⟩ := Prod.mk.inj (Option.some.inj h)
        exact .inr ⟨rfl, fun _ heq => by cases heq⟩
      · cases h
  | set_reconciled revision =>
      obtain ⟨rfl, rfl⟩ := Prod.mk.inj (Option.some.inj h)
      exact .inl ⟨revision, rfl, rfl⟩
  | read_reconciled =>
      obtain ⟨rfl, rfl⟩ := Prod.mk.inj (Option.some.inj h)
      refine .inr ⟨rfl, ?_⟩
      rintro x ⟨⟩
      rfl
  | _ =>
      obtain ⟨rfl, rfl⟩ := Prod.mk.inj (Option.some.inj h)
      exact .inr ⟨rfl, fun _ heq => by cases heq⟩

/-- What is recorded, and what was read as recorded, a backfill recorded before. -/
structure Recorded (c : EmbConf D) : Prop where
  now : ∀ revision, c.world.reconciled_revision = some revision →
    ∃ b, .called b ⟨.set_reconciled revision, .ok ()⟩ ∈ c.log
  reads : Each (fun pre (e : EmbEvent D) => ∀ t revision,
    e = .called t ⟨.read_reconciled, .ok (some revision)⟩ →
      ∃ b, .called b ⟨.set_reconciled revision, .ok ()⟩ ∈ pre) c.log

/-- The log only grows, so what is recorded stays witnessed; a call that records a revision is its own
witness. -/
theorem recorded_step {c c' : EmbConf D} {a : (embedding D).Action} (hc : Recorded c)
    (h : c.step a = some c') : Recorded c' := by
  -- a witness in the log stays one
  have now_cons : ∀ (e : EmbEvent D) revision, c.world.reconciled_revision = some revision →
      ∃ b, .called b ⟨.set_reconciled revision, .ok ()⟩ ∈ e :: c.log := by
    intro e revision hr
    obtain ⟨b, hb⟩ := hc.now revision hr
    exact ⟨b, List.mem_cons_of_mem _ hb⟩
  obtain ⟨task, w, -, hw, rfl⟩ | ⟨t, choice, o, k, r, w, -, -, hx, rfl⟩ | ⟨e, -, rfl⟩ :=
    Conf.step_cases h
  · refine ⟨?_, each_cons.mpr ⟨fun _ _ => nofun, hc.reads⟩⟩
    intro revision hr
    dsimp only at hr
    rw [task_admitted_cases hw] at hr
    exact now_cons _ revision hr
  · -- the call records a revision, or it leaves the recorded one and may read it
    rcases exec_reconciled hx with ⟨revision, hcall, hset⟩ | ⟨hsame, hread⟩
    · refine ⟨?_, each_cons.mpr ⟨?_, hc.reads⟩⟩
      · intro revision' hr
        dsimp only at hr ⊢
        rw [hset] at hr
        obtain rfl := Option.some.inj hr
        exact ⟨t, by rw [hcall]; exact List.mem_cons_self⟩
      · intro u revision' heq
        rw [hcall] at heq
        cases heq
    · refine ⟨?_, each_cons.mpr ⟨?_, hc.reads⟩⟩
      · intro revision hr
        dsimp only at hr
        rw [hsame] at hr
        exact now_cons _ revision hr
      · intro u revision heq
        obtain ⟨-, hcall⟩ := Event.called.inj heq
        exact hc.now revision (hread _ hcall).symm
  · refine ⟨?_, each_cons.mpr ⟨fun _ _ => nofun, hc.reads⟩⟩
    intro revision hr
    cases e with
    | restart => cases hr
    | repull => exact now_cons _ revision hr
    | pass ms => exact now_cons _ revision hr

/-- A process starts with nothing recorded. -/
theorem reach_recorded {ok : EmbConf D → (embedding D).Action → Prop} {db : Db F} {c : EmbConf D}
    (h : Reach ok (Conf.initial (boot db)) c) : Recorded c := by
  induction h with
  | init => exact ⟨nofun, each_nil⟩
  | step _ _ hs ih => exact recorded_step ih hs

/-! ## Within one process -/

section Runs

variable {db : Db F} {c : EmbConf D}

/-- The log of a run within one process has no restart in it. -/
theorem no_restart (h : Reach SameProcess (Conf.initial (boot db)) c) : .env .restart ∉ c.log := by
  induction h with
  | init => exact nofun
  | @step c c' a hr ha hs ih =>
      obtain ⟨task, w, -, -, rfl⟩ | ⟨t, choice, o, k, r, w, -, -, -, rfl⟩ | ⟨e, rfl, rfl⟩ :=
        Conf.step_cases hs
      · exact fun hin => ih ((List.mem_cons.mp hin).resolve_left nofun)
      · exact fun hin => ih ((List.mem_cons.mp hin).resolve_left nofun)
      · intro hin
        rcases List.mem_cons.mp hin with heq | hin
        · exact ha (by rw [← Event.env.inj heq])
        · exact ih hin

/-- While the snapshot is unknown nothing has been verified. -/
theorem verified_of_unknown {log : List (EmbEvent D)} (hlog : .env .restart ∉ log)
    (h : (snapshot_of log).known = false) : verified log = [] := by
  fun_induction snapshot_of log with
  | case1 => rfl
  | case2 t digest r log => cases h
  | case3 log => exact absurd List.mem_cons_self hlog
  | case4 e log hprobe hrestart ih =>
      rw [verified_cons_of_ne hprobe]
      exact ih (fun hin => hlog (List.mem_cons_of_mem _ hin)) h

/-- A listing under a revision comes after every read of it as unknown. -/
theorem unknown_before_known (h : Reach SameProcess (Conf.initial (boot db)) c) {t b : ℕ}
    {snapshot : RevisionSnapshot} {revision : Option String} {at_read at_list : List (EmbEvent D)}
    (hread : .called t ⟨.read_revision, .ok snapshot⟩ :: at_read <:+ c.log)
    (hunknown : snapshot.known = false) (hlist : at_list <:+ c.log)
    (hknown : KnownRead revision (own b at_list)) : at_read <:+ at_list := by
  have hsnap : snapshot = snapshot_of at_read := (reach_tracked h).answered _ _ hread
  have hnone : verified at_read = [] := by
    refine verified_of_unknown ?_ (by rw [← hsnap]; exact hunknown)
    intro hin
    exact no_restart h (hread.subset (List.mem_cons_of_mem _ hin))
  rcases List.suffix_or_suffix_of_suffix ((List.suffix_cons _ _).trans hread) hlist with hs | hs
  · exact hs
  · -- the other way round, a verified revision would be older than the unknown read
    obtain ⟨at_known, hk⟩ := suffix_of_mem (mem_own.mp hknown)
    have hin := verified_of_read h (hk.trans hlist)
    have hle : at_known <:+ at_read := ((List.suffix_cons _ _).trans hk).trans hs
    have := (verified_suffix hle).subset hin
    rw [hnone] at this
    cases this

/-- A memory that is there and not deleted is still there. -/
theorem memory_kept {ok : EmbConf D → (embedding D).Action → Prop} {c₀ : EmbConf D}
    (h : Reach ok c₀ c) {id : String} (hin : (c₀.world.db.get_memory id).isSome)
    (hkept : ∀ u past, .called u ⟨.delete_memory id, .ok ()⟩ :: past <:+ c.log →
      ¬ c₀.log <:+ past) : (c.world.db.get_memory id).isSome := by
  induction h with
  | init => exact hin
  | @step c c' a hr ha hs ih =>
      obtain ⟨e, hlog, hmove⟩ := step_db hs
      have hthere := ih fun u past hs' => hkept u past (by
        rw [hlog]
        exact hs'.trans (List.suffix_cons _ _))
      have hlast : e :: c.log <:+ c'.log := by rw [hlog]
      generalize c.world.db = db₁, c'.world.db = db₂ at hmove hthere
      cases hmove with
      | quiet _ => exact hthere
      | added hadd =>
          rw [(Db.add_memory_ok hadd).1]
          split
          · rfl
          · exact hthere
      | updated hupd =>
          rw [(Db.update_row_ok hupd).2.1]
          split
          · rw [Option.isSome_map]
            exact hthere
          · exact hthere
      | @deleted u uid _ _ hdel =>
          rw [(Db.delete_memory_ok hdel).1]
          split
          · next hid =>
              subst hid
              exact absurd hr.log_suffix (hkept u c.log hlast)
          · exact hthere
      | saved hsave =>
          rw [(save_true hsave).2.1]
          exact hthere
      | unembedded => exact hthere

/-- The store call leaves the memory there. -/
theorem there_of_stored {c' : EmbConf D} {a : (embedding D).Action} (h : c.step a = some c')
    {t : ℕ} {k : EmbCall F} {id : String} (hlog : c'.log = .called t k :: c.log)
    (hk : stores id k) : (c'.world.db.get_memory id).isSome := by
  obtain ⟨e, hlog', hmove⟩ := step_db h
  obtain ⟨rfl, -⟩ := List.cons.inj (hlog.symm.trans hlog')
  generalize c.world.db = db₁, c'.world.db = db₂ at hmove
  cases hmove with
  | quiet hq =>
      obtain ⟨o, r⟩ := k
      cases o <;> cases r <;> first | exact hk.elim | cases hq
  | added hadd =>
      rw [(Db.add_memory_ok hadd).1, if_pos hk.symm]
      rfl
  | updated hupd =>
      have hthere := (Db.update_row_ok hupd).1
      rw [(Db.update_row_ok hupd).2.1, if_pos hk.symm, Option.isSome_map, ← hk]
      exact hthere
  | deleted hdel => exact hk.elim
  | saved hsave => exact hk.elim
  | unembedded => exact hk.elim

/-- What a whole-corpus listing answers. -/
theorem listed_of_step {c' : EmbConf D} {a : (embedding D).Action} (h : c.step a = some c')
    {b : ℕ} {items : List MemoryItem}
    (hlog : c'.log = .called b ⟨.list_memory none, .ok items⟩ :: c.log) :
    items = c.world.db.list_memory none false 0 none none none false := by
  obtain ⟨task, w, -, -, rfl⟩ | ⟨u, choice, o, k, r, w, -, -, hx, rfl⟩ | ⟨e, -, rfl⟩ :=
    Conf.step_cases h
  · cases (List.cons.inj hlog).1
  · obtain ⟨-, hcall⟩ := Event.called.inj (List.cons.inj hlog).1
    cases hcall
    rcases fallible_cases hx with hans | ⟨e, hans⟩
    · obtain ⟨hans, -⟩ := Prod.mk.inj hans
      exact Except.ok.inj hans
    · cases (Prod.mk.inj hans).1
  · cases (List.cons.inj hlog).1

/-- Of the calls of a use case it is the store call that `Stored` speaks of. -/
theorem stores_of_stored {task : EmbTask} (hwrite : is_write task = true) {id : String}
    {h : List (EmbCall F)} (hst : Stored task id h) : ∃ k ∈ h, stores id k := by
  cases task with
  | add_memory item service => exact ⟨_, hst.2, hst.1⟩
  | update_memory uid content tags service =>
      obtain ⟨hid, updated, hin⟩ := hst
      exact ⟨_, hin, hid⟩
  | _ => cases hwrite

/-- A listing after the memory was stored, with no deletion in between, contains it. -/
theorem listed_of_stored (h : Reach SameProcess (Conf.initial (boot db)) c) {t b : ℕ}
    {k : EmbCall F} {id : String} {items : List MemoryItem} {at_list : List (EmbEvent D)}
    (hlist : .called b ⟨.list_memory none, .ok items⟩ :: at_list <:+ c.log)
    (hk : .called t k ∈ at_list) (hstores : stores id k)
    (hkept : ∀ u past, .called u ⟨.delete_memory id, .ok ()⟩ :: past <:+ c.log →
      ∀ k, .called t k ∈ past → ¬ stores id k) : ∃ item ∈ items, item.id = id := by
  obtain ⟨c₁, a, c₂, h₁, rfl, -, hs, hlog₂, -⟩ := h.cut hlist
  -- the configuration right after the store call, and from there to the listing
  obtain ⟨at_store, hstore⟩ := suffix_of_mem hk
  obtain ⟨s₁, a', s₂, -, rfl, -, hs', hlog₂', h₂⟩ := h₁.cut hstore
  have hthere : (c₁.world.db.get_memory id).isSome := by
    refine memory_kept h₂ (there_of_stored hs' hlog₂' hstores) ?_
    intro u past hdel hpast
    refine hkept u past (hdel.trans ((List.suffix_cons _ _).trans hlist)) k ?_ hstores
    rw [hlog₂'] at hpast
    exact hpast.subset List.mem_cons_self
  obtain ⟨item, hitem⟩ := Option.isSome_iff_exists.mp hthere
  have hid := Db.id_of_get_memory hitem
  refine ⟨item, ?_, hid⟩
  rw [listed_of_step hs hlog₂, Db.mem_list_memory_all, Db.mem_items_iff, hid]
  exact hitem

/-- A backfill that recorded a revision had listed the corpus after the read of every write that
found the revision unknown. -/
theorem taken_in_of_recorded (h : Reach SameProcess (Conf.initial (boot db)) c) {t : ℕ} {id : String}
    {snapshot : RevisionSnapshot} {at_read : List (EmbEvent D)} {k : EmbCall F}
    (hread : .called t ⟨.read_revision, .ok snapshot⟩ :: at_read <:+ c.log)
    (hunknown : snapshot.known = false) (hk : .called t k ∈ at_read) (hstores : stores id k)
    (hkept : ∀ u past, .called u ⟨.delete_memory id, .ok ()⟩ :: past <:+ c.log →
      ∀ k, .called t k ∈ past → ¬ stores id k)
    {b : ℕ} {revision : Option String} {r : Except Exc Unit} {at_record : List (EmbEvent D)}
    (hrec : .called b ⟨.set_reconciled revision, r⟩ :: at_record <:+ c.log) :
    TakenIn D b revision id at_read at_record := by
  have hat : at_record <:+ c.log := (List.suffix_cons _ _).trans hrec
  obtain ⟨-, -, ⟨ids, items, rc, old, h', hcand, hlist, hknown, hitems⟩, -⟩ := (reach_ordered h).each _ _ hrec
  obtain ⟨at_choice, hchoice, rfl⟩ := own_split hcand
  have hchoice' : at_choice <:+ c.log := ((List.suffix_cons _ _).trans hchoice).trans hat
  -- wherever the listing stands, it is after the read and contains the memory
  have hlisted : ∀ at_list : List (EmbEvent D),
      .called b ⟨.list_memory none, .ok items⟩ :: at_list <:+ at_choice → own b at_list = old →
      at_read <:+ at_list ∧ ∃ item ∈ items, item.id = id := by
    intro at_list hl hown
    have hl' := hl.trans hchoice'
    have hle : at_read <:+ at_list :=
      unknown_before_known h hread hunknown ((List.suffix_cons _ _).trans hl') (hown ▸ hknown)
    exact ⟨hle, listed_of_stored h hl' (hle.subset hk) hstores hkept⟩
  obtain ⟨at_list, hl, hown⟩ := own_split hlist
  obtain ⟨hle, item, hitem, rfl⟩ := hlisted at_list hl hown
  rcases hitems item hitem with hin | ⟨identity, h₁, hcall, hbefore, hcur⟩
  · exact ⟨ids, rc, items, item, at_choice, at_list, hchoice, hl, hle, hitem, rfl, .inl hin⟩
  · obtain ⟨at_check, hcheck, rfl⟩ := own_split hcall
    obtain ⟨at_list', hl', hown'⟩ := own_split hbefore
    have hl'' := hl'.trans ((List.suffix_cons _ _).trans hcheck)
    exact ⟨ids, rc, items, item, at_choice, at_list', hchoice, hl'', (hlisted at_list' hl'' hown').1,
      hitem, rfl, .inr ⟨identity, at_check, hcheck, hl', hcur⟩⟩

/-- **A deferred write is taken in.** In every run within one process: let a use case's
`generate_for_memory` have refused because the revision was unknown, and let the memory
not be deleted since it was stored. When the refusing read was made no whole-corpus
backfill had completed, and nothing was recorded as reconciled; a refresher tick that
has ended found the revision unknown, a backfill completed against it or one running,
or created one; and every whole-corpus backfill that completes lists the memory after
that read and chooses it, unless it found it current when it checked it. -/
theorem deferred_write_is_taken_in (h : Reach SameProcess (Conf.initial (boot db)) c) {t : ℕ}
    {task : EmbTask} {id : String} {r : Except Exc Unit} {at_refusal : List (EmbEvent D)}
    (htask : .started t task ∈ c.log) (hwrite : is_write task = true)
    (hrefused : .called t ⟨.refused id, r⟩ :: at_refusal <:+ c.log)
    (hkept : ∀ u past, .called u ⟨.delete_memory id, .ok ()⟩ :: past <:+ c.log →
      ∀ k, .called t k ∈ past → ¬ stores id k) :
    ∃ snapshot, ∃ at_read : List (EmbEvent D),
      .called t ⟨.read_revision, .ok snapshot⟩ :: at_read <:+ at_refusal ∧ snapshot.known = false
      ∧ (∀ b revision, .called b ⟨.set_reconciled revision, .ok ()⟩ ∉ at_read)
      ∧ (∃ c₁, Reach SameProcess (Conf.initial (boot db)) c₁ ∧ c₁.log = at_read
        ∧ Reach SameProcess c₁ c ∧ c₁.world.reconciled_revision = none)
      ∧ (∀ u, .started u (.refresher_tick true) ∈ c.log → c.threads u = some (.ret ()) →
        ∃ s, .called u ⟨.read_revision, .ok s⟩ ∈ c.log ∧ (s.known = false
          ∨ (∃ b, ∃ at_check : List (EmbEvent D),
            .called u ⟨.read_reconciled, .ok (some s.value)⟩ :: at_check <:+ c.log
            ∧ .called b ⟨.set_reconciled s.value, .ok ()⟩ ∈ at_check)
          ∨ .called u ⟨.backfill_running, .ok true⟩ ∈ c.log
          ∨ .called u ⟨.create_background false, .ok ()⟩ ∈ c.log))
      ∧ ∀ b revision r at_record, .called b ⟨.set_reconciled revision, r⟩ :: at_record <:+ c.log →
        TakenIn D b revision id at_read at_record := by
  have hord := reach_ordered h
  obtain ⟨task', hin', snapshot, before, hunknown, hlast, hstored⟩ := hord.each _ _ hrefused
  obtain rfl : task = task' :=
    hord.once t task task' htask (hrefused.subset (List.mem_cons_of_mem _ hin'))
  -- the read that refused, in the log
  have hown : (⟨.read_revision, .ok snapshot⟩ : EmbCall F) :: before <:+ own t at_refusal := by
    rcases hlast with heq | ⟨r', heq⟩
    · rw [heq]
    · rw [heq]
      exact List.suffix_cons _ _
  obtain ⟨at_read, hread, rfl⟩ := own_split hown
  obtain ⟨k, hk, hstores⟩ := stores_of_stored hwrite hstored
  have hread' : .called t ⟨.read_revision, .ok snapshot⟩ :: at_read <:+ c.log :=
    hread.trans ((List.suffix_cons _ _).trans hrefused)
  have hafter : ∀ b revision r at_record,
      .called b ⟨.set_reconciled revision, r⟩ :: at_record <:+ c.log →
      TakenIn D b revision id at_read at_record :=
    fun _ _ _ _ hrec => taken_in_of_recorded h hread' hunknown (mem_own.mp hk) hstores hkept hrec
  have hnone : ∀ b revision, .called b ⟨.set_reconciled revision, .ok ()⟩ ∉ at_read := by
    intro b revision hin
    obtain ⟨at_record, hrec⟩ := suffix_of_mem hin
    have hrec' := hrec.trans ((List.suffix_cons _ _).trans hread')
    obtain ⟨ids, rc, items, item, at_choice, at_list, hchoice, hl, hle, -⟩ :=
      hafter b revision _ at_record hrec'
    -- its listing would be both after the read and before it
    have hlen : at_list.length < at_read.length := by
      have h₁ := hl.length_le
      have h₂ := hchoice.length_le
      have h₃ := hrec.length_le
      simp only [List.length_cons] at h₁ h₂ h₃
      omega
    have := hle.length_le
    omega
  refine ⟨snapshot, at_read, hread, hunknown, hnone, ?_, ?_, hafter⟩
  · obtain ⟨c₁, a, c₂, h₁, rfl, ha, hs, -, h₂⟩ := h.cut hread'
    refine ⟨c₁, h₁, rfl, (Reach.init.step ha hs).trans h₂, ?_⟩
    by_contra hsome
    obtain ⟨revision, hr⟩ := Option.ne_none_iff_exists'.mp hsome
    obtain ⟨b, hb⟩ := (reach_recorded h₁).now revision hr
    exact hnone b revision hb
  · intro u hstart hdone
    obtain ⟨tick, hin, hsat⟩ := hord.live u _ hdone
    obtain rfl := hord.once u _ _ hstart hin
    have hended : Ended (.refresher_tick true) (own u c.log) (.ok ()) := hsat
    obtain ⟨s, hs, hdecided⟩ := hended
    refine ⟨s, mem_own.mp hs, ?_⟩
    rcases hdecided with hun | hrec | hrun | hcreated
    · exact .inl hun
    · obtain ⟨at_check, hcheck⟩ := suffix_of_mem (mem_own.mp hrec)
      obtain ⟨b, hb⟩ := (reach_recorded h).reads _ _ hcheck u s.value rfl
      exact .inr (.inl ⟨b, at_check, hcheck, hb⟩)
    · exact .inr (.inr (.inl (mem_own.mp hrun)))
    · exact .inr (.inr (.inr (mem_own.mp hcreated)))

end Runs

/-! ## A refusal that comes late -/

namespace Scenario

/-- Thread `t` edits the note and has dropped its row. -/
def edit (t : ℕ) : List Step :=
  .start (.update_memory "note" (some "final") none true) :: go t 2

/-- The probe of thread `t` fails; it reads the revision as unknown and is about to raise. -/
def fail_probe (t : ℕ) : List Step := go t 4 ++ .run t (.raises .Other) :: go t 3

/-- No restart, computed. -/
def same_process (_ : EmbConf server) : Step → Bool
  | .env .restart => false
  | _ => true

/-- The scenario is checked by running it, and each of its steps is then one of the run that the theorem
is about. -/
theorem same_process_sound (c : EmbConf server) (a : Step) (h : same_process c a = true) :
    SameProcess c a := by
  rintro rfl
  cases h

/-- The event is the refusal of the note by thread 0. -/
def refuses : EmbEvent server → Bool
  | .called t ⟨.refused id, .ok _⟩ => t = 0 && id = "note"
  | _ => false

/-- The event is the start of thread 0 as a use case that writes. -/
def starts_write : EmbEvent server → Bool
  | .started t task => t = 0 && is_write task
  | _ => false

/-- The event deletes a memory, whichever it is. -/
def is_deletion : EmbEvent server → Bool
  | .called _ ⟨.delete_memory _, _⟩ => true
  | _ => false

/-- The event records a revision as reconciled by thread `b`. -/
def records (b : ℕ) : EmbEvent server → Bool
  | .called t ⟨.set_reconciled _, .ok _⟩ => t = b
  | _ => false

/-- The event is a listing of the whole corpus by this thread. -/
def lists (b : ℕ) : EmbEvent server → Bool
  | .called t ⟨.list_memory none, .ok _⟩ => t = b
  | _ => false

/-- The event is this thread's choice of nothing. -/
def chooses_none (b : ℕ) : EmbEvent server → Bool
  | .called t ⟨.candidates [], .ok _⟩ => t = b
  | _ => false

/-- The next four: what the searches through the log of the scenario have found. -/
theorem refuses_iff {e : EmbEvent server} (h : refuses e = true) :
    e = .called 0 ⟨.refused "note", .ok ()⟩ := by
  unfold refuses at h
  split at h
  · simp only [Bool.and_eq_true, decide_eq_true_eq] at h
    obtain ⟨rfl, rfl⟩ := h
    rfl
  · cases h

theorem records_iff {b : ℕ} {e : EmbEvent server} (h : records b e = true) :
    ∃ revision, e = .called b ⟨.set_reconciled revision, .ok ()⟩ := by
  unfold records at h
  split at h
  · next t revision _ =>
      obtain rfl := of_decide_eq_true h
      exact ⟨revision, rfl⟩
  · cases h

theorem lists_iff {b : ℕ} {e : EmbEvent server} (h : lists b e = true) :
    ∃ items, e = .called b ⟨.list_memory none, .ok items⟩ := by
  unfold lists at h
  split at h
  · next t items =>
      obtain rfl := of_decide_eq_true h
      exact ⟨items, rfl⟩
  · cases h

theorem chooses_none_iff {b : ℕ} {e : EmbEvent server} (h : chooses_none b e = true) :
    e = .called b ⟨.candidates [], .ok ()⟩ := by
  unfold chooses_none at h
  split at h
  · obtain rfl := of_decide_eq_true h
    rfl
  · cases h

end Scenario

/-- The refused edit of the note is taken in by the backfill that follows. -/
theorem deferred_write_is_taken_in_sample :
    ∃ c : EmbConf Scenario.server, Reach SameProcess (Conf.initial (boot Scenario.store)) c
      ∧ ∃ revision, ∃ at_read at_record : List (EmbEvent Scenario.server),
        .called 1 ⟨.set_reconciled revision, .ok ()⟩ :: at_record <:+ c.log
        ∧ TakenIn Scenario.server 1 revision "note" at_read at_record := by
  have hrun : ((Conf.initial (M := embedding Scenario.server) (boot Scenario.store)).steps
      Scenario.same_process (Scenario.edit 0 ++ Scenario.fail_probe 0 ++ Scenario.go 0 1
        ++ .start (.generate_missing none false) :: Scenario.go 1 14)).any
      (fun c => c.log.any Scenario.starts_write && c.log.any Scenario.refuses
        && c.log.any (Scenario.records 1) && !c.log.any Scenario.is_deletion) = true := by
    decide +kernel
  obtain ⟨c, hsteps, hrun⟩ := (Option.any_eq_true _ _).mp hrun
  simp only [Bool.and_eq_true, List.any_eq_true, Bool.not_eq_true', List.any_eq_false] at hrun
  obtain ⟨⟨⟨⟨start, hstart, hs⟩, refusal, hrefusal, hr⟩, record, hrecord, hrec⟩, hdel⟩ := hrun
  have hc := reach_of_steps Scenario.same_process_sound hsteps
  obtain ⟨task, hwrite, rfl⟩ : ∃ task, is_write task = true ∧ start = .started 0 task := by
    unfold Scenario.starts_write at hs
    split at hs
    · next t task =>
        simp only [Bool.and_eq_true, decide_eq_true_eq] at hs
        exact ⟨task, hs.2, by rw [hs.1]⟩
    · cases hs
  obtain rfl := Scenario.refuses_iff hr
  obtain ⟨revision, rfl⟩ := Scenario.records_iff hrec
  obtain ⟨at_refusal, hrefused⟩ := suffix_of_mem hrefusal
  obtain ⟨at_record, hrecorded⟩ := suffix_of_mem hrecord
  obtain ⟨snapshot, at_read, -, -, -, -, -, htaken⟩ :=
    deferred_write_is_taken_in hc hstart hwrite hrefused (fun u past hs =>
      absurd rfl (hdel _ (hs.subset List.mem_cons_self)))
  exact ⟨c, hc, revision, at_read, at_record, hrecorded, htaken 1 revision _ at_record hrecorded⟩

/-- The note is edited twice, and the first edit reads the revision as unknown. The second
embeds the note between a backfill's listing, when it has no row, and the backfill's
check: the backfill leaves it out and completes, and only then does the first edit raise
its refusal. -/
theorem refusal_after_backfill :
    ∃ c₁ c₂ c₃ c : EmbConf Scenario.server,
      Reach SameProcess (Conf.initial (boot Scenario.store)) c₁
      ∧ c₁.world.db.embedding_row "note" = none
      ∧ (∃ items, c₂.log = .called 3 ⟨.list_memory none, .ok items⟩ :: c₁.log)
      ∧ Reach SameProcess c₁ c₂ ∧ Reach SameProcess c₂ c₃
      ∧ .called 3 ⟨.candidates [], .ok ()⟩ ∈ c₃.log
      ∧ (∃ revision, .called 3 ⟨.set_reconciled revision, .ok ()⟩ ∈ c₃.log)
      ∧ c₃.world.reconciled_revision ≠ none
      ∧ Reach SameProcess c₃ c ∧ c.log = .called 0 ⟨.refused "note", .ok ()⟩ :: c₃.log := by
  have hrun : ((Conf.initial (M := embedding Scenario.server) (boot Scenario.store)).steps
      Scenario.same_process (Scenario.edit 0 ++ Scenario.edit 1 ++ Scenario.fail_probe 0
        ++ Scenario.verify 2 ++ Scenario.go 1 3
        ++ .start (.generate_missing none false) :: Scenario.go 3 6)).any
      (fun c₁ => (c₁.step (.run 3 .goes)).any fun c₂ =>
        (c₂.steps Scenario.same_process (Scenario.go 1 1 ++ Scenario.go 3 3)).any fun c₃ =>
          (c₃.step (.run 0 .goes)).any fun c =>
            (c₁.world.db.embedding_row "note").isNone
            && c₂.log.head?.any (Scenario.lists 3) && c₃.log.any (Scenario.chooses_none 3)
            && c₃.log.any (Scenario.records 3) && c₃.world.reconciled_revision.isSome
            && c.log.head?.any Scenario.refuses) = true := by
    decide +kernel
  obtain ⟨c₁, h₁, hrun⟩ := (Option.any_eq_true _ _).mp hrun
  obtain ⟨c₂, h₂, hrun⟩ := (Option.any_eq_true _ _).mp hrun
  obtain ⟨c₃, h₃, hrun⟩ := (Option.any_eq_true _ _).mp hrun
  obtain ⟨c, h₄, hrun⟩ := (Option.any_eq_true _ _).mp hrun
  simp only [Bool.and_eq_true] at hrun
  obtain ⟨⟨⟨⟨⟨hrow, hlist⟩, hcand⟩, hrec⟩, hset⟩, href⟩ := hrun
  have hstep : ∀ (d : EmbConf Scenario.server) t, SameProcess d (.run t .goes) := by
    intro d t heq
    cases heq
  -- what the run checks at its end, read back as facts about the four configurations
  refine ⟨c₁, c₂, c₃, c, reach_of_steps Scenario.same_process_sound h₁,
    Option.isNone_iff_eq_none.mp hrow, ?_, Reach.init.step (hstep c₁ 3) h₂,
    reach_of_steps Scenario.same_process_sound h₃, ?_, ?_, ?_, Reach.init.step (hstep c₃ 0) h₄, ?_⟩
  · obtain ⟨e, hlog⟩ := Conf.step_log h₂
    rw [hlog] at hlist ⊢
    obtain ⟨items, rfl⟩ := Scenario.lists_iff hlist
    exact ⟨items, rfl⟩
  · obtain ⟨e, he, hc⟩ := List.any_eq_true.mp hcand
    rw [Scenario.chooses_none_iff hc] at he
    exact he
  · obtain ⟨e, he, hr⟩ := List.any_eq_true.mp hrec
    obtain ⟨revision, rfl⟩ := Scenario.records_iff hr
    exact ⟨revision, he⟩
  · exact Option.isSome_iff_ne_none.mp hset
  · obtain ⟨e, hlog⟩ := Conf.step_log h₄
    rw [hlog] at href ⊢
    rw [Scenario.refuses_iff href]

end OpenChronicle
