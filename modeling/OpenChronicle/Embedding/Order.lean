/-
The order of calls in every task.

`Ordered` says, for each operation that a result below leans on, what its thread must have done before:
a digest is published under the probe lock and right after it was read, a vector is saved only after the
revision was read and then the text embedded, a refused write had stored its memory before it read the
revision, a revision is recorded as reconciled only after the whole corpus was listed under it and every
item chosen or found current. These are facts about program texts: whatever the calls answer, and
whoever else runs.

Everything here is stated of one thread and the list `h` of the calls that it has made, the last one
first. So the facts can be proved of a program by going along its text (`Sat`), with no word about other
threads, and they hold of the thread in every interleaving, where the log of the machine, cut down to
this thread, is such a list. What other threads do in between shows only in the answers, and the answers
are arbitrary.

Each requirement is as weak as its use allows. `Embedded` keeps apart what had been called before the
text was sent (`before`) and what has been called by now, since what a save rests on is that the
revision was read first. `Covered` speaks of the listing and not of the items that were listed, which
may be gone when their turn comes. A requirement is added to `Ordered` when an invariant asks for it,
and then one `sat_` lemma has to change.
-/
import OpenChronicle.Embedding.Model

set_option autoImplicit false

namespace OpenChronicle

open Program

variable {F : Type}

/-- A call with its answer. -/
abbrev EmbCall (F : Type) := Call (embSig F) Exc

/-! ## What is required of a call -/

/-- What a call says about the probe lock. -/
def lock_event : EmbCall F → Option Bool
  | ⟨.acquire_probe_lock, .ok acquired⟩ => some acquired
  | ⟨.release_probe_lock, _⟩ => some false
  | _ => none

/-- The thread took the probe lock and has not given it back. -/
def HoldsProbe (h : List (EmbCall F)) : Prop := h.findSome? lock_event = some true

/-- The thread read `revision` as verified. -/
def KnownRead (revision : Option String) (h : List (EmbCall F)) : Prop :=
  ⟨.read_revision, .ok ⟨true, revision⟩⟩ ∈ h

/-- The thread embedded `text` as `vec`, having made the calls `before` by then. -/
def Embedded (text : String) (vec : List F) (before h : List (EmbCall F)) : Prop :=
  ∃ texts vecs h', ⟨.http_post_embed texts, .ok vecs⟩ :: h' <:+ h ∧ before <:+ h'
    ∧ (text, vec) ∈ texts.zip vecs

/-- What a save rests on: a verified revision and, for a vector, an embedding of
the content that was begun after that revision was read. -/
structure Founded (D : Deployment F) (p : Publication F) (h : List (EmbCall F)) : Prop where
  known : KnownRead p.model_revision h
  content : ∃ text, p.content_hash = D.hash_content text ∧ (p.status = .ok →
    ∃ before, KnownRead p.model_revision before ∧ Embedded text p.embedding before h)

/-- The thread's last read of the revision, with nothing but the release of the
probe lock since. -/
def LastRead (snapshot : RevisionSnapshot) (before h : List (EmbCall F)) : Prop :=
  h = ⟨.read_revision, .ok snapshot⟩ :: before
    ∨ ∃ r, h = ⟨.release_probe_lock, r⟩ :: ⟨.read_revision, .ok snapshot⟩ :: before

/-- The use case has stored the memory it is about to embed. -/
def Stored (task : EmbTask) (memory_id : String) (h : List (EmbCall F)) : Prop :=
  match task with
  | .add_memory item _ => item.id = memory_id ∧ ⟨.add_memory item, .ok ()⟩ ∈ h
  | .update_memory id content tags _ =>
      id = memory_id ∧ ∃ updated, ⟨.update_memory id content tags, .ok updated⟩ ∈ h
  | .generate_for_memory id _ _ => id = memory_id
  | _ => False

/-- A backfill found `item` current for `revision` when it checked it, after `before`. -/
def FoundCurrent (D : Deployment F) (item : MemoryItem) (revision : Option String)
    (before h : List (EmbCall F)) : Prop :=
  ∃ identity h', ⟨.get_embedding_identity item.id, .ok (some identity)⟩ :: h' <:+ h
    ∧ before <:+ h' ∧ identity_current D identity item.content revision = true

/-- The thread listed the whole corpus under `revision` and then chose every item it
did not find current. -/
def Covered (D : Deployment F) (revision : Option String) (h : List (EmbCall F)) : Prop :=
  ∃ ids items r before h', ⟨.candidates ids, r⟩ :: h' <:+ h
    ∧ ⟨.list_memory none, .ok items⟩ :: before <:+ h' ∧ KnownRead revision before
    ∧ ∀ item ∈ items, item.id ∈ ids
      ∨ FoundCurrent D item revision (⟨.list_memory none, .ok items⟩ :: before) h'

/-- The operation is no save, or one stamped with `revision`. -/
def Stamps (revision : Option String) (o : EmbOp F) : Prop :=
  ∀ p, o = .save_embedding p → p.model_revision = revision

/-- What a call requires of its thread's earlier calls. -/
def Ordered (D : Deployment F) (task : EmbTask) (h : List (EmbCall F)) : EmbCall F → Prop
  | ⟨.add_memory item, _⟩ => ∃ service, task = .add_memory item service
  | ⟨.update_memory id content tags, _⟩ =>
      h = [] ∧ ∃ service, task = .update_memory id content tags service
  | ⟨.delete_memory id, _⟩ => task = .delete_memory id
  | ⟨.delete_embedding id, _⟩ =>
      ∃ content tags service, task = .update_memory id (some content) tags service
  | ⟨.save_embedding p, _⟩ => Founded D p h
  | ⟨.http_get_tags, _⟩ => HoldsProbe h
  | ⟨.probe_succeeded digest, _⟩ =>
      HoldsProbe h ∧ ∃ h', h = ⟨.http_get_tags, .ok (some digest)⟩ :: h'
  | ⟨.release_probe_lock, _⟩ => HoldsProbe h
  | ⟨.set_reconciled revision, _⟩ =>
      Covered D revision h ∧ ∀ c ∈ h, Stamps revision c.op
  | ⟨.refused id, _⟩ =>
      ∃ snapshot before, snapshot.known = false ∧ LastRead snapshot before h ∧ Stored task id before
  | _ => True

/-- A refresher tick's decision: the revision is unknown, recorded as reconciled, a
backfill was running, or it created one. -/
def Decided (snapshot : RevisionSnapshot) (h : List (EmbCall F)) : Prop :=
  snapshot.known = false ∨ ⟨.read_reconciled, .ok (some snapshot.value)⟩ ∈ h
    ∨ ⟨.backfill_running, .ok true⟩ ∈ h ∨ ⟨.create_background false, .ok ()⟩ ∈ h

/-- What a task that has ended normally has done. -/
def Ended : EmbTask → List (EmbCall F) → Except Exc Unit → Prop
  | .refresher_tick true, h, .ok _ =>
      ∃ snapshot, ⟨.read_revision, .ok snapshot⟩ ∈ h ∧ Decided snapshot h
  | _, _, _ => True

/-! ## Facts that later calls keep -/

section Stable

variable {D : Deployment F} {h h' before : List (EmbCall F)} {revision : Option String}

/-- What a thread has done it goes on having done: each fact about `h` is kept when calls are added in
front of it. These lemmas carry the facts from the place where they are found to the call that needs
them. -/
theorem KnownRead.mono (hk : KnownRead revision h) (hs : h <:+ h') : KnownRead revision h' :=
  hs.subset hk

theorem Embedded.mono {text : String} {vec : List F} (he : Embedded text vec before h)
    (hs : h <:+ h') : Embedded text vec before h' := by
  obtain ⟨texts, vecs, h₁, hcall, hbefore, hmem⟩ := he
  exact ⟨texts, vecs, h₁, hcall.trans hs, hbefore, hmem⟩

theorem FoundCurrent.mono {item : MemoryItem} (hf : FoundCurrent D item revision before h)
    (hs : h <:+ h') : FoundCurrent D item revision before h' := by
  obtain ⟨identity, h₁, hcall, hbefore, hcur⟩ := hf
  exact ⟨identity, h₁, hcall.trans hs, hbefore, hcur⟩

theorem Covered.mono (hc : Covered D revision h) (hs : h <:+ h') : Covered D revision h' := by
  obtain ⟨ids, items, r, before, h₁, hcall, hrest⟩ := hc
  exact ⟨ids, items, r, before, h₁, hcall.trans hs, hrest⟩

theorem LastRead.mem {snapshot : RevisionSnapshot} (hl : LastRead snapshot before h) :
    ⟨.read_revision, .ok snapshot⟩ ∈ h := by
  rcases hl with rfl | ⟨r, rfl⟩
  · exact List.mem_cons_self
  · exact List.mem_cons_of_mem _ List.mem_cons_self

theorem LastRead.knownRead {value : Option String} (hl : LastRead ⟨true, value⟩ before h) :
    KnownRead value h := hl.mem

theorem Stored.mono {task : EmbTask} {memory_id : String} (hst : Stored task memory_id h)
    (hs : h <:+ h') : Stored task memory_id h' := by
  cases task with
  | add_memory item service => exact ⟨hst.1, hs.subset hst.2⟩
  | update_memory id content tags service =>
      obtain ⟨hid, updated, hmem⟩ := hst
      exact ⟨hid, updated, hs.subset hmem⟩
  | generate_for_memory id content force => exact hst
  | _ => exact hst.elim

end Stable

/-! ## The programs -/

section Programs

variable {D : Deployment F} {task : EmbTask} {h : List (EmbCall F)}

/-- A single call: it must be in order whatever it answers, and what is known afterwards may depend on
the answer. -/
theorem sat_act {o : EmbOp F} {Q : List (EmbCall F) → Except Exc o.Resp → Prop}
    (hΦ : ∀ r, Ordered D task h ⟨o, r⟩) (hQ : ∀ r, Q (⟨o, r⟩ :: h) r) :
    (act o).Sat (Ordered D task) Q h :=
  Prog.sat_op fun r => ⟨hΦ r, hQ r⟩

/-- The end of a program whose last call was the read it returns. -/
def ReadAfter (before : List (EmbCall F)) (h : List (EmbCall F))
    (r : Except Exc RevisionSnapshot) : Prop :=
  ∀ s, r = .ok s → ∃ h', before <:+ h' ∧ h = ⟨.read_revision, .ok s⟩ :: h'

/-- The read itself, from which all knowledge of a revision comes. -/
theorem sat_read {before : List (EmbCall F)} (hb : before <:+ h) :
    (act .read_revision).Sat (Ordered D task) (ReadAfter before) h := by
  refine sat_act (fun _ => trivial) ?_
  rintro r s rfl
  exact ⟨h, hb, rfl⟩

/-- Only the two calls about the lock change who holds it. -/
theorem HoldsProbe.cons {c : EmbCall F} (hh : HoldsProbe h) (hc : lock_event c = none) :
    HoldsProbe (c :: h) := by
  unfold HoldsProbe at hh ⊢
  rw [List.findSome?_cons, hc]
  exact hh

/-- The request is made under the lock, and what it answered is published by the very next call. -/
theorem sat_probe {before : List (EmbCall F)} (hb : before <:+ h) (hh : HoldsProbe h) :
    (probe : EmbProg F _).Sat (Ordered D task)
      (fun h' r => HoldsProbe h' ∧ ReadAfter before h' r) h := by
  -- both ends of a probe: note the outcome, then read the snapshot
  have hend : ∀ (o : EmbOp F) (h₁ : List (EmbCall F)), before <:+ h₁ → HoldsProbe h₁ →
      (∀ r, Ordered D task h₁ ⟨o, r⟩) → (∀ r, lock_event (⟨o, r⟩ : EmbCall F) = none) →
      (act o >>= fun _ => act .read_revision).Sat (Ordered D task)
        (fun h' r => HoldsProbe h' ∧ ReadAfter before h' r) h₁ := by
    intro o h₁ hb₁ hh₁ ho hl
    refine Prog.Sat.bind (sat_act ho ?_)
    intro r
    have hh₂ := hh₁.cons (hl r)
    have hb₂ : before <:+ (⟨o, r⟩ : EmbCall F) :: h₁ := hb₁.trans (List.suffix_cons _ _)
    cases r with
    | error e => exact ⟨hh₂, fun s hs => by cases hs⟩
    | ok v =>
        refine sat_act (fun _ => trivial) ?_
        intro r'
        refine ⟨hh₂.cons rfl, ?_⟩
        rintro s rfl
        exact ⟨_, hb₂, rfl⟩
  unfold probe
  refine Prog.Sat.bind (Prog.Sat.attempt (sat_act (fun _ => hh) ?_))
  intro r
  have hh₁ : HoldsProbe ((⟨.http_get_tags, r⟩ : EmbCall F) :: h) := hh.cons rfl
  have hb₁ : before <:+ (⟨.http_get_tags, r⟩ : EmbCall F) :: h := hb.trans (List.suffix_cons _ _)
  rcases r with e | listing
  · exact hend .probe_failed _ hb₁ hh₁ (fun _ => trivial) (fun _ => rfl)
  · rcases listing with _ | digest
    · exact hend .probe_failed _ hb₁ hh₁ (fun _ => trivial) (fun _ => rfl)
    · exact hend (.probe_succeeded digest) _ hb₁ hh₁ (fun _ => ⟨hh₁, h, rfl⟩) (fun _ => rfl)

/-- A thread that comes late to the lock finds the revision known, and then does not ask the server
again; it ends with a read all the same. -/
theorem sat_refresh_locked (force : Bool) {before : List (EmbCall F)} (hb : before <:+ h)
    (hh : HoldsProbe h) :
    (refresh_locked force : EmbProg F _).Sat (Ordered D task)
      (fun h' r => HoldsProbe h' ∧ ReadAfter before h' r) h := by
  unfold refresh_locked
  by_cases hf : force = true
  · rw [if_pos hf]
    exact sat_probe hb hh
  · rw [if_neg hf]
    refine Prog.Sat.bind ?_
    unfold settled_or_cooling
    refine Prog.Sat.bind (sat_act (fun _ => trivial) ?_)
    intro r
    have hh₁ : HoldsProbe ((⟨.read_revision, r⟩ : EmbCall F) :: h) := hh.cons rfl
    have hb₁ : before <:+ (⟨.read_revision, r⟩ : EmbCall F) :: h := hb.trans (List.suffix_cons _ _)
    -- what follows the test, wherever the lock still is
    have hnext : ∀ (skip : Bool) (h₁ : List (EmbCall F)), before <:+ h₁ → HoldsProbe h₁ →
        (if skip = true then act .read_revision else probe : EmbProg F _).Sat (Ordered D task)
          (fun h' r => HoldsProbe h' ∧ ReadAfter before h' r) h₁ := by
      intro skip h₁ hb₂ hh₂
      by_cases hs : skip = true
      · rw [if_pos hs]
        refine sat_act (fun _ => trivial) ?_
        intro r'
        refine ⟨hh₂.cons rfl, ?_⟩
        rintro s rfl
        exact ⟨h₁, hb₂, rfl⟩
      · rw [if_neg hs]
        exact sat_probe hb₂ hh₂
    cases r with
    | error e => exact ⟨hh₁, fun s hs => by cases hs⟩
    | ok snapshot =>
        dsimp only
        by_cases hk : snapshot.known = true
        · rw [if_pos hk]
          exact Prog.sat_pure (hnext true _ hb₁ hh₁)
        · rw [if_neg hk]
          refine sat_act (fun _ => trivial) ?_
          intro r'
          cases r' with
          | error e => exact ⟨hh₁.cons rfl, fun s hs => by cases hs⟩
          | ok cooling => exact hnext cooling _ (hb₁.trans (List.suffix_cons _ _)) (hh₁.cons rfl)

/-- `refresh_revision` returns the last thing it read, and may have released the
probe lock since. -/
theorem sat_refresh_revision (force : Bool) :
    (refresh_revision force : EmbProg F _).Sat (Ordered D task)
      (fun h' r => ∀ s, r = .ok s → ∃ before, h <:+ before ∧ LastRead s before h') h := by
  unfold refresh_revision
  refine Prog.Sat.bind (sat_act (fun _ => trivial) ?_)
  intro r
  have hb : h <:+ (⟨.acquire_probe_lock, r⟩ : EmbCall F) :: h := List.suffix_cons _ _
  cases r with
  | error e => exact fun s hs => by cases hs
  | ok acquired =>
      dsimp only
      cases acquired with
      | false =>
          rw [if_neg (by decide)]
          refine (sat_read hb).mono ?_
          intro h' r' _ hr s hs
          obtain ⟨h₁, hb₁, rfl⟩ := hr s hs
          exact ⟨h₁, hb₁, .inl rfl⟩
      | true =>
          rw [if_pos rfl]
          refine Prog.Sat.tryFinally ((sat_refresh_locked force hb ?_).mono ?_)
          · exact rfl
          · rintro h' r' - ⟨hh, hr⟩
            refine sat_act (fun _ => hh) ?_
            intro u
            cases u with
            | error e => cases r' <;> exact fun s hs => by cases hs
            | ok _ =>
                cases r' with
                | error e => exact fun s hs => by cases hs
                | ok snapshot =>
                    intro s hs
                    obtain ⟨h₁, hb₁, rfl⟩ := hr s hs
                    exact ⟨h₁, hb₁, .inr ⟨_, rfl⟩⟩

/-- A text and its vector are known by their place in the two lists. -/
theorem sat_embed_batch (texts : List String) :
    (embed_batch texts : EmbProg F _).Sat (Ordered D task)
      (fun h' r => ∀ vecs, r = .ok vecs → ∀ text v, (text, v) ∈ texts.zip vecs →
        Embedded text v h h') h := by
  unfold embed_batch
  by_cases hnil : texts = []
  · rw [if_pos hnil]
    refine Prog.sat_pure ?_
    intro vecs _ text v hmem
    rw [hnil] at hmem
    simp at hmem
  · rw [if_neg hnil]
    refine Prog.Sat.bind (sat_act (fun _ => trivial) ?_)
    intro r
    cases r with
    | error e => exact fun vecs hv => by cases hv
    | ok answer =>
        refine Prog.Sat.bind (sat_act (fun _ => trivial) ?_)
        intro r'
        cases r' with
        | error e => exact fun vecs hv => by cases hv
        | ok _ =>
            refine Prog.sat_pure ?_
            intro vecs hv text v hmem
            obtain rfl := Except.ok.inj hv
            exact ⟨texts, answer, h, List.suffix_cons _ _, List.suffix_refl h, hmem⟩

theorem sat_embed (text : String) :
    (embed text : EmbProg F _).Sat (Ordered D task)
      (fun h' r => ∀ v, r = .ok v → Embedded text v h h') h := by
  unfold embed
  refine Prog.Sat.bind ((sat_embed_batch [text]).mono ?_)
  intro h' r _ hr
  cases r with
  | error e => exact fun v hv => by cases hv
  | ok vecs =>
      dsimp only
      rcases vecs with _ | ⟨v, rest⟩
      · exact Prog.sat_raise fun v hv => by cases hv
      · refine Prog.sat_pure ?_
        intro v' hv'
        obtain rfl := Except.ok.inj hv'
        exact hr _ rfl text v (by simp)

/-- What a saved vector rests on: the revision was read, and then the content was embedded. -/
theorem founded_ok {memory_id content : String} {vec : List F} {revision : Option String}
    {before h' : List (EmbCall F)} (hk : KnownRead revision before)
    (he : Embedded content vec before h') :
    Founded D (publication D memory_id content vec revision .ok) h' := by
  have hsuf : before <:+ h' := by
    obtain ⟨texts, vecs, h₁, hcall, hb, -⟩ := he
    exact hb.trans ((List.suffix_cons _ _).trans hcall)
  exact ⟨hk.mono hsuf, content, rfl, fun _ => ⟨before, hk, he⟩⟩

/-- A tombstone has no vector, and rests on the revision alone. -/
theorem sat_write_tombstone {memory_id content : String} {revision : Option String}
    (hk : KnownRead revision h) :
    (write_tombstone D memory_id content revision).Sat (Ordered D task) (fun _ _ => True) h := by
  refine sat_act (fun _ => ⟨hk, content, rfl, ?_⟩) fun _ => trivial
  intro hok
  cases hok

/-- To skip is to have found the row current for the revision that was read. -/
theorem sat_may_skip (memory_id content : String) (revision : Option String) (force : Bool) :
    (may_skip D memory_id content revision force).Sat (Ordered D task)
      (fun h' r => r = .ok true → ∃ identity, h' = ⟨.get_embedding_identity memory_id,
        .ok (some identity)⟩ :: h ∧ identity_current D identity content revision = true) h := by
  unfold may_skip
  by_cases hf : force = true
  · rw [if_pos hf]
    exact Prog.sat_pure fun hr => by cases hr
  · rw [if_neg hf]
    unfold is_current
    refine Prog.Sat.bind (sat_act (fun _ => trivial) ?_)
    intro r
    cases r with
    | error e => exact fun hr => by cases hr
    | ok identity =>
        refine Prog.sat_pure ?_
        intro hr
        have hany := Except.ok.inj hr
        obtain ⟨i, rfl, hi⟩ := (Option.any_eq_true _ _).mp hany
        exact ⟨i, rfl, hi⟩

/-- Between the read of the revision and the save lies the request, which may take any time. -/
theorem sat_embed_and_publish {memory_id content : String} {revision : Option String}
    (hk : KnownRead revision h) :
    (embed_and_publish D memory_id content revision).Sat (Ordered D task) (fun _ _ => True) h := by
  unfold embed_and_publish
  refine Prog.Sat.bind (Prog.Sat.attempt ((sat_embed content).mono ?_))
  intro h' r hs hr
  cases r with
  | error e =>
      dsimp only
      by_cases hl : is_content_too_long e = true
      · rw [if_pos hl]
        refine Prog.Sat.bind ((sat_write_tombstone (hk.mono hs)).mono ?_)
        intro h'' r' _ _
        cases r' <;> trivial
      · rw [if_neg hl]
        refine Prog.Sat.bind (sat_act (fun _ => trivial) ?_)
        intro r'
        cases r' <;> trivial
  | ok vec =>
      refine Prog.Sat.bind (sat_act (fun _ => founded_ok hk (hr vec rfl)) ?_)
      intro r'
      cases r' with
      | error e => trivial
      | ok _ => exact sat_act (fun _ => trivial) fun _ => trivial

/-- The snapshot that serves a write is the last one its thread read. -/
theorem sat_write_snapshot : (write_snapshot : EmbProg F _).Sat (Ordered D task)
    (fun h' r => ∀ s, r = .ok s → ∃ before, h <:+ before ∧ LastRead s before h') h := by
  unfold write_snapshot
  refine Prog.Sat.bind ((sat_read (List.suffix_refl h)).mono ?_)
  intro h' r _ hr
  cases r with
  | error e => exact fun s hs => by cases hs
  | ok snapshot =>
      obtain ⟨h₁, hb₁, rfl⟩ := hr snapshot rfl
      dsimp only
      by_cases hk : snapshot.known = true
      · rw [if_pos hk]
        refine Prog.sat_pure ?_
        intro s hs
        obtain rfl := Except.ok.inj hs
        exact ⟨h₁, hb₁, .inl rfl⟩
      · rw [if_neg hk]
        refine (sat_refresh_revision false).mono ?_
        intro h'' r' _ hr' s hs
        obtain ⟨before, hb, hl⟩ := hr' s hs
        exact ⟨before, hb₁.trans ((List.suffix_cons _ _).trans hb), hl⟩

/-- The write path: the memory has been stored, the revision is read, and then the text is sent. -/
theorem sat_generate_for_memory (memory_id content : String) (force : Bool)
    (hst : Stored task memory_id h) :
    (generate_for_memory D memory_id content force).Sat (Ordered D task) (fun _ _ => True) h := by
  unfold generate_for_memory
  refine Prog.Sat.bind (sat_write_snapshot.mono ?_)
  intro h' r _ hr
  cases r with
  | error e => trivial
  | ok snapshot =>
      obtain ⟨before, hb, hl⟩ := hr snapshot rfl
      obtain ⟨known, value⟩ := snapshot
      dsimp only
      cases known with
      | true =>
          rw [if_pos rfl]
          refine Prog.Sat.bind ((sat_may_skip memory_id content value force).mono ?_)
          intro h'' r' hs _
          cases r' with
          | error e => trivial
          | ok current =>
              dsimp only
              by_cases hc : current = true
              · rw [if_pos hc]
                exact Prog.sat_pure trivial
              · rw [if_neg hc]
                exact sat_embed_and_publish (hl.knownRead.mono hs)
      | false =>
          rw [if_neg (by decide)]
          refine Prog.Sat.bind (sat_act ?_ ?_)
          · intro r'
            exact ⟨_, before, rfl, hl, hst.mono hb⟩
          · intro r'
            cases r' <;> trivial

/-! ### Backfill -/

/-- Every item is chosen, unless it was found current. -/
theorem sat_select_candidates (revision : Option String) (force : Bool) (items : List MemoryItem) :
    (select_candidates D revision force items).Sat (Ordered D task)
      (fun h' r => ∀ chosen, r = .ok chosen → ∀ item ∈ items,
        item ∈ chosen ∨ FoundCurrent D item revision h h') h := by
  induction items generalizing h with
  | nil => exact Prog.sat_pure fun chosen _ item hitem => absurd hitem (by simp)
  | cons hd rest ih =>
      rw [select_candidates]
      refine Prog.Sat.bind ((sat_may_skip hd.id hd.content revision force).mono ?_)
      intro h₁ r hs hr
      cases r with
      | error e => exact fun chosen hc => by cases hc
      | ok current =>
          refine Prog.Sat.bind (ih.mono ?_)
          intro h₂ r' hs' hr'
          cases r' with
          | error e => exact fun chosen hc => by cases hc
          | ok chosen =>
              refine Prog.sat_pure ?_
              intro out hout item hitem
              obtain rfl := Except.ok.inj hout
              rcases List.mem_cons.mp hitem with rfl | hitem
              · cases current with
                | false => exact .inl (by simp)
                | true =>
                    obtain ⟨identity, rfl, hcur⟩ := hr rfl
                    exact .inr ⟨identity, h, hs', List.suffix_refl h, hcur⟩
              · rcases hr' chosen rfl item hitem with hin | ⟨identity, h₃, hcall, hb, hcur⟩
                · left
                  cases current with
                  | false => exact List.mem_cons_of_mem _ hin
                  | true => exact hin
                · exact .inr ⟨identity, h₃, hcall, hs.trans hb, hcur⟩

/-- A batch that fails leaves its items without vectors, and they are then sent one by one. -/
theorem sat_chunk_vectors (chunk : List MemoryItem) :
    (chunk_vectors chunk : EmbProg F _).Sat (Ordered D task)
      (fun h' r => ∀ vecs, r = .ok (some vecs) → ∀ item v, (item, v) ∈ chunk.zip vecs →
        Embedded item.content v h h') h := by
  unfold chunk_vectors
  refine Prog.Sat.bind (Prog.Sat.attempt ((sat_embed_batch (chunk.map (·.content))).mono ?_))
  intro h' r _ hr
  cases r with
  | error e => exact Prog.sat_pure fun vecs hv => by cases hv
  | ok answer =>
      refine Prog.sat_pure ?_
      intro vecs hv item v hmem
      have hlen := Except.ok.inj hv
      split at hlen
      · obtain rfl := Option.some.inj hlen
        refine hr answer rfl item.content v ?_
        rw [List.zip_map_left]
        exact List.mem_map.mpr ⟨(item, v), hmem, rfl⟩
      · cases hlen

theorem sat_item_failed :
    (item_failed : EmbProg F _).Sat (Ordered D task) (fun _ _ => True) h := by
  refine Prog.Sat.bind (sat_act (fun _ => trivial) ?_)
  intro r
  cases r <;> trivial

/-- The `try` body: with a vector from the batch, or with its own call, the text was
embedded after the revision was read. -/
theorem sat_embed_item_body {revision : Option String} {item : MemoryItem} {vec : Option (List F)}
    {before : List (EmbCall F)} (hb : before <:+ h) (hk : KnownRead revision before)
    (hvec : ∀ v, vec = some v → Embedded item.content v before h) :
    (embed_item_body D revision item vec).Sat (Ordered D task) (fun _ _ => True) h := by
  have hv : (item_vector item vec).Sat (Ordered D task)
      (fun h' r => ∀ v, r = .ok v → Embedded item.content v before h') h := by
    cases vec with
    | some v =>
        refine Prog.sat_pure ?_
        intro v' hv'
        obtain rfl := Except.ok.inj hv'
        exact hvec v rfl
    | none =>
        refine (sat_embed item.content).mono ?_
        intro h' r _ hr v hrv
        obtain ⟨texts, vecs, h₁, hcall, hb₁, hmem⟩ := hr v hrv
        exact ⟨texts, vecs, h₁, hcall, hb.trans hb₁, hmem⟩
  unfold embed_item_body
  refine Prog.Sat.bind (hv.mono ?_)
  intro h' r _ hr
  cases r with
  | error e => trivial
  | ok v =>
      refine Prog.Sat.bind (sat_act (fun _ => founded_ok hk (hr v rfl)) ?_)
      intro r'
      cases r' with
      | error e => trivial
      | ok published =>
          refine Prog.Sat.bind (sat_act (fun _ => trivial) ?_)
          intro r''
          cases r'' <;> trivial

theorem sat_embed_item {revision : Option String} {item : MemoryItem} {vec : Option (List F)}
    {before : List (EmbCall F)} (hb : before <:+ h) (hk : KnownRead revision before)
    (hvec : ∀ v, vec = some v → Embedded item.content v before h) :
    (embed_item D revision item vec).Sat (Ordered D task) (fun _ _ => True) h := by
  unfold embed_item
  refine Prog.Sat.bind (Prog.Sat.attempt ((sat_embed_item_body hb hk hvec).mono ?_))
  intro h' r hs _
  cases r with
  | ok published => trivial
  | error e =>
      dsimp only
      by_cases hl : is_content_too_long e = true
      · rw [if_pos hl]
        refine Prog.Sat.bind (Prog.Sat.attempt
          ((sat_write_tombstone ((hk.mono hb).mono hs)).mono ?_))
        intro h'' r' _ _
        cases r' with
        | ok published => trivial
        | error e' => exact sat_item_failed
      · rw [if_neg hl]
        exact sat_item_failed

/-- The items of a chunk, by induction: those before are in the history, and need not be looked at
again. -/
theorem sat_embed_items {revision : Option String} {before : List (EmbCall F)}
    (hk : KnownRead revision before) (work : List (MemoryItem × Option (List F)))
    (hb : before <:+ h)
    (hwork : ∀ x ∈ work, ∀ v, x.2 = some v → Embedded x.1.content v before h) :
    (embed_items D revision work).Sat (Ordered D task) (fun _ _ => True) h := by
  induction work generalizing h with
  | nil => trivial
  | cons x rest ih =>
      obtain ⟨item, vec⟩ := x
      rw [embed_items]
      refine Prog.Sat.bind ((sat_embed_item hb hk (hwork _ List.mem_cons_self)).mono ?_)
      intro h' r hs _
      cases r with
      | error e => trivial
      | ok one =>
          refine Prog.Sat.bind ((ih (hb.trans hs) ?_).mono ?_)
          · intro y hy v hv
            exact (hwork y (List.mem_cons_of_mem _ hy) v hv).mono hs
          · intro h'' r' _ _
            cases r' <;> trivial

theorem sat_embed_chunk {revision : Option String} (hk : KnownRead revision h)
    (chunk : List MemoryItem) :
    (embed_chunk D revision chunk).Sat (Ordered D task) (fun _ _ => True) h := by
  unfold embed_chunk
  refine Prog.Sat.bind ((sat_chunk_vectors chunk).mono ?_)
  intro h' r hs hr
  cases r with
  | error e => trivial
  | ok vectors =>
      cases vectors with
      | none =>
          refine sat_embed_items hk _ hs ?_
          intro x hx v hv
          obtain ⟨item, -, rfl⟩ := List.mem_map.mp hx
          cases hv
      | some vecs =>
          refine sat_embed_items hk _ hs ?_
          intro x hx v hv
          rw [List.zip_map_right] at hx
          obtain ⟨⟨item, w⟩, hmem, rfl⟩ := List.mem_map.mp hx
          obtain rfl := Option.some.inj hv
          exact hr vecs rfl item w hmem

theorem sat_embed_chunks {revision : Option String} (hk : KnownRead revision h)
    (work : List (List MemoryItem)) :
    (embed_chunks D revision work).Sat (Ordered D task) (fun _ _ => True) h := by
  induction work generalizing h with
  | nil => trivial
  | cons chunk rest ih =>
      rw [embed_chunks]
      refine Prog.Sat.bind ((sat_embed_chunk hk chunk).mono ?_)
      intro h' r hs _
      cases r with
      | error e => trivial
      | ok one =>
          refine Prog.Sat.bind ((ih (hk.mono hs)).mono ?_)
          intro h'' r' _ _
          cases r' <;> trivial

/-- What has been gone through when a backfill returns. -/
theorem sat_backfill {revision : Option String} (hk : KnownRead revision h)
    (project_id : Option String) (force : Bool) :
    (backfill D revision project_id force).Sat (Ordered D task)
      (fun h' r => ∀ result, r = .ok result → project_id = none → Covered D revision h') h := by
  unfold backfill
  refine Prog.Sat.bind (sat_act (fun _ => trivial) ?_)
  intro r
  cases r with
  | error e => exact fun result hr => by cases hr
  | ok items =>
      refine Prog.Sat.bind ((sat_select_candidates revision force items).mono ?_)
      intro h₁ r' hs₁ hr'
      cases r' with
      | error e => exact fun result hr => by cases hr
      | ok chosen =>
          refine Prog.Sat.bind (sat_act (fun _ => trivial) ?_)
          intro rc
          cases rc with
          | error e => exact fun result hr => by cases hr
          | ok _ =>
              have hk₂ : KnownRead revision ((⟨.candidates (chosen.map (·.id)), .ok ()⟩ : EmbCall F)
                  :: h₁) :=
                hk.mono ((List.suffix_cons _ _).trans (hs₁.trans (List.suffix_cons _ _)))
              refine (sat_embed_chunks hk₂ (chunks chosen)).mono ?_
              intro h₂ rend hs₂ _ result _ hp
              subst hp
              refine ⟨chosen.map (·.id), items, .ok (), h, h₁, hs₂, hs₁, hk, ?_⟩
              intro item hitem
              rcases hr' chosen rfl item hitem with hin | hcur
              · exact .inl (List.mem_map_of_mem hin)
              · exact .inr hcur

/-! ### What the saves of a task have in common

Whatever a task does, it saves in two ways: the vector of a text, or the tombstone of one. -/

/-- `P` holds of everything that is no save, and of the two saves made under `revision`. -/
structure Admits (D : Deployment F) (revision : Option String) (P : EmbOp F → Prop) : Prop where
  other : ∀ o, (∀ p, o ≠ .save_embedding p) → P o
  vector : ∀ memory_id content vec,
    P (.save_embedding (publication D memory_id content vec revision .ok))
  tombstone : ∀ memory_id content,
    P (.save_embedding (publication D memory_id content [] revision .content_too_long))

/-- All saves of a backfill bear the revision that it began with. -/
theorem admits_stamps (D : Deployment F) (revision : Option String) :
    Admits D revision (Stamps revision) := by
  refine ⟨?_, ?_, ?_⟩
  · intro o ho p hp
    exact absurd hp (ho p)
  · rintro memory_id content vec p ⟨⟩
    rfl
  · rintro memory_id content p ⟨⟩
    rfl

section Makes

variable {revision : Option String} {P : EmbOp F → Prop}

theorem makes_act (hP : Admits D revision P) {o : EmbOp F} (ho : ∀ p, o ≠ .save_embedding p) : (act o).Makes P :=
  Prog.makes_op (S := embSig F) (o := o) (hP.other o ho)

theorem makes_act_save {p : Publication F} (hp : P (.save_embedding p)) :
    (act (.save_embedding p)).Makes P :=
  Prog.makes_op (S := embSig F) (o := .save_embedding p) hp

theorem makes_probe (hP : Admits D revision P) : (probe : EmbProg F _).Makes P := by
  refine Prog.Makes.bind (Prog.Makes.attempt (makes_act hP nofun)) ?_
  intro r
  rcases r with e | _ | digest
  · exact Prog.Makes.bind (makes_act hP nofun) fun _ => makes_act hP nofun
  · exact Prog.Makes.bind (makes_act hP nofun) fun _ => makes_act hP nofun
  · exact Prog.Makes.bind (makes_act hP nofun) fun _ => makes_act hP nofun

theorem makes_refresh_revision (hP : Admits D revision P) (force : Bool) :
    (refresh_revision force : EmbProg F _).Makes P := by
  have hlocked : (refresh_locked force : EmbProg F _).Makes P := by
    unfold refresh_locked
    cases force with
    | true => exact makes_probe hP
    | false =>
        refine Prog.Makes.bind (Prog.Makes.bind (makes_act hP nofun) ?_) ?_
        · intro snapshot
          by_cases hk : snapshot.known = true
          · rw [if_pos hk]
            trivial
          · rw [if_neg hk]
            exact makes_act hP nofun
        · intro settled
          cases settled with
          | true => exact makes_act hP nofun
          | false => exact makes_probe hP
  refine Prog.Makes.bind (makes_act hP nofun) ?_
  intro acquired
  cases acquired with
  | true => exact hlocked.tryFinally (makes_act hP nofun)
  | false => exact makes_act hP nofun

theorem makes_embed_batch (hP : Admits D revision P) (texts : List String) :
    (embed_batch texts : EmbProg F _).Makes P := by
  unfold embed_batch
  by_cases hnil : texts = []
  · rw [if_pos hnil]
    trivial
  · rw [if_neg hnil]
    refine Prog.Makes.bind (makes_act hP nofun) ?_
    intro vectors
    exact Prog.Makes.bind (makes_act hP nofun) fun _ => trivial

theorem makes_item_vector (hP : Admits D revision P) (item : MemoryItem) (vec : Option (List F)) :
    (item_vector item vec).Makes P := by
  cases vec with
  | some v => trivial
  | none =>
      refine Prog.Makes.bind (makes_embed_batch hP _) ?_
      intro vectors
      cases vectors <;> trivial

theorem makes_item_failed (hP : Admits D revision P) : (item_failed : EmbProg F _).Makes P :=
  Prog.Makes.bind (makes_act hP nofun) fun _ => trivial

theorem makes_embed_item (hP : Admits D revision P) (item : MemoryItem) (vec : Option (List F)) :
    (embed_item D revision item vec).Makes P := by
  have hbody : (embed_item_body D revision item vec).Makes P := by
    refine Prog.Makes.bind (makes_item_vector hP item vec) ?_
    intro v
    refine Prog.Makes.bind (makes_act_save (hP.vector item.id item.content v)) ?_
    intro published
    exact Prog.Makes.bind (makes_act hP nofun) fun _ => trivial
  refine Prog.Makes.bind hbody.attempt ?_
  intro r
  cases r with
  | ok published => trivial
  | error e =>
      dsimp only
      by_cases hl : is_content_too_long e = true
      · rw [if_pos hl]
        refine Prog.Makes.bind (Prog.Makes.attempt (makes_act_save (hP.tombstone item.id item.content))) ?_
        intro r'
        cases r' with
        | ok published => trivial
        | error e' => exact makes_item_failed hP
      · rw [if_neg hl]
        exact makes_item_failed hP

theorem makes_embed_items (hP : Admits D revision P) (work : List (MemoryItem × Option (List F))) :
    (embed_items D revision work).Makes P := by
  induction work with
  | nil => trivial
  | cons x rest ih =>
      refine Prog.Makes.bind (makes_embed_item hP x.1 x.2) ?_
      intro one
      exact Prog.Makes.bind ih fun _ => trivial

theorem makes_embed_chunks (hP : Admits D revision P) (work : List (List MemoryItem)) :
    (embed_chunks D revision work).Makes P := by
  induction work with
  | nil => trivial
  | cons chunk rest ih =>
      have hchunk : (embed_chunk D revision chunk).Makes P := by
        refine Prog.Makes.bind (Prog.Makes.bind (makes_embed_batch hP _).attempt ?_) ?_
        · intro r
          cases r <;> trivial
        · intro vectors
          cases vectors with
          | some vectors => exact makes_embed_items hP _
          | none => exact makes_embed_items hP _
      refine Prog.Makes.bind hchunk ?_
      intro one
      exact Prog.Makes.bind ih fun _ => trivial

theorem makes_select_candidates (hP : Admits D revision P) (force : Bool) (items : List MemoryItem) :
    (select_candidates D revision force items).Makes P := by
  induction items with
  | nil => trivial
  | cons item rest ih =>
      refine Prog.Makes.bind ?_ fun _ => Prog.Makes.bind ih fun _ => trivial
      unfold may_skip
      by_cases hf : force = true
      · rw [if_pos hf]
        trivial
      · rw [if_neg hf]
        exact Prog.Makes.bind (makes_act hP nofun) fun _ => trivial

theorem makes_backfill (hP : Admits D revision P) (project_id : Option String) (force : Bool) :
    (backfill D revision project_id force).Makes P := by
  refine Prog.Makes.bind (makes_act hP nofun) ?_
  intro items
  refine Prog.Makes.bind (makes_select_candidates hP force items) ?_
  intro chosen
  exact Prog.Makes.bind (makes_act hP nofun) fun _ => makes_embed_chunks hP _

end Makes

/-- The revision is recorded at the end, and only if every save of the run was made under it. -/
theorem sat_backfill_verified (project_id : Option String) (force : Bool)
    (hnew : ∀ c ∈ h, ∀ revision, Stamps revision c.op) :
    (backfill_verified D project_id force).Sat (Ordered D task) (fun _ _ => True) h := by
  unfold backfill_verified
  -- the probe saves nothing, so the snapshot's value is the thread's only stamp
  refine Prog.Sat.bind (((sat_refresh_revision true).makes
    (Prog.makes_forall fun revision => makes_refresh_revision (admits_stamps D revision) true)).mono ?_)
  rintro h' r - ⟨hr, hcalls⟩
  have hnew' : ∀ c ∈ h', ∀ revision, Stamps revision c.op := by
    intro c hc
    rcases hcalls c hc with hin | hc
    · exact hnew c hin
    · exact hc
  cases r with
  | error e => trivial
  | ok snapshot =>
      obtain ⟨before, -, hl⟩ := hr snapshot rfl
      obtain ⟨known, value⟩ := snapshot
      dsimp only
      cases known with
      | false => trivial
      | true =>
          rw [if_pos rfl]
          refine Prog.Sat.bind (((sat_backfill hl.knownRead project_id force).makes
            (makes_backfill (admits_stamps D value) project_id force)).mono ?_)
          rintro h'' r' - ⟨hr', hcalls'⟩
          have hstamps : ∀ c ∈ h'', Stamps value c.op := by
            intro c hc
            rcases hcalls' c hc with hin | hc
            · exact hnew' c hin value
            · exact hc
          cases r' with
          | error e => trivial
          | ok result =>
              dsimp only
              by_cases hp : project_id = none
              · rw [if_pos hp]
                refine Prog.Sat.bind (sat_act (fun _ => ⟨hr' result rfl hp, hstamps⟩) ?_)
                intro r''
                cases r'' <;> trivial
              · rw [if_neg hp]
                trivial

theorem sat_generate_missing (project_id : Option String) (force : Bool) :
    (generate_missing D project_id force).Sat (Ordered D task) (fun _ _ => True) [] := by
  unfold generate_missing
  refine Prog.Sat.bind (sat_act (fun _ => trivial) ?_)
  intro r
  cases r with
  | error e => trivial
  | ok acquired =>
      dsimp only
      cases acquired with
      | false => trivial
      | true =>
          rw [if_pos rfl]
          refine Prog.Sat.tryFinally ((sat_backfill_verified project_id force ?_).mono ?_)
          · intro c hc revision
            rw [List.mem_singleton.mp hc]
            exact nofun
          · intro h' r' _ _
            refine sat_act (fun _ => trivial) ?_
            intro u
            cases r' <;> cases u <;> trivial

/-- Whether one runs is asked before one is created, and both are calls of the same thread. -/
theorem sat_start_background_backfill (force : Bool) :
    (start_background_backfill force : EmbProg F _).Sat (Ordered D task)
      (fun h' r => ∀ started, r = .ok started → ⟨.backfill_running, .ok true⟩ ∈ h'
        ∨ ⟨.create_background force, .ok ()⟩ ∈ h') h := by
  refine Prog.Sat.bind (sat_act (fun _ => trivial) ?_)
  intro r
  cases r with
  | error e => exact nofun
  | ok running =>
      cases running with
      | true => exact fun _ _ => .inl List.mem_cons_self
      | false =>
          refine Prog.Sat.bind (sat_act (fun _ => trivial) ?_)
          intro r'
          cases r' with
          | error e => exact nofun
          | ok _ => exact fun _ _ => .inr List.mem_cons_self

/-- A tick that returns has decided what to do about the revision that it read. -/
theorem sat_reconcile (auto_backfill : Bool) (snapshot : RevisionSnapshot) :
    (reconcile auto_backfill snapshot : EmbProg F _).Sat (Ordered D task)
      (fun h' r => auto_backfill = true → r = .ok () → Decided snapshot h') h := by
  unfold reconcile
  by_cases hon : (auto_backfill && snapshot.known) = true
  · rw [if_pos hon]
    refine Prog.Sat.bind (sat_act (fun _ => trivial) ?_)
    intro r
    cases r with
    | error e => exact nofun
    | ok reconciled =>
        dsimp only
        by_cases hdone : reconciled = some snapshot.value
        · rw [if_pos hdone, hdone]
          exact fun _ _ => .inr (.inl List.mem_cons_self)
        · rw [if_neg hdone]
          refine Prog.Sat.bind (sat_act (fun _ => trivial) ?_)
          intro r'
          cases r' with
          | error e => exact nofun
          | ok running =>
              cases running with
              | true => exact fun _ _ => .inr (.inr (.inl List.mem_cons_self))
              | false =>
                  refine Prog.Sat.bind ((sat_start_background_backfill false).mono ?_)
                  intro h' r'' _ hr
                  cases r'' with
                  | error e => exact nofun
                  | ok started => exact fun _ _ => .inr (.inr (hr started rfl))
  · rw [if_neg hon]
    intro hauto _
    rw [hauto, Bool.true_and] at hon
    exact .inl (Bool.eq_false_iff.mpr hon)

/-! ### Use cases -/

/-- An error of the service is caught here: the memory has been stored before, and stays. -/
theorem sat_embed_after_write (service : Bool) (memory_id content : String) (force : Bool)
    (hst : Stored task memory_id h) :
    (embed_after_write D service memory_id content force).Sat (Ordered D task)
      (fun _ _ => True) h := by
  cases service with
  | false => trivial
  | true =>
      refine Prog.Sat.bind (Prog.Sat.attempt
        ((sat_generate_for_memory memory_id content force hst).mono ?_))
      intro h' r _ _
      trivial

theorem sat_add_memory_execute (item : MemoryItem) (service : Bool) :
    (add_memory_execute D item service).Sat (Ordered D (.add_memory item service))
      (fun _ _ => True) [] := by
  unfold add_memory_execute
  by_cases hproj : item.project_id = none
  · rw [if_pos hproj]
    trivial
  rw [if_neg hproj]
  by_cases hblank : PyStr.isBlank item.content.toList = true
  · rw [if_pos hblank]
    trivial
  rw [if_neg hblank]
  by_cases hlong : MAX_CONTENT_CHARS < item.content.length
  · rw [if_pos hlong]
    trivial
  rw [if_neg hlong]
  refine Prog.Sat.bind (sat_act (fun _ => ⟨service, rfl⟩) ?_)
  intro r
  cases r with
  | error e => trivial
  | ok _ =>
      refine sat_embed_after_write service item.id item.content false ?_
      exact ⟨rfl, List.mem_cons_self⟩

theorem sat_update_memory_execute (memory_id : String) (content : Option String)
    (tags : Option (List PyStr.Text)) (service : Bool) :
    (update_memory_execute D memory_id content tags service).Sat
      (Ordered D (.update_memory memory_id content tags service)) (fun _ _ => True) [] := by
  cases content with
  | none =>
      rw [update_memory_execute]
      by_cases htags : tags = none
      · rw [if_pos htags]
        trivial
      · rw [if_neg htags]
        refine Prog.Sat.bind (sat_act (fun _ => ⟨rfl, service, rfl⟩) ?_)
        intro r
        cases r <;> trivial
  | some content =>
      rw [update_memory_execute]
      by_cases hblank : PyStr.isBlank content.toList = true
      · rw [if_pos hblank]
        trivial
      rw [if_neg hblank]
      by_cases hlong : MAX_CONTENT_CHARS < content.length
      · rw [if_pos hlong]
        trivial
      rw [if_neg hlong]
      refine Prog.Sat.bind (sat_act (fun _ => ⟨rfl, service, rfl⟩) ?_)
      intro r
      cases r with
      | error e => trivial
      | ok updated =>
          refine Prog.Sat.bind (sat_act (fun _ => ⟨content, tags, service, rfl⟩) ?_)
          intro r'
          cases r' with
          | error e => trivial
          | ok _ =>
              refine sat_embed_after_write service memory_id updated.content true ?_
              exact ⟨rfl, updated, List.mem_cons_of_mem _ List.mem_cons_self⟩

end Programs

/-- **Every task makes its calls in order.** -/
theorem task_ordered (D : Deployment F) (task : EmbTask) :
    (task_program D task).Sat (Ordered D task) (Ended task) [] := by
  cases task with
  | add_memory item service => exact sat_add_memory_execute item service
  | update_memory memory_id content tags service =>
      exact sat_update_memory_execute memory_id content tags service
  | delete_memory memory_id => exact sat_act (fun _ => rfl) fun _ => trivial
  | generate_for_memory memory_id content force =>
      exact sat_generate_for_memory memory_id content force rfl
  | generate_missing project_id force =>
      refine Prog.Sat.bind ((sat_generate_missing project_id force).mono ?_)
      intro h' r _ _
      cases r <;> trivial
  | background_backfill force =>
      refine Prog.Sat.bind (Prog.Sat.attempt ((sat_generate_missing none force).mono ?_))
      intro h' r _ _
      exact sat_act (fun _ => trivial) fun _ => trivial
  | start_background_backfill force =>
      refine Prog.Sat.bind ((sat_start_background_backfill force).mono ?_)
      intro h' r _ _
      cases r <;> trivial
  | refresher_tick auto_backfill =>
      refine Prog.Sat.bind ((sat_refresh_revision true).mono ?_)
      intro h' r _ hr
      cases r with
      | error e => cases auto_backfill <;> trivial
      | ok snapshot =>
          obtain ⟨before, -, hl⟩ := hr snapshot rfl
          refine (sat_reconcile auto_backfill snapshot).mono ?_
          intro h'' r' hs hdecided
          -- without the flag a tick ends with its probe
          cases auto_backfill with
          | false => cases r' <;> trivial
          | true =>
              cases r' with
              | error e => trivial
              | ok _ => exact ⟨snapshot, hs.subset hl.mem, hdecided rfl rfl⟩
  | refresh_revision force =>
      refine Prog.Sat.bind ((sat_refresh_revision force).mono ?_)
      intro h' r _ _
      cases r <;> trivial

end OpenChronicle
