/-
Probes are serialized, so revisions are verified in the order the server listed them.

A probe reads the listing and publishes the digest under `_probe_lock`. The lock has one holder, so
between the two no other digest is published, and what is published was listed no earlier than anything
published before. With digests that never recur, the verified revisions of a run stand in the order of
the re-pulls.

The order is first shown for the counts of re-pulls, where it needs nothing of the digests: each
verified revision is given the number of re-pulls at the time at which it was listed, and later ones
have no smaller numbers (`InPullOrder`). A probe that has read its listing and not yet published carries
its number with it, which is why the invariant has a clause for the thread in the lock.

Only then are digests told apart. If no digest comes twice, a revision stands for its number (`rank`),
and what is asked later of stamps on rows, whether one is newer than another, can be answered by
comparing numbers.
-/
import OpenChronicle.Embedding.Revision

set_option autoImplicit false

namespace OpenChronicle

open Program Machine

variable {F : Type} {D : Deployment F}

/-! ## The probe lock -/

/-- Only the holder of the lock is between acquiring and releasing it. -/
def Exclusive (c : EmbConf D) : Prop :=
  ∀ t p, c.threads t = some p → HoldsProbe (own t c.log) → c.world.probe_lock = some t

/-- What a call does to the lock. -/
theorem exec_lock {t : ℕ} {o : EmbOp F} {outcome : Outcome} {w w' : EmbWorld F}
    {r : Except Exc o.Resp} (h : w.exec D t o outcome = some (r, w')) :
    (lock_event ⟨o, r⟩ = some true ∧ w.probe_lock = none ∧ w'.probe_lock = some t)
      ∨ ((⟨o, r⟩ : EmbCall F) = ⟨.release_probe_lock, .ok ()⟩ ∧ w'.probe_lock = none)
      ∨ (lock_event ⟨o, r⟩ ≠ some true ∧ w'.probe_lock = w.probe_lock) := by
  -- no other call answers with the lock
  have other : ∀ {k : EmbCall F}, lock_event k = none → lock_event k ≠ some true := by
    intro k hk
    rw [hk]
    exact (Option.some_ne_none true).symm
  cases o with
  | add_memory _ | update_memory _ _ _ | delete_memory _ | list_memory _ | get_embedding_identity _
  | save_embedding _ | delete_embedding _ | http_post_embed _ | http_get_tags =>
      obtain ⟨db, rfl⟩ := exec_outside rfl h
      exact .inr (.inr ⟨other rfl, rfl⟩)
  | acquire_probe_lock =>
      simp only [EmbWorld.exec] at h
      split at h
      · next hlock =>
          obtain ⟨rfl, rfl⟩ := Prod.mk.inj (Option.some.inj h)
          exact .inl ⟨rfl, hlock, rfl⟩
      · obtain ⟨rfl, rfl⟩ := Prod.mk.inj (Option.some.inj h)
        refine .inr (.inr ⟨?_, rfl⟩)
        intro htaken
        cases htaken
      · cases h
  | release_probe_lock =>
      obtain ⟨rfl, rfl⟩ := Prod.mk.inj (Option.some.inj h)
      exact .inr (.inl ⟨rfl, rfl⟩)
  | _ =>
      obtain ⟨rfl, rfl⟩ := Prod.mk.inj (Option.some.inj h)
      exact .inr (.inr ⟨other rfl, rfl⟩)

/-- A call other than a successful `acquire` leaves a thread holding only if it held. -/
theorem HoldsProbe.of_cons {k : EmbCall F} {h : List (EmbCall F)} (hh : HoldsProbe (k :: h))
    (hk : lock_event k ≠ some true) : HoldsProbe h ∧ lock_event k = none := by
  unfold HoldsProbe at hh ⊢
  rw [List.findSome?_cons] at hh
  cases he : lock_event k with
  | none =>
      rw [he] at hh
      exact ⟨hh, rfl⟩
  | some b =>
      rw [he] at hh
      exact absurd (he.trans hh) hk

/-- The exclusion, by one step and then by all. -/
theorem exclusive_step {c c' : EmbConf D} {a : (embedding D).Action} (hc : Exclusive c)
    (ho : InOrder (Ordered D) Ended c) (h : c.step a = some c') : Exclusive c' := by
  obtain ⟨task, w, -, hw, rfl⟩ | ⟨t, choice, o, k, r, w, -, hk, hx, rfl⟩ | ⟨e, -, rfl⟩ :=
    Conf.step_cases h
  · intro u p hp hh
    rw [own_started] at hh
    have hlock : w.probe_lock = c.world.probe_lock := by
      rw [task_admitted_cases hw]
    dsimp only at hp ⊢
    by_cases hu : u = c.next
    · -- a thread that has just started has made no call
      rw [hu, (ho.unused c.next (Nat.le_refl _)).2] at hh
      cases hh
    · rw [Function.update_of_ne hu] at hp
      rw [hlock]
      exact hc u p hp hh
  · -- whether `t` itself or another thread holds the lock afterwards
    have others : ∀ u p, u ≠ t → Function.update c.threads t (some (k r)) u = some p →
        HoldsProbe (own u (.called t ⟨o, r⟩ :: c.log)) → c.world.probe_lock = some u := by
      intro u p hu hp hh
      rw [Function.update_of_ne hu] at hp
      rw [own_called_ne (Ne.symm hu)] at hh
      exact hc u p hp hh
    intro u p hp hh
    dsimp only at hp hh ⊢
    rcases exec_lock hx with ⟨-, hfree, htaken⟩ | ⟨hrel, hfreed⟩ | ⟨hno, hsame⟩
    · by_cases hu : u = t
      · rw [hu, htaken]
      · have := others u p hu hp hh
        rw [hfree] at this
        cases this
    · -- the releasing thread was the holder, so no other thread is one
      obtain ⟨task, -, hsat⟩ := ho.live t _ hk
      have hheld : HoldsProbe (own t c.log) := by
        have hord := (hsat r).1
        rw [hrel] at hord
        exact hord
      by_cases hu : u = t
      · subst hu
        rw [own_called_self, hrel] at hh
        cases hh
      · have := others u p hu hp hh
        rw [hc t _ hk hheld] at this
        exact absurd (Option.some.inj this).symm hu
    · rw [hsame]
      by_cases hu : u = t
      · subst hu
        rw [own_called_self] at hh
        exact hc u _ hk (hh.of_cons hno).1
      · exact others u p hu hp hh
  · intro u p hp hh
    cases e with
    | restart => cases hp
    | repull => exact hc u p hp hh
    | pass ms => exact hc u p hp hh

theorem reach_exclusive {ok : EmbConf D → (embedding D).Action → Prop} {db : Db F} {c : EmbConf D}
    (h : Reach ok (Conf.initial (boot db)) c) : Exclusive c := by
  induction h with
  | init =>
      intro t p hp
      cases hp
  | step hr ha hs ih => exact exclusive_step ih (reach_ordered hr) hs

/-! ## Verified revisions are in the order of the re-pulls -/

/-- The verified revisions, each given by the count of re-pulls it was listed at: later
ones are no older, and what a probe in progress has read is no older than any of them. -/
structure InPullOrder (c : EmbConf D) (pulls : List ℕ) : Prop where
  listed : verified c.log = pulls.map D.digest
  descending : pulls.Pairwise (· ≥ ·)
  past : ∀ g ∈ pulls, g ≤ repulls c.log
  pending : ∀ t p digest h, c.threads t = some p →
    own t c.log = ⟨.http_get_tags, .ok (some digest)⟩ :: h → HoldsProbe (own t c.log) →
    ∃ g ≤ repulls c.log, digest = D.digest g ∧ ∀ g' ∈ pulls, g' ≤ g

/-- A call publishes a digest, lists one, or does neither. -/
theorem probe_call_cases (t : ℕ) (k : EmbCall F) (log : List (EmbEvent D)) :
    (∃ digest r, k = ⟨.probe_succeeded digest, r⟩) ∨
      (verified (.called t k :: log) = verified log
        ∧ ((∃ digest, k = ⟨.http_get_tags, .ok (some digest)⟩)
          ∨ ∀ digest, k ≠ ⟨.http_get_tags, .ok (some digest)⟩)) := by
  by_cases hp : ∃ digest r, k = ⟨.probe_succeeded digest, r⟩
  · exact .inl hp
  · refine .inr ⟨?_, ?_⟩
    · refine verified_cons_of_ne ?_
      intro u digest r heq
      obtain ⟨-, rfl⟩ := Event.called.inj heq
      exact hp ⟨digest, r, rfl⟩
    · by_cases ht : ∃ digest, k = ⟨.http_get_tags, .ok (some digest)⟩
      · exact .inl ht
      · exact .inr fun digest heq => ht ⟨digest, heq⟩

@[simp] theorem repulls_called (t : ℕ) (k : EmbCall F) (log : List (EmbEvent D)) :
    repulls (.called t k :: log) = repulls log := rfl

/-- The step of a call. -/
theorem inPullOrder_called {c : EmbConf D} {pulls : List ℕ} (hc : InPullOrder c pulls)
    (hx : Exclusive c) (ho : InOrder (Ordered D) Ended c) {t : ℕ} {o : EmbOp F}
    {k : Except Exc o.Resp → EmbProg F Unit} {r : Except Exc o.Resp} {w' : EmbWorld F}
    (hk : c.threads t = some (.call o k)) (ha : Answered D c.log (.called t ⟨o, r⟩)) :
    ∃ pulls', InPullOrder (D := D)
      { c with world := w', log := .called t ⟨o, r⟩ :: c.log,
               threads := Function.update c.threads t (some (k r)) } pulls' := by
  obtain ⟨task, -, hsat⟩ := ho.live t _ hk
  have hord : Ordered D task (own t c.log) ⟨o, r⟩ := (hsat r).1
  -- what another thread has read stays what it was
  have others : ∀ u p digest h, u ≠ t →
      Function.update c.threads t (some (k r)) u = some p →
      own u (.called t ⟨o, r⟩ :: c.log) = ⟨.http_get_tags, .ok (some digest)⟩ :: h →
      HoldsProbe (own u (.called t ⟨o, r⟩ :: c.log)) →
      ∃ g ≤ repulls c.log, digest = D.digest g ∧ ∀ g' ∈ pulls, g' ≤ g := by
    intro u p digest h hu hp hown hh
    rw [Function.update_of_ne hu] at hp
    rw [own_called_ne (Ne.symm hu)] at hown hh
    exact hc.pending u p digest h hp hown hh
  generalize hcall : (⟨o, r⟩ : EmbCall F) = call at *
  rcases probe_call_cases t call c.log with ⟨digest, r', rfl⟩ | ⟨hsame, ⟨digest, rfl⟩ | hno⟩
  · -- a digest is published: by the lock's holder, right after it was listed to it
    obtain ⟨hheld, h', hown⟩ := hord
    obtain ⟨g, hg, rfl, hle⟩ := hc.pending t _ digest h' hk hown hheld
    refine ⟨g :: pulls, ?_, ?_, ?_, ?_⟩
    · change D.digest g :: verified c.log = _
      rw [hc.listed]
      rfl
    · exact List.pairwise_cons.mpr ⟨hle, hc.descending⟩
    · intro g' hg'
      rcases List.mem_cons.mp hg' with rfl | hg'
      · exact hg
      · exact hc.past g' hg'
    · intro u p digest h hp hown' hh
      by_cases hu : u = t
      · subst hu
        rw [own_called_self] at hown'
        cases (List.cons.inj hown').1
      · -- the lock is held by `t`, so no other probe is in progress
        rw [own_called_ne (Ne.symm hu)] at hh
        dsimp only at hp
        rw [Function.update_of_ne hu] at hp
        have := hx u p hp hh
        rw [hx t _ hk hheld] at this
        exact absurd (Option.some.inj this).symm hu
  · -- a digest is listed: it is the current one
    refine ⟨pulls, hsame.trans hc.listed, hc.descending, hc.past, ?_⟩
    intro u p d h hp hown' hh
    by_cases hu : u = t
    · subst hu
      rw [own_called_self] at hown'
      obtain ⟨hcall', -⟩ := List.cons.inj hown'
      obtain rfl : digest = d := by
        cases hcall'
        rfl
      exact ⟨repulls c.log, Nat.le_refl _, ha, hc.past⟩
    · exact others u p d h hu hp hown' hh
  · refine ⟨pulls, hsame.trans hc.listed, hc.descending, hc.past, ?_⟩
    intro u p d h hp hown' hh
    by_cases hu : u = t
    · subst hu
      rw [own_called_self] at hown'
      exact absurd (List.cons.inj hown').1 (hno d)
    · exact others u p d h hu hp hown' hh

/-- Re-pulls, starts and restarts publish nothing. -/
theorem inPullOrder_step {c c' : EmbConf D} {a : (embedding D).Action} {pulls : List ℕ}
    (hc : InPullOrder c pulls) (hx : Exclusive c) (ho : InOrder (Ordered D) Ended c) (ht : Tracked c)
    (h : c.step a = some c') : ∃ pulls', InPullOrder c' pulls' := by
  obtain ⟨task, w, -, hw, rfl⟩ | ⟨t, choice, o, k, r, w, -, hk, hexec, rfl⟩ | ⟨e, -, rfl⟩ :=
    Conf.step_cases h
  · refine ⟨pulls, hc.listed, hc.descending, hc.past, ?_⟩
    intro t p digest h' hp hown hh
    dsimp only at hp hown hh
    rw [own_started] at hown hh
    by_cases htn : t = c.next
    · rw [htn, (ho.unused c.next (Nat.le_refl _)).2] at hown
      cases hown
    · rw [Function.update_of_ne htn] at hp
      exact hc.pending t p digest h' hp hown hh
  · exact inPullOrder_called hc hx ho hk (exec_tracked hexec ht.pulls ht.revision).2.2
  · have hmono : repulls c.log ≤ repulls (.env e :: c.log) := repulls_mono (List.suffix_cons _ _)
    refine ⟨pulls, hc.listed, hc.descending, ?_, ?_⟩
    · intro g hg
      exact (hc.past g hg).trans hmono
    · intro t p digest h' hp hown hh
      cases e with
      | restart => cases hp
      | repull =>
          obtain ⟨g, hg, hd, hle⟩ := hc.pending t p digest h' hp hown hh
          exact ⟨g, hg.trans hmono, hd, hle⟩
      | pass ms => exact hc.pending t p digest h' hp hown hh

/-- The run lemma. Nothing is assumed of the digests yet. -/
theorem reach_inPullOrder {ok : EmbConf D → (embedding D).Action → Prop} {db : Db F}
    {c : EmbConf D} (h : Reach ok (Conf.initial (boot db)) c) :
    ∃ pulls, InPullOrder c pulls := by
  induction h with
  | init =>
      refine ⟨[], rfl, List.Pairwise.nil, by simp, ?_⟩
      intro t p digest h' hp
      cases hp
  | step hr ha hs ih =>
      obtain ⟨pulls, hpulls⟩ := ih
      exact inPullOrder_step hpulls (reach_exclusive hr) (reach_ordered hr) (reach_tracked hr) hs

/-! ## What no recurring digest gives -/

/-- `old` was verified when `new` had not been verified yet. -/
def VerifiedBefore (log : List (EmbEvent D)) (old new : Option String) : Prop :=
  ∃ past, past <:+ log ∧ old ∈ verified past ∧ new ∉ verified past

section Latest

variable {ok : EmbConf D → (embedding D).Action → Prop} {db : Db F} {c : EmbConf D}

/-- The count of re-pulls a digest stands for. -/
noncomputable def rank (D : Deployment F) : Option String → ℕ := Function.invFun D.digest

/-- Verified revisions are ranked in the order they were verified. -/
theorem verified_ranked (hinj : Function.Injective D.digest)
    (h : Reach ok (Conf.initial (boot db)) c) :
    (∀ digest ∈ verified c.log, D.digest (rank D digest) = digest)
      ∧ (verified c.log).Pairwise fun new old => rank D old ≤ rank D new := by
  obtain ⟨pulls, hpulls⟩ := reach_inPullOrder h
  have hrank : ∀ g, rank D (D.digest g) = g := Function.leftInverse_invFun hinj
  rw [hpulls.listed]
  constructor
  · intro digest hd
    obtain ⟨g, -, rfl⟩ := List.mem_map.mp hd
    rw [hrank]
  · rw [List.pairwise_map]
    refine hpulls.descending.imp ?_
    intro new old hge
    rw [hrank, hrank]
    exact hge

/-- At any point of a run, no revision verified by then outranks the latest. -/
theorem rank_le_latest (hinj : Function.Injective D.digest)
    (h : Reach ok (Conf.initial (boot db)) c) {now : List (EmbEvent D)} (hnow : now <:+ c.log)
    {latest digest : Option String} (hlatest : (verified now).head? = some latest)
    (hdigest : digest ∈ verified now) : rank D digest ≤ rank D latest := by
  have hdesc := (verified_ranked hinj h).2.sublist (verified_suffix hnow).sublist
  obtain ⟨rest, hrest⟩ := List.head?_eq_some_iff.mp hlatest
  rw [hrest] at hdesc hdigest
  rcases List.mem_cons.mp hdigest with rfl | hin
  · exact Nat.le_refl _
  · exact (List.pairwise_cons.mp hdesc).1 digest hin

/-- Two verified revisions with one number are one. -/
theorem eq_of_rank (hinj : Function.Injective D.digest)
    (h : Reach ok (Conf.initial (boot db)) c) {a b : Option String} (ha : a ∈ verified c.log)
    (hb : b ∈ verified c.log) (hrank : rank D a = rank D b) : a = b := by
  have hlisted := (verified_ranked hinj h).1
  rw [← hlisted a ha, ← hlisted b hb, hrank]

/-- The latest revision was not verified before another one known by then. -/
theorem not_verifiedBefore_latest (hinj : Function.Injective D.digest)
    (h : Reach ok (Conf.initial (boot db)) c) {now : List (EmbEvent D)} (hnow : now <:+ c.log)
    {latest digest : Option String} (hlatest : (verified now).head? = some latest)
    (hdigest : digest ∈ verified now) : ¬ VerifiedBefore c.log latest digest := by
  rintro ⟨past, hpast, hold, hnew⟩
  obtain ⟨since, hsince⟩ := verified_suffix hpast
  have hin : digest ∈ since := by
    have := (verified_suffix hnow).subset hdigest
    rw [← hsince] at this
    exact (List.mem_append.mp this).resolve_right hnew
  -- `digest` was verified after `latest`, so it ranks no lower; nothing outranks `latest`
  have hdesc := (verified_ranked hinj h).2
  rw [← hsince] at hdesc
  have hge : rank D latest ≤ rank D digest := (List.pairwise_append.mp hdesc).2.2 _ hin _ hold
  have hle := rank_le_latest hinj h hnow hlatest hdigest
  have heq := eq_of_rank hinj h ((verified_suffix hnow).subset hdigest)
    ((verified_suffix hpast).subset hold) (Nat.le_antisymm hle hge)
  rw [heq] at hnew
  exact hnew hold

/-- A revision that was the latest and is the latest was so all along. -/
theorem latest_between (hinj : Function.Injective D.digest)
    (h : Reach ok (Conf.initial (boot db)) c) {past now : List (EmbEvent D)} (hnow : now <:+ c.log)
    (hpast : past <:+ now) {latest digest : Option String}
    (hthen : (verified past).head? = some latest) (hlatest : (verified c.log).head? = some latest)
    (hdigest : (verified now).head? = some digest) : digest = latest := by
  have hin : digest ∈ verified c.log :=
    (verified_suffix hnow).subset (List.mem_of_mem_head? hdigest)
  have hle := rank_le_latest hinj h (List.suffix_refl _) hlatest hin
  have hge := rank_le_latest hinj h hnow hdigest
    ((verified_suffix hpast).subset (List.mem_of_mem_head? hthen))
  exact eq_of_rank hinj h hin (List.mem_of_mem_head? hlatest) (Nat.le_antisymm hle hge)

end Latest

end OpenChronicle
