/-
`_backfill`: every candidate is accounted for, and a run on a quiet store settles them.

The first half says what a backfill reports whatever the store, the provider and other clients do
between its calls: each candidate leaves exactly one mark in the calls of the run, and the counters are
the counts of the marks. The second half runs it alone: where each item embeds or is rejected as too
long when it is sent by itself, nothing is left to do afterwards.

A mark is what a candidate comes to: its vector or its tombstone was published, the compare-and-swap of
the save refused it since the content had changed meanwhile, or it failed. A refusal is counted nowhere
in the source, so the counters add up to the candidates only together with the refusals, and the
statement says so. The marks are read off the calls and the counters off the result, and the proof keeps
the two lists in step through the item loop, the chunks and the run (`Accounted`).

The second half is an evaluation. A run that nobody disturbs consumes the answers of the provider in
order, so what the provider does is a list of answers (`Served`), and each part of the program is shown
to use up its own stretch of the list and to make its items current (`Settles`).
-/
import OpenChronicle.Embedding.Order
import OpenChronicle.Embedding.Status

set_option autoImplicit false

namespace OpenChronicle

open Program

variable {F : Type}

/-! ## Marks -/

/-- How a candidate ends. -/
inductive Fate where
  | generated (memory_id : String)
  | tombstoned (memory_id : String)
  | refused (memory_id : String)
  | failed
  deriving DecidableEq, Repr

/-- The mark a call leaves: a save that was published or refused, a failure recorded. -/
def fate_of : EmbCall F → Option Fate
  | ⟨.save_embedding p, .ok true⟩ =>
      some (if p.status = .ok then .generated p.memory_id else .tombstoned p.memory_id)
  | ⟨.save_embedding p, .ok false⟩ => some (.refused p.memory_id)
  | ⟨.record_failure _, _⟩ => some .failed
  | _ => none

/-- The marks of a run, newest first as its calls are. -/
def fates (log : List (EmbCall F)) : List Fate := log.filterMap fate_of

/-- The candidates a run announced. -/
def announced (log : List (EmbCall F)) : List (List String) :=
  log.filterMap fun
    | ⟨.candidates ids, _⟩ => some ids
    | _ => none

/-- Updates of the service's own attributes do not raise. -/
def Smooth (c : EmbCall F) : Prop :=
  match c with
  | ⟨.record_success, r⟩ => r = .ok ()
  | ⟨.record_failure _, r⟩ => r = .ok ()
  | ⟨.clear_probe_failure, r⟩ => r = .ok ()
  | ⟨.candidates _, r⟩ => r = .ok ()
  | _ => True

/-- No call of the machine does otherwise. -/
theorem smooth_exec {D : Deployment F} {t : ℕ} {o : EmbOp F} {outcome : Outcome}
    {w w' : EmbWorld F} {r : Except Exc o.Resp} (h : w.exec D t o outcome = some (r, w')) :
    Smooth ⟨o, r⟩ := by
  cases o with
  | record_success => exact (Prod.mk.inj (Option.some.inj h)).1.symm
  | record_failure op => exact (Prod.mk.inj (Option.some.inj h)).1.symm
  | clear_probe_failure => exact (Prod.mk.inj (Option.some.inj h)).1.symm
  | candidates ids => exact (Prod.mk.inj (Option.some.inj h)).1.symm
  | _ => trivial

/-- The mark is about this candidate. -/
def Fate.settles (memory_id : String) : Fate → Prop
  | generated id => id = memory_id
  | tombstoned id => id = memory_id
  | refused id => id = memory_id
  | failed => True

/-- What a candidate adds to the counters. -/
def Fate.tally : Fate → BackfillResult
  | generated _ => { generated := 1 }
  | tombstoned _ => { tombstoned := 1 }
  | refused _ => {}
  | failed => { failed := 1 }

/-- What a list of marks adds up to. -/
def tally : List Fate → BackfillResult
  | [] => {}
  | f :: rest => f.tally.add (tally rest)

/-- The save came too late: the content is no longer the one that was embedded. -/
def Fate.is_refused : Fate → Bool
  | refused _ => true
  | _ => false

/-- A backfill that has candidates is not one that was skipped. -/
theorem tally_skipped (l : List Fate) : (tally l).skipped = false := by
  cases l with
  | nil => rfl
  | cons f rest => cases f <;> rfl

/-- The counters of two parts add up. -/
theorem tally_append (l l' : List Fate) : tally (l ++ l') = (tally l).add (tally l') := by
  induction l with
  | nil =>
      have hs := tally_skipped l'
      rcases h : tally l' with ⟨g, f, t, skipped⟩
      rw [h] at hs
      simp only [List.nil_append, tally, BackfillResult.add, h, Nat.zero_add, BackfillResult.mk.injEq,
        true_and]
      exact hs
  | cons f rest ih =>
      rw [List.cons_append, tally, ih, tally]
      simp only [BackfillResult.add, Nat.add_assoc]

/-- The counters and the refusals add up to the marks. -/
theorem tally_sum (l : List Fate) :
    (tally l).generated + (tally l).failed + (tally l).tombstoned + l.countP Fate.is_refused
      = l.length := by
  induction l with
  | nil => rfl
  | cons f rest ih =>
      rw [tally, List.length_cons, List.countP_cons]
      cases f <;> simp only [BackfillResult.add, Fate.tally, Fate.is_refused] <;> simp <;> omega

/-! ## Whatever is answered

`Sat` runs a program against every sequence of answers, so these hold for every store, every
provider and any edits between two calls. -/

section Accounting

variable {D : Deployment F} {h : List (EmbCall F)}

/-- No requirement on the calls. -/
abbrev Free : List (EmbCall F) → EmbCall F → Prop := fun _ _ => True

/-- A stretch of calls that leaves no mark and announces nothing. -/
def Quiet (h h' : List (EmbCall F)) : Prop := fates h' = fates h ∧ announced h' = announced h

theorem Quiet.refl (h : List (EmbCall F)) : Quiet h h := ⟨rfl, rfl⟩

/-- A part of the run that marks nothing may be skipped over. -/
theorem Quiet.trans {h₁ h₂ h₃ : List (EmbCall F)} (h₁₂ : Quiet h₁ h₂) (h₂₃ : Quiet h₂ h₃) :
    Quiet h₁ h₃ := ⟨h₂₃.1.trans h₁₂.1, h₂₃.2.trans h₁₂.2⟩

theorem sat_free {o : EmbOp F} {Q : List (EmbCall F) → Except Exc o.Resp → Prop}
    (hQ : ∀ r, Q (⟨o, r⟩ :: h) r) : (act o).Sat Free Q h :=
  Prog.sat_op fun r => ⟨trivial, hQ r⟩

/-- Sending texts is no mark, whatever comes back. -/
theorem quiet_embed_batch (texts : List String) :
    (embed_batch texts : EmbProg F _).Sat Free (fun h' _ => Quiet h h') h := by
  unfold embed_batch
  by_cases hnil : texts = []
  · rw [if_pos hnil]
    exact Quiet.refl h
  · rw [if_neg hnil]
    refine Prog.Sat.bind (sat_free ?_)
    intro r
    cases r with
    | error e => exact ⟨rfl, rfl⟩
    | ok answer =>
        refine Prog.Sat.bind (sat_free ?_)
        intro r'
        cases r' with
        | error e => exact ⟨rfl, rfl⟩
        | ok _ => exact ⟨rfl, rfl⟩

/-- Sending an item settles nothing yet. -/
theorem quiet_item_vector (item : MemoryItem) (vec : Option (List F)) :
    (item_vector item vec).Sat Free (fun h' _ => Quiet h h') h := by
  cases vec with
  | some v => exact Quiet.refl h
  | none =>
      refine Prog.Sat.bind ((quiet_embed_batch [item.content]).mono ?_)
      intro h' r _ hq
      cases r with
      | error e => exact hq
      | ok vecs =>
          cases vecs with
          | nil => exact hq
          | cons v rest => exact hq

/-- The `try` body leaves the mark of its save, or none if it raises. -/
theorem sat_item_body (revision : Option String) (item : MemoryItem) (vec : Option (List F)) :
    (embed_item_body D revision item vec).Sat Free (fun h' r => (∀ c ∈ h', Smooth c) →
      announced h' = announced h ∧ match r with
        | .ok published => fates h'
            = (if published then .generated item.id else .refused item.id) :: fates h
        | .error _ => fates h' = fates h) h := by
  unfold embed_item_body
  refine Prog.Sat.bind ((quiet_item_vector item vec).mono ?_)
  intro h' r _ hq
  cases r with
  | error e => exact fun _ => ⟨hq.2, hq.1⟩
  | ok v =>
      refine Prog.Sat.bind (sat_free ?_)
      intro r'
      cases r' with
      | error e => exact fun _ => ⟨hq.2, hq.1⟩
      | ok published =>
          refine Prog.Sat.bind (sat_free ?_)
          intro r''
          cases r'' with
          | error e =>
              intro hsmooth
              have hbad := hsmooth _ List.mem_cons_self
              cases hbad
          | ok _ =>
              intro _
              refine ⟨hq.2, ?_⟩
              cases published with
              | true => exact congrArg _ hq.1
              | false => exact congrArg _ hq.1

/-- The item is counted as failed, and the loop goes on. -/
theorem sat_failed :
    (item_failed : EmbProg F _).Sat Free (fun h' r => (∀ c ∈ h', Smooth c) →
      announced h' = announced h ∧ r = .ok Fate.failed.tally ∧ fates h' = .failed :: fates h) h := by
  unfold item_failed
  refine Prog.Sat.bind (sat_free ?_)
  intro r
  cases r with
  | error e =>
      intro hsmooth
      have hbad := hsmooth _ List.mem_cons_self
      cases hbad
  | ok _ => exact fun _ => ⟨rfl, rfl, rfl⟩

/-- One round of the item loop leaves one mark, and counts it. -/
theorem sat_item (revision : Option String) (item : MemoryItem) (vec : Option (List F)) :
    (embed_item D revision item vec).Sat Free (fun h' r => (∀ c ∈ h', Smooth c) →
      announced h' = announced h
        ∧ ∃ f : Fate, f.settles item.id ∧ r = .ok f.tally ∧ fates h' = f :: fates h) h := by
  unfold embed_item
  refine Prog.Sat.bind (Prog.Sat.attempt ((sat_item_body revision item vec).mono ?_))
  intro h' r _ hbody
  cases r with
  -- the vector was saved, or the content had changed
  | ok published =>
      intro hsmooth
      obtain ⟨hann, hfates⟩ := hbody hsmooth
      refine ⟨hann, _, ?_, ?_, hfates⟩
      · cases published <;> rfl
      · cases published <;> rfl
  | error e =>
      dsimp only
      -- a text that is too long leaves a tombstone; any other error is counted as failed
      by_cases hl : is_content_too_long e = true
      · rw [if_pos hl]
        refine Prog.Sat.bind (Prog.Sat.attempt (sat_free ?_))
        intro r'
        cases r' with
        | ok published =>
            intro hsmooth
            obtain ⟨hann, hfates⟩ := hbody fun c hc => hsmooth c (List.mem_cons_of_mem _ hc)
            cases published with
            | true => exact ⟨hann, .tombstoned item.id, rfl, rfl, congrArg _ hfates⟩
            | false => exact ⟨hann, .refused item.id, rfl, rfl, congrArg _ hfates⟩
        -- the tombstone could not be saved either
        | error e' =>
            refine Prog.Sat.mono sat_failed ?_
            intro h'' r'' hsuf hfailed hsmooth
            obtain ⟨hann, hr, hfates⟩ := hfailed hsmooth
            obtain ⟨hann', hfates'⟩ := hbody fun c hc =>
              hsmooth c (hsuf.subset (List.mem_cons_of_mem _ hc))
            exact ⟨hann.trans hann', .failed, trivial, hr, hfates.trans (congrArg _ hfates')⟩
      · rw [if_neg hl]
        refine Prog.Sat.mono sat_failed ?_
        intro h'' r'' hsuf hfailed hsmooth
        obtain ⟨hann, hr, hfates⟩ := hfailed hsmooth
        obtain ⟨hann', hfates'⟩ := hbody fun c hc => hsmooth c (hsuf.subset hc)
        exact ⟨hann.trans hann', .failed, trivial, hr, hfates.trans (congrArg _ hfates')⟩

/-- The end of a loop over these candidates: it returned, with a mark for each of them in
order, and the counters are those of the marks. -/
def Accounted (ids : List String) (h h' : List (EmbCall F)) (r : Except Exc BackfillResult) : Prop :=
  announced h' = announced h ∧ ∃ fs : List Fate, List.Forall₂ Fate.settles ids fs
    ∧ r = .ok (tally fs) ∧ fates h' = fs.reverse ++ fates h

/-- Two stretches of candidates, each accounted for. -/
theorem Accounted.append {ids ids' : List String} {h₁ h₂ h₃ : List (EmbCall F)}
    {a b : BackfillResult} (h₁₂ : Accounted ids h₁ h₂ (.ok a)) (h₂₃ : Accounted ids' h₂ h₃ (.ok b)) :
    Accounted (ids ++ ids') h₁ h₃ (.ok (a.add b)) := by
  obtain ⟨hann, fs, hset, hr, hf⟩ := h₁₂
  obtain ⟨hann', fs', hset', hr', hf'⟩ := h₂₃
  refine ⟨hann'.trans hann, fs ++ fs', List.rel_append hset hset', ?_, ?_⟩
  · rw [tally_append, Except.ok.inj hr, Except.ok.inj hr']
  · rw [hf', hf, List.reverse_append, List.append_assoc]

/-- Item by item, each with its own fate. -/
theorem sat_items (revision : Option String) (work : List (MemoryItem × Option (List F))) :
    (embed_items D revision work).Sat Free (fun h' r => (∀ c ∈ h', Smooth c) →
      Accounted (work.map (·.1.id)) h h' r) h := by
  induction work generalizing h with
  | nil => exact fun _ => ⟨rfl, [], .nil, rfl, rfl⟩
  | cons x rest ih =>
      obtain ⟨item, vec⟩ := x
      rw [embed_items]
      refine Prog.Sat.bind ((sat_item revision item vec).mono ?_)
      intro h₁ r _ hone
      cases r with
      | error e =>
          intro hsmooth
          obtain ⟨-, f, -, hr, -⟩ := hone hsmooth
          cases hr
      | ok one =>
          refine Prog.Sat.bind (ih.mono ?_)
          intro h₂ r' hsuf hothers
          cases r' with
          | error e =>
              intro hsmooth
              obtain ⟨-, fs, -, hr, -⟩ := hothers hsmooth
              cases hr
          | ok others =>
              intro hsmooth
              obtain ⟨hann, f, hset, hr, hf⟩ := hone fun c hc => hsmooth c (hsuf.subset hc)
              have hfirst : Accounted [item.id] h h₁ (.ok one) := by
                refine ⟨hann, [f], .cons hset .nil, ?_, hf⟩
                rw [hr, tally, tally]
                cases f <;> rfl
              exact hfirst.append (hothers hsmooth)

/-- Nor does sending a chunk; what comes back is as long as the chunk, or nothing. -/
theorem quiet_chunk_vectors (chunk : List MemoryItem) :
    (chunk_vectors chunk : EmbProg F _).Sat Free (fun h' r => Quiet h h' ∧ ∃ v, r = .ok v
      ∧ ∀ vectors, v = some vectors → vectors.length = chunk.length) h := by
  unfold chunk_vectors
  refine Prog.Sat.bind (Prog.Sat.attempt ((quiet_embed_batch _).mono ?_))
  intro h' r _ hq
  cases r with
  | error e => exact ⟨hq, none, rfl, nofun⟩
  | ok vectors =>
      refine ⟨hq, _, rfl, ?_⟩
      intro vectors' hv
      split at hv
      · next hlen => exact Option.some.inj hv ▸ hlen
      · cases hv

/-- Whichever way the batch ended. -/
theorem sat_chunk (revision : Option String) (chunk : List MemoryItem) :
    (embed_chunk D revision chunk).Sat Free (fun h' r => (∀ c ∈ h', Smooth c) →
      Accounted (chunk.map (·.id)) h h' r) h := by
  unfold embed_chunk
  refine Prog.Sat.bind ((quiet_chunk_vectors chunk).mono ?_)
  rintro h₁ r - ⟨hq, v, rfl, hlen⟩
  have after : ∀ work : List (MemoryItem × Option (List F)), work.map (·.1) = chunk →
      (embed_items D revision work).Sat Free (fun h' r => (∀ c ∈ h', Smooth c) →
        Accounted (chunk.map (·.id)) h h' r) h₁ := by
    intro work hwork
    refine (sat_items revision work).mono ?_
    intro h₂ r _ hacc hsmooth
    obtain ⟨hann, fs, hset, hr, hf⟩ := hacc hsmooth
    refine ⟨hann.trans hq.2, fs, ?_, hr, hf.trans (by rw [hq.1])⟩
    rw [← hwork, List.map_map]
    exact hset
  cases v with
  | none => exact after _ (by rw [List.map_map]; exact List.map_id chunk)
  | some vectors =>
      refine after _ ?_
      refine List.map_fst_zip ?_
      rw [List.length_map, hlen vectors rfl]

/-- The loop over the chunks. -/
theorem sat_chunks (revision : Option String) (cs : List (List MemoryItem)) :
    (embed_chunks D revision cs).Sat Free (fun h' r => (∀ c ∈ h', Smooth c) →
      Accounted (cs.flatten.map (·.id)) h h' r) h := by
  induction cs generalizing h with
  | nil => exact fun _ => ⟨rfl, [], .nil, rfl, rfl⟩
  | cons chunk rest ih =>
      rw [embed_chunks]
      refine Prog.Sat.bind ((sat_chunk revision chunk).mono ?_)
      intro h₁ r _ hone
      cases r with
      | error e =>
          intro hsmooth
          obtain ⟨-, fs, -, hr, -⟩ := hone hsmooth
          cases hr
      | ok one =>
          refine Prog.Sat.bind (ih.mono ?_)
          intro h₂ r' hsuf hothers
          cases r' with
          | error e =>
              intro hsmooth
              obtain ⟨-, fs, -, hr, -⟩ := hothers hsmooth
              cases hr
          | ok others =>
              intro hsmooth
              rw [List.flatten_cons, List.map_append]
              exact (hone fun c hc => hsmooth c (hsuf.subset hc)).append (hothers hsmooth)

theorem quiet_select_candidates (revision : Option String) (force : Bool) (items : List MemoryItem) :
    (select_candidates D revision force items).Sat Free (fun h' _ => Quiet h h') h := by
  induction items generalizing h with
  | nil => exact Quiet.refl h
  | cons item rest ih =>
      have hskip : (may_skip D item.id item.content revision force).Sat Free
          (fun h' _ => Quiet h h') h := by
        unfold may_skip
        split
        · exact Quiet.refl h
        · refine Prog.Sat.bind (sat_free ?_)
          intro r
          cases r with
          | error e => exact ⟨rfl, rfl⟩
          | ok identity => exact ⟨rfl, rfl⟩
      rw [select_candidates]
      refine Prog.Sat.bind (hskip.mono ?_)
      intro h₁ r _ hq
      cases r with
      | error e => exact hq
      | ok current =>
          refine Prog.Sat.bind (ih.mono ?_)
          intro h₂ r' _ hq'
          cases r' with
          | error e => exact hq.trans hq'
          | ok chosen => exact hq.trans hq'

/-- The slices of the candidate list are the candidate list. -/
theorem flatten_chunks (items : List MemoryItem) : (chunks items).flatten = items := by
  rw [chunks, ← List.flatMap_def, Ranking.flatMap_slices]
  refine List.take_of_length_le ?_
  rw [BACKFILL_CHUNK_SIZE]
  omega

/-- A backfill that announced its candidates returned, with one mark for each of them. -/
theorem sat_accounted (revision project_id : Option String) (force : Bool) :
    (backfill D revision project_id force).Sat Free (fun log r => (∀ c ∈ log, Smooth c) →
      ∀ ids ∈ announced log, ∃ result, r = .ok result
        ∧ List.Forall₂ Fate.settles ids (fates log).reverse
        ∧ result = tally (fates log).reverse) [] := by
  unfold backfill
  refine Prog.Sat.bind (sat_free ?_)
  intro r
  cases r with
  | error e =>
      intro _ ids hids
      cases hids
  | ok items =>
      refine Prog.Sat.bind ((quiet_select_candidates revision force items).mono ?_)
      intro h₁ r₁ _ hq
      -- up to here nothing was announced, and no item has met its fate
      have hnone : announced h₁ = [] := hq.2
      have hclean : fates h₁ = [] := hq.1
      cases r₁ with
      | error e =>
          intro _ ids hids
          rw [hnone] at hids
          cases hids
      | ok chosen =>
          refine Prog.Sat.bind (sat_free ?_)
          intro r₂
          cases r₂ with
          | error e =>
              intro hsmooth
              have hbad := hsmooth _ List.mem_cons_self
              cases hbad
          | ok _ =>
              refine (sat_chunks revision (chunks chosen)).mono ?_
              intro h₂ r₃ _ hacc hsmooth ids hids
              obtain ⟨hann, fs, hset, hr, hf⟩ := hacc hsmooth
              -- the chunks announce nothing more
              have hone : announced h₂ = [chosen.map (·.id)] := by
                rw [hann]
                exact congrArg _ hnone
              have hfs : (fates h₂).reverse = fs := by
                have hmark : fates (⟨.candidates (chosen.map (·.id)), .ok ()⟩ :: h₁ : List (EmbCall F))
                    = [] := hclean
                rw [hf, hmark, List.append_nil, List.reverse_reverse]
              rw [hone, List.mem_singleton] at hids
              rw [flatten_chunks] at hset
              rw [hids, hfs]
              exact ⟨tally fs, hr, hset, rfl⟩

end Accounting

/-! ## Alone

Nothing changes between two calls, and store writes go through. -/

section Quiescent

variable (D : Deployment F) (revision : Option String)

/-- What an item sent alone comes back as: a vector, or the classified rejection. -/
def Embeds : Answer F → Prop
  | .ok vectors => vectors ≠ []
  | .error e => is_content_too_long e = true

/-- The answers of a run over these chunks. The batch call may do anything; if it does not
return a vector for each item, each item is sent alone. -/
inductive Served : List (List MemoryItem) → List (Answer F) → Prop where
  | done : Served [] []
  | batch {chunk : List MemoryItem} {rest : List (List MemoryItem)} {vectors : List (List F)}
      {answers : List (Answer F)} (hlen : vectors.length = chunk.length)
      (hrest : Served rest answers) : Served (chunk :: rest) (.ok vectors :: answers)
  | one_by_one {chunk : List MemoryItem} {rest : List (List MemoryItem)} {a : Answer F}
      {singles answers : List (Answer F)}
      (hbatch : ∀ vectors, a = .ok vectors → vectors.length ≠ chunk.length)
      (hlen : singles.length = chunk.length) (hsingle : ∀ b ∈ singles, Embeds b)
      (hrest : Served rest answers) : Served (chunk :: rest) (a :: (singles ++ answers))

/-- The item is a stored memory, as it is stored. -/
def Db.Holds (db : Db F) (item : MemoryItem) : Prop := db.get_memory item.id = some item

/-- Some stretch of a run: the memories are what they were, these items have a current row
now, and no memory has lost its own. -/
structure Advance (items : List MemoryItem) (db db' : Db F) : Prop where
  memories : db'.memory_items = db.memory_items
  settled : ∀ m ∈ items, has_current D db' revision m.id m.content = true
  kept : ∀ m, db.Holds m → has_current D db revision m.id m.content = true →
    has_current D db' revision m.id m.content = true

variable {D revision}

/-- The memories decide. -/
theorem Db.Holds.congr {db db' : Db F} {item : MemoryItem} (h : db.Holds item)
    (hmem : db'.memory_items = db.memory_items) : db'.Holds item := by
  rw [Db.Holds, Db.get_memory, Db.memory_row, hmem]
  exact h

theorem Advance.refl (db : Db F) : Advance D revision [] db db :=
  ⟨rfl, fun _ hm => absurd hm List.not_mem_nil, fun _ _ h => h⟩

/-- What is current stays current while other items are saved: a save touches one row. -/
theorem Advance.append {items items' : List MemoryItem} {db₁ db₂ db₃ : Db F}
    (h₁₂ : Advance D revision items db₁ db₂) (h₂₃ : Advance D revision items' db₂ db₃)
    (hstored : ∀ m ∈ items, db₁.Holds m) : Advance D revision (items ++ items') db₁ db₃ := by
  refine ⟨h₂₃.memories.trans h₁₂.memories, ?_, ?_⟩
  · intro m hm
    rcases List.mem_append.mp hm with hm | hm
    · exact h₂₃.kept m ((hstored m hm).congr h₁₂.memories) (h₁₂.settled m hm)
    · exact h₂₃.settled m hm
  · intro m hm hcur
    exact h₂₃.kept m (hm.congr h₁₂.memories) (h₁₂.kept m hm hcur)

variable (D revision) in
/-- Publishing what a stored item was embedded to, or that it is too long, makes it current. -/
theorem advance_save {db : Db F} {item : MemoryItem} (hitem : db.Holds item) (v : List F)
    (status : EmbeddingStatus) :
    let p := publication D item.id item.content v revision status
    let out := db.save_embedding D.hash_content p.memory_id p.embedding p.model p.provider
      p.content_hash p.model_revision p.settings_fingerprint p.status
    out.1 = true ∧ Advance D revision [item] db out.2 := by
  intro p out
  have hcases := db.save_embedding_cases D.hash_content p.memory_id p.embedding p.model p.provider
    p.content_hash p.model_revision p.settings_fingerprint p.status
  rcases hcases with ⟨-, hrefused⟩ | ⟨htrue, -, hmem, -, hrow⟩
  · exact absurd rfl (hrefused item hitem)
  · have hnew : has_current D out.2 revision item.id item.content = true := by
      have hitem_row : out.2.embedding_row item.id = some p.row := (hrow item.id).trans (if_pos rfl)
      rw [has_current, Db.get_embedding_identity, hitem_row]
      simp [identity_current, Publication.row, Db.embedding_of, p, publication]
    refine ⟨htrue, hmem, ?_, ?_⟩
    · intro m hm
      rw [List.mem_singleton.mp hm]
      exact hnew
    · intro m hm hcur
      by_cases hid : m.id = item.id
      · have hsame : some m = some item := by rw [← hm, hid, hitem]
        rw [Option.some.inj hsame]
        exact hnew
      · have hother : out.2.embedding_row m.id = db.embedding_row m.id :=
          (hrow m.id).trans (if_neg hid)
        rw [has_current, Db.get_embedding_identity, hother]
        exact hcur

/-! ### Evaluation -/

/-- A program evaluated alone: it returns, consumes these answers and advances the store. -/
def Settles {α : Type} (D : Deployment F) (revision : Option String) (p : EmbProg F α)
    (items : List MemoryItem) (answers : List (Answer F)) : Prop :=
  ∀ (w : EmbWorld F) (script : List (Answer F)), (∀ m ∈ items, w.db.Holds m) →
    ∃ a w', p.eval (S := embSig F) (alone D) (w, answers ++ script) = (.ok a, (w', script))
      ∧ Advance D revision items w.db w'.db

/-- The answers are consumed in order. -/
theorem Settles.seq {p q : EmbProg F BackfillResult} {items items' : List MemoryItem}
    {answers answers' : List (Answer F)} (hp : Settles D revision p items answers)
    (hq : Settles D revision q items' answers') :
    Settles D revision (p >>= fun a => q >>= fun b => pure (a.add b)) (items ++ items')
      (answers ++ answers') := by
  intro w script hstored
  have hleft : ∀ m ∈ items, w.db.Holds m := fun m hm => hstored m (List.mem_append_left _ hm)
  obtain ⟨a, w₁, heval, hadv⟩ := hp w (answers' ++ script) hleft
  have hright : ∀ m ∈ items', w₁.db.Holds m := fun m hm =>
    (hstored m (List.mem_append_right _ hm)).congr hadv.memories
  obtain ⟨b, w₂, heval', hadv'⟩ := hq w₁ script hright
  refine ⟨a.add b, w₂, ?_, hadv.append hadv' hleft⟩
  rw [Prog.eval_bind, List.append_assoc, heval]
  dsimp only
  rw [Prog.eval_bind, heval']
  rfl

variable (D revision) in
/-- The `try` body with its vector at hand. -/
theorem settles_body (item : MemoryItem) (v : List F) :
    Settles D revision (embed_item_body D revision item (some v)) [item] [] := by
  intro w script hstored
  obtain ⟨htrue, hadv⟩ := advance_save D revision
    (hstored item List.mem_cons_self) v .ok
  exact ⟨_, _, rfl, hadv⟩

variable (D revision) in
/-- A text that is too long is settled by its tombstone, -/
theorem settles_tombstone (item : MemoryItem) :
    Settles D revision (write_tombstone D item.id item.content revision) [item] [] := by
  intro w script hstored
  obtain ⟨htrue, hadv⟩ := advance_save D revision
    (hstored item List.mem_cons_self) [] .content_too_long
  exact ⟨_, _, rfl, hadv⟩

variable (D revision) in
/-- and a vector at hand is saved. -/
theorem settles_item_some (item : MemoryItem) (v : List F) :
    Settles D revision (embed_item D revision item (some v)) [item] [] := by
  intro w script hstored
  obtain ⟨published, w', heval, hadv⟩ := settles_body D revision item v w script
    hstored
  refine ⟨{ generated := if published then 1 else 0 }, w', ?_, hadv⟩
  rw [embed_item, Prog.eval_bind, Prog.eval_attempt, heval]
  rfl

/-- Sent alone, the item gets its vector or its tombstone. -/
theorem settles_item_none (item : MemoryItem) {a : Answer F} (ha : Embeds a) :
    Settles D revision (embed_item D revision item none) [item] [a] := by
  intro w script hstored
  cases a with
  | ok vectors =>
      cases vectors with
      | nil => exact absurd rfl ha
      | cons v rest =>
          -- the request also ends the cooldown of a failed probe, then as with a vector
          exact settles_item_some D revision item v { w with last_probe_failure := none } script hstored
  | error e =>
      have hbody : (embed_item_body D revision item none).eval (S := embSig F) (alone D)
          (w, [.error e] ++ script) = (.error e, (w, script)) := rfl
      obtain ⟨published, w', heval, hadv⟩ := settles_tombstone D revision item w
        script hstored
      refine ⟨{ tombstoned := if published then 1 else 0 }, w', ?_, hadv⟩
      rw [embed_item, Prog.eval_bind, Prog.eval_attempt, hbody]
      dsimp only
      have htoo : is_content_too_long e = true := ha
      rw [if_pos htoo, Prog.eval_bind, Prog.eval_attempt]
      rw [List.nil_append] at heval
      rw [heval]
      rfl

/-- The answers an item loop uses: one for each item that has no vector yet. -/
inductive Feeds : List (MemoryItem × Option (List F)) → List (Answer F) → Prop where
  | done : Feeds [] []
  | at_hand {item : MemoryItem} {v : List F} {work : List (MemoryItem × Option (List F))}
      {answers : List (Answer F)} (hrest : Feeds work answers) :
      Feeds ((item, some v) :: work) answers
  | sent {item : MemoryItem} {a : Answer F} {work : List (MemoryItem × Option (List F))}
      {answers : List (Answer F)} (ha : Embeds a) (hrest : Feeds work answers) :
      Feeds ((item, none) :: work) (a :: answers)

variable (D revision) in
/-- The item loop, by induction over its answers. -/
theorem settles_items {work : List (MemoryItem × Option (List F))} {answers : List (Answer F)}
    (h : Feeds work answers) :
    Settles D revision (embed_items D revision work) (work.map (·.1)) answers := by
  induction h with
  | done => exact fun w script _ => ⟨{}, w, rfl, Advance.refl w.db⟩
  | at_hand hrest ih => exact (settles_item_some D revision _ _).seq ih
  | sent ha hrest ih => exact (settles_item_none _ ha).seq ih

/-- The vectors of a batch need no further answers, -/
theorem feeds_zip {chunk : List MemoryItem} {vectors : List (List F)}
    (hlen : vectors.length = chunk.length) : Feeds (chunk.zip (vectors.map some)) [] := by
  induction chunk generalizing vectors with
  | nil => exact .done
  | cons item chunk ih =>
      cases vectors with
      | nil => cases hlen
      | cons v vectors => exact .at_hand (ih (Nat.succ.inj hlen))

/-- and items sent alone need one each. -/
theorem feeds_alone {chunk : List MemoryItem} {singles : List (Answer F)}
    (hlen : singles.length = chunk.length) (hsingle : ∀ b ∈ singles, Embeds b) :
    Feeds (chunk.map fun item => (item, none)) singles := by
  induction chunk generalizing singles with
  | nil =>
      rw [List.length_eq_zero_iff.mp hlen]
      exact .done
  | cons item chunk ih =>
      cases singles with
      | nil => cases hlen
      | cons a singles =>
          refine .sent (hsingle a List.mem_cons_self) (ih (Nat.succ.inj hlen) ?_)
          exact fun b hb => hsingle b (List.mem_cons_of_mem _ hb)

/-- What the code keeps of a batch answer. -/
def usable (chunk : List MemoryItem) : Answer F → Option (List (List F))
  | .ok vectors => if vectors.length = chunk.length then some vectors else none
  | .error _ => none

/-- What the item loop of a chunk runs over. -/
def work_of (chunk : List MemoryItem) : Option (List (List F)) → List (MemoryItem × Option (List F))
  | some vectors => chunk.zip (vectors.map some)
  | none => chunk.map fun item => (item, none)

theorem embed_chunk_eq (chunk : List MemoryItem) (port : EmbeddingPort F) :
    embed_chunk D revision chunk port
      = chunk_vectors chunk port >>= fun v => embed_items D revision (work_of chunk v) port := by
  rw [embed_chunk]
  congr 1
  funext v
  cases v <;> rfl

/-- The batch call uses one answer and leaves the store alone. -/
theorem eval_chunk_vectors {chunk : List MemoryItem} (hchunk : chunk ≠ []) (a : Answer F)
    (w : EmbWorld F) (script : List (Answer F)) :
    ∃ w' : EmbWorld F, w'.db = w.db
      ∧ (chunk_vectors chunk).eval (S := embSig F) (alone D) (w, a :: script)
        = (.ok (usable chunk a), (w', script)) := by
  have htexts : chunk.map (·.content) ≠ [] := by
    intro h
    exact hchunk (List.map_eq_nil_iff.mp h)
  rw [chunk_vectors]
  dsimp only [ollama]
  rw [embed_batch, if_neg htexts]
  cases a with
  | ok vectors => exact ⟨{ w with last_probe_failure := none }, rfl, rfl⟩
  | error e => exact ⟨w, rfl, rfl⟩

theorem settles_chunk {chunk : List MemoryItem} (hchunk : chunk ≠ []) {a : Answer F}
    {answers : List (Answer F)} (hfeeds : Feeds (work_of chunk (usable chunk a)) answers)
    (hwork : (work_of chunk (usable chunk a)).map (·.1) = chunk) :
    Settles D revision (embed_chunk D revision chunk) chunk (a :: answers) := by
  intro w script hstored
  obtain ⟨w₁, hdb, heval⟩ := eval_chunk_vectors (D := D) hchunk a w (answers ++ script)
  have hitems := settles_items D revision hfeeds
  rw [hwork] at hitems
  obtain ⟨r, w₂, heval', hadv⟩ := hitems w₁ script (by rw [hdb]; exact hstored)
  rw [hdb] at hadv
  refine ⟨r, w₂, ?_, hadv⟩
  rw [embed_chunk_eq, Prog.eval_bind, List.cons_append, heval]
  exact heval'

variable (D revision) in
/-- The chunks, each with its batch call and, where that came to nothing, its single calls. -/
theorem settles_chunks {cs : List (List MemoryItem)} {answers : List (Answer F)}
    (h : Served cs answers) (hcs : ∀ chunk ∈ cs, chunk ≠ []) :
    Settles D revision (embed_chunks D revision cs) cs.flatten answers := by
  induction h with
  | done => exact fun w script _ => ⟨{}, w, rfl, Advance.refl w.db⟩
  | @batch chunk rest vectors answers hlen hrest ih =>
      have husable : usable chunk (.ok vectors) = some vectors := if_pos hlen
      have hone : Settles D revision (embed_chunk D revision chunk) chunk [.ok vectors] := by
        apply settles_chunk (hcs chunk List.mem_cons_self)
        · rw [husable]
          exact feeds_zip hlen
        · rw [husable]
          refine List.map_fst_zip ?_
          rw [List.length_map, hlen]
      exact hone.seq (ih fun c hc => hcs c (List.mem_cons_of_mem _ hc))
  | @one_by_one chunk rest a singles answers hbatch hlen hsingle hrest ih =>
      have husable : usable chunk a = none := by
        cases a with
        | ok vectors => exact if_neg (hbatch vectors rfl)
        | error e => rfl
      have hone : Settles D revision (embed_chunk D revision chunk) chunk (a :: singles) := by
        apply settles_chunk (hcs chunk List.mem_cons_self)
        · rw [husable]
          exact feeds_alone hlen hsingle
        · rw [husable, work_of, List.map_map]
          exact List.map_id chunk
      exact hone.seq (ih fun c hc => hcs c (List.mem_cons_of_mem _ hc))

/-- No slice is empty. -/
theorem ne_nil_of_mem_chunks {items chunk : List MemoryItem} (h : chunk ∈ chunks items) :
    chunk ≠ [] := by
  obtain ⟨i, hi, rfl⟩ := List.mem_map.mp h
  have hlt : i < (items.length + 32 - 1) / 32 := List.mem_range.mp hi
  intro hnil
  have hlen := congrArg List.length hnil
  simp only [Ranking.slice, BACKFILL_CHUNK_SIZE, List.length_take, List.length_drop,
    List.length_nil] at hlen
  omega

/-! ### A run, and the next one -/

/-- The memories a backfill of this scope looks at. -/
abbrev Db.scoped (db : Db F) (project_id : Option String) : List MemoryItem :=
  db.list_memory none false 0 project_id none none false

/-- What was listed is stored. -/
theorem holds_of_mem_scoped {db : Db F} {project_id : Option String} {m : MemoryItem}
    (h : m ∈ db.scoped project_id) : db.Holds m := by
  simp only [Db.scoped, Db.list_memory, Bool.false_eq_true, if_false, List.drop_zero,
    Db.pinned_first, List.mem_insertionSort, List.mem_filter] at h
  obtain ⟨row, hrow, rfl⟩ := List.mem_map.mp h.1
  exact Db.get_memory_of_mem hrow

theorem eval_selected (project_id : Option String) (force : Bool) (w : EmbWorld F)
    (script : List (Answer F)) :
    ((act (.list_memory project_id) : EmbProg F (List MemoryItem))
        >>= select_candidates D revision force).eval (S := embSig F) (alone D) (w, script)
      = (.ok ((w.db.scoped project_id).filter (is_candidate D w.db revision force)), (w, script)) := by
  rw [Prog.eval_bind]
  exact eval_select_candidates _

/-- Every memory in scope is current after a run over its candidates. -/
theorem no_candidate_left {project_id : Option String} {force : Bool} {db db' : Db F}
    (h : Advance D revision ((db.scoped project_id).filter (is_candidate D db revision force)) db db') :
    (db'.scoped project_id).filter (is_candidate D db' revision false) = [] := by
  have hsame : db'.scoped project_id = db.scoped project_id := by
    rw [Db.scoped, Db.scoped, Db.list_memory, Db.list_memory, Db.items, Db.items, h.memories]
  rw [hsame, List.filter_eq_nil_iff]
  intro m hm
  have hcur : has_current D db' revision m.id m.content = true := by
    by_cases hc : is_candidate D db revision force m = true
    · exact h.settled m (List.mem_filter.mpr ⟨hm, hc⟩)
    · refine h.kept m (holds_of_mem_scoped hm) ?_
      rw [is_candidate] at hc
      rcases force with _ | _
      · simpa using hc
      · exact absurd rfl hc
  rw [is_candidate, hcur]
  decide

/-- With no candidate left in the whole corpus, the report is clean. -/
theorem status_clean {db : Db F}
    (h : (db.scoped none).filter (is_candidate D db revision false) = []) :
    (embedding_status D ⟨true, revision⟩ db).missing = 0
      ∧ (embedding_status D ⟨true, revision⟩ db).stale = 0 := by
  have hcount := candidates_add_current D db revision
  rw [h, List.length_nil, Nat.zero_add] at hcount
  have hle : db.joined.length ≤ db.memory_items.length := by
    rw [db.joined_perm.length_eq]
    exact List.length_filterMap_le _ _
  have hstale := current_add_stale D db revision
  constructor
  · simp only [embedding_status, count_memory_eq, count_embeddings_eq]
    omega
  · simp only [embedding_status, space_mismatch_eq, content_mismatch_eq]
    omega

/-- Up to its candidates a run only reads. -/
theorem eval_backfill_eq (project_id : Option String) (force : Bool) (w : EmbWorld F)
    (script : List (Answer F)) (port : EmbeddingPort F := ollama) :
    (backfill D revision project_id force port).eval (S := embSig F) (alone D) (w, script)
      = (embed_chunks D revision
          (chunks ((w.db.scoped project_id).filter (is_candidate D w.db revision force))) port).eval
          (S := embSig F) (alone D) (w, script) := by
  have hlist : (backfill D revision project_id force port).eval (S := embSig F) (alone D) (w, script)
      = (select_candidates D revision force (w.db.scoped project_id) >>= fun chosen =>
          act (.candidates (chosen.map (·.id))) >>= fun _ =>
            embed_chunks D revision (chunks chosen) port).eval (S := embSig F) (alone D) (w, script) := rfl
  rw [hlist, Prog.eval_bind, eval_select_candidates]
  rfl

/-- A run on a quiet store returns, uses these answers and leaves no candidate. -/
theorem eval_backfill {project_id : Option String} {force : Bool} (w : EmbWorld F)
    {answers : List (Answer F)} (script : List (Answer F))
    (h : Served (chunks ((w.db.scoped project_id).filter (is_candidate D w.db revision force)))
      answers) :
    ∃ result w', (backfill D revision project_id force).eval (S := embSig F) (alone D)
        (w, answers ++ script) = (.ok result, (w', script))
      ∧ (w'.db.scoped project_id).filter (is_candidate D w'.db revision false) = [] := by
  have hchunks := settles_chunks D revision h
    (fun chunk hc => ne_nil_of_mem_chunks hc)
  rw [flatten_chunks] at hchunks
  have hstored : ∀ m ∈ (w.db.scoped project_id).filter (is_candidate D w.db revision force),
      w.db.Holds m := fun m hm => holds_of_mem_scoped (List.mem_filter.mp hm).1
  obtain ⟨result, w', heval, hadv⟩ := hchunks w script hstored
  refine ⟨result, w', ?_, no_candidate_left hadv⟩
  rw [eval_backfill_eq]
  exact heval

/-- **Every candidate is accounted for, and a quiet run settles them all.** Whatever the
calls of a backfill are answered, each candidate it announced leaves one mark, the counters
count the marks, and with the refusals they add up to the candidates. Run alone, with every
item that is sent alone embedded or rejected as too long, it leaves the report clean and the
next run nothing to select and nothing to send. -/
theorem backfill_accounts_and_converges (D : Deployment F) (revision project_id : Option String)
    (force : Bool) :
    (backfill D revision project_id force).Sat Free (fun log r => (∀ c ∈ log, Smooth c) →
      ∀ ids ∈ announced log, ∃ result, r = .ok result
        ∧ List.Forall₂ Fate.settles ids (fates log).reverse
        ∧ result = tally (fates log).reverse
        ∧ result.generated + result.failed + result.tombstoned + (fates log).countP Fate.is_refused
          = ids.length) []
    ∧ ∀ (w : EmbWorld F) (answers script : List (Answer F)),
      Served (chunks ((w.db.scoped project_id).filter (is_candidate D w.db revision force))) answers →
      ∃ result w', (backfill D revision project_id force).eval (S := embSig F) (alone D)
          (w, answers ++ script) = (.ok result, (w', script))
        ∧ (project_id = none → (embedding_status D ⟨true, revision⟩ w'.db).missing = 0
          ∧ (embedding_status D ⟨true, revision⟩ w'.db).stale = 0)
        ∧ ∀ script' : List (Answer F),
          ((act (.list_memory project_id) : EmbProg F (List MemoryItem))
              >>= select_candidates D revision false).eval (S := embSig F) (alone D) (w', script')
            = (.ok [], (w', script'))
          ∧ (backfill D revision project_id false).eval (S := embSig F) (alone D) (w', script')
            = (.ok {}, (w', script')) := by
  constructor
  · -- each candidate met its fate, and the counters are the tally of the fates
    refine (sat_accounted revision project_id force).mono ?_
    intro log r _ hacc hsmooth ids hids
    obtain ⟨result, hr, hset, htally⟩ := hacc hsmooth ids hids
    refine ⟨result, hr, hset, htally, ?_⟩
    have hsum := tally_sum (fates log).reverse
    rw [List.countP_reverse, ← hset.length_eq, ← htally] at hsum
    exact hsum
  · -- alone, everything is settled, so nothing is selected afterwards
    intro w answers script hserved
    obtain ⟨result, w', heval, hnone⟩ := eval_backfill w script hserved
    refine ⟨result, w', heval, ?_, ?_⟩
    · rintro rfl
      exact status_clean hnone
    · intro script'
      refine ⟨?_, ?_⟩
      · rw [eval_selected, hnone]
      · rw [eval_backfill_eq, hnone]
        rfl

namespace Parking

/-- A service for the samples: a text is its own hash. -/
def deployment : Deployment ℕ where
  model_name := "nomic-embed-text"
  provider_name := "ollama"
  settings_fingerprint := "v1"
  hash_content := id
  digest := fun _ => some "sha256:1"
  produce := fun _ text => [text.length]

/-- Two memories without a row. -/
def world : EmbWorld ℕ where
  db := { memory_items := [⟨{ id := "a", content := "much too long", created_at := 1 }, 1⟩,
            ⟨{ id := "b", content := "short", created_at := 2 }, 2⟩]
          memory_pk := by decide
          memory_fk := by decide
          rowid_pk := by decide }

/-- The batch is rejected; then the newer memory embeds alone, and the older is too long. -/
def answers : List (Answer ℕ) :=
  [.error .Other, .ok [[5]], .error (.ProviderError .CONTENT_TOO_LONG)]

theorem served : Served (chunks ((world.db.scoped none).filter
    (is_candidate deployment world.db (some "sha256:1") false))) answers := by
  have hchunks : chunks ((world.db.scoped none).filter
      (is_candidate deployment world.db (some "sha256:1") false))
      = [[{ id := "b", content := "short", created_at := 2 },
          { id := "a", content := "much too long", created_at := 1 }]] := by decide +kernel
  rw [hchunks]
  have hsingle : ∀ b ∈ answers.tail, Embeds b := by simp [answers, Embeds, is_content_too_long]
  refine Served.one_by_one (a := .error .Other) ?_ (show answers.tail.length = _ from rfl) hsingle .done
  intro vectors h
  cases h

theorem backfill_accounts_and_converges_sample :
    ∃ result w', (backfill deployment (some "sha256:1") none false).eval (S := embSig ℕ)
        (alone deployment) (world, answers ++ []) = (.ok result, (w', []))
      ∧ (embedding_status deployment ⟨true, some "sha256:1"⟩ w'.db).missing = 0
      ∧ (embedding_status deployment ⟨true, some "sha256:1"⟩ w'.db).stale = 0 := by
  obtain ⟨result, w', heval, hclean, -⟩ :=
    (backfill_accounts_and_converges deployment (some "sha256:1") none false).2 world answers []
      served
  exact ⟨result, w', heval, (hclean rfl).1, (hclean rfl).2⟩

end Parking

end Quiescent

end OpenChronicle
