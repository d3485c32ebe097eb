/-
Two onboarding runs on one project, call by call.

A run reads rows and then deletes or replaces what it has read, twice: under `force` it wipes the
project, and at its end it replaces the watermark. Between the reading and the last write it relies
on rows that the other run may delete or add. So two runs are safe if neither makes a store call while
the other is inside such a section, and the sections of the source are not protected. Calls that
leave the store alone, the extraction among them, may come at any time: a run that waits for git
holds nobody up.

`Outside` lists the places between the sections, `Inside` the places in them with what the run
there relies on of the store. Each step lemma takes one call from one place to the next, and a
safe pair stays safe: the run that moves is where its step lemma says, and the other one is
outside and relies on nothing, or sees the same store.
-/
import OpenChronicle.GitOnboard.Failure

set_option autoImplicit false

namespace OpenChronicle.Onboarding

open Program

variable {F : Type}

/-! ## Runs and their calls -/

/-- One run: its arguments and what it meets. -/
structure OnboardCall (F : Type) where
  P : SubjectPatterns
  max_clusters : ℤ
  force : Bool
  world : OnboardWorld F

/-- The program of a run. -/
def OnboardCall.prog (r : OnboardCall F) (project_id : String) : OnboardProg OnboardPrepared :=
  onboard_git_prepare r.P project_id r.max_clusters r.force

/-- The store, and what is left to do of the two runs. -/
structure Pair (F : Type) where
  db : Db F
  left : Bool → OnboardProg OnboardPrepared

/-- One call of a program. -/
def next_call (X : OnboardWorld F) (db : Db F) :
    OnboardProg OnboardPrepared → Option (OnboardProg OnboardPrepared × Db F)
  | .call o k => some (k (X.answer o db).1, (X.answer o db).2)
  | _ => none

/-- One call of one of the runs. -/
def Pair.step (runs : Bool → OnboardCall F) (c : Pair F) (i : Bool) : Option (Pair F) :=
  (next_call (runs i).world c.db (c.left i)).map fun (p, db) =>
    { db, left := Function.update c.left i p }

/-- Both runs before their first call. -/
def Pair.start (runs : Bool → OnboardCall F) (project_id : String) (db : Db F) : Pair F :=
  { db, left := fun i => (runs i).prog project_id }

/-- Calls of the two runs, in the order of the list. -/
def Pair.steps (runs : Bool → OnboardCall F) (c : Pair F) : List Bool → Option (Pair F)
  | [] => some c
  | i :: rest => (c.step runs i).bind fun c' => c'.steps runs rest

/-! ## Sections -/

section Sections

variable (r : OnboardCall F) (project_id : String)

/-- `onboard_git_prepare` behind its first list. -/
def behind_list (existing : List MemoryItem) : OnboardProg OnboardPrepared := do
  let watermark_items : List MemoryItem ←
    onboard_act (.list_memory_by_source WATERMARK_SOURCE project_id)
  if r.force then do
    delete_all (existing ++ watermark_items)
    walk_and_anchor r.P project_id r.max_clusters none
  else if existing ≠ [] ∧ stored_watermark watermark_items = none then
    pure { status := .present, existing_count := existing.length }
  else walk_and_anchor r.P project_id r.max_clusters (stored_watermark watermark_items)

/-- The insert at the end of `save_watermark`. -/
def add_watermark (latest_hash : String) (prepared : OnboardPrepared) (fresh : String × Instant) :
    OnboardProg OnboardPrepared := do
  onboard_act (.add_memory
    { id := fresh.1, content := latest_hash, tags := [WATERMARK_SOURCE], created_at := fresh.2
      pinned := false, project_id := some project_id, source := WATERMARK_SOURCE })
  pure prepared

/-- `save_watermark` behind its list. -/
def replace_watermark (latest_hash : String) (prepared : OnboardPrepared) (existing : List MemoryItem) :
    OnboardProg OnboardPrepared := do
  delete_all existing
  let fresh : String × Instant ← onboard_act .new_item
  add_watermark project_id latest_hash prepared fresh

/-- The run is between its sections: it has not begun, it is about to extract or to save the
watermark, or it is done. Without `force` the first two lists are no section. -/
inductive Outside : OnboardProg OnboardPrepared → Prop
  | begin : Outside (r.prog project_id)
  | listed (existing : List MemoryItem) (hforce : r.force = false) : Outside (behind_list r project_id existing)
  | walking (since : Option String) : Outside (walk_and_anchor r.P project_id r.max_clusters since)
  | anchoring (newest : GitCommit) (rest : List GitCommit) (prepared : OnboardPrepared)
      (hcommits : prepared.history.commits = newest :: rest) :
      Outside (save_watermark project_id newest.hash >>= fun _ => pure prepared)
  | returned (prepared : OnboardPrepared) : Outside (.ret prepared)
  | raised (e : Exc) : Outside (.raise e)

/-- Rows that are stored, each once. -/
structure Held (db : Db F) (rows : List MemoryItem) : Prop where
  there : ∀ m ∈ rows, db.get_memory m.id = some m
  nodup : (rows.map (·.id)).Nodup

/-- The run is in a section, and the store is as it needs it. -/
inductive Inside (db : Db F) : OnboardProg OnboardPrepared → Prop
  | listed (existing : List MemoryItem) (hforce : r.force = true)
      (hexisting : existing = db.list_memory_by_source "git-onboard" (some project_id)) :
      Inside db (behind_list r project_id existing)
  | wiping (m : MemoryItem) (rest : List MemoryItem) (hheld : Held db (m :: rest)) :
      Inside db (delete_all (m :: rest) >>= fun _ => walk_and_anchor r.P project_id r.max_clusters none)
  | clearing (newest : GitCommit) (commits : List GitCommit) (prepared : OnboardPrepared)
      (hcommits : prepared.history.commits = newest :: commits) (m : MemoryItem) (rest : List MemoryItem)
      (hheld : Held db (m :: rest)) (hmarks : ∀ m' ∈ db.watermarks project_id, m' ∈ m :: rest) :
      Inside db (replace_watermark project_id newest.hash prepared (m :: rest))
  | cleared (newest : GitCommit) (commits : List GitCommit) (prepared : OnboardPrepared)
      (hcommits : prepared.history.commits = newest :: commits) (hmarks : db.watermarks project_id = []) :
      Inside db (replace_watermark project_id newest.hash prepared [])
  | adding (newest : GitCommit) (commits : List GitCommit) (prepared : OnboardPrepared)
      (hcommits : prepared.history.commits = newest :: commits) (fresh : String × Instant)
      (hmarks : db.watermarks project_id = []) :
      Inside db (add_watermark project_id newest.hash prepared fresh)

end Sections

/-! ## One call -/

section Step

variable {r : OnboardCall F} {project_id : String} {X : OnboardWorld F} {db : Db F}

/-- Where a run goes when its next call is answered. -/
def answered {α : Type} (k : α → OnboardProg OnboardPrepared) : Except Exc α → OnboardProg OnboardPrepared
  | .ok a => k a
  | .error e => .raise e

theorem next_call_act (o : OnboardOp) (k : o.Resp → OnboardProg OnboardPrepared) :
    next_call X db (onboard_act o >>= k) = some (answered k (X.answer o db).1, (X.answer o db).2) := by
  rw [onboard_act, Prog.op, Prog.call_bind, next_call]
  rcases (X.answer o db).1 with e | v
  · rfl
  · rfl

variable (project_id) in
/-- Deleting rows that are held never fails, and leaves the others held. -/
theorem Held.delete {m : MemoryItem} {rest : List MemoryItem} (h : Held db (m :: rest)) :
    ∃ db', X.answer (.delete_memory m.id) db = (.ok (), db') ∧ Held db' rest
      ∧ ∀ m', m' ∈ db'.watermarks project_id → m' ∈ db.watermarks project_id ∧ m'.id ≠ m.id := by
  obtain ⟨db', hdel⟩ := Db.delete_memory_found (h.there m List.mem_cons_self)
  obtain ⟨hget, -, -⟩ := Db.delete_memory_ok hdel
  have hnodup := h.nodup
  rw [List.map_cons, List.nodup_cons] at hnodup
  refine ⟨db', X.serves.delete _ _ _ hdel, ⟨?_, hnodup.2⟩, ?_⟩
  · intro m' hm'
    have hne : m'.id ≠ m.id := by
      intro hid
      rw [← hid] at hnodup
      exact hnodup.1 (List.mem_map_of_mem hm')
    rw [hget, if_neg hne]
    exact h.there m' (List.mem_cons_of_mem m hm')
  · intro m' hm'
    obtain ⟨hthere, hsource, hpid⟩ := Db.mem_list_memory_by_source.mp hm'
    rw [hget] at hthere
    split at hthere
    · cases hthere
    · next hne => exact ⟨Db.mem_list_memory_by_source.mpr ⟨hthere, hsource, hpid⟩, hne⟩

/-- The insert raises no `NotFoundError`. -/
theorem answer_add_error {item : MemoryItem} {e : Exc} {db' : Db F}
    (h : X.answer (.add_memory item) db = (.error e, db')) (memory_id : String) : e ≠ .MemoryNotFound memory_id := by
  rw [OnboardWorld.answer] at h
  split at h
  · obtain ⟨he, -⟩ := Prod.mk.inj h
    rw [← Except.error.inj he]
    intro heq
    cases heq
  · split at h
    · cases h
    · next e' hadd =>
        obtain ⟨he, -⟩ := Prod.mk.inj h
        rw [← Except.error.inj he]
        unfold Db.add_memory at hadd
        split at hadd
        · rw [← Except.error.inj hadd]
          intro heq
          cases heq
        · split at hadd
          · cases hadd
          · rw [← Except.error.inj hadd]
            intro heq
            cases heq

/-- A run is between its sections and has not failed to find a row, or it is in one. -/
def At (r : OnboardCall F) (project_id : String) (db : Db F) (p : OnboardProg OnboardPrepared) : Prop :=
  (Outside r project_id p ∧ ∀ memory_id, p ≠ .raise (.MemoryNotFound memory_id)) ∨ Inside r project_id db p

/-- A run that ends with `ok` leaves one watermark row, its own. -/
def Marks (project_id : String) (db : Db F) (p : OnboardProg OnboardPrepared) : Prop :=
  ∀ prepared, p = .ret prepared → prepared.status = .ok → ∃ item, db.watermarks project_id = [item]
    ∧ (prepared.history.commits.head?.map (·.hash)) = some item.content

/-- A run that is about to delete is in its section, or through with it when nothing is left. -/
theorem at_wiping {rows : List MemoryItem} (h : Held db rows) :
    At r project_id db (delete_all rows >>= fun _ => walk_and_anchor r.P project_id r.max_clusters none) := by
  rcases rows with _ | ⟨m, rest⟩
  · exact .inl ⟨.walking none, nofun⟩
  · exact .inr (.wiping m rest h)

/-- The same for the watermark rows. -/
theorem at_clearing {newest : GitCommit} {commits : List GitCommit} {prepared : OnboardPrepared}
    (hcommits : prepared.history.commits = newest :: commits) {rows : List MemoryItem} (h : Held db rows)
    (hmarks : ∀ m ∈ db.watermarks project_id, m ∈ rows) :
    At r project_id db (replace_watermark project_id newest.hash prepared rows) := by
  rcases rows with _ | ⟨m, rest⟩
  · refine .inr (.cleared newest commits prepared hcommits (List.eq_nil_iff_forall_not_mem.mpr ?_))
    intro m hm
    cases hmarks m hm
  · exact .inr (.clearing newest commits prepared hcommits m rest h hmarks)

/-- A run in a section has a call before it. -/
theorem Inside.not_raised {p : OnboardProg OnboardPrepared} (h : Inside r project_id db p) (e : Exc) :
    p ≠ .raise e := by
  cases h with
  | listed existing hforce hexisting => nofun
  | wiping m rest hheld => nofun
  | clearing newest commits prepared hcommits m rest hheld hmarks => nofun
  | cleared newest commits prepared hcommits hmarks => nofun
  | adding newest commits prepared hcommits fresh hmarks => nofun

/-- So it has not failed to find a row. -/
theorem At.not_raised {p : OnboardProg OnboardPrepared} (h : At r project_id db p) (memory_id : String) :
    p ≠ .raise (.MemoryNotFound memory_id) := by
  rcases h with ⟨-, hraised⟩ | hinside
  · exact hraised memory_id
  · exact hinside.not_raised _

/-- Between its sections a run relies on no row. -/
theorem At.frame {p : OnboardProg OnboardPrepared} (h : At r project_id db p) (houtside : Outside r project_id p)
    (db' : Db F) : At r project_id db' p := .inl ⟨houtside, h.not_raised⟩

/-- The first list begins the section of a forced run. -/
theorem step_begin {p : OnboardProg OnboardPrepared} {db' : Db F}
    (hstep : next_call r.world db (r.prog project_id) = some (p, db')) :
    At r project_id db' p ∧ Marks project_id db' p := by
  have hcall : r.prog project_id = onboard_act (.list_memory_by_source "git-onboard" project_id)
      >>= behind_list r project_id := rfl
  rw [hcall, next_call_act] at hstep
  obtain ⟨rfl, rfl⟩ := Prod.mk.inj (Option.some.inj hstep)
  refine ⟨?_, nofun⟩
  by_cases hforce : r.force = true
  · exact .inr (.listed _ hforce rfl)
  · exact .inl ⟨.listed _ (by simpa using hforce), nofun⟩

/-- The second list: a forced run knows what to wipe, another one goes on or is over. -/
theorem step_listed {existing : List MemoryItem} {p : OnboardProg OnboardPrepared} {db' : Db F}
    (hexisting : r.force = true → existing = db.list_memory_by_source "git-onboard" (some project_id))
    (hstep : next_call r.world db (behind_list r project_id existing) = some (p, db')) :
    At r project_id db' p ∧ Marks project_id db' p := by
  rw [behind_list, next_call_act] at hstep
  obtain ⟨rfl, rfl⟩ := Prod.mk.inj (Option.some.inj hstep)
  show At r project_id db (if r.force then _ else _) ∧ Marks project_id db (if r.force then _ else _)
  by_cases hforce : r.force = true
  · rw [if_pos hforce, hexisting hforce]
    have hheld : Held db (db.list_memory_by_source "git-onboard" (some project_id) ++ db.watermarks project_id) := by
      refine ⟨?_, db.wiped_nodup project_id⟩
      intro m hm
      rcases List.mem_append.mp hm with hin | hin
      · exact (Db.mem_list_memory_by_source.mp hin).1
      · exact (Db.mem_list_memory_by_source.mp hin).1
    refine ⟨at_wiping hheld, ?_⟩
    intro prepared hret
    rcases hrows : db.list_memory_by_source "git-onboard" (some project_id) ++ db.watermarks project_id with _ | ⟨m, rest⟩
    · rw [Db.watermarks] at hrows
      rw [hrows] at hret
      cases hret
    · rw [Db.watermarks] at hrows
      rw [hrows] at hret
      cases hret
  · rw [if_neg hforce]
    split
    · refine ⟨.inl ⟨.returned _, fun _ heq => by cases heq⟩, ?_⟩
      intro prepared hret hok
      obtain rfl := Prog.ret.inj hret
      cases hok
    · exact ⟨.inl ⟨.walking _, fun _ heq => by cases heq⟩, fun _ heq => by cases heq⟩

/-- The extraction. -/
theorem step_walking {since : Option String} {p : OnboardProg OnboardPrepared} {db' : Db F}
    (hstep : next_call r.world db (walk_and_anchor r.P project_id r.max_clusters since) = some (p, db')) :
    At r project_id db' p ∧ Marks project_id db' p := by
  rw [walk_and_anchor, next_call_act] at hstep
  obtain ⟨rfl, rfl⟩ := Prod.mk.inj (Option.some.inj hstep)
  rw [OnboardWorld.answer]
  rcases r.world.extract since with _ | history
  · exact ⟨.inl ⟨.raised _, fun _ heq => by cases heq⟩, fun _ heq => by cases heq⟩
  · simp only [answered]
    split
    · -- nothing was walked
      split
      · refine ⟨.inl ⟨.returned _, fun _ heq => by cases heq⟩, ?_⟩
        intro prepared hret hok
        obtain rfl := Prog.ret.inj hret
        cases hok
      · refine ⟨.inl ⟨.returned _, fun _ heq => by cases heq⟩, ?_⟩
        intro prepared hret hok
        obtain rfl := Prog.ret.inj hret
        cases hok
    · next newest rest hcommits => 
        exact ⟨.inl ⟨.anchoring newest rest _ hcommits, fun _ heq => by cases heq⟩,
          fun _ heq => by cases heq⟩

/-- The list of `save_watermark` begins its section. -/
theorem step_anchoring {newest : GitCommit} {commits : List GitCommit} {prepared : OnboardPrepared}
    (hcommits : prepared.history.commits = newest :: commits) {p : OnboardProg OnboardPrepared} {db' : Db F}
    (hstep : next_call r.world db (save_watermark project_id newest.hash >>= fun _ => pure prepared) = some (p, db')) :
    At r project_id db' p ∧ Marks project_id db' p := by
  have hcall : (save_watermark project_id newest.hash >>= fun _ => pure prepared)
      = onboard_act (.list_memory_by_source WATERMARK_SOURCE project_id)
        >>= replace_watermark project_id newest.hash prepared := by
    rw [save_watermark, Prog.bind_assoc]
    refine congrArg (onboard_act _ >>= ·) (funext fun existing => ?_)
    rw [Prog.bind_assoc]
    refine congrArg (delete_all existing >>= ·) (funext fun _ => ?_)
    rw [Prog.bind_assoc]
    rfl
  rw [hcall, next_call_act] at hstep
  obtain ⟨rfl, rfl⟩ := Prod.mk.inj (Option.some.inj hstep)
  refine ⟨at_clearing hcommits ⟨?_, db.list_memory_by_source_nodup _ _⟩ fun m hm => hm, ?_⟩
  · intro m hm
    exact (Db.mem_list_memory_by_source.mp hm).1
  · intro prepared' hret
    simp only [answered, OnboardWorld.answer, replace_watermark] at hret
    rcases hrows : db.list_memory_by_source WATERMARK_SOURCE (some project_id) with _ | ⟨m, rest⟩
    · rw [hrows] at hret
      cases hret
    · rw [hrows] at hret
      cases hret

variable (project_id) in
/-- A delete inside a section finds its row. -/
theorem next_call_delete {m : MemoryItem} {rest : List MemoryItem} (hheld : Held db (m :: rest))
    (k : Unit → OnboardProg OnboardPrepared) {p : OnboardProg OnboardPrepared} {db' : Db F}
    (hstep : next_call X db (delete_all (m :: rest) >>= k) = some (p, db')) :
    p = (delete_all rest >>= k) ∧ Held db' rest
      ∧ ∀ m', m' ∈ db'.watermarks project_id → m' ∈ db.watermarks project_id ∧ m'.id ≠ m.id := by
  have hcall : (delete_all (m :: rest) >>= k)
      = onboard_act (.delete_memory m.id) >>= fun _ => delete_all rest >>= k := Prog.bind_assoc _ _ _
  obtain ⟨db₁, hanswer, hrest, hmarks⟩ := hheld.delete (X := X) project_id
  rw [hcall, next_call_act, hanswer] at hstep
  obtain ⟨rfl, rfl⟩ := Prod.mk.inj (Option.some.inj hstep)
  exact ⟨rfl, hrest, hmarks⟩

/-- No call but the insert returns. -/
theorem marks_of_delete {rows : List MemoryItem} {k : Unit → OnboardProg OnboardPrepared}
    (hk : Marks project_id db (k ())) : Marks project_id db (delete_all rows >>= k) := by
  rcases rows with _ | ⟨m, rest⟩
  · exact hk
  · nofun

/-- A deletion of the wipe: one row less, and the others still there. -/
theorem step_wiping {m : MemoryItem} {rest : List MemoryItem} (hheld : Held db (m :: rest))
    {p : OnboardProg OnboardPrepared} {db' : Db F}
    (hstep : next_call r.world db (delete_all (m :: rest) >>= fun _ =>
      walk_and_anchor r.P project_id r.max_clusters none) = some (p, db')) :
    At r project_id db' p ∧ Marks project_id db' p := by
  obtain ⟨rfl, hrest, -⟩ := next_call_delete project_id hheld _ hstep
  exact ⟨at_wiping hrest, marks_of_delete nofun⟩

/-- A deletion of a watermark row. -/
theorem step_clearing {newest : GitCommit} {commits : List GitCommit} {prepared : OnboardPrepared}
    (hcommits : prepared.history.commits = newest :: commits) {m : MemoryItem} {rest : List MemoryItem}
    (hheld : Held db (m :: rest)) (hmarks : ∀ m' ∈ db.watermarks project_id, m' ∈ m :: rest)
    {p : OnboardProg OnboardPrepared} {db' : Db F}
    (hstep : next_call r.world db (replace_watermark project_id newest.hash prepared (m :: rest)) = some (p, db')) :
    At r project_id db' p ∧ Marks project_id db' p := by
  obtain ⟨rfl, hrest, hkept⟩ := next_call_delete project_id hheld _ hstep
  refine ⟨at_clearing hcommits hrest ?_, marks_of_delete nofun⟩
  intro m' hm'
  obtain ⟨hold, hne⟩ := hkept m' hm'
  rcases List.mem_cons.mp (hmarks m' hold) with rfl | hin
  · exact absurd rfl hne
  · exact hin

/-- With the old rows gone, the new one gets its id and its time. -/
theorem step_cleared {newest : GitCommit} {commits : List GitCommit} {prepared : OnboardPrepared}
    (hcommits : prepared.history.commits = newest :: commits) (hmarks : db.watermarks project_id = [])
    {p : OnboardProg OnboardPrepared} {db' : Db F}
    (hstep : next_call r.world db (replace_watermark project_id newest.hash prepared []) = some (p, db')) :
    At r project_id db' p ∧ Marks project_id db' p := by
  have hcall : replace_watermark project_id newest.hash prepared []
      = onboard_act .new_item >>= add_watermark project_id newest.hash prepared := rfl
  rw [hcall, next_call_act] at hstep
  obtain ⟨rfl, rfl⟩ := Prod.mk.inj (Option.some.inj hstep)
  exact ⟨.inr (.adding newest commits prepared hcommits _ hmarks), nofun⟩

/-- The insert ends the section: the new row is the only one. -/
theorem step_adding {newest : GitCommit} {commits : List GitCommit} {prepared : OnboardPrepared}
    (hcommits : prepared.history.commits = newest :: commits) {fresh : String × Instant}
    (hmarks : db.watermarks project_id = []) {p : OnboardProg OnboardPrepared} {db' : Db F}
    (hstep : next_call r.world db (add_watermark project_id newest.hash prepared fresh) = some (p, db')) :
    At r project_id db' p ∧ Marks project_id db' p := by
  rw [add_watermark, next_call_act] at hstep
  obtain ⟨rfl, rfl⟩ := Prod.mk.inj (Option.some.inj hstep)
  rcases answer_add_cases r.world
    { id := fresh.1, content := newest.hash, tags := [WATERMARK_SOURCE], created_at := fresh.2
      pinned := false, project_id := some project_id, source := WATERMARK_SOURCE } db with
    ⟨db₁, hadd, hanswer⟩ | ⟨e, hanswer⟩
  · rw [hanswer]
    refine ⟨.inl ⟨.returned prepared, nofun⟩, ?_⟩
    intro prepared' hret _
    obtain rfl := Prog.ret.inj hret
    refine ⟨_, Db.watermarks_add hadd hmarks rfl rfl, ?_⟩
    rw [hcommits]
    rfl
  · rw [hanswer]
    refine ⟨.inl ⟨.raised e, ?_⟩, nofun⟩
    intro memory_id hraised
    exact answer_add_error hanswer memory_id (Prog.raise.inj hraised)

/-- **One call of a run**, wherever it is. -/
theorem at_step {p p' : OnboardProg OnboardPrepared} {db' : Db F} (h : At r project_id db p)
    (hstep : next_call r.world db p = some (p', db')) : At r project_id db' p' ∧ Marks project_id db' p' := by
  rcases h with ⟨houtside, -⟩ | hinside
  · cases houtside with
    | begin => exact step_begin hstep
    | listed existing hforce => exact step_listed (fun hyes => absurd hyes (by simp [hforce])) hstep
    | walking since => exact step_walking hstep
    | anchoring newest rest prepared hcommits => exact step_anchoring hcommits hstep
    | returned prepared => cases hstep
    | raised e => cases hstep
  · cases hinside with
    | listed existing hforce hexisting => exact step_listed (fun _ => hexisting) hstep
    | wiping m rest hheld => exact step_wiping hheld hstep
    | clearing newest commits prepared hcommits m rest hheld hmarks =>
        exact step_clearing hcommits hheld hmarks hstep
    | cleared newest commits prepared hcommits hmarks => exact step_cleared hcommits hmarks hstep
    | adding newest commits prepared hcommits fresh hmarks => exact step_adding hcommits hmarks hstep

end Step

/-! ## Both runs -/

section Runs

variable {runs : Bool → OnboardCall F} {project_id : String}

/-- The next call is no store call: git is walked, or an id and a time are made. -/
def Aside : OnboardProg OnboardPrepared → Prop
  | .call (.extract _) _ => True
  | .call .new_item _ => True
  | _ => False

/-- Such a call leaves the store to the other run. -/
theorem Aside.same_store {X : OnboardWorld F} {db db' : Db F} {p p' : OnboardProg OnboardPrepared} (h : Aside p)
    (hstep : next_call X db p = some (p', db')) : db' = db := by
  cases p with
  | ret a => exact h.elim
  | raise e => exact h.elim
  | call o k =>
      obtain ⟨-, rfl⟩ := Prod.mk.inj (Option.some.inj hstep)
      cases o with
      | extract since =>
          rw [OnboardWorld.answer]
          cases X.extract since with
          | some history => rfl
          | none => rfl
      | new_item => rfl
      | _ => exact h.elim

/-- The calls of the two runs in some order; no store call is made while the other run is in a section. -/
inductive Serial (runs : Bool → OnboardCall F) (project_id : String) (c : Pair F) : Pair F → Prop
  | refl : Serial runs project_id c c
  | step {c₁ c₂ : Pair F} (h : Serial runs project_id c c₁) (i : Bool)
      (hother : Outside (runs !i) project_id (c₁.left !i) ∨ Aside (c₁.left i)) (hstep : c₁.step runs i = some c₂) :
      Serial runs project_id c c₂

/-- The claims of two runs that are both over with `ok`. -/
def OneWatermark (project_id : String) (c : Pair F) : Prop :=
  ∀ prepared : Bool → OnboardPrepared, (∀ i, c.left i = .ret (prepared i) ∧ (prepared i).status = .ok) →
    ∃ item, c.db.watermarks project_id = [item]
      ∧ ∃ i, (prepared i).history.commits.head?.map (·.hash) = some item.content

theorem Serial.trans {c c₁ c₂ : Pair F} (h : Serial runs project_id c c₁) (h' : Serial runs project_id c₁ c₂) :
    Serial runs project_id c c₂ := by
  induction h' with
  | refl => exact h
  | step _ i hother hstep ih => exact ih.step i hother hstep

/-- A run that goes on alone. -/
theorem serial_alone {c c' : Pair F} {i : Bool} {n : ℕ} (hother : Outside (runs !i) project_id (c.left !i))
    (hsteps : c.steps runs (List.replicate n i) = some c') : Serial runs project_id c c' := by
  induction n generalizing c with
  | zero =>
      obtain rfl := Option.some.inj hsteps
      exact .refl
  | succ n ih =>
      rw [List.replicate_succ, Pair.steps] at hsteps
      obtain ⟨c₁, hstep, hrest⟩ := Option.bind_eq_some_iff.mp hsteps
      refine Serial.trans (Serial.refl.step i (.inl hother) hstep) (ih ?_ hrest)
      -- the other run has not moved
      rw [Pair.step, Option.map_eq_some_iff] at hstep
      obtain ⟨⟨p, db⟩, -, rfl⟩ := hstep
      show Outside (runs !i) project_id (Function.update c.left i p !i)
      rw [Function.update_of_ne (by cases i <;> decide)]
      exact hother

/-- Each run is where it may be, and the last one over has left the watermark. -/
structure Safe (runs : Bool → OnboardCall F) (project_id : String) (c : Pair F) : Prop where
  run : ∀ i, At (runs i) project_id c.db (c.left i)
  watermark : OneWatermark project_id c

theorem safe_start (db : Db F) : Safe runs project_id (Pair.start runs project_id db) := by
  refine ⟨fun i => .inl ⟨.begin, nofun⟩, ?_⟩
  intro prepared hdone
  cases (hdone true).1

/-- The run that moves is where its step lemma says; the other one is between its sections, or sees the
same store. -/
theorem Safe.step {c c' : Pair F} (h : Safe runs project_id c) {i : Bool}
    (hother : Outside (runs !i) project_id (c.left !i) ∨ Aside (c.left i)) (hstep : c.step runs i = some c') :
    Safe runs project_id c' := by
  rw [Pair.step, Option.map_eq_some_iff] at hstep
  obtain ⟨⟨p, db⟩, hcall, rfl⟩ := hstep
  obtain ⟨hat, hmarks⟩ := at_step (h.run i) hcall
  refine ⟨?_, ?_⟩
  · intro j
    show At (runs j) project_id db (Function.update c.left i p j)
    by_cases hj : j = i
    · subst hj
      rw [Function.update_self]
      exact hat
    · rw [Function.update_of_ne hj]
      obtain rfl : j = !i := by
        revert hj
        cases i <;> cases j <;> decide
      -- the other run relies on no row, or the store is as it was
      rcases hother with houtside | haside
      · exact (h.run _).frame houtside db
      · rw [haside.same_store hcall]
        exact h.run _
  · intro prepared hdone
    obtain ⟨hret, hok⟩ := hdone i
    have hself : Function.update c.left i p i = .ret (prepared i) := hret
    rw [Function.update_self] at hself
    obtain ⟨item, hone, hhash⟩ := hmarks _ hself hok
    exact ⟨item, hone, i, hhash⟩

/-- **Two runs whose sections do not overlap are safe**: neither fails to find a row, and when both
are over with `ok` there is one watermark row, with the hash of one of them. -/
theorem overlapping_runs_are_safe (runs : Bool → OnboardCall F) (project_id : String) (db : Db F) {c : Pair F}
    (h : Serial runs project_id (Pair.start runs project_id db) c) :
    (∀ i memory_id, c.left i ≠ .raise (.MemoryNotFound memory_id)) ∧ OneWatermark project_id c := by
  have hsafe : Safe runs project_id c := by
    induction h with
    | refl => exact safe_start db
    | step _ i hother hstep ih => exact ih.step hother hstep
  exact ⟨fun i memory_id => (hsafe.run i).not_raised memory_id, hsafe.watermark⟩

end Runs

/-! ## Runs that overlap -/

namespace Collision

/-- The one commit that a run finds. -/
def commit (i : Bool) : GitCommit :=
  { hash := if i then "bbbbbbbb" else "aaaaaaaa", author := "", date := 0, subject := "", insertions := 1 }

/-- Two runs with ids and histories of their own. -/
def runs (force : Bool) (i : Bool) : OnboardCall Unit where
  P := { is_merge := fun _ => false, is_format := fun _ => false, is_version_bump := fun _ => false }
  max_clusters := 15
  force := force
  world :=
    { new_id := fun _ => if i then "second" else "first"
      now := 0
      extract := fun _ => some { commits := [commit i] }
      refuses := fun _ _ => false }

/-- What a run reports. -/
def reported (force : Bool) (i : Bool) : OnboardPrepared where
  status := .ok
  history := { commits := [commit i] }
  filtered := filter_commits (runs force i).P [commit i]
  clusters := cluster_commits (filter_commits (runs force i).P [commit i]) 15 72

def project : Db Unit where
  projects := [{ id := "p", name := "p", created_at := 0 }]
  project_pk := Diamond.one_project
  memory_fk := Diamond.no_memory

/-- Both forced runs list the one memory, and both delete it. -/
def both_wipe : List Bool := [false, false, true, true, false, true]

/-- Both runs read that there is no watermark, and both add one. -/
def both_save : List Bool := [false, false, false, false, true, true, true, true, false, false, true, true]

/-- One run is over before the other begins. -/
def halfway : Pair Unit :=
  ((Pair.start (runs false) "p" project).steps (runs false) (List.replicate 6 false)).get rfl

def in_turn : Pair Unit := (halfway.steps (runs false) (List.replicate 7 true)).get rfl

theorem serial_in_turn : Serial (runs false) "p" (Pair.start (runs false) "p" project) in_turn := by
  have hfirst : Serial (runs false) "p" (Pair.start (runs false) "p" project) halfway :=
    serial_alone (i := false) .begin (Option.some_get _).symm
  refine hfirst.trans (serial_alone (i := true) (n := 7) ?_ (Option.some_get _).symm)
  exact .returned (reported false false)

theorem overlapping_runs_are_safe_in_turn : (∀ i memory_id, in_turn.left i ≠ .raise (.MemoryNotFound memory_id))
    ∧ ∃ item, in_turn.db.watermarks "p" = [item] ∧ item.content = "bbbbbbbb" := by
  obtain ⟨hfound, hone⟩ := overlapping_runs_are_safe (runs false) "p" project serial_in_turn
  refine ⟨hfound, ?_⟩
  have hdone : ∀ i, in_turn.left i = .ret { reported false i with
      watermark_before := if i then some "aaaaaaaa" else none } := by
    intro i
    cases i
    · rfl
    · rfl
  obtain ⟨item, hrows, -⟩ := hone _ fun i => ⟨hdone i, rfl⟩
  refine ⟨item, hrows, ?_⟩
  have hcontent : (in_turn.db.watermarks "p").map (·.content) = ["bbbbbbbb"] := rfl
  rw [hrows] at hcontent
  exact (List.cons.inj hcontent).1

theorem wipe_collides : ∃ c, (Pair.start (runs true) "p" Diamond.onboarded).steps (runs true) both_wipe = some c
    ∧ c.left true = .raise (.MemoryNotFound "m") := ⟨_, rfl, rfl⟩

theorem save_collides : ∃ c, (Pair.start (runs false) "p" project).steps (runs false) both_save = some c
    ∧ (∀ i, c.left i = .ret (reported false i)) ∧ (c.db.watermarks "p").length = 2 := by
  refine ⟨_, rfl, ?_, ?_⟩
  · intro i
    cases i
    · rfl
    · rfl
  · rfl

/-- Neither half of the promise holds of all interleavings. -/
theorem overlapping_runs_collide :
    (¬ ∀ (db : Db Unit) (schedule : List Bool) (c : Pair Unit),
      (Pair.start (runs true) "p" db).steps (runs true) schedule = some c →
        ∀ i memory_id, c.left i ≠ .raise (.MemoryNotFound memory_id))
      ∧ ¬ ∀ (db : Db Unit) (schedule : List Bool) (c : Pair Unit),
        (Pair.start (runs false) "p" db).steps (runs false) schedule = some c → OneWatermark "p" c := by
  constructor
  · intro hall
    obtain ⟨c, hsteps, hraised⟩ := wipe_collides
    exact hall Diamond.onboarded both_wipe c hsteps true "m" hraised
  · intro hall
    obtain ⟨c, hsteps, hdone, htwo⟩ := save_collides
    obtain ⟨item, hone, -⟩ := hall project both_save c hsteps (reported false) fun i => ⟨hdone i, rfl⟩
    rw [hone] at htwo
    cases htwo

end Collision

end OpenChronicle.Onboarding
