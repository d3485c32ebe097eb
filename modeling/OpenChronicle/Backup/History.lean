/-
What holds after every sequence of calls.

A call may be killed or raise at any of its steps, and the next one begins with what it left. The
invariant is `Sound`: each call changes the files of one artifact, whose name is new, or takes published
pairs away, the database first, and what it does not touch stays as it was.

An error of `list` itself is another matter: it skips a manifest that it cannot read. So what it leaves
out is said of a `list` none of whose steps fails.

That the names are new is a hypothesis about the world: they are made of the time and of eight bytes
that `token_hex` draws. It is asked of each call with the stems that the directories have had until
then, gone ones included, since a name that came back would bring back what was said about it.
-/
import OpenChronicle.Backup.Calls

set_option autoImplicit false

namespace OpenChronicle.Backup

open Program Prog

/-! ## Sequences of calls -/

/-- What may be there before the first call: databases, but no manifest. -/
structure Start (w : World) : Prop where
  registered : Registered w
  unpublished : ∀ k s, w.files (.file k s .manifest) = none

/-- The name that `create` makes of the clock and of `token_hex` is new. -/
def Call.Draws (w : World) : Call → Prop
  | .create id _ => id.stem ∉ w.stems id.kind
  | _ => True

/-- Calls, the last one first, each of them ended or killed. -/
inductive Calls (env : Env) (w : World) : List Call → World → Prop
  | nil : Calls env w [] w
  | call {calls : List Call} {w' : World} (h : Calls env w calls w') (c : Call) (cs : List Choice)
      (hdraws : c.Draws w') : Calls env w (c :: calls) (c.after env cs w')

section Steps

variable {env : Env} {w w' : World} {m : Manifest} {id : ArtifactId} {k : Kind} {s : Stem} {t : Touched}

/-- How many steps may fail is chosen for each call. -/
theorem Registered.begin (h : Registered w) (faults : ℕ) : Registered { w with faults := faults } :=
  ⟨h.stem, h.dir, h.nodup⟩

/-- The same; none of the files depends on it. -/
theorem Sound.begin (h : Sound env w) (faults : ℕ) : Sound env { w with faults := faults } :=
  ⟨h.registered.begin faults, fun k s => (h.pair k s).keep (fun _ => rfl) fun _ => fun hx => hx⟩

/-- Without a manifest nothing is offered, so there is nothing to show. -/
theorem Start.sound (h : Start w) : Sound env w :=
  ⟨h.registered, fun k s => .inl (h.unpublished k s)⟩

/-- Only the pairs that are touched have to be looked at. -/
theorem Sound.frame (h : Sound env w) (hframe : Frame t w w')
    (htouched : ∀ k s r, t k s r → PairSound env w' k s) : Sound env w' := by
  refine ⟨hframe.registered h.registered, ?_⟩
  intro k s
  by_cases ht : ∃ r, t k s r
  · obtain ⟨r, hr⟩ := ht
    exact htouched k s r hr
  · refine (h.pair k s).keep ?_ hframe.passed
    intro r
    exact hframe.file k s r fun hr => ht ⟨r, hr⟩

/-- A pair that loses its manifest, or first its database, is sound. -/
theorem PairSound.pruned (h : PairSound env w k s) {k' : Kind} (hpruned : Pruned k' w w') :
    PairSound env w' k s := by
  rcases h with hnone | ⟨m, time, rfl, rfl, hname, hmanifest, hrest⟩
  · rcases hpruned.shrinks k s .manifest with hsame | hgone
    · exact .inl (hsame.trans hnone)
    · exact .inl hgone
  rcases hpruned.shrinks m.artifact_id.kind m.artifact_id.stem .manifest with hsame | hgone
  swap
  · exact .inl hgone
  refine .inr ⟨m, time, rfl, rfl, hname, hsame.trans hmanifest, ?_⟩
  rcases hpruned.shrinks m.artifact_id.kind m.artifact_id.stem .db with hdb | hdb
  swap
  · exact .inl hdb
  rcases hrest with hgone | ⟨b, hc⟩
  · exact .inl (hdb.trans hgone)
  -- neither file has gone, and retention has no eye for the others
  have hother : ∀ {r}, r ≠ .db → r ≠ .manifest →
      w'.files (m.artifact_id.path r) = w.files (m.artifact_id.path r) := by
    intro r hr hr'
    refine hpruned.frame.file _ _ r ?_
    rintro ⟨-, hin | hin, -⟩
    · exact hr hin
    · exact hr' hin
  obtain ⟨time', hfile⟩ := hc.db
  obtain ⟨time'', hjson⟩ := hc.manifest
  refine .inr ⟨b, ⟨time', hdb.trans hfile⟩, ⟨time'', hsame.trans hjson⟩, hpruned.frame.passed _ hc.passed,
    hc.vouches, ?_, ?_⟩
  · exact (hother (by decide) (by decide)).trans hc.no_wal
  · exact (hother (by decide) (by decide)).trans hc.no_shm

/-- What is not touched is offered as before. -/
theorem Offered.frame (h : Offered w m) (hframe : Frame t w w')
    (hdb : ¬ t m.artifact_id.kind m.artifact_id.stem .db)
    (hmanifest : ¬ t m.artifact_id.kind m.artifact_id.stem .manifest) : Offered w' m := by
  refine h.keep (hframe.dir _ ?_) (hframe.file _ _ _ hdb) (hframe.file _ _ _ hmanifest)
  intro hnone
  have hdir := h.dir
  rw [hnone] at hdir
  cases hdir

/-- Nor does what is offered depend on it. -/
theorem Offered.begin (h : Offered w m) (faults : ℕ) : Offered { w with faults := faults } m :=
  h.keep rfl rfl rfl

/-- What is offered has a stem that is not new. -/
theorem Offered.mem_stems (h : Offered w m) (hregistered : Registered w) :
    m.artifact_id.stem ∈ w.stems m.artifact_id.kind := by
  refine hregistered.stem _ _ .db ?_
  intro hnone
  have hdb := h.db
  rw [ArtifactId.path, hnone] at hdb
  cases hdb

/-! ## One call -/

/-- `create`, wherever it stops. -/
theorem create_after (env : Env) (hregistered : Registered w) (hnew : id.stem ∉ w.stems id.kind) (created_at : String)
    (cs : List Choice) : Frame (own id create_roles) { w with faults := 1 } ((Call.create id created_at).after env cs w)
      ∧ PairSound env ((Call.create id created_at).after env cs w) id.kind id.stem := by
  have hfresh : Fresh { w with faults := 1 } id := ⟨hregistered.begin 1, hnew⟩
  refine wp_stands (wp_mono (wp_create hfresh (Nat.le_refl 1) created_at) (fun _ h => h) ?_) cs
  rintro (e | m) w' hends
  · exact ⟨hends.1, hends.2.1⟩
  · exact ⟨hends.1, hends.2.1⟩

/-- What retention takes away, it takes as a pair, the database first. -/
theorem retention_after (env : Env) (k : Kind) (keep : ℕ) (cs : List Choice) (w : World) :
    Pruned k { w with faults := 1 } ((Call.retention_prune k keep).after env cs w) :=
  wp_stands (wp_retention k keep) cs

/-- `list` writes nothing. -/
theorem list_after (env : Env) (limit : ℤ) (cs : List Choice) (w : World) :
    Frame (fun _ _ _ => False) { w with faults := 1 } ((Call.list limit).after env cs w) :=
  wp_stands (within_wp (within_list limit) _) cs

/-- Nor does `verify`. -/
theorem verify_after (env : Env) (id : ArtifactId) (cs : List Choice) (w : World) :
    Frame (fun _ _ _ => False) { w with faults := 1 } ((Call.verify id).after env cs w) :=
  wp_stands (within_wp within_verify _) cs

/-- **Every call keeps the catalog sound**, wherever it stops. -/
theorem Sound.after (h : Sound env w) {c : Call} (hdraws : c.Draws w) (cs : List Choice) :
    Sound env (c.after env cs w) := by
  have hbegin := h.begin 1
  cases c with
  | create id created_at =>
      obtain ⟨hframe, hpair⟩ := create_after env h.registered hdraws created_at cs
      refine hbegin.frame hframe ?_
      rintro k s r ⟨rfl, rfl, -⟩
      exact hpair
  | retention_prune k keep =>
      have hpruned := retention_after env k keep cs w
      exact hbegin.frame hpruned.frame fun k s r _ => (hbegin.pair k s).pruned hpruned
  | list limit => exact hbegin.frame (list_after env limit cs w) nofun
  | verify id => exact hbegin.frame (verify_after env id cs w) nofun

/-- By induction over the calls. -/
theorem Calls.sound {calls : List Call} (h : Calls env w calls w') (hw : Sound env w) : Sound env w' := by
  induction h with
  | nil => exact hw
  | call _ c cs hdraws ih => exact ih.after hdraws cs

/-- A stem that the directories have had is not forgotten. -/
theorem stems_after (hregistered : Registered w) {c : Call} (hdraws : c.Draws w) (cs : List Choice)
    (hs : s ∈ w.stems k) : s ∈ (c.after env cs w).stems k := by
  cases c with
  | create id created_at => exact (create_after env hregistered hdraws created_at cs).1.stems k s hs
  | retention_prune k' keep => exact (retention_after env k' keep cs w).frame.stems k s hs
  | list limit => exact (list_after env limit cs w).stems k s hs
  | verify id => exact (verify_after env id cs w).stems k s hs

/-- Retention took the database of the artifact. -/
def Dropped (m : Manifest) (calls : List Call) (w : World) : Prop :=
  (∃ keep, Call.retention_prune m.artifact_id.kind keep ∈ calls) ∧ w.files (m.artifact_id.path .db) = none

/-- **What is offered stays so, unless the call is retention and takes its database.** -/
theorem Offered.after (h : Offered w m) (hregistered : Registered w) {c : Call} (hdraws : c.Draws w)
    (cs : List Choice) : Offered (c.after env cs w) m ∨ Dropped m [c] (c.after env cs w) := by
  have hbegin := h.begin 1
  cases c with
  | create id created_at =>
      have hframe := (create_after env hregistered hdraws created_at cs).1
      have hother : ∀ r, ¬ own id create_roles m.artifact_id.kind m.artifact_id.stem r := by
        rintro r ⟨hk, hs, -⟩
        have hmem := h.mem_stems hregistered
        rw [hk, hs] at hmem
        exact hdraws hmem
      exact .inl (hbegin.frame hframe (hother _) (hother _))
  | retention_prune k keep =>
      have hpruned := retention_after env k keep cs w
      by_cases hk : m.artifact_id.kind = k
      swap
      · exact .inl (hbegin.frame hpruned.frame (fun h => hk h.1) fun h => hk h.1)
      rcases hpruned.shrinks m.artifact_id.kind m.artifact_id.stem .db with hdb | hgone
      swap
      · exact .inr ⟨⟨keep, by rw [hk]; exact List.mem_singleton_self _⟩, hgone⟩
      rcases hpruned.database_first m.artifact_id.kind m.artifact_id.stem with hmanifest | hgone
      · refine .inl (hbegin.keep (hpruned.frame.dir _ ?_) hdb hmanifest)
        intro hnone
        have hdir := hbegin.dir
        rw [hnone] at hdir
        cases hdir
      · exact .inr ⟨⟨keep, by rw [hk]; exact List.mem_singleton_self _⟩, hgone⟩
  | list limit => exact .inl (hbegin.frame (list_after env limit cs w) id id)
  | verify id' => exact .inl (hbegin.frame (verify_after env id' cs w) id id)

/-- What is gone does not come back: no later name is the same. -/
theorem gone_after (hregistered : Registered w) {c : Call} (hdraws : c.Draws w) (cs : List Choice)
    (hs : s ∈ w.stems k) (hgone : w.files (.file k s .db) = none) :
    (c.after env cs w).files (.file k s .db) = none := by
  cases c with
  | create id created_at =>
      refine ((create_after env hregistered hdraws created_at cs).1.file k s .db ?_).trans hgone
      rintro ⟨rfl, rfl, -⟩
      exact hdraws hs
  | retention_prune k' keep =>
      rcases (retention_after env k' keep cs w).shrinks k s .db with hsame | hnone
      · exact hsame.trans hgone
      · exact hnone
  | list limit => exact ((list_after env limit cs w).file k s .db id).trans hgone
  | verify id' => exact ((verify_after env id' cs w).file k s .db id).trans hgone

/-- **What is offered stays so along the calls, unless one of them is retention and takes its
database.** -/
theorem Calls.offered {calls : List Call} (h : Calls env w calls w') (hw : Sound env w)
    (hoffered : Offered w m) : Offered w' m ∨ Dropped m calls w' := by
  have hstands : m.artifact_id.stem ∈ w'.stems m.artifact_id.kind
      ∧ (Offered w' m ∨ Dropped m calls w') := by
    induction h with
    | nil => exact ⟨hoffered.mem_stems hw.registered, .inl hoffered⟩
    | call hcalls c cs hdraws ih =>
        have hregistered := (hcalls.sound hw).registered
        obtain ⟨hstem, hstill⟩ := ih
        refine ⟨stems_after hregistered hdraws cs hstem, ?_⟩
        rcases hstill with ho | ⟨⟨keep, hin⟩, hgone⟩
        · rcases ho.after hregistered hdraws cs with hkept | ⟨⟨keep, hin⟩, hgone⟩
          · exact .inl hkept
          · refine .inr ⟨⟨keep, ?_⟩, hgone⟩
            rw [List.mem_singleton.mp hin]
            exact List.mem_cons_self
        · exact .inr ⟨⟨keep, List.mem_cons_of_mem c hin⟩, gone_after hregistered hdraws cs hstem hgone⟩
  exact hstands.2

end Steps

/-! ## What the catalog promises -/

/-- A `verify` none of whose steps fails ends with the manifest. -/
def Verifies (env : Env) (w : World) (m : Manifest) : Prop :=
  ∀ choices : ℕ → Choice, ∃ n w', (verify env m.artifact_id).run_until (exec env)
    ((List.range n).map choices) { w with faults := 0 } = (some (.ok m), w')

/-- In one of its runs a call may meet one exception (`faults := 1`) or none (`faults := 0`). -/
structure Promises (env : Env) (w : World) : Prop where
  /-- What `list` answers, whether a step of its own raises or not. -/
  complete : ∀ limit cs l w', (list limit).run_until (exec env) cs { w with faults := 1 } = (some (.ok l), w') →
    ∀ m ∈ l, (∃ b, Complete env w m b) ∧ Verifies env w m
  /-- A `list` none of whose steps fails leaves out nothing but for the limit. -/
  lists : ∀ limit, 1 ≤ limit → limit ≤ 500 → ∀ choices : ℕ → Choice, ∃ n all w',
    (list limit).run_until (exec env) ((List.range n).map choices) { w with faults := 0 }
        = (some (.ok ((newest_first all).take limit.toNat)), w')
      ∧ all.Nodup ∧ ∀ m, m ∈ all ↔ Offered w m
  /-- A `create` that returns. -/
  returned : ∀ id created_at cs m w', id.stem ∉ w.stems id.kind →
    (create env id created_at).run_until (exec env) cs { w with faults := 1 } = (some (.ok m), w') →
    m.artifact_id = id ∧ ∀ calls w'', Calls env w' calls w'' → Offered w'' m ∨ Dropped m calls w''
  /-- A `create` that raises. -/
  raised : ∀ id created_at cs e w', id.stem ∉ w.stems id.kind →
    (create env id created_at).run_until (exec env) cs { w with faults := 1 } = (some (.error e), w') →
    ∀ m, Offered w' m → Offered w m
  /-- What retention leaves alone: quarantined files, and databases without a manifest. -/
  retained : ∀ k keep cs k' s r, (r ≠ .db ∧ r ≠ .manifest ∨ is_file (w.files (.file k' s .manifest)) = false) →
    ((Call.retention_prune k keep).after env cs w).files (.file k' s r) = w.files (.file k' s r)

section Promises

variable {env : Env} {w w' : World} {m : Manifest} {id : ArtifactId}

/-- What a manifest says of its file stays said. -/
theorem Complete.begin {b : Bytes} (h : Complete env w m b) (faults : ℕ) :
    Complete env { w with faults := faults } m b :=
  ⟨h.db, h.manifest, h.passed, h.vouches, h.no_wal, h.no_shm⟩

/-- **What is offered passes `verify`.** -/
theorem Offered.verifies (h : Offered w m) {b : Bytes} (hc : Complete env w m b) : Verifies env w m := by
  intro choices
  obtain ⟨n, r, w', hrun, hr⟩ := wp_ends (wp_verify (w := { w with faults := 0 }) rfl (h.begin 0) (hc.begin 0)) choices
  exact ⟨n, w', by rw [hrun, hr]⟩

/-- A `list` none of whose steps fails answers what is offered, the newest first, and leaves out what
the limit cuts off. -/
theorem Sound.lists (h : Sound env w) {limit : ℤ} (hlow : 1 ≤ limit) (hhigh : limit ≤ 500)
    (choices : ℕ → Choice) : ∃ n all w',
      (list limit).run_until (exec env) ((List.range n).map choices) { w with faults := 0 }
          = (some (.ok ((newest_first all).take limit.toNat)), w')
        ∧ all.Nodup ∧ ∀ m, m ∈ all ↔ Offered w m := by
  obtain ⟨n, r, w', hrun, hends⟩ := wp_ends (wp_list (h.registered.begin 0) limit) choices
  rcases r with e | l
  · rcases hends with hlimit | hfaults
    · omega
    · exact absurd hfaults (Nat.lt_irrefl 0)
  · obtain ⟨-, -, hall⟩ := hends
    obtain ⟨all, rfl, hnodup, hmem⟩ := hall rfl
    refine ⟨n, all, w', hrun, hnodup, ?_⟩
    intro m
    rw [hmem m]
    exact ⟨fun ho => ho.keep rfl rfl rfl, fun ho => ho.begin 0⟩

/-- A `create` that raises leaves on offer only what was there. -/
theorem Frame.offered_of_other (hframe : Frame (own id create_roles) { w with faults := 1 } w')
    (hregistered : Registered w) (hother : m.artifact_id ≠ id) (h : Offered w' m) : Offered w m := by
  have hfile : ∀ r, w'.files (m.artifact_id.path r) = w.files (m.artifact_id.path r) := by
    intro r
    refine hframe.file m.artifact_id.kind m.artifact_id.stem r ?_
    rintro ⟨hk, hs, -⟩
    refine hother ?_
    rw [ArtifactId.stem, ArtifactId.stem] at hs
    injection hs with hname
    exact congrArg₂ ArtifactId.mk hk hname
  -- the file was there, and so was its directory
  have hdir : w.files (.dir m.artifact_id.kind) ≠ none := by
    refine hregistered.dir _ m.artifact_id.stem .db ?_
    intro hnone
    have hdb := h.db
    rw [hfile, ArtifactId.path, hnone] at hdb
    cases hdb
  exact h.keep (hframe.dir _ hdir).symm (hfile _).symm (hfile _).symm

end Promises

/-- **The catalog offers complete, verified snapshots.** In every world that calls lead to, what
`list` answers is complete and passes `verify`, what a `create` has returned is offered until
retention takes it, what a `create` has not returned is not, and retention takes only published
pairs. -/
theorem catalog_keeps_its_promises {env : Env} {w₀ w : World} (hstart : Start w₀) {calls : List Call}
    (hcalls : Calls env w₀ calls w) : Promises env w := by
  have hsound : Sound env w := hcalls.sound hstart.sound
  refine ⟨?_, fun limit hlow hhigh choices => hsound.lists hlow hhigh choices, ?_, ?_, ?_⟩
  · intro limit cs l w' hrun m hm
    have hends := wp_sound (@wp_list env _ (hsound.registered.begin 1) limit) cs
    rw [hrun] at hends
    have hoffered : Offered w m := (hends.2.1 m hm).keep rfl rfl rfl
    obtain ⟨b, hc⟩ := hsound.complete hoffered
    exact ⟨⟨b, hc⟩, hoffered.verifies hc⟩
  · intro id created_at cs m w' hnew hrun
    have hends := wp_sound (@wp_create env _ id ⟨hsound.registered.begin 1, hnew⟩ (Nat.le_refl 1) created_at) cs
    rw [hrun] at hends
    obtain ⟨-, -, hid, hoffered⟩ := hends
    refine ⟨hid, fun calls' w'' hlater => hlater.offered ?_ hoffered⟩
    have hafter := hsound.after (c := .create id created_at) hnew cs
    rw [Call.after, hrun] at hafter
    exact hafter
  · intro id created_at cs e w' hnew hrun m hoffered
    have hends := wp_sound (@wp_create env _ id ⟨hsound.registered.begin 1, hnew⟩ (Nat.le_refl 1) created_at) cs
    rw [hrun] at hends
    obtain ⟨hframe, -, hnone⟩ := hends
    exact hframe.offered_of_other hsound.registered (fun hid => hnone m hid hoffered) hoffered
  · intro k keep cs k' s r hr
    refine (retention_after env k keep cs w).frame.file k' s r ?_
    rintro ⟨rfl, hpair, hfile⟩
    rcases hr with ⟨hdb, hmanifest⟩ | hnone
    · rcases hpair with rfl | rfl
      · exact hdb rfl
      · exact hmanifest rfl
    · have hsame : is_file (w.files (.file k' s .manifest)) = true := hfile
      rw [hnone] at hsame
      cases hsame

namespace First

/-- A file of one page that holds an empty store. -/
def page : Bytes := List.replicate 16 0

/-- SQLite takes `page` for a database, and nothing else. -/
def env : Env where
  require_existing_root := false
  root_is_absolute := true
  quick_check b := if b = page then some (some "ok") else none
  report b := if b = page then ⟨some (some "ok"), some true, some ⟨9, 0, "e3b0c442", 0, 0⟩⟩ else ⟨none, none, none⟩
  sha256 b := if b = page then "374708ff" else ""

def empty_dir : World := ⟨fun _ => none, fun _ => [], [], 0⟩

def first_id : ArtifactId := ⟨.manual, "20260101T000000000000Z-0123456789ab"⟩

def first : Manifest :=
  ⟨first_id, "2026-01-01T00:00:01+00:00", ⟨9, 0, "e3b0c442", 0, 0, 16, "374708ff"⟩⟩

/-- Every step goes its way, and SQLite copies `page`. -/
def quiet : List Choice := List.replicate 40 { bytes := page, size := 16 }

def created : World := (Call.create first_id "2026-01-01T00:00:01+00:00").after env quiet empty_dir

theorem start_empty : Start empty_dir := ⟨⟨nofun, nofun, fun _ => .nil⟩, fun _ _ => rfl⟩

theorem create_returns : ((create env first_id "2026-01-01T00:00:01+00:00").run_until (exec env) quiet
    { empty_dir with faults := 1 }).1 = some (.ok first) := by decide +kernel

theorem create_ends : (create env first_id "2026-01-01T00:00:01+00:00").run_until (exec env) quiet
    { empty_dir with faults := 1 } = (some (.ok first), created) := by
  refine Prod.ext create_returns ?_
  rw [created, Call.after]

/-- The first snapshot is offered, and the catalog with it is in order. -/
theorem catalog_keeps_its_promises_first : Promises env created ∧ Offered created first := by
  have hempty : Promises env empty_dir := catalog_keeps_its_promises start_empty .nil
  have hcreated : Promises env created := by
    refine catalog_keeps_its_promises start_empty (.call .nil _ quiet ?_)
    simp [Call.Draws, empty_dir]
  refine ⟨hcreated, ?_⟩
  obtain ⟨-, hlater⟩ := hempty.returned first_id "2026-01-01T00:00:01+00:00" quiet first created
    (by simp [empty_dir]) create_ends
  rcases hlater [] created .nil with hoffered | ⟨⟨_, hin⟩, -⟩
  · exact hoffered
  · cases hin

/-- The steps of a `list` whose `read_text` of the manifest raises an `OSError`. -/
def unreadable : List Choice :=
  List.replicate 8 ({} : Choice) ++ { fails := true } :: List.replicate 8 ({} : Choice)

/-- What `create` has returned may be missing from an answer of `list` one of whose own steps raises. -/
theorem list_may_leave_out : ¬ ∀ (env : Env) (w : World) (id : ArtifactId) (created_at : String)
    (cs cs' : List Choice) (m : Manifest) (l : List Manifest), Start w → id.stem ∉ w.stems id.kind →
    ((create env id created_at).run_until (exec env) cs { w with faults := 1 }).1 = some (.ok m) →
    ((list 50).run_until (exec env) cs'
      { (Call.create id created_at).after env cs w with faults := 1 }).1 = some (.ok l) → m ∈ l := by
  intro hall
  have hlist : ((list 50).run_until (exec env) unreadable { created with faults := 1 }).1 = some (.ok []) := by
    decide +kernel
  have hin := hall env empty_dir first_id _ quiet unreadable first [] start_empty (by simp [empty_dir])
    create_returns hlist
  cases hin

end First

end OpenChronicle.Backup
