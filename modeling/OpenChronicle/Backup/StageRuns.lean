/-
What a staged candidate is.

One step alone changes which databases the stage directory has: the rename at the end. All others are
quiet, so a call that is killed or raises before it leaves the stage as it was; and when it is reached,
the copy has been inspected and found equal to what the manifest says, by which the artifact itself had
just been verified.

So the proof has three parts. Quiet steps are gathered first, and with them whole parts of the call, by
one lemma about programs that make only such steps (`quiet_wp`). What the parts have established is
carried to the rename: that the artifact is vouched for and admitted (`Admitted`), that the stage is
empty, and that the copy has passed (`Inspects`). Then a call leaves the stage alone or has staged what
it says (`Left`, `CallEnds`), and the statement about runs is an induction over the calls and what
happens between them.

Nothing is assumed of the copying itself. What is in the copy is chosen when the step is taken, and only
the check afterwards says what it is; a copy that was cut short, or a snapshot that was replaced while
it was read, is one more choice. What the check compares are the digest, the size and the counts. So
what is shown is that the copy has the digest of the artifact, not that it is the same file.
-/
import OpenChronicle.Backup.History
import OpenChronicle.Backup.Stage

set_option autoImplicit false

namespace OpenChronicle.Backup

open Program Prog

/-! ## Quiet steps -/

/-- The databases of the stage directory. -/
def dbs (w : StageWorld) : List (StageFile × Node) := w.files.filter fun entry => entry.1.is_db

/-- The snapshots, the store and the staged databases are as they were. -/
structure Still (w w' : StageWorld) : Prop where
  files : ∀ k s r, w'.catalog.files (.file k s r) = w.catalog.files (.file k s r)
  store : w'.store = w.store
  dbs : dbs w' = dbs w

/-- A step that stages nothing. -/
def StageOp.Quiet : StageOp → Prop
  | .catalog o => o.Within fun _ _ _ => False
  | .copy_some f => f.is_db = false
  | .unlink f => f.is_db = false
  | .replace _ _ => False
  | _ => True

section Quiet

variable {env : Env} {projects : Bytes → List String} {w w' : StageWorld}

theorem Still.refl (w : StageWorld) : Still w w := ⟨fun _ _ _ => rfl, rfl, rfl⟩

/-- Being still composes, so it is carried along a program like an invariant. -/
theorem Still.trans {w₁ w₂ w₃ : StageWorld} (h : Still w₁ w₂) (h' : Still w₂ w₃) : Still w₁ w₃ :=
  ⟨fun k s r => (h'.files k s r).trans (h.files k s r), h'.store.trans h.store, h'.dbs.trans h.dbs⟩

/-- The temporary names of the stage are no databases. -/
theorem dbs_remove (w : StageWorld) {f : StageFile} (hf : f.is_db = false) : dbs (w.remove f) = dbs w := by
  unfold dbs StageWorld.remove
  rw [List.filter_filter]
  refine List.filter_congr ?_
  intro entry _
  by_cases hentry : entry.1 = f
  · simp [hentry, hf]
  · simp [hentry]

theorem dbs_put (w : StageWorld) {f : StageFile} (node : Node) (hf : f.is_db = false) :
    dbs (w.put f node) = dbs w := by
  have hremove := dbs_remove w hf
  unfold dbs StageWorld.put at *
  rw [List.filter_cons_of_neg (by simp [hf])]
  exact hremove

/-- A database put in an empty stage is the only one. -/
theorem dbs_put_candidate {f : StageFile} (node : Node) (hf : f.is_db = true) (hempty : dbs w = []) :
    dbs (w.put f node) = [(f, node)] := by
  unfold dbs StageWorld.put StageWorld.remove at *
  rw [List.filter_cons_of_pos (by exact hf), List.filter_filter]
  congr 1
  rw [List.filter_eq_nil_iff] at hempty ⊢
  intro entry hin
  simp only [Bool.and_eq_true, not_and]
  intro hdb
  exact absurd hdb (hempty entry hin)

/-- Also a step that raises leaves the databases alone: half a copy is under its temporary name. -/
theorem still_failed (o : StageOp) (ho : o.Quiet) (c : StageChoice) (w : StageWorld) :
    Still w (o.failed c w).2 := by
  cases o with
  | copy_some f => exact ⟨fun _ _ _ => rfl, rfl, dbs_put w _ ho⟩
  | _ => exact .refl w

/-- The steps of the catalog that a call makes are those of `verify`, which write nothing. -/
theorem still_done (o : StageOp) (ho : o.Quiet) (c : StageChoice) (w : StageWorld) :
    Still w (o.done env projects c w).2 := by
  cases o with
  | catalog o => exact ⟨fun k s r => (exec_frame o ho c.catalog w.catalog).file k s r not_false, rfl, rfl⟩
  | mkdir =>
      simp only [StageOp.done]
      split
      · exact ⟨fun _ _ _ => rfl, rfl, rfl⟩
      · exact .refl w
  | create_temp =>
      simp only [StageOp.done]
      split
      · exact ⟨fun _ _ _ => rfl, rfl, dbs_put w _ rfl⟩
      · exact .refl w
  | copy_some f => exact ⟨fun _ _ _ => rfl, rfl, dbs_put w _ ho⟩
  | unlink f => exact ⟨fun _ _ _ => rfl, rfl, dbs_remove w ho⟩
  | replace source target => exact False.elim ho
  | project_ids id =>
      simp only [StageOp.done]
      split <;> exact .refl w
  | report f =>
      simp only [StageOp.done]
      split <;> exact .refl w
  | stat f =>
      simp only [StageOp.done]
      split <;> exact .refl w
  | read f =>
      simp only [StageOp.done]
      split <;> exact .refl w
  | _ => exact .refl w

/-- A step goes its way, or it raises. -/
theorem stage_exec_cases (o : StageOp) (c : StageChoice) (w : StageWorld) :
    stage_exec env projects o c w = o.done env projects c w
      ∨ o.raises = true ∧ stage_exec env projects o c w = o.failed c w := by
  rw [stage_exec]
  split
  · next h => exact .inr ⟨h.2, rfl⟩
  · exact .inl rfl

/-- A quiet step, whichever way it goes. -/
theorem still_exec (o : StageOp) (ho : o.Quiet) (c : StageChoice) (w : StageWorld) :
    Still w (stage_exec env projects o c w).2 := by
  rcases @stage_exec_cases env projects o c w with hdone | ⟨-, hfailed⟩
  · rw [hdone]
    exact still_done o ho c w
  · rw [hfailed]
    exact still_failed o ho c w

/-- **A quiet program stages nothing**, wherever it ends or is killed. -/
theorem quiet_wp {α : Type} {p : Stage α} (hp : p.Makes StageOp.Quiet) (w : StageWorld) :
    p.wp (stage_exec env projects) (Still w) (fun _ => Still w) w :=
  wp_of_makes (R := Still) Still.refl (fun _ _ _ => Still.trans) (hp.mono fun o ho c w => still_exec o ho c w)

theorem wp_stage_act {o : StageOp} {I : StageWorld → Prop} {Q : Except Fault o.Resp → StageWorld → Prop} (hI : I w)
    (hdone : ∀ c, Q (o.done env projects c w).1 (o.done env projects c w).2)
    (hfailed : o.raises = true → ∀ c, Q (o.failed c w).1 (o.failed c w).2) :
    (stage_act o).wp (stage_exec env projects) I Q w := by
  refine wp_op.mpr ⟨hI, ?_⟩
  intro c
  rcases @stage_exec_cases env projects o c w with heq | ⟨hraises, heq⟩
  · rw [heq]
    exact hdone c
  · rw [heq]
    exact hfailed hraises c

end Quiet

/-! ## The parts that are quiet -/

section Programs

variable (env : Env) (projects : Bytes → List String)

theorem quiet_stage_act {o : StageOp} (ho : o.Quiet) : (stage_act o).Makes StageOp.Quiet :=
  makes_op (S := stageSig) ho

/-- A program of the catalog that writes nothing is quiet here. -/
theorem quiet_in_catalog {α : Type} {p : Catalog α} (hp : Within (fun _ _ _ => False) p) :
    (in_catalog p).Makes StageOp.Quiet :=
  makes_via hp fun _ ho => quiet_stage_act ho

theorem quiet_stage_asked (question : Option Node → Bool) (f : StageFile) :
    (stage_asked question f).Makes StageOp.Quiet :=
  Makes.bind (quiet_stage_act trivial) fun _ => trivial

theorem quiet_admit_candidate (id : ArtifactId) : (admit_candidate env id).Makes StageOp.Quiet := by
  refine Makes.bind (quiet_in_catalog within_verify) fun candidate => Makes.bind (quiet_stage_act trivial) fun _ =>
    Makes.bind (quiet_stage_act trivial) fun _ => ?_
  dsimp only
  split
  · trivial
  · trivial

/-- A plan is quiet as a whole. -/
theorem quiet_restore_plan (id : ArtifactId) : (restore_plan env id).Makes StageOp.Quiet :=
  Makes.bind (quiet_in_catalog within_verify) fun _ => Makes.bind (quiet_stage_act trivial) fun _ =>
    Makes.bind (quiet_stage_act trivial) fun _ => trivial

theorem quiet_prepare_stage (candidate : Manifest) : (prepare_stage candidate).Makes StageOp.Quiet := by
  refine Makes.bind (quiet_stage_act trivial) fun _ => Makes.bind (quiet_stage_act trivial) fun _ => ?_
  split
  · trivial
  · refine Makes.bind (quiet_stage_act trivial) fun _ => ?_
    split
    · trivial
    · refine Makes.bind (quiet_stage_act trivial) fun _ => ?_
      split
      · trivial
      · trivial

theorem quiet_copy_artifact (id : ArtifactId) : (copy_artifact id).Makes StageOp.Quiet := by
  refine Makes.bind (quiet_stage_act trivial) fun name => Makes.bind (Makes.attempt ?_) fun r => ?_
  · exact Makes.bind (quiet_stage_act trivial) fun _ => Makes.bind (quiet_stage_act rfl) fun _ =>
      Makes.bind (quiet_stage_act rfl) fun _ => quiet_stage_act trivial
  · cases r with
    | error e => exact Makes.bind (quiet_stage_act rfl) fun _ => trivial
    | ok u => exact Makes.bind (quiet_stage_act trivial) fun _ => trivial

theorem quiet_inspect_temp (name : String) : (inspect_temp env name).Makes StageOp.Quiet := by
  refine Makes.bind (quiet_stage_asked _ _) fun _ => Makes.bind (quiet_stage_asked _ _) fun _ => ?_
  split
  · trivial
  refine Makes.bind (quiet_stage_asked _ _) fun _ => ?_
  split
  · trivial
  refine Makes.bind (Makes.attempt (quiet_stage_act trivial)) fun r => ?_
  cases r with
  | error e => cases e <;> trivial
  | ok report =>
      dsimp only
      split
      · trivial
      · exact Makes.bind (quiet_stage_act trivial) fun _ => Makes.bind (quiet_stage_act trivial) fun _ => trivial

end Programs

/-! ## What is established before the rename -/

section Facts

variable {env : Env} {projects : Bytes → List String} {w : StageWorld} {id : ArtifactId}

/-- The artifact and its manifest, which records what is found in it. -/
structure Vouched (env : Env) (w : World) (id : ArtifactId) (m : Manifest) (b : Bytes) : Prop where
  db : ∃ time, w.files (id.path .db) = some (.file b time)
  manifest : ∃ time, w.files (id.path .manifest) = some (.json m time)
  of_id : m.artifact_id = id
  vouches : Vouches env m b

/-- What vouches for an artifact are its two files. -/
theorem Vouched.frame {w w' : World} {m : Manifest} {b : Bytes} (h : Vouched env w id m b)
    (hfiles : ∀ k s r, w'.files (.file k s r) = w.files (.file k s r)) : Vouched env w' id m b := by
  obtain ⟨time, hdb⟩ := h.db
  obtain ⟨time', hmanifest⟩ := h.manifest
  exact ⟨⟨time, (hfiles _ _ _).trans hdb⟩, ⟨time', (hfiles _ _ _).trans hmanifest⟩, h.of_id, h.vouches⟩

/-- When `verify` returns, the manifest was read and the file found as it says. -/
theorem leads_verify (w : World) : (verify env id).Leads (exec env) (fun _ => True)
    (fun m w' => ∃ b, Vouched env w' id m b) w := by
  refine leads_bind.mpr (wp_mono wp_manifest (fun _ _ => trivial) ?_)
  rintro (e | m) w₁ hends
  · trivial
  · obtain ⟨rfl, hid, hlisted⟩ := hends
    obtain ⟨time, hmanifest⟩ := hlisted.manifest
    -- the inspection writes nothing, so the manifest read before it is still the one there
    refine leads_bind.mpr (wp_mono (wp_and (within_wp (t := fun _ _ _ => False) within_inspect w₁)
      leads_inspect) (fun _ _ => trivial) ?_)
    rintro (e | actual) w₂ ⟨hframe, hpassed⟩
    · trivial
    · show Leads _ _ (if _ then _ else _) _ w₂
      split
      · trivial
      next hsame =>
        obtain ⟨b, time', hdb, -, content, hchecked, hinspected⟩ := hpassed.file
        have hequal : m.inspected = actual := not_not.mp hsame
        refine ⟨b, ⟨time', hdb⟩, ⟨time, ?_⟩, hid, content, hchecked, hequal.trans hinspected⟩
        rw [hid] at hmanifest
        exact (hframe.file _ _ _ not_false).trans hmanifest

/-- A program of the catalog, in the world with a stage. -/
theorem leads_in_catalog {α : Type} {p : Catalog α} {R : α → World → Prop}
    (hp : p.Leads (exec env) (fun _ => True) R w.catalog) :
    (in_catalog p).Leads (stage_exec env projects) (fun _ => True) (fun a w' => R a w'.catalog) w := by
  have hinto : ∀ (o : FileOp) (w' : StageWorld) (J : StageWorld → Prop)
      (X : Except Fault o.Resp → StageWorld → Prop), J w' →
      (∀ c w'', w''.catalog = (exec env o c w'.catalog).2 → X (exec env o c w'.catalog).1 w'') →
      (stage_act (.catalog o)).wp (stage_exec env projects) J X w' := by
    intro o w' J X hJ hX
    refine wp_stage_act hJ ?_ ?_
    · intro c
      exact hX c.catalog _ rfl
    · intro hraises
      cases hraises
  have hwp : p.wp (exec env) (fun _ => True) (Ends (fun _ => True) R) w.catalog := hp
  refine wp_mono (wp_via hinto hwp) (fun _ _ => trivial) ?_
  rintro (e | a) w' hr
  · trivial
  · exact hr

/-- The artifact is verified, and nothing speaks against it. -/
structure Admitted (env : Env) (projects : Bytes → List String) (id : ArtifactId) (m : Manifest) (w : StageWorld) :
    Prop where
  vouched : ∃ b, Vouched env w.catalog id m b ∧ (comparison m (projects b) w.store).stop_reasons = []

/-- No stop reason was found; the store that was compared is the one of this moment. -/
theorem leads_admit_candidate : (admit_candidate env id).Leads (stage_exec env projects) (fun _ => True)
    (Admitted env projects id) w := by
  refine leads_bind.mpr (leads_mono (leads_in_catalog (leads_verify w.catalog)) ?_)
  rintro m w₁ ⟨b, hvouched⟩
  obtain ⟨time, hdb⟩ := hvouched.db
  refine leads_bind.mpr (wp_stage_act trivial ?_ fun _ _ => trivial)
  intro c
  simp only [StageOp.done, hdb]
  refine leads_bind.mpr (wp_stage_act trivial ?_ fun _ _ => trivial)
  intro c'
  show Leads _ _ (if _ then _ else _) _ w₁
  split
  · trivial
  next hreasons => exact ⟨b, hvouched, not_not.mp hreasons⟩

/-- A stage that holds a database is refused, so from here on it holds none. -/
theorem leads_prepare_stage (candidate : Manifest) : (prepare_stage candidate).Leads (stage_exec env projects)
    (fun _ => True) (fun _ w' => dbs w' = []) w := by
  refine leads_bind.mpr (leads_mono (leads_trivial _ w) ?_)
  intro _ w₁ _
  refine leads_bind.mpr (leads_mono (leads_trivial _ w₁) ?_)
  intro node w₂ _
  show Leads _ _ (if _ then _ else _) _ w₂
  split
  · trivial
  refine leads_bind.mpr (wp_stage_act trivial ?_ fun _ _ => trivial)
  intro c
  show Leads _ _ (if _ then _ else _) _ w₂
  split
  · trivial
  next hstaged =>
    -- no entry of the directory is a database
    have hempty : dbs w₂ = [] := by
      unfold dbs
      rw [List.filter_eq_nil_iff]
      intro entry hin hdb
      exact hstaged (List.any_eq_true.mpr ⟨entry, hin, hdb⟩)
    -- nothing is written from here on
    refine wp_mono (quiet_wp ?_ w₂) (fun _ _ => trivial) ?_
    · refine Makes.bind (quiet_stage_act (o := .disk_free) trivial) fun _ => ?_
      split
      · trivial
      · trivial
    · rintro (e | u) w₃ hstill
      · trivial
      · exact hstill.dbs.trans hempty

/-- What `_inspect` has seen of the copy. -/
def Inspects (env : Env) (name : String) (actual : Inspected) (w : StageWorld) : Prop :=
  ∃ b time, w.get (.temp name) = some (.file b time) ∧ ∃ content, (env.report b).checked = .inr content
    ∧ actual = content.inspected b.length (env.sha256 b)

theorem leads_stage_asked {question : Option Node → Bool} {f : StageFile} {R : Bool → StageWorld → Prop}
    (hR : R (question (w.get f)) w) : (stage_asked question f).Leads (stage_exec env projects) (fun _ => True) R w := by
  refine leads_bind.mpr (wp_stage_act trivial ?_ ?_)
  · intro c
    exact hR
  · intro hraises
    cases hraises

theorem leads_inspect_temp (name : String) : (inspect_temp env name).Leads (stage_exec env projects)
    (fun _ => True) (Inspects env name) w := by
  refine leads_bind.mpr (leads_stage_asked (leads_bind.mpr (leads_stage_asked ?_)))
  show Leads _ _ (if _ then _ else _) _ w
  split
  · trivial
  refine leads_bind.mpr (leads_stage_asked ?_)
  show Leads _ _ (if _ then _ else _) _ w
  split
  · trivial
  refine leads_bind.mpr (wp_attempt.mpr (wp_stage_act trivial ?_ fun _ _ => trivial))
  intro c
  simp only [StageOp.done]
  split
  · next b time hfile =>
      dsimp only [Ends]
      split
      · trivial
      next content hchecked =>
        refine leads_bind.mpr (wp_stage_act trivial ?_ fun _ _ => trivial)
        intro c'
        simp only [StageOp.done, hfile]
        refine leads_bind.mpr (wp_stage_act trivial ?_ fun _ _ => trivial)
        intro c''
        simp only [StageOp.done, hfile]
        exact ⟨b, time, hfile, content, hchecked, rfl⟩
  · trivial

end Facts

/-! ## A call -/

section Call

variable (env : Env) (projects : Bytes → List String)

/-- What a call stages, from a world with an empty stage: a copy that its manifest vouches for, as it vouches for the
artifact, when nothing speaks against the artifact in the store as it is. -/
structure Stages (id : ArtifactId) (stage_id : String) (w : StageWorld) (copy : Bytes) (w' : StageWorld) : Prop where
  before : dbs w = []
  artifact : ∃ m b, Vouched env w.catalog id m b ∧ (comparison m (projects b) w.store).stop_reasons = []
    ∧ Vouches env m copy
  after : ∃ time, dbs w' = [(.candidate stage_id, .file copy time)]

/-- What a call may leave, wherever it ends or is killed. -/
structure Left (id : ArtifactId) (stage_id : String) (w w' : StageWorld) : Prop where
  files : ∀ k s r, w'.catalog.files (.file k s r) = w.catalog.files (.file k s r)
  store : w'.store = w.store
  stage : dbs w' = dbs w ∨ ∃ copy, Stages env projects id stage_id w copy w'

/-- How the last part of a call ends: if it returns, the candidate is there. -/
def PublishedAs (id : ArtifactId) (stage_id : String) (w : StageWorld) : Except Fault Inspected → StageWorld → Prop
  | .ok actual, w' => Left env projects id stage_id w w'
      ∧ ∃ copy, Stages env projects id stage_id w copy w' ∧ actual.sha256 = env.sha256 copy
  | .error _, w' => Left env projects id stage_id w w'

variable {env projects} {id : ArtifactId} {stage_id : String} {w w' w'' : StageWorld}

theorem Still.left (h : Still w w') : Left env projects id stage_id w w' := ⟨h.files, h.store, .inl h.dbs⟩

theorem Stages.still {copy : Bytes} (h : Stages env projects id stage_id w copy w') (hstill : Still w' w'') :
    Stages env projects id stage_id w copy w'' := by
  obtain ⟨time, hdbs⟩ := h.after
  exact ⟨h.before, h.artifact, time, hstill.dbs.trans hdbs⟩

theorem Left.still (h : Left env projects id stage_id w w') (hstill : Still w' w'') :
    Left env projects id stage_id w w'' := by
  refine ⟨fun k s r => (hstill.files k s r).trans (h.files k s r), hstill.store.trans h.store, ?_⟩
  rcases h.stage with hsame | ⟨copy, hstages⟩
  · exact .inl (hstill.dbs.trans hsame)
  · exact .inr ⟨copy, hstages.still hstill⟩

/-- A quiet part of a call that has left the stage alone so far, with what the part establishes. -/
theorem wp_unstaged {α : Type} {p : Stage α} (hp : p.Makes StageOp.Quiet) {R : α → StageWorld → Prop}
    (hleads : p.Leads (stage_exec env projects) (fun _ => True) R w') (h : Still w w')
    {Q : Except Fault α → StageWorld → Prop} (hraised : ∀ e w'', Still w w'' → Q (.error e) w'')
    (hok : ∀ a w'', Still w w'' → R a w'' → Q (.ok a) w'') :
    p.wp (stage_exec env projects) (Left env projects id stage_id w) Q w' := by
  refine wp_mono (wp_and (quiet_wp hp w') hleads) (fun _ hstep => (h.trans hstep.1).left) ?_
  rintro (e | a) w'' ⟨hstep, hr⟩
  · exact hraised e w'' (h.trans hstep)
  · exact hok a w'' (h.trans hstep) hr

/-- A quiet step of a call, at whatever point. -/
theorem wp_step {o : StageOp} (ho : o.Quiet) (h : Left env projects id stage_id w w')
    {Q : Except Fault o.Resp → StageWorld → Prop} (hQ : ∀ r w'', Still w' w'' → Q r w'') :
    (stage_act o).wp (stage_exec env projects) (Left env projects id stage_id w) Q w' :=
  wp_mono (quiet_wp (quiet_stage_act ho) w') (fun _ hstep => h.still hstep) hQ

/-- What is left of the copy under its first name is removed. -/
theorem wp_unlink {r : Except Fault Inspected} {name : String}
    (h : ∀ w'', Still w' w'' → PublishedAs env projects id stage_id w r w'') :
    (stage_act (.unlink (.temp name))).wp (stage_exec env projects) (Left env projects id stage_id w)
      (fun u w'' => PublishedAs env projects id stage_id w (u.bind fun _ => r) w'') w' := by
  have hleft : ∀ w'', Still w' w'' → Left env projects id stage_id w w'' := by
    intro w'' hstep
    have hend := h w'' hstep
    cases r with
    | error e => exact hend
    | ok actual => exact hend.1
  refine wp_step (o := .unlink (.temp name)) rfl (hleft w' (.refl w')) ?_
  rintro (e | u) w'' hstep
  · exact hleft w'' hstep
  · exact h w'' hstep

/-- The last part of a call: the copy is checked, and if it is right it becomes the candidate. -/
theorem wp_check_and_publish {m : Manifest} {name : String} (hempty : dbs w' = []) (h : Still w w')
    (hadmitted : Admitted env projects id m w) :
    (check_and_publish env m stage_id name).wp (stage_exec env projects) (Left env projects id stage_id w)
      (PublishedAs env projects id stage_id w) w' := by
  refine wp_finally (wp_bind.mpr ?_)
  refine wp_unstaged (quiet_inspect_temp env name) (leads_inspect_temp name) h ?_ ?_
  · intro e w₁ hstill
    exact @wp_unlink env projects id stage_id w _ (.error e) name fun w₂ hstep => (hstill.trans hstep).left
  · rintro actual w₁ hstill ⟨copy, time, hget, content, hchecked, hactual⟩
    dsimp only
    split
    · exact @wp_unlink env projects id stage_id w _ (.error _) name fun w₂ hstep => (hstill.trans hstep).left
    next hsame =>
      -- the copy is what the manifest says, and is renamed
      have hinspected : m.inspected = actual := not_not.mp hsame
      have hcopy : Vouches env m copy := ⟨content, hchecked, hinspected.trans hactual⟩
      have hdigest : actual.sha256 = env.sha256 copy := by
        rw [hactual]
        rfl
      refine wp_bind.mpr (wp_stage_act hstill.left ?_
        fun _ _ => @wp_unlink env projects id stage_id w _ (.error _) name fun w₂ hstep => (hstill.trans hstep).left)
      intro c
      simp only [StageOp.done, hget]
      obtain ⟨b, hvouched, hreasons⟩ := hadmitted.vouched
      have hbefore : dbs w = [] := h.dbs.symm.trans hempty
      -- the copy under its first name is no database yet
      have hnone : dbs (w₁.remove (.temp name)) = [] := by
        rw [dbs_remove w₁ rfl, hstill.dbs, hbefore]
      have hdbs := dbs_put_candidate (f := .candidate stage_id) (.file copy time) rfl hnone
      have hstages : Stages env projects id stage_id w copy
          ((w₁.remove (.temp name)).put (.candidate stage_id) (.file copy time)) :=
        ⟨hbefore, ⟨m, b, hvouched, hreasons, hcopy⟩, time, hdbs⟩
      have hleft : Left env projects id stage_id w
          ((w₁.remove (.temp name)).put (.candidate stage_id) (.file copy time)) :=
        ⟨hstill.files, hstill.store, .inr ⟨copy, hstages⟩⟩
      refine wp_bind.mpr (wp_step (o := .fsync) trivial hleft ?_)
      rintro (e | u) w₂ hstep
      · exact @wp_unlink env projects id stage_id w _ (.error e) name fun w₃ hstep' => hleft.still (hstep.trans hstep')
      · exact @wp_unlink env projects id stage_id w _ (.ok actual) name fun w₃ hstep' =>
          ⟨hleft.still (hstep.trans hstep'), copy, hstages.still (hstep.trans hstep'), hdigest⟩

/-- How a call ends. -/
def CallEnds (env : Env) (projects : Bytes → List String) (id : ArtifactId) (stage_id : String) (w : StageWorld) :
    Except Fault Staged → StageWorld → Prop
  | .ok staged, w' => Left env projects id stage_id w w' ∧ staged.stage_id = stage_id ∧ staged.artifact_id = id
      ∧ ∃ copy, Stages env projects id stage_id w copy w' ∧ staged.sha256 = env.sha256 copy
  | .error _, w' => Left env projects id stage_id w w'

/-- The call, from its first step to its end, killed or not. -/
theorem wp_restore_stage (w : StageWorld) :
    (restore_stage env id stage_id).wp (stage_exec env projects) (Left env projects id stage_id w)
      (CallEnds env projects id stage_id w) w := by
  refine wp_bind.mpr (wp_unstaged (quiet_admit_candidate env id) leads_admit_candidate (.refl w) (fun _ _ h => h.left) ?_)
  intro m w₁ h₁ hadmitted₁
  -- the checks wrote nothing, so they hold of the world before the call
  have hadmitted : Admitted env projects id m w := by
    obtain ⟨b, hvouched, hreasons⟩ := hadmitted₁.vouched
    rw [h₁.store] at hreasons
    exact ⟨b, hvouched.frame fun k s r => (h₁.files k s r).symm, hreasons⟩
  refine wp_bind.mpr (wp_unstaged (quiet_prepare_stage m) (leads_prepare_stage m) h₁ (fun _ _ h => h.left) ?_)
  intro _ w₂ h₂ hempty
  refine wp_bind.mpr (wp_unstaged (quiet_copy_artifact id) (leads_trivial _ w₂) h₂ (fun _ _ h => h.left) ?_)
  intro name w₃ h₃ _
  have hempty₃ : dbs w₃ = [] := h₃.dbs.trans (h₂.dbs.symm.trans hempty)
  refine wp_bind.mpr (wp_mono (wp_check_and_publish hempty₃ h₃ hadmitted) (fun _ hleft => hleft) ?_)
  rintro (e | actual) w₄ hend
  · exact hend
  · obtain ⟨hleft, copy, hstages, hdigest⟩ := hend
    exact ⟨hleft, rfl, rfl, copy, hstages, hdigest⟩

end Call

/-! ## Runs -/

section Runs

variable (env : Env) (projects : Bytes → List String)

/-- A call of `restore_stage`, ended or killed, and the world after it. -/
def stage_call (id : ArtifactId) (stage_id : String) (cs : List StageChoice) (w : StageWorld) :
    Option (Except Fault Staged) × StageWorld :=
  (restore_stage env id stage_id).run_until (stage_exec env projects) cs w

/-- What may happen to the stage: calls, changes to the snapshots and the store, and files that are taken away. -/
inductive StageRuns (w : StageWorld) : StageWorld → Prop
  | refl : StageRuns w w
  | stage {w' : StageWorld} (h : StageRuns w w') (id : ArtifactId) (stage_id : String) (cs : List StageChoice) :
      StageRuns w (stage_call env projects id stage_id cs w').2
  | plan {w' : StageWorld} (h : StageRuns w w') (id : ArtifactId) (cs : List StageChoice) :
      StageRuns w ((restore_plan env id).run_until (stage_exec env projects) cs w').2
  | change {w' : StageWorld} (h : StageRuns w w') (catalog : World) (store : Store) :
      StageRuns w { w' with catalog := catalog, store := store }
  | taken {w' : StageWorld} (h : StageRuns w w') {files : List (StageFile × Node)} (hfiles : files.Sublist w'.files) :
      StageRuns w { w' with files := files }

variable {env projects} {w w' : StageWorld}

/-- A call that was killed has staged nothing or what it says. -/
theorem stage_call_left (id : ArtifactId) (stage_id : String) (cs : List StageChoice) (w : StageWorld) :
    Left env projects id stage_id w (stage_call env projects id stage_id cs w).2 := by
  refine wp_stands (wp_mono (wp_restore_stage w) (fun _ hleft => hleft) ?_) cs
  rintro (e | staged) w' hend
  · exact hend
  · exact hend.1

theorem stage_call_returns {id : ArtifactId} {stage_id : String} {cs : List StageChoice} {staged : Staged}
    (hrun : stage_call env projects id stage_id cs w = (some (.ok staged), w')) :
    CallEnds env projects id stage_id w (.ok staged) w' := by
  have hsound := wp_sound (@wp_restore_stage env projects id stage_id w) cs
  unfold stage_call at hrun
  rw [hrun] at hsound
  exact hsound

theorem restore_plan_still (id : ArtifactId) (cs : List StageChoice) (w : StageWorld) :
    Still w ((restore_plan env id).run_until (stage_exec env projects) cs w).2 :=
  wp_stands (quiet_wp (quiet_restore_plan env id) w) cs

/-- Two files for which one manifest vouches have one digest and one size. -/
theorem Vouches.same {m : Manifest} {b copy : Bytes} (h : Vouches env m b) (h' : Vouches env m copy) :
    env.sha256 copy = env.sha256 b ∧ copy.length = b.length := by
  obtain ⟨content, -, hinspected⟩ := h
  obtain ⟨content', -, hinspected'⟩ := h'
  have heq := hinspected'.symm.trans hinspected
  exact ⟨congrArg Inspected.sha256 heq, congrArg Inspected.size_bytes heq⟩

/-- How a candidate came to be staged. -/
def Provenance (env : Env) (projects : Bytes → List String) (w₀ : StageWorld) (entry : StageFile × Node) : Prop :=
  ∃ id stage_id before m b copy time, entry = (.candidate stage_id, .file copy time)
    ∧ StageRuns env projects w₀ before ∧ Vouched env before.catalog id m b
    ∧ (comparison m (projects b) before.store).stop_reasons = [] ∧ Vouches env m copy
    ∧ env.sha256 copy = env.sha256 b ∧ copy.length = b.length

/-- The stage holds at most one database, whose origin is known. -/
structure Clear (env : Env) (projects : Bytes → List String) (w₀ w : StageWorld) : Prop where
  single : (dbs w).length ≤ 1
  origin : ∀ entry ∈ dbs w, Provenance env projects w₀ entry

/-- At most one database: a call that stages has found none. -/
theorem Clear.call {w₀ : StageWorld} (h : Clear env projects w₀ w) (hruns : StageRuns env projects w₀ w)
    {id : ArtifactId} {stage_id : String} (hleft : Left env projects id stage_id w w') : Clear env projects w₀ w' := by
  rcases hleft.stage with hsame | ⟨copy, hempty, ⟨m, b, hvouched, hreasons, hcopy⟩, time, hdbs⟩
  · refine ⟨?_, ?_⟩
    · rw [hsame]
      exact h.single
    · rw [hsame]
      exact h.origin
  · refine ⟨?_, ?_⟩
    · rw [hdbs]
      exact Nat.le_refl 1
    · intro entry hin
      rw [hdbs] at hin
      obtain rfl := List.mem_singleton.mp hin
      obtain ⟨hdigest, hsize⟩ := hvouched.vouches.same hcopy
      exact ⟨id, stage_id, w, m, b, copy, time, rfl, hruns, hvouched, hreasons, hcopy, hdigest, hsize⟩

theorem StageRuns.clear {w₀ : StageWorld} (h : StageRuns env projects w₀ w) (hempty : dbs w₀ = []) :
    Clear env projects w₀ w := by
  induction h with
  | refl =>
      refine ⟨?_, ?_⟩
      · rw [hempty]
        exact Nat.zero_le 1
      · intro entry hin
        rw [hempty] at hin
        cases hin
  | stage hruns id stage_id cs ih => exact ih.call hruns (stage_call_left id stage_id cs _)
  | @plan w' hruns id cs ih =>
      have hstill := @restore_plan_still env projects id cs w'
      refine ⟨?_, ?_⟩
      · rw [hstill.dbs]
        exact ih.single
      · rw [hstill.dbs]
        exact ih.origin
  | change _ catalog store ih => exact ⟨ih.single, ih.origin⟩
  | @taken w' _ files hfiles ih =>
      have hsublist : (dbs { w' with files := files }).Sublist (dbs w') := hfiles.filter _
      exact ⟨Nat.le_trans hsublist.length_le ih.single, fun entry hin => ih.origin entry (hsublist.subset hin)⟩

/-- **What is staged was verified.** From an empty stage, whatever calls were made, ended or killed at whatever step,
and whatever became of the snapshots and the store between them: there is at most one database in the stage. It is
a copy that a manifest vouches for, of an artifact that it vouched for, with the same digest and size, and when the
call was made nothing spoke against restoring it. A call writes to no snapshot and not to the store, one that
returns has staged what it says, and a plan stages nothing. -/
theorem staged_candidate_is_verified {w₀ : StageWorld} (h : StageRuns env projects w₀ w) (hempty : dbs w₀ = []) :
    (dbs w).length ≤ 1
      ∧ (∀ entry ∈ dbs w, Provenance env projects w₀ entry)
      ∧ (∀ id stage_id cs result after, stage_call env projects id stage_id cs w = (result, after) →
          (∀ k s r, after.catalog.files (.file k s r) = w.catalog.files (.file k s r)) ∧ after.store = w.store
            ∧ ∀ staged, result = some (.ok staged) → staged.stage_id = stage_id ∧ staged.artifact_id = id
                ∧ dbs w = [] ∧ ∃ copy time, dbs after = [(.candidate stage_id, .file copy time)]
                  ∧ staged.sha256 = env.sha256 copy)
      ∧ ∀ id cs, Still w ((restore_plan env id).run_until (stage_exec env projects) cs w).2 := by
  have hclear := h.clear hempty
  refine ⟨hclear.single, hclear.origin, ?_, fun id cs => restore_plan_still id cs w⟩
  intro id stage_id cs result after hrun
  have hleft := @stage_call_left env projects id stage_id cs w
  rw [hrun] at hleft
  refine ⟨hleft.files, hleft.store, ?_⟩
  rintro staged rfl
  obtain ⟨-, hid, hartifact, copy, hstages, hdigest⟩ := stage_call_returns hrun
  obtain ⟨time, hdbs⟩ := hstages.after
  exact ⟨hid, hartifact, hstages.before, copy, time, hdbs, hdigest⟩

end Runs

namespace First

/-- The first snapshot, a store without projects, and an empty stage. -/
def staging : StageWorld := { catalog := created, store := ⟨9, [], 0⟩ }

theorem perm_id (l : List Stem) : (id l).Perm l := .refl l

/-- A directory is listed as it is. -/
def in_order : Choice := { order := ⟨id, perm_id⟩ }

/-- Every step goes its way, and `page` is what is copied. -/
def copying : List StageChoice := List.replicate 40 { catalog := in_order, name := "k2v8", bytes := page }

/-- The copy is cut short by the loss of power. -/
def cut : List StageChoice := List.replicate 14 { catalog := in_order, name := "k2v8", bytes := [0] }

def staged_world : StageWorld := (stage_call env (fun _ => []) first_id "c0ffee" copying staging).2

theorem staged_candidate_is_verified_first :
    dbs staged_world = [(.candidate "c0ffee", .file page 0)]
      ∧ Provenance env (fun _ => []) staging (.candidate "c0ffee", .file page 0)
      ∧ (stage_call env (fun _ => []) first_id "decaf" copying staged_world).1
          = some (.error (.BackupCatalogError "A restore candidate is already staged")) := by
  have hruns : StageRuns env (fun _ => []) staging staged_world := .stage .refl first_id "c0ffee" copying
  have hdbs : dbs staged_world = [(.candidate "c0ffee", .file page 0)] := by decide +kernel
  obtain ⟨-, horigin, -, -⟩ := staged_candidate_is_verified hruns rfl
  refine ⟨hdbs, horigin _ ?_, by decide +kernel⟩
  rw [hdbs]
  exact List.mem_singleton_self _

example : dbs (stage_call env (fun _ => []) first_id "c0ffee" cut staging).2 = [] := by decide +kernel

end First

end OpenChronicle.Backup
