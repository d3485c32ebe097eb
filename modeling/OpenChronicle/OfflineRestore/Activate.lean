/-
`activate`: everything a call may have done to the volume when it ends, raises or is stopped.

Up to its swap it works on its own recovery directory and on the incoming copy. When the swap begins the
old family is archived whole, and nothing after it touches the archive.

The call is cut in three at the points where its guarantees change. While it is archiving (`Archiving`)
the family has not been touched, and the record, if there is one, says so. From the moment the archive
is whole and the candidate has been copied beside the database (`Ready`) the swap may begin; from then
on (`Installing`) each file of the old family is in `raw-old`, the database is the old one or the
candidate, never a part of either, and the record tells which of the two phases it is in. Each step of
the source is shown to stay within its part or to lead to the next.

The write probe is not part of it. It runs when the swap has been recorded, and its result is written to
the record, so that a call that is stopped before it leaves a record without a result.
-/
import OpenChronicle.OfflineRestore.Steps

set_option autoImplicit false

namespace OpenChronicle.OfflineRestore

open Program

/-- The operation in whose recovery directory a path is. -/
def Path.owner : Path → Option String
  | recovery op => some op
  | state op => some op
  | state_temp op => some op
  | raw_old op => some op
  | raw op _ => some op
  | scratch_dir op => some op
  | scratch op _ => some op
  | old_consistent op => some op
  | displaced op _ => some op
  | forward_state op => some op
  | forward op _ => some op
  | forward_displaced op _ => some op
  | _ => none

/-- In the part of the recovery directory that belongs to rollback. -/
def Path.is_forward : Path → Bool
  | forward_state _ => true
  | forward _ _ => true
  | forward_displaced _ _ => true
  | _ => false

/-- What an activation works on before its swap. -/
def work (op : String) : Set Path :=
  {p | (p.owner = some op ∧ p.is_forward = false) ∨ p = .incoming op ∨ p = .recovery_root}

/-- Archiving leaves the family alone, and the staged candidate too. -/
theorem live_notMem_work (op : String) (m : Member) : Path.live m ∉ work op := by
  simp [work, Path.owner]

theorem staged_notMem_work (op name : String) : Path.staged name ∉ work op := by
  simp [work, Path.owner]

/-! ## Activation -/

/-- The volume while an activation is archiving the old family. -/
structure Archiving (op : String) (w w' : Volume) : Prop where
  agree : Agree (work op) w w'
  dir : found (w' (.recovery op)) = true
  record : w' (.state op) = w (.state op)
    ∨ ∃ s, w' (.state op) = some (.json s) ∧ s.phase = .archiving ∧ s.write_probe = none

/-- The volume from the swap of an activation on: the old family is in `raw-old`, and the
database is the old one or the candidate. -/
structure Installing (sha256 : Bytes → Digest) (op : String) (b : Bytes) (w w' : Volume) : Prop where
  agree : Agree (work op ∪ Set.range .live) w w'
  dir : found (w' (.recovery op)) = true
  raw : ∀ m c, w (.live m) = some (.file c) → w' (.raw op m) = some (.file c)
  main : w' (.live .main) = w (.live .main) ∨ w' (.live .main) = some (.file b)
  regular : ∀ m, FileOrNone (w' (.live m))
  record : ∃ s, w' (.state op) = some (.json s) ∧ s.candidate_info.sha256 = sha256 b
    ∧ (s.phase = .prepared ∨ (s.phase = .activated ∧ w' (.live .main) = some (.file b)))

/-- What a call of `activate` may have done. -/
inductive Activation (sha256 : Bytes → Digest) (candidate : String) (expected : Expected)
    (op : String) (w w' : Volume) : Prop
  /-- It was refused, or planned, or has not come to its directory. -/
  | untouched (hagree : Agree {.recovery_root} w w')
  /-- It is copying, and has not come to the swap. -/
  | archiving (hnew : w (.recovery op) = none) (h : Archiving op w w')
  | swapping (hnew : w (.recovery op) = none) {name : String} {info : BackupInfo} {b : Bytes}
      (hpassed : Passed sha256 candidate expected name info b w) (h : Installing sha256 op b w w')

section Activate

variable {sha256 : Bytes → Digest} {candidate op name : String}
  {info : BackupInfo} {expected : Expected} {b : Bytes} {w : Volume}

/-- A step inside the work area that does not write the record. -/
theorem Archiving.step {w₁ w₂ : Volume} {T : Set Path} (h : Archiving op w w₁)
    (hagree : Agree T w₁ w₂) (hT : T ⊆ work op) (hstate : Path.state op ∉ T)
    (hdir : Path.recovery op ∉ T) : Archiving op w w₂ := by
  refine ⟨h.agree.trans (hagree.mono hT), ?_, ?_⟩
  · rw [hagree _ hdir]
    exact h.dir
  · rw [hagree _ hstate]
    exact h.record

theorem saving_subset_work (op : String) : {Path.state op, Path.state_temp op} ⊆ work op := by
  rintro p (rfl | rfl)
  · exact .inl ⟨rfl, rfl⟩
  · exact .inl ⟨rfl, rfl⟩

/-- The record is written while the archive is made, with a phase that says that it is not whole. -/
theorem Archiving.save {w₁ w₂ : Volume} {s : State} (h : Archiving op w w₁)
    (hsave : Saving op s w₁ w₂) (hs : s.phase = .archiving ∧ s.write_probe = none) :
    Archiving op w w₂ := by
  refine ⟨h.agree.trans (hsave.1.mono (saving_subset_work op)), ?_, ?_⟩
  · rw [hsave.1 _ (by simp)]
    exact h.dir
  · rcases hsave.2 with hold | hnew
    · rw [hold]
      exact h.record
    · exact .inr ⟨s, hnew, hs⟩

/-- Nothing has been probed yet. -/
theorem Archiving.unproved {w' : Volume} (h : Archiving op w w') : Unproved op w w' := by
  rcases h.record with hold | ⟨s, hs, -, hnone⟩
  · exact .inl hold
  · refine unproved_of_ne hs ?_
    rw [hnone]
    nofun

/-- The volume once the old family is in `raw-old`. -/
structure Archived (op : String) (w : Volume) (s₀ s : State) (w' : Volume) : Prop where
  archiving : Archiving op w w'
  candidate_info : s.candidate_info = s₀.candidate_info
  raw : ∀ m c, w (.live m) = some (.file c) → w' (.raw op m) = some (.file c)

/-- The old family is copied: nothing but `work` changes, and at the end the archive is whole. -/
theorem leads_archive_old {I : Volume → Prop} {s : State}
    (hstart : ∀ w', Agree {.recovery_root} w w' → I w')
    (hI : w (.recovery op) = none → ∀ w', Archiving op w w' → I w')
    (hs : s.phase = .archiving ∧ s.write_probe = none) :
    (archive_old sha256 op s ([Member.main, .wal, .shm].filter fun m => (w (.live m)).isSome)).Leads
      exec I (fun s' w' => w (.recovery op) = none ∧ Archived op w s s' w') w := by
  set live_files := [Member.main, .wal, .shm].filter fun m => (w (.live m)).isSome with hlive
  have hnodup : live_files.Nodup := List.Nodup.filter _ (by decide)
  have hown : ∀ p : Path, p.owner = some op → p.is_forward = false → {p} ⊆ work op := by
    rintro p hp hforward q rfl
    exact .inl ⟨hp, hforward⟩
  have hroot : {Path.recovery_root} ⊆ work op := by
    rintro p rfl
    exact .inr (.inr rfl)
  -- the directory and its first record
  refine Prog.leads_bind.mpr (leads_part (touches_act (o := .mkdir .recovery_root true)
    (Set.mem_singleton _)) (Prog.leads_trivial _ _) hstart ?_)
  intro _ w₁ h₁ _
  refine Prog.leads_bind.mpr (leads_mkdir (hstart w₁ h₁) ?_ nofun)
  intro hnew
  rw [h₁ _ (by simp)] at hnew
  have hI := hI hnew
  set w₂ := Function.update w₁ (.recovery op) (some .dir) with hw₂def
  have h₂ : Agree {.recovery op} w₁ w₂ := agree_update (by simp) w₁ _
  have hw₂ : Archiving op w w₂ := by
    refine ⟨(h₁.mono hroot).trans (h₂.mono (hown _ rfl rfl)), ?_, ?_⟩
    · rw [hw₂def, Function.update_self]
      rfl
    · rw [h₂ _ (by simp), h₁ _ (by simp)]
      exact .inl rfl
  refine Prog.leads_bind.mpr (leads_save_state (fun w' h => hI w' (hw₂.save h hs)) ?_)
  intro w₃ h₃ _
  have hw₃ := hw₂.save h₃ hs
  refine Prog.leads_bind.mpr (leads_part (touches_act (o := .mkdir (.raw_old op) false)
    (Set.mem_singleton _)) (Prog.leads_trivial _ _) ?_ ?_)
  · exact fun w' h => hI w' (hw₃.step h (hown _ rfl rfl) (by simp) (by simp))
  intro _ w₄ h₄ _
  have hw₄ := hw₃.step h₄ (hown _ rfl rfl) (by simp) (by simp)
  -- the old family
  have hraws : {p | ∃ m ∈ live_files, p = Path.raw op m} ⊆ work op := by
    rintro p ⟨m, -, rfl⟩
    exact .inl ⟨rfl, rfl⟩
  refine Prog.leads_bind.mpr (leads_part ((copies_raw op).touches_each live_files)
    ((copies_raw op).copied_each (fun m m' h => (Path.raw.inj h).2) (fun m m' => by simp) hnodup)
    ?_ ?_)
  · exact fun w' h => hI w' (hw₄.step h hraws (by simp) (by simp))
  rintro raw_files w₅ h₅ ⟨-, hcopied⟩
  have hw₅ := hw₄.step h₅ hraws (by simp) (by simp)
  have hraw₅ : ∀ m c, w (.live m) = some (.file c) → w₅ (.raw op m) = some (.file c) := by
    intro m c hc
    have hin : m ∈ live_files := by
      rw [hlive, List.mem_filter, hc]
      exact ⟨by cases m <;> simp, rfl⟩
    obtain ⟨c', hc', hraw, -⟩ := hcopied m hin
    rw [hw₄.agree _ (live_notMem_work op m), hc] at hc'
    rw [hraw, ← hc']
  refine Prog.leads_bind.mpr (leads_save_state (fun w' h => hI w' (hw₅.save h hs)) ?_)
  intro w₆ h₆ _
  have hw₆ := hw₅.save h₆ hs
  -- its consolidated copy
  have hassess : assessment op ⊆ work op := by
    rintro p (rfl | rfl | ⟨m, rfl⟩)
    · exact .inl ⟨rfl, rfl⟩
    · exact .inl ⟨rfl, rfl⟩
    · exact .inl ⟨rfl, rfl⟩
  refine Prog.leads_bind.mpr (leads_part (touches_assess_old_state op) (Prog.leads_trivial _ _) ?_ ?_)
  · exact fun w' h => hI w' (hw₆.step h hassess (by simp [assessment]) (by simp [assessment]))
  intro old_state w₇ h₇ _
  have hw₇ := hw₆.step h₇ hassess (by simp [assessment]) (by simp [assessment])
  refine Prog.leads_bind.mpr (leads_save_state (fun w' h => hI w' (hw₇.save h hs)) ?_)
  intro w₈ h₈ _
  refine leads_pure ⟨hnew, hw₇.save h₈ hs, rfl, ?_⟩
  intro m c hc
  rw [h₈.1 _ (by simp), h₇ _ (by simp [assessment]), h₆.1 _ (by simp), hraw₅ m c hc]

/-- The volume when an activation comes to its swap. -/
structure Ready (info : BackupInfo) (op : String) (b : Bytes) (w : Volume) (s : State) (w' : Volume) :
    Prop where
  agree : Agree (work op) w w'
  dir : found (w' (.recovery op)) = true
  state : w' (.state op) = some (.json s)
  info_eq : s.candidate_info = info
  phase : s.phase = .prepared
  pending : s.write_probe = some PROBE_PENDING
  raw : ∀ m c, w (.live m) = some (.file c) → w' (.raw op m) = some (.file c)
  incoming : w' (.incoming op) = some (.file b)

/-- The candidate is copied beside the database, and its state says that the swap may begin. -/
theorem leads_bring_in {I : Volume → Prop} {s₀ s : State} {w₁ : Volume}
    (h : Archived op w s₀ s w₁) (hstaged : w (.staged name) = some (.file b))
    (hinfo : s₀.candidate_info = info) (hI : ∀ w', Archiving op w w' → I w')
    (hready : ∀ s' w', Ready info op b w s' w' → I w') :
    (bring_in sha256 op name s).Leads exec I (Ready info op b w) w₁ := by
  have hincoming : {Path.incoming op} ⊆ work op := by
    rintro p rfl
    exact .inr (.inl rfl)
  refine Prog.leads_bind.mpr (leads_part (touches_copy_durable _ _) (copied _ _) ?_ ?_)
  · exact fun w' h' => hI w' (h.archiving.step h' hincoming (by simp) (by simp))
  rintro _ w₂ h₂ ⟨b', hb', hcopy⟩
  have hw₂ := h.archiving.step h₂ hincoming (by simp) (by simp)
  rw [h.archiving.agree _ (staged_notMem_work op name)] at hb'
  obtain rfl := file_unique hstaged hb'
  refine Prog.leads_bind.mpr (leads_sha256_of (hI w₂ hw₂) ?_)
  intro _ _
  split
  · exact hI w₂ hw₂
  -- from here on the swap may begin
  set s' := { s with phase := .prepared, write_probe := some PROBE_PENDING } with hs'
  have hsaved : ∀ {w'}, Saving op s' w₂ w' → w' (.state op) = some (.json s') →
      Ready info op b w s' w' := by
    intro w' hsave hstate
    refine ⟨hw₂.agree.trans (hsave.1.mono (saving_subset_work op)), ?_, hstate, ?_, rfl, rfl, ?_, ?_⟩
    · rw [hsave.1 _ (by simp)]
      exact hw₂.dir
    · exact h.candidate_info.trans hinfo
    · intro m c hc
      rw [hsave.1 _ (by simp), h₂ _ (by simp), h.raw m c hc]
    · rw [hsave.1 _ (by simp), hcopy]
  refine Prog.leads_bind.mpr (leads_save_state ?_ ?_)
  · intro w' hsave
    rcases hsave.2 with hold | hstate
    · refine hI w' ⟨hw₂.agree.trans (hsave.1.mono (saving_subset_work op)), ?_, ?_⟩
      · rw [hsave.1 _ (by simp)]
        exact hw₂.dir
      · rw [hold]
        exact hw₂.record
    · exact hready _ w' (hsaved hsave hstate)
  · intro w' hsave hstate
    exact leads_pure (hsaved hsave hstate)

/-- Where the swap begins. -/
theorem Ready.installing {s : State} {w' : Volume} (h : Ready info op b w s w')
    (hreg : ∀ m, FileOrNone (w (.live m))) (hdigest : info.sha256 = sha256 b) :
    Installing sha256 op b w w' := by
  have hsame : ∀ m, w' (.live m) = w (.live m) := fun m => h.agree _ (live_notMem_work op m)
  refine ⟨h.agree.mono Set.subset_union_left, h.dir, h.raw, .inl (hsame .main), ?_, s, h.state, ?_,
    .inl h.phase⟩
  · intro m
    rw [hsame m]
    exact hreg m
  · rw [h.info_eq, hdigest]

/-- A step of the swap touches neither the archive nor anything outside. -/
theorem Installing.step {w₁ w₂ : Volume} {T : Set Path} (h : Installing sha256 op b w w₁)
    (hagree : Agree T w₁ w₂) (hT : T ⊆ work op ∪ Set.range .live) (hdir : Path.recovery op ∉ T)
    (hraw : ∀ m, Path.raw op m ∉ T)
    (hmain : w₂ (.live .main) = w₁ (.live .main) ∨ w₂ (.live .main) = some (.file b))
    (hregular : ∀ m, FileOrNone (w₂ (.live m)))
    (hrecord : ∃ s s', w₁ (.state op) = some (.json s) ∧ w₂ (.state op) = some (.json s')
      ∧ s'.candidate_info = s.candidate_info
      ∧ (s'.phase = s.phase ∨ (s'.phase = .activated ∧ w₂ (.live .main) = some (.file b)))) :
    Installing sha256 op b w w₂ := by
  refine ⟨h.agree.trans (hagree.mono hT), ?_, ?_, ?_, hregular, ?_⟩
  · rw [hagree _ hdir]
    exact h.dir
  · intro m c hc
    rw [hagree _ (hraw m), h.raw m c hc]
  · rcases hmain with hsame | hnew
    · rw [hsame]
      exact h.main
    · exact .inr hnew
  · obtain ⟨s, s', hs, hs', hinfo, hphase⟩ := hrecord
    obtain ⟨t, ht, hdigest, hbefore⟩ := h.record
    rw [hs] at ht
    obtain rfl := Node.json.inj (Option.some.inj ht)
    refine ⟨s', hs', by rw [hinfo, hdigest], ?_⟩
    rcases hphase with hsame | hswapped
    · rw [hsame]
      refine hbefore.imp id fun hactivated => ⟨hactivated.1, ?_⟩
      rcases hmain with hkept | hnew
      · rw [hkept, hactivated.2]
      · exact hnew
    · exact .inr hswapped

/-- A step that leaves the record alone. -/
theorem Installing.same_record {w₁ w₂ : Volume} (h : Installing sha256 op b w w₁)
    (hsame : w₂ (.state op) = w₁ (.state op)) :
    ∃ s s', w₁ (.state op) = some (.json s) ∧ w₂ (.state op) = some (.json s')
      ∧ s'.candidate_info = s.candidate_info
      ∧ (s'.phase = s.phase ∨ (s'.phase = .activated ∧ w₂ (.live .main) = some (.file b))) := by
  obtain ⟨s, hs, -⟩ := h.record
  exact ⟨s, s, hs, hsame.trans hs, rfl, .inl rfl⟩

/-- A sidecar moved out of the way. -/
theorem Installing.displaced {w₁ w₂ : Volume} {m : Member} (hm : m ≠ .main)
    (h : Installing sha256 op b w w₁) (hagree : Agree {.live m, .displaced op m} w₁ w₂)
    (hnone : w₂ (.live m) = none) : Installing sha256 op b w w₂ := by
  refine h.step hagree ?_ (by simp) (by simp) (.inl (hagree _ ?_)) ?_
    (h.same_record (hagree _ (by simp)))
  · rintro p (rfl | rfl)
    · exact .inr ⟨m, rfl⟩
    · exact .inl (.inl ⟨rfl, rfl⟩)
  · simp [Ne.symm hm]
  · intro m'
    by_cases heq : m' = m
    · rw [heq]
      exact .inl hnone
    · rw [hagree _ (by simp [heq])]
      exact h.regular m'

/-- The swap is recorded. -/
theorem Installing.saved {s : State} {w₁ w₂ : Volume} (h : Installing sha256 op b w w₁)
    (hstate : w₁ (.state op) = some (.json s)) (hmain : w₁ (.live .main) = some (.file b))
    (hsave : Saving op { s with phase := .activated } w₁ w₂) : Installing sha256 op b w w₂ := by
  have hlive : ∀ m, w₂ (.live m) = w₁ (.live m) := fun m => hsave.1 _ (by simp)
  refine h.step hsave.1 ((saving_subset_work op).trans Set.subset_union_left) (by simp) (by simp)
    (.inl (hlive .main)) ?_ ?_
  · intro m
    rw [hlive m]
    exact h.regular m
  · rcases hsave.2 with hold | hnew
    · exact h.same_record hold
    · exact ⟨s, _, hstate, hnew, rfl, .inr ⟨rfl, (hlive .main).trans hmain⟩⟩

/-- What a probe without frames may leave is regular if the family was. -/
theorem Left.regular {w₁ w₂ : Volume} (hleft : Left w₁ w₂)
    (hmain : w₂ (.live .main) = w₁ (.live .main)) (hreg : ∀ m, FileOrNone (w₁ (.live m))) :
    ∀ m, FileOrNone (w₂ (.live m)) := by
  intro m
  rcases hleft with ⟨hwal, hshm⟩ | ⟨hwal, hshm⟩
  · cases m with
    | main => rw [hmain]; exact hreg .main
    | wal => rw [hwal]; exact hreg .wal
    | shm => rw [hshm]; exact hreg .shm
  · cases m with
    | main => rw [hmain]; exact hreg .main
    | wal => exact hwal.imp id fun hempty => ⟨[], hempty⟩
    | shm => exact hshm

/-- The result of the probe, recorded. -/
theorem Installing.recorded {s : State} {w₁ w₂ : Volume} (h : Installing sha256 op b w w₁)
    (hstate : w₁ (.state op) = some (.json s)) (hrec : Recording op s w₁ w₂) :
    Installing sha256 op b w w₂ := by
  have hmain : w₂ (.live .main) = w₁ (.live .main) := hrec.agree _ (by simp)
  refine h.step hrec.agree ?_ (by simp) (by simp) (.inl hmain) (hrec.left.regular hmain h.regular) ?_
  · rintro p (rfl | rfl | rfl | rfl)
    · exact .inl (.inl ⟨rfl, rfl⟩)
    · exact .inl (.inl ⟨rfl, rfl⟩)
    · exact .inr ⟨_, rfl⟩
    · exact .inr ⟨_, rfl⟩
  · rcases hrec.record with hkept | ⟨text, hnew⟩
    · exact h.same_record hkept
    · exact ⟨s, _, hstate, hnew, rfl, .inl rfl⟩

/-- The swap. Its state has no result of a write probe. -/
theorem leads_install_candidate {I : Volume → Prop} {R : State → Volume → Prop} {s : State}
    {w₁ : Volume} (hready : Ready info op b w s w₁) (hreg : ∀ m, FileOrNone (w (.live m)))
    (hdigest : info.sha256 = sha256 b)
    (hI : ∀ w', Installing sha256 op b w w' → Unproved op w w' → I w')
    (hR : ∀ t w', Installing sha256 op b w w' → Unproved op w w' → Probable sha256 op t w' → R t w') :
    (install_candidate op s).Leads exec I R w₁ := by
  have hpending : ∀ {t : State} {w'}, w' (.state op) = some (.json t) →
      t.write_probe = some PROBE_PENDING → Unproved op w w' := by
    intro t w' hstate hprobe
    refine unproved_of_ne hstate ?_
    rw [hprobe]
    decide
  have h₁ := hready.installing hreg hdigest
  -- the sidecars, then the database
  refine Prog.leads_bind.mpr ?_
  refine Prog.leads_bind.mpr (leads_displace (hI w₁ h₁ (hpending hready.state hready.pending))
    (h₁.regular .wal) ?_)
  intro w₂ hagree₂ hwal₂
  have h₂ := h₁.displaced (by decide) hagree₂ hwal₂
  have hstate₂ : w₂ (.state op) = some (.json s) := (hagree₂ _ (by simp)).trans hready.state
  refine Prog.leads_bind.mpr (leads_displace (hI w₂ h₂ (hpending hstate₂ hready.pending))
    (h₂.regular .shm) ?_)
  intro w₃ hagree₃ hshm₃
  have h₃ := h₂.displaced (by decide) hagree₃ hshm₃
  have hstate₃ : w₃ (.state op) = some (.json s) := (hagree₃ _ (by simp)).trans hstate₂
  refine leads_pure ?_
  have hincoming : w₃ (.incoming op) = some (.file b) := by
    rw [hagree₃ _ (by simp), hagree₂ _ (by simp), hready.incoming]
  refine Prog.leads_bind.mpr (leads_replace (hI w₃ h₃ (hpending hstate₃ hready.pending)) ?_)
  intro node hnode
  rw [hincoming] at hnode
  obtain rfl := Option.some.inj hnode
  set w₄ := Function.update (Function.update w₃ (.incoming op) none) (.live .main) (some (.file b))
    with hw₄
  have hagree₄ : Agree {.live .main, .incoming op} w₃ w₄ :=
    (agree_update (by simp) w₃ _).trans (agree_update (by simp) _ _)
  have hmain₄ : w₄ (.live .main) = some (.file b) := Function.update_self _ _ _
  have hstate₄ : w₄ (.state op) = some (.json s) := (hagree₄ _ (by simp)).trans hstate₃
  have h₄ : Installing sha256 op b w w₄ := by
    refine h₃.step hagree₄ ?_ (by simp) (by simp) (.inr hmain₄) ?_
      (h₃.same_record (hagree₄ _ (by simp)))
    · rintro p (rfl | rfl)
      · exact .inr ⟨_, rfl⟩
      · exact .inl (.inr (.inl rfl))
    · intro m
      by_cases hm : m = .main
      · rw [hm, hmain₄]
        exact .inr ⟨b, rfl⟩
      · rw [hagree₄ _ (by simp [hm])]
        exact h₃.regular m
  -- the record
  refine Prog.leads_bind.mpr (leads_save_state ?_ ?_)
  · intro w₅ hsave
    refine hI w₅ (h₄.saved hstate₄ hmain₄ hsave) ?_
    rcases hsave.2 with hold | hnew
    · exact hpending (hold.trans hstate₄) hready.pending
    · exact hpending hnew hready.pending
  intro w₅ hsave hstate₅
  refine leads_pure (hR _ w₅ (h₄.saved hstate₄ hmain₄ hsave) (hpending hstate₅ hready.pending)
    ⟨hstate₅, .inl rfl, ⟨b, ?_, ?_⟩, ?_⟩)
  · rw [hsave.1 _ (by simp), hmain₄]
  · exact hdigest.symm.trans (congrArg BackupInfo.sha256 hready.info_eq).symm
  · left
    rw [hsave.1 _ (by simp), hagree₄ _ (by simp), hagree₃ _ (by simp), hwal₂]

/-- The family is regular if its members are. -/
theorem regular_family (h : ∀ m ∈ [Member.main, .wal, .shm], (w (.live m)).isSome = true →
    is_regular (w (.live m)) = true) : ∀ m, FileOrNone (w (.live m)) := by
  intro m
  rcases hnode : w (.live m) with _ | node
  · exact .inl rfl
  · have hregular := h m (by cases m <;> simp) (by rw [hnode]; rfl)
    rw [hnode, is_regular.eq_def] at hregular
    split at hregular
    · next b hb => exact .inr ⟨b, hb⟩
    · cases hregular

/-- **What `activate` may have done** before its write probe, when it is stopped, raises or comes
to the probe. -/
theorem leads_activate_steps {apply : Bool} :
    (activate_steps sha256 candidate op expected apply).Leads exec
      (fun w' => Activation sha256 candidate expected op w w' ∧ Unproved op w w')
      (fun plan w' => Unproved op w w'
        ∧ plan.Fit sha256 op (Activation sha256 candidate expected op w) w') w := by
  have hsame : Activation sha256 candidate expected op w w ∧ Unproved op w w :=
    ⟨.untouched (Agree.refl _ w), .inl rfl⟩
  refine Prog.leads_bind.mpr (leads_refuse_root hsame ?_)
  refine Prog.leads_bind.mpr (leads_preflight hsame ?_)
  intro name info b hpassed
  refine Prog.leads_bind.mpr (leads_recovery_dir hsame ?_)
  intro _ _
  refine Prog.leads_bind.mpr (leads_path_exists hsame ?_)
  split
  · exact hsame
  refine Prog.leads_bind.mpr (leads_present hsame ?_)
  refine Prog.leads_bind.mpr (leads_all_regular hsame ?_)
  split
  · exact hsame
  next hregular =>
  refine Prog.leads_bind.mpr (leads_total_size hsame ?_)
  intro old_size
  refine Prog.leads_bind.mpr (leads_look hsame ?_)
  refine Prog.leads_bind.mpr (leads_disk_free hsame ?_)
  intro free
  split
  · exact hsame
  split
  · exact leads_pure hsame.symm
  -- from here on the volume changes: the recovery directory first
  have hreg : ∀ m, FileOrNone (w (.live m)) := regular_family (by simpa using hregular)
  have hstart : ∀ w', Agree {.recovery_root} w w' →
      Activation sha256 candidate expected op w w' ∧ Unproved op w w' :=
    fun w' h => ⟨.untouched h, .inl (h _ (by simp))⟩
  have hcopying : w (.recovery op) = none → ∀ w', Archiving op w w' →
      Activation sha256 candidate expected op w w' ∧ Unproved op w w' := by
    intro hnew w' h
    exact ⟨.archiving hnew h, h.unproved⟩
  refine Prog.leads_bind.mpr (Prog.leads_mono (leads_archive_old hstart hcopying ⟨rfl, rfl⟩) ?_)
  rintro s₁ w₁ ⟨hnew, h₁⟩
  -- the candidate is in place under its other name, and the phase is still `prepared`
  have hready : ∀ s' w', Ready info op b w s' w' →
      Activation sha256 candidate expected op w w' ∧ Unproved op w w' := by
    intro s' w' h
    refine ⟨.swapping hnew hpassed (h.installing hreg hpassed.digest), unproved_of_ne h.state ?_⟩
    rw [h.pending]
    decide
  refine Prog.leads_bind.mpr (Prog.leads_mono (leads_bring_in h₁ hpassed.staged rfl
    (hcopying hnew) hready) ?_)
  intro s₂ w₂ h₂
  refine Prog.leads_bind.mpr (leads_install_candidate h₂ hreg hpassed.digest ?_ ?_)
  · exact fun w' h hun => ⟨.swapping hnew hpassed h, hun⟩
  · intro t w' h hun hprobable
    exact leads_pure ⟨hun, hprobable, fun w'' hrec => .swapping hnew hpassed (h.recorded hprobable.state hrec)⟩

end Activate

end OpenChronicle.OfflineRestore
