/-
An interrupted rollback can be finished, and a changed volume is left alone.

`Layout` says where the files are between the record of `rolling_back` and that of `rolled_back`: the
forward archive is whole, the database is the forward one or the old one, and each sidecar is in place
or moved. Every attempt keeps it, wherever it stops, and every attempt finds it in order and goes on.

The layout is stated with the volume `w₁` that the first attempt found, and not with what the record
says, since the record has digests only. That the two agree is what the first attempt establishes, and a
repeated one can rely on it as nothing in between writes to the archive. So however many attempts were
interrupted, the last one works on the files of the first.

Two kinds of lemma are needed of the swap. Where it may stop is known from the file about `rollback`,
and is kept as it is there. That it comes to its end is new, and is proved for steps that do not fail,
part by part (`total_returns` joins the two). The last part of the file is about volumes that somebody
else has changed. The checks notice every such change, and the attempt refuses before it has touched
anything, with the one exception that a directory in the place of a sidecar cannot be read at all.
-/
import OpenChronicle.OfflineRestore.Resume

set_option autoImplicit false

namespace OpenChronicle.OfflineRestore

open Program

variable {α : Type}

/-! ## The layout of an interrupted rollback -/

/-- The volume between the two records of a rollback whose first attempt found `w₁`. -/
structure Layout (sha256 : Bytes → Digest) (op : String) (s : State) (d : OldState) (old : Bytes)
    (files : List (Member × Digest)) (w₁ w : Volume) : Prop where
  own : Own op s w
  state : w (.state op) = some (.json s)
  phase : s.phase = .rolling_back
  assessed : s.old_state = some d
  available : d.rollback_available = true
  old_copy : w (.old_consistent op) = some (.file old)
  digest : sha256 old = d.sha256
  dir : w (.forward_state op) = some .dir
  recorded : s.forward_files = some files
  regular : ∀ m, FileOrNone (w₁ (.live m))
  forward_main : ∃ b, w₁ (.live .main) = some (.file b)
  archived : Recorded sha256 (.forward op) w₁ (members w₁) files w
  main : w (.live .main) = w₁ (.live .main) ∨ w (.live .main) = some (.file old)
  side : ∀ m, m ≠ .main →
    (w (.live m) = w₁ (.live m) ∧ w (.forward_displaced op m) = none)
      ∨ (w (.live m) = none ∧ w (.forward_displaced op m) = w₁ (.live m))

/-- The record has each member once. -/
theorem lookup_of_mem_nodup {files : List (Member × Digest)} (hnodup : (files.map Prod.fst).Nodup)
    {m : Member} {digest : Digest} (hin : (m, digest) ∈ files) : files.lookup m = some digest := by
  induction files with
  | nil => cases hin
  | cons file rest ih =>
      obtain ⟨m', digest'⟩ := file
      obtain ⟨hnot, hnodup⟩ := List.nodup_cons.mp hnodup
      rcases List.mem_cons.mp hin with heq | hrest
      · obtain ⟨rfl, rfl⟩ := Prod.mk.inj heq
        simp
      · have hne : m ≠ m' := by
          rintro rfl
          exact hnot (List.mem_map.mpr ⟨_, hrest, rfl⟩)
        rw [List.lookup_cons, beq_eq_false_iff_ne.mpr hne]
        exact ih hnodup hrest

section Layout

variable {sha256 : Bytes → Digest} {op : String} {s : State} {d : OldState}
  {old : Bytes} {files : List (Member × Digest)} {w₁ w w' : Volume}

/-- What the record says of a member of the forward family. -/
theorem Layout.file (h : Layout sha256 op s d old files w₁ w) {m : Member} {c : Bytes}
    (hc : w₁ (.live m) = some (.file c)) :
    w (.forward op m) = some (.file c) ∧ files.lookup m = some (sha256 c) := by
  obtain ⟨b, hb, hcopy, hlookup⟩ := h.archived.2 m (mem_members hc)
  obtain rfl := file_unique hc hb
  exact ⟨hcopy, hlookup⟩

/-- A sidecar that was not there is not in the record, and must not be there now. -/
theorem Layout.unrecorded (h : Layout sha256 op s d old files w₁ w) {m : Member}
    (hnone : w₁ (.live m) = none) : files.lookup m = none := by
  rcases hlookup : files.lookup m with _ | digest
  · rfl
  · obtain ⟨l₁, l₂, hsplit, -⟩ := List.lookup_eq_some_iff.mp hlookup
    have hin : m ∈ members w₁ := by
      rw [← h.archived.1, hsplit]
      simp
    rw [members, List.mem_filter, hnone] at hin
    cases hin.2

/-- **A repeated attempt passes its checks.** -/
theorem Layout.checked (h : Layout sha256 op s d old files w₁ w) :
    Checked sha256 op s d.sha256 files w := by
  obtain ⟨b, hb⟩ := h.forward_main
  refine ⟨h.dir, h.recorded, ?_, ?_, ?_, ?_⟩
  · rintro rfl
    have hnone := (h.file hb).2
    cases hnone
  · intro m digest hin
    have hnodup : (files.map Prod.fst).Nodup := by
      rw [h.archived.1]
      exact nodup_members w₁
    have hm : m ∈ members w₁ := by
      rw [← h.archived.1]
      exact List.mem_map.mpr ⟨_, hin, rfl⟩
    obtain ⟨c, -, hcopy, hlookup⟩ := h.archived.2 m hm
    rw [lookup_of_mem_nodup hnodup hin] at hlookup
    exact ⟨c, hcopy, (Option.some.inj hlookup).symm⟩
  · rcases h.main with hsame | hold
    · exact ⟨b, hsame.trans hb, .inl (h.file hb).2⟩
    · exact ⟨old, hold, .inr h.digest⟩
  · intro m hm
    unfold SideChecked
    rcases h.regular m with hnone | ⟨c, hc⟩
    · rw [h.unrecorded hnone]
      rcases h.side m hm with ⟨hplace, hunmoved⟩ | ⟨hgone, hmoved⟩
      · exact ⟨hplace.trans hnone, hunmoved⟩
      · exact ⟨hgone, hmoved.trans hnone⟩
    · rw [(h.file hc).2]
      rcases h.side m hm with ⟨hplace, hunmoved⟩ | ⟨hgone, hmoved⟩
      · exact .inl ⟨c, hplace.trans hc, rfl, hunmoved⟩
      · exact .inr ⟨hgone, c, hmoved.trans hc, rfl⟩

/-- A repeated attempt comes to its checks. -/
theorem Layout.resumable (h : Layout sha256 op s d old files w₁ w) : Resumable sha256 op s d w := by
  obtain ⟨c, hc, -⟩ := h.checked.main
  exact ⟨h.own, ⟨c, hc⟩, h.assessed, h.available, old, h.old_copy, h.digest⟩

/-- The swap keeps the layout until it is recorded. -/
theorem Layout.swapping (h : Layout sha256 op s d old files w₁ w) (hswap : Swapping op old w w') :
    Layout sha256 op s d old files w₁ w' := by
  have hsame : ∀ p, p ∉ exchanged op → w' p = w p := hswap.agree
  refine ⟨⟨h.own.id, ?_, h.own.db, h.own.operation⟩, ?_, h.phase, h.assessed, h.available, ?_, h.digest,
    ?_, h.recorded, h.regular, h.forward_main, ⟨h.archived.1, ?_⟩, ?_, ?_⟩
  · rw [hsame _ (by simp [exchanged])]
    exact h.own.root
  · rw [hsame _ (by simp [exchanged]), h.state]
  · rw [hsame _ (by simp [exchanged]), h.old_copy]
  · rw [hsame _ (by simp [exchanged]), h.dir]
  · intro m hm
    obtain ⟨c, hc, hcopy, hlookup⟩ := h.archived.2 m hm
    refine ⟨c, hc, ?_, hlookup⟩
    rw [hsame _ (by simp [exchanged]), hcopy]
  · rcases hswap.main with hkept | hold
    · rw [hkept]
      exact h.main
    · exact .inr hold
  · intro m hm
    rcases hswap.side m hm with ⟨hlive, hdisplaced⟩ | ⟨hgone, hfree, hmoved⟩
    · rw [hlive, hdisplaced]
      exact h.side m hm
    · right
      refine ⟨hgone, ?_⟩
      rcases h.side m hm with ⟨hplace, -⟩ | ⟨hnone, hdisplaced⟩
      · exact hmoved.trans hplace
      · rw [hmoved, hnone, ← hdisplaced, hfree]

/-- The record of a first attempt, as far as it has come. -/
theorem Begun.layout {s₀ : State} (hbegun : Begun sha256 op s₀ w₁ s w) (htree : Tree w₁)
    (hown : Own op s₀ w₁) (hmain : ∃ b, w₁ (.live .main) = some (.file b))
    (hassessed : s₀.old_state = some d) (havailable : d.rollback_available = true)
    (hold : w₁ (.old_consistent op) = some (.file old)) (hdigest : sha256 old = d.sha256) :
    ∃ files, Layout sha256 op s d old files w₁ w := by
  obtain ⟨files, rfl, harchived⟩ := hbegun.recorded
  have hlive : ∀ m, w (.live m) = w₁ (.live m) := fun m => hbegun.agree _ (by simp [forwards])
  have hmissing : found (w₁ (.forward_state op)) = false := by rw [hbegun.new]; rfl
  refine ⟨files, ⟨hown.id, ?_, hown.db, hown.operation⟩, hbegun.state, rfl, hassessed, havailable, ?_,
    hdigest, hbegun.dir, rfl, hbegun.regular, hmain, harchived, .inl (hlive .main), ?_⟩
  · rw [hbegun.agree _ (by simp [forwards])]
    exact hown.root
  · rw [hbegun.agree _ (by simp [forwards]), hold]
  · intro m _
    refine .inl ⟨hlive m, ?_⟩
    rw [hbegun.agree _ (by simp [forwards])]
    exact (htree.forward op hmissing m).2

end Layout

/-! ## Runs of attempts -/

/-- The record of the operation is in this phase. -/
def in_phase (op : String) (phase : Phase) (w : Volume) : Prop :=
  ∃ s, w (.state op) = some (.json s) ∧ s.phase = phase

/-- Attempts that were interrupted before `rolled_back` was recorded, any number of them. -/
inductive Interrupted (sha256 : Bytes → Digest) (op : String) (w : Volume) : Volume → Prop
  | none : Interrupted sha256 op w w
  | again {w' : Volume} (h : Interrupted sha256 op w w') (apply : Bool) (cs : List Choice)
      (hphase : in_phase op .rolling_back (after sha256 (.rollback op apply) cs w')) :
      Interrupted sha256 op w (after sha256 (.rollback op apply) cs w')

section Attempts

variable {sha256 : Bytes → Digest} {op : String} {s : State} {w₁ w w' : Volume}

/-- The first attempt, interrupted after its record. -/
theorem layout_of_first (htree : Tree w₁) (hs : w₁ (.state op) = some (.json s))
    (hfirst : s.phase = .prepared ∨ s.phase = .activated) (h : RollingBack sha256 op w₁ w)
    (hphase : in_phase op .rolling_back w) :
    ∃ t d old files, w₁ (.old_consistent op) = some (.file old) ∧ Layout sha256 op t d old files w₁ w := by
  obtain ⟨t, ht, hrolling⟩ := hphase
  have hsame : ∀ {s'}, w₁ (.state op) = some (.json s') → s' = s := by
    intro s' hs'
    rw [hs] at hs'
    exact (Node.json.inj (Option.some.inj hs')).symm
  -- nothing was recorded
  have hunrecorded : w (.state op) ≠ w₁ (.state op) := by
    intro hkept
    rw [ht, hs] at hkept
    obtain rfl := Node.json.inj (Option.some.inj hkept)
    rcases hfirst with h | h <;> rw [hrolling] at h <;> cases h
  cases h with
  | untouched h => exact absurd (by rw [h]) hunrecorded
  | abandoning hstate hphase _ _ =>
      obtain rfl := hsame hstate
      rcases hfirst with h | h <;> rw [hphase] at h <;> cases h
  | archiving _ _ _ hagree _ => exact absurd (hagree _ (by simp [forwards])) hunrecorded
  | @installing s' s₁ d old wa hstate hown hmain hassessed havailable hold hdigest hopens h =>
      obtain rfl := hsame hstate
      cases hopens with
      | first _ hbegun =>
          obtain ⟨files, hlayout⟩ :=
            hbegun.layout htree hown hmain hassessed havailable hold hdigest
          rcases h with h | h
          · exact ⟨s₁, d, old, files, hold, hlayout.swapping h⟩
          · obtain ⟨probed, hrecord⟩ := h.state
            rw [ht] at hrecord
            obtain rfl := Node.json.inj (Option.some.inj hrecord)
            cases hrolling
      | again hphase _ => rcases hfirst with h | h <;> rw [hphase] at h <;> cases h

/-- A repeated attempt that was interrupted too. -/
theorem Layout.again {d : OldState} {old : Bytes} {files : List (Member × Digest)}
    (hlayout : Layout sha256 op s d old files w₁ w) (h : RollingBack sha256 op w w')
    (hphase : in_phase op .rolling_back w') : Layout sha256 op s d old files w₁ w' := by
  obtain ⟨t, ht, hrolling⟩ := hphase
  have hsame : ∀ {s'}, w (.state op) = some (.json s') → s' = s := by
    intro s' hs'
    rw [hlayout.state] at hs'
    exact (Node.json.inj (Option.some.inj hs')).symm
  cases h with
  | untouched h =>
      rw [h]
      exact hlayout
  | abandoning hstate hphase _ _ =>
      rw [hsame hstate, hlayout.phase] at hphase
      cases hphase
  | archiving hstate hphase _ _ _ =>
      rw [hsame hstate, hlayout.phase] at hphase
      rcases hphase with h | h <;> cases h
  | @installing s' s₁ d' old' wa hstate _ _ _ _ hold _ hopens h =>
      obtain rfl := hsame hstate
      obtain rfl := file_unique hlayout.old_copy hold
      cases hopens with
      | first hphase _ =>
          rw [hlayout.phase] at hphase
          rcases hphase with h | h <;> cases h
      | again _ _ =>
          rcases h with h | h
          · exact hlayout.swapping h
          · obtain ⟨probed, hrecord⟩ := h.state
            rw [ht] at hrecord
            obtain rfl := Node.json.inj (Option.some.inj hrecord)
            cases hrolling

end Attempts

/-! ## The swap, when nothing fails -/

section Swap

variable {good : Choice → Prop} (hgood : ∀ c, good c → c.fails = false) {w : Volume}
  {E : Fault → Volume → Prop}

/-- A part that does not raise ends as its specification says. -/
theorem total_returns {I : Volume → Prop} {p : Helper α} {R : α → Volume → Prop}
    (hok : p.Total exec good (fun _ _ => True) (fun _ _ => False) w) (hp : p.Leads exec I R w) :
    p.Total exec good R E w := by
  have hboth := Prog.total_and hok (Prog.total_of_leads (E := fun _ _ => True) hp fun _ _ _ => trivial)
  refine Prog.total_mono hboth (fun _ _ h => h.2) ?_
  rintro e w' ⟨hfalse, -⟩
  exact hfalse.elim

include hgood

theorem total_append_blocks {target : Path} {bs : List Bytes} {b : Bytes}
    (h : w target = some (.file b)) :
    (append_blocks target bs).Total exec good (fun _ _ => True) (fun _ _ => False) w := by
  induction bs generalizing w b with
  | nil => exact trivial
  | cons block rest ih =>
      refine Prog.total_bind (total_file_step hgood (fun _ => rfl) ?_)
      rw [h]
      exact ih (Function.update_self _ _ _)

theorem total_read {p : Path} {b : Bytes} {R : Bytes → Volume → Prop} (hfile : w p = some (.file b))
    (hR : R b w) : (act (.read p)).Total exec good R E w := by
  refine total_file_step hgood (fun _ => rfl) ?_
  rw [hfile]
  exact hR

theorem total_create {p : Path} {R : Unit → Volume → Prop} (hfree : w p = none)
    (hR : R () (Function.update w p (some (.file [])))) : (act (.create p)).Total exec good R E w := by
  refine total_file_step hgood (fun _ => rfl) ?_
  rw [hfree]
  exact hR

/-- A copy to where nothing is, of a file that is there, comes to its end. -/
theorem total_copy_durable {source target : Path} {b : Bytes} (hsource : w source = some (.file b))
    (htarget : w target = none) :
    (copy_durable source target).Total exec good (fun _ _ => True) (fun _ _ => False) w := by
  refine Prog.total_bind (total_regular hgood (fun _ _ => ?_) ?_)
  swap
  · intro hother
    rw [hsource] at hother
    cases hother
  refine Prog.total_bind (total_read hgood hsource ?_)
  refine Prog.total_bind (total_create hgood htarget ?_)
  exact total_append_blocks hgood (Function.update_self _ _ _)

theorem total_unlink {p : Path} {R : Unit → Volume → Prop} (hR : R () (Function.update w p none)) :
    (act (.unlink p true)).Total exec good R E w := by
  refine total_file_step hgood (fun _ => rfl) ?_
  split
  · exact hR
  · next hnone =>
      have hsame : Function.update w p none = w := by
        rw [← hnone]
        exact Function.update_eq_self p w
      rw [hsame] at hR
      exact hR

theorem total_replace {source target : Path} {n : Node} {R : Unit → Volume → Prop}
    (hsource : w source = some n)
    (hR : R () (Function.update (Function.update w source none) target (some n))) :
    (act (.replace source target)).Total exec good R E w := by
  refine total_file_step hgood (fun _ => rfl) ?_
  rw [hsource]
  exact hR

theorem total_save_state {op : String} {s : State} :
    (save_state op s).Total exec good (fun _ _ => True) (fun _ _ => False) w := by
  refine Prog.wp_tryFinally (Prog.wp_mono (Q := Prog.Outcome (fun _ _ => True) fun _ _ => False)
    ?_ (fun _ => id) ?_)
  · refine Prog.total_bind (total_file_step hgood (fun _ => rfl) ?_)
    exact total_replace hgood (Function.update_self _ _ _) trivial
  · rintro (e | u) w' h
    · exact h.elim
    · refine Prog.wp_mono (total_unlink (R := fun _ _ => True) (E := fun _ _ => False) hgood trivial)
        (fun _ => id) ?_
      rintro (e | u) w'' h
      · exact h.elim
      · exact trivial

/-- A sidecar is moved unless something stands where it is to go. -/
theorem total_displace_forward {op : String} {m : Member}
    (hside : w (.live m) ≠ none → w (.forward_displaced op m) = none) :
    (displace_forward op m).Total exec good (fun _ _ => True) (fun _ _ => False) w := by
  refine Prog.total_bind (total_path_exists hgood ?_)
  split
  swap
  · exact trivial
  next hthere =>
  rcases hnode : w (.live m) with _ | n
  · rw [hnode] at hthere
    cases hthere
  refine Prog.total_bind (total_path_exists hgood ?_)
  rw [hside (by rw [hnode]; nofun)]
  exact total_replace hgood hnode trivial

end Swap

/-- The database is the old one and the forward archive is whole. -/
structure RolledBack (op : String) (old : Bytes) (w₁ w : Volume) : Prop where
  phase : in_phase op .rolled_back w
  main : w (.live .main) = some (.file old)
  old_copy : w (.old_consistent op) = some (.file old)
  forward : ∀ m c, w₁ (.live m) = some (.file c) → w (.forward op m) = some (.file c)

section Finish

variable {good : Choice → Prop} {sha256 : Bytes → Digest} {op : String} {s : State} {d : OldState}
  {old : Bytes} {files : List (Member × Digest)} {w₁ w : Volume}

/-- What is done after the record leaves the outcome alone. -/
theorem RolledBack.of_agree (h : RolledBack op old w₁ w) {T : Set Path} {w' : Volume}
    (hagree : Agree T w w') (hmain : Path.live .main ∉ T) (hold : Path.old_consistent op ∉ T)
    (hforward : ∀ m, Path.forward op m ∉ T) (hphase : in_phase op .rolled_back w') :
    RolledBack op old w₁ w' := by
  refine ⟨hphase, ?_, ?_, ?_⟩
  · rw [hagree _ hmain, h.main]
  · rw [hagree _ hold, h.old_copy]
  · intro m c hc
    rw [hagree _ (hforward m), h.forward m c hc]

/-- Once the swap is recorded, the record only gains the result of the probe. -/
theorem RolledBack.total_clean_up (h : RolledBack op old w₁ w) {digest : Digest}
    (hrecord : w (.state op) = some (.json { s with phase := .rolled_back }))
    (hwal : w (.live .wal) = none) :
    (remove_incoming sha256 op digest >>= fun cleanup =>
        pure ({ s with phase := .rolled_back }, cleanup)).Total exec good
      (fun x w' => (finish op (.probe x.1 "then start the service." fun s => .rolled_back s x.2)).Total
        exec good (fun _ => RolledBack op old w₁) (fun _ => RolledBack op old w₁) w')
      (fun _ => RolledBack op old w₁) w := by
  refine Prog.total_of_leads (I := RolledBack op old w₁) (Prog.leads_bind.mpr
    (leads_part (touches_remove_incoming op _) (Prog.leads_trivial _ _) ?_ ?_)) (fun _ _ => id)
  · exact fun w' h' => h.of_agree h' (by simp) (by simp) (by simp) ⟨_, (h' _ (by simp)).trans hrecord, rfl⟩
  intro cleanup w₂ h₂ _
  have hquiet : has_frames (w₂ (.live .wal)) = false := by
    rw [h₂ _ (by simp), hwal]
    rfl
  have hprobed : ∀ w₃, Recording op { s with phase := .rolled_back } w₂ w₃ → RolledBack op old w₁ w₃ := by
    intro w₃ hrec
    have hagree : Agree ({.incoming op} ∪ {.state op, .state_temp op, .live .wal, .live .shm}) w w₃ :=
      (h₂.mono Set.subset_union_left).trans (hrec.agree.mono Set.subset_union_right)
    refine h.of_agree hagree (by simp) (by simp) (by simp) ?_
    rcases hrec.record with hkept | ⟨text, hnew⟩
    · exact ⟨_, (hkept.trans (h₂ _ (by simp))).trans hrecord, rfl⟩
    · exact ⟨_, hnew, rfl⟩
  refine leads_pure (Prog.total_of_leads (I := RolledBack op old w₁) (Prog.leads_bind.mpr
    (leads_require_writable hquiet hprobed ?_)) fun _ _ => id)
  exact fun text w₃ hrec => leads_pure (hprobed w₃ hrec)

/-- **The swap of a repeated attempt is recorded.** At that point there is no sidecar; what the
probe then does leaves the rest as it is. -/
theorem Layout.via_install_old (hgood : ∀ c, good c → c.fails = false)
    (h : Layout sha256 op s d old files w₁ w) :
    (install_old sha256 op s d.sha256).Via exec good
      (fun w' => RolledBack op old w₁ w' ∧ ∀ m, m ≠ .main → w' (.live m) = none)
      (fun x w' => (finish op (.probe x.1 "then start the service." fun s => .rolled_back s x.2)).Total
        exec good (fun _ => RolledBack op old w₁) (fun _ => RolledBack op old w₁) w')
      (fun _ => RolledBack op old w₁) w := by
  have hchecked := h.checked
  refine Prog.via_bind (total_unlink hgood ?_)
  set w₂ := Function.update w (.rollback op) none with hw₂
  have hagree₂ : Agree {.rollback op} w w₂ := agree_update (by simp) w none
  have hold₂ : w₂ (.old_consistent op) = some (.file old) := (hagree₂ _ (by simp)).trans h.old_copy
  -- the copy of the old database
  refine Prog.via_bind (total_returns (I := fun _ => True)
    (total_copy_durable hgood hold₂ (Function.update_self _ _ _))
    (leads_part (touches_copy_durable _ _) (copied _ _) (fun _ _ => trivial) ?_))
  rintro _ w₃ h₃ ⟨b, hb, hcopy⟩
  obtain rfl := file_unique hold₂ hb
  have hagree₃ : Agree {.rollback op} w w₃ := hagree₂.trans h₃
  refine Prog.via_bind (total_sha256_of_file hgood hcopy ?_)
  rw [if_neg (not_not.mpr h.digest)]
  -- the sidecars
  have hunmoved : ∀ m, m ≠ .main → w (.live m) ≠ none → w (.forward_displaced op m) = none := by
    intro m hm hthere
    rcases h.side m hm with ⟨-, hnone⟩ | ⟨hgone, -⟩
    · exact hnone
    · exact absurd hgone hthere
  have hregular := fun m hm => (hchecked.side m hm).regular
  have hw₃ : Swapping op old w w₃ := (Swapping.start op old w).aside hagree₃ (by simp)
  refine Prog.via_bind (Prog.total_bind (total_returns (I := fun _ => True)
    (total_displace_forward hgood ?_) (leads_move (by decide) hw₃ (fun _ _ => trivial)
      (hregular .wal (by decide)).1 (hregular .wal (by decide)).2 (hagree₃ _ (by simp))
      (hagree₃ _ (by simp)) ?_)))
  · rw [hagree₃ _ (by simp), hagree₃ _ (by simp)]
    exact hunmoved .wal (by decide)
  intro w₄ hw₄ h₄ hwal₄
  have hshm₄ : w₄ (.live .shm) = w (.live .shm) := by rw [h₄ _ (by simp), hagree₃ _ (by simp)]
  have hdisplaced₄ : w₄ (.forward_displaced op .shm) = w (.forward_displaced op .shm) := by
    rw [h₄ _ (by simp), hagree₃ _ (by simp)]
  refine Prog.total_bind (total_returns (I := fun _ => True) (total_displace_forward hgood ?_)
    (leads_move (by decide) hw₄ (fun _ _ => trivial) (hregular .shm (by decide)).1
      (hregular .shm (by decide)).2 hshm₄ hdisplaced₄ ?_))
  · rw [hshm₄, hdisplaced₄]
    exact hunmoved .shm (by decide)
  intro w₅ hw₅ h₅ hshm₅
  refine total_pure ?_
  have hrollback₅ : w₅ (.rollback op) = some (.file old) := by
    rw [h₅ _ (by simp), h₄ _ (by simp), hcopy]
  -- the database, and the record
  refine Prog.via_bind (total_replace hgood hrollback₅ ?_)
  set w₆ := Function.update (Function.update w₅ (.rollback op) none) (.live .main) (some (.file old))
    with hw₆
  have hagree₆ : Agree {.live .main, .rollback op} w₅ w₆ :=
    (agree_update (by simp) w₅ _).trans (agree_update (by simp) _ _)
  refine Prog.via_bind (total_returns (I := fun _ => True) (total_save_state hgood)
    (leads_save_state (fun _ _ => trivial) ?_))
  intro w₇ hsave hrecord
  have hdone : RolledBack op old w₁ w₇ := by
    refine ⟨⟨_, hrecord, rfl⟩, ?_, ?_, ?_⟩
    · rw [hsave.1 _ (by simp), hw₆, Function.update_self]
    · rw [hsave.1 _ (by simp), hagree₆ _ (by simp), hw₅.agree _ (by simp [exchanged]), h.old_copy]
    · intro m c hc
      rw [hsave.1 _ (by simp), hagree₆ _ (by simp), hw₅.agree _ (by simp [exchanged]), (h.file hc).1]
  have hwal₇ : w₇ (.live .wal) = none := by
    rw [hsave.1 _ (by simp), hagree₆ _ (by simp), h₅ _ (by simp), hwal₄]
  have hshm₇ : w₇ (.live .shm) = none := by
    rw [hsave.1 _ (by simp), hagree₆ _ (by simp), hshm₅]
  refine Prog.via_now ⟨hdone, ?_⟩ (hdone.total_clean_up hrecord hwal₇)
  intro m hm
  cases m with
  | main => exact absurd rfl hm
  | wal => exact hwal₇
  | shm => exact hshm₇

end Finish

/-! ## What is refused -/

/-- Somebody else has changed what a repeated attempt checks. -/
inductive Foreign (sha256 : Bytes → Digest) (op : String) (s : State) (w : Volume) : Prop
  /-- The database is neither the forward nor the old one. -/
  | main {files : List (Member × Digest)} {c : Bytes} (hfiles : s.forward_files = some files)
      (hc : w (.live .main) = some (.file c)) (hforward : files.lookup .main ≠ some (sha256 c))
      (hold : ∀ d, s.old_state = some d → sha256 c ≠ d.sha256)
  /-- A recorded sidecar is neither unchanged in place nor unchanged where it was moved. -/
  | changed {files : List (Member × Digest)} {m : Member} {digest : Digest}
      (hfiles : s.forward_files = some files) (hm : m ≠ .main)
      (hlookup : files.lookup m = some digest)
      (hplace : ¬∃ c, w (.live m) = some (.file c) ∧ sha256 c = digest)
      (hmoved : ¬∃ c, w (.forward_displaced op m) = some (.file c) ∧ sha256 c = digest)
  /-- A sidecar is in both places. -/
  | both {m : Member} (hm : m ≠ .main) (hplace : w (.live m) ≠ none)
      (hmoved : w (.forward_displaced op m) ≠ none)
  | unrecorded {files : List (Member × Digest)} {m : Member} (hfiles : s.forward_files = some files)
      (hm : m ≠ .main) (hlookup : files.lookup m = none) (hthere : w (.live m) ≠ none)
  | archived {files : List (Member × Digest)} {m : Member} {digest : Digest}
      (hfiles : s.forward_files = some files) (hin : (m, digest) ∈ files)
      (hbad : ¬∃ c, w (.forward op m) = some (.file c) ∧ sha256 c = digest)

section Refusal

variable {sha256 : Bytes → Digest} {op : String} {s : State} {w : Volume}

/-- The checks see every change that is listed. -/
theorem Foreign.not_passes (h : Foreign sha256 op s w) : ¬Passes sha256 op s w := by
  rintro ⟨d, recorded, hresumable, hchecked⟩
  have hsame : ∀ {files}, s.forward_files = some files → recorded = files := by
    intro files hfiles
    rw [hchecked.recorded] at hfiles
    exact Option.some.inj hfiles
  cases h with
  | main hfiles hc hforward hold =>
      obtain rfl := hsame hfiles
      obtain ⟨c', hc', hknown⟩ := hchecked.main
      obtain rfl := file_unique hc hc'
      exact hknown.elim hforward (hold d hresumable.assessed)
  | changed hfiles hm hlookup hplace hmoved =>
      obtain rfl := hsame hfiles
      have hside := hchecked.side _ hm
      rw [SideChecked, hlookup] at hside
      rcases hside with ⟨c, hc, hdigest, -⟩ | ⟨-, c, hc, hdigest⟩
      · exact hplace ⟨c, hc, hdigest⟩
      · exact hmoved ⟨c, hc, hdigest⟩
  | both hm hplace hmoved =>
      have hside := hchecked.side _ hm
      unfold SideChecked at hside
      split at hside
      · exact hplace hside.1
      · rcases hside with ⟨-, -, -, hnone⟩ | ⟨hnone, -⟩
        · exact hmoved hnone
        · exact hplace hnone
  | unrecorded hfiles hm hlookup hthere =>
      obtain rfl := hsame hfiles
      have hside := hchecked.side _ hm
      rw [SideChecked, hlookup] at hside
      exact hthere hside.1
  | archived hfiles hin hbad =>
      obtain rfl := hsame hfiles
      exact hbad (hchecked.archived _ _ hin)

/-- A blocked attempt has not passed. -/
theorem Blocked.not_passes (h : Blocked sha256 op s w) : ¬Passes sha256 op s w := by
  rintro ⟨d, recorded, -, hchecked⟩
  obtain ⟨d', -, files, hsealed, hunreadable⟩ := h
  have hsame : recorded = files := by
    have hfiles := hsealed.recorded
    rw [hchecked.recorded] at hfiles
    exact Option.some.inj hfiles
  obtain rfl := hsame
  rcases hunreadable with hwal | ⟨-, hshm⟩
  · exact hwal.not_checked (hchecked.side .wal (by decide))
  · exact hshm.not_checked (hchecked.side .shm (by decide))

end Refusal

/-- The attempt raises `RestoreError` and leaves the volume as it is, if no file step fails. -/
def Refuses (sha256 : Bytes → Digest) (op : String) (w : Volume) : Prop :=
  ∀ choices : ℕ → Choice, (∀ n, Smooth (choices n)) → ∃ n message,
    (rollback sha256 op true).run_until exec ((List.range n).map choices) w
      = (some (.error (.RestoreError message)), w)

theorem after_rollback_done {sha256 : Bytes → Digest} {op : String} {w : Volume}
    (hfree : w (.forward_state op) = none → ∀ m, w (.forward_displaced op m) = none)
    (apply : Bool) (cs : List Choice) :
    RollingBack sha256 op w (after sha256 (.rollback op apply) cs w) := by
  have hleads : (helper sha256 (.rollback op apply)).Leads exec (RollingBack sha256 op w)
      (fun _ => RollingBack sha256 op w) w := leads_helper (t := .rollback op apply) hfree
  exact Prog.leads_sound hleads cs

/-- **An interrupted rollback can be finished, and leaves alone what others have changed.**

However often it was interrupted, wherever that was, an attempt to which no step fails comes to
an end: it passes a point where `rolled_back` is recorded with the old database in place and no
sidecar beside it, and the forward family is archived, then and in the end.

Of a volume that others have changed it says so and changes nothing, unless it is blocked. -/
theorem interrupted_rollback_iff (sha256 : Bytes → Digest) (op : String) :
    (∀ w₁ w₂ w₃ s apply cs, Tree w₁ → w₁ (.state op) = some (.json s) →
      s.phase = .prepared ∨ s.phase = .activated → w₂ = after sha256 (.rollback op apply) cs w₁ →
      in_phase op .rolling_back w₂ → Interrupted sha256 op w₂ w₃ →
      ∀ choices : ℕ → Choice, (∀ n, Usual (choices n)) → ∃ old k n r w' w₄, k ≤ n
        ∧ w₁ (.old_consistent op) = some (.file old)
        ∧ ((rollback sha256 op true).run_until exec ((List.range k).map choices) w₃).2 = w'
        ∧ RolledBack op old w₁ w' ∧ w' (.live .wal) = none ∧ w' (.live .shm) = none
        ∧ (rollback sha256 op true).run_until exec ((List.range n).map choices) w₃ = (some r, w₄)
        ∧ RolledBack op old w₁ w₄)
    ∧ ∀ w s, w (.state op) = some (.json s) → s.phase = .rolling_back → Foreign sha256 op s w →
      (Refuses sha256 op w ↔ ¬Blocked sha256 op s w) := by
  refine ⟨?_, ?_⟩
  · rintro w₁ w₂ w₃ s apply cs htree hs hfirst rfl hphase hagain choices husual
    obtain ⟨t, d, old, files, hold, hlayout⟩ := layout_of_first htree hs hfirst
      (after_rollback_done (fun hnone m => (htree.forward op (by rw [hnone]; rfl) m).2) apply cs) hphase
    -- every attempt keeps the layout
    have hlayout₃ : Layout sha256 op t d old files w₁ w₃ := by
      induction hagain with
      | none => exact hlayout
      | again h apply cs hphase' ih =>
          refine ih.again (after_rollback_done (fun hnone => ?_) apply cs) hphase'
          rw [ih.dir] at hnone
          cases hnone
    have hpasses : Passes sha256 op t w₃ := ⟨d, files, hlayout₃.resumable, hlayout₃.checked⟩
    have hvia : (rollback sha256 op true).Via exec Usual
        (fun w' => RolledBack op old w₁ w' ∧ ∀ m, m ≠ .main → w' (.live m) = none)
        (fun _ => RolledBack op old w₁) (fun _ => RolledBack op old w₁) w₃ := by
      refine via_rollback (fun c hc => hc.1) hlayout₃.state hlayout₃.phase ?_ ?_ ?_ ?_
      · intro c hc hroot
        rw [hc.2] at hroot
        cases hroot
      · intro d' files' hresumable _
        have hd := hresumable.assessed
        rw [hlayout₃.assessed] at hd
        obtain rfl := Option.some.inj hd
        exact hlayout₃.via_install_old fun c hc => hc.1
      · exact fun hblocked => absurd hpasses hblocked.not_passes
      · exact fun hnot => absurd hpasses hnot
    obtain ⟨k, n, r, w₄, hle, ⟨hpoint, hgone⟩, hrun, hend⟩ := Prog.via_ends hvia choices husual
    refine ⟨old, k, n, r, _, w₄, hle, hold, rfl, hpoint, hgone .wal (by decide), hgone .shm (by decide),
      hrun, ?_⟩
    rcases r with e | r
    · exact hend
    · exact hend
  · intro w s hstate hphase hforeign
    have hnot := hforeign.not_passes
    refine ⟨?_, ?_⟩
    · -- a blocked attempt raises something else
      intro hrefuses hblocked
      have hvia : (rollback sha256 op true).Via exec Usual (fun _ => True) (fun _ _ => False)
          (fun e _ => e = .OSError) w := by
        refine via_rollback (fun c hc => hc.1) hstate hphase ?_ ?_ ?_ ?_
        · intro c hc hroot
          rw [hc.2] at hroot
          cases hroot
        · exact fun d files hresumable hchecked => absurd ⟨d, files, hresumable, hchecked⟩ hnot
        · exact fun _ => ⟨trivial, rfl⟩
        · exact fun _ hfree => absurd hblocked hfree
      obtain ⟨k, n, r, w', -, -, hrun, hend⟩ := Prog.via_ends hvia (fun _ => {}) fun _ => ⟨rfl, rfl⟩
      obtain ⟨n', message, hrun'⟩ := hrefuses (fun _ => {}) fun _ => rfl
      obtain ⟨rfl, -⟩ := Prog.run_until_unique hrun' hrun
      cases hend
    · intro hfree choices hsmooth
      have hvia : (rollback sha256 op true).Via exec Smooth (fun _ => True) (fun _ _ => False)
          (fun e w' => (∃ message, e = .RestoreError message) ∧ w' = w) w := by
        refine via_rollback (fun c hc => hc) hstate hphase ?_ ?_ ?_ ?_
        · exact fun _ _ _ message => ⟨trivial, ⟨message, rfl⟩, rfl⟩
        · exact fun d files hresumable hchecked => absurd ⟨d, files, hresumable, hchecked⟩ hnot
        · exact fun hblocked => absurd hblocked hfree
        · exact fun _ _ message => ⟨trivial, ⟨message, rfl⟩, rfl⟩
      obtain ⟨k, n, r, w', -, -, hrun, hend⟩ := Prog.via_ends hvia choices hsmooth
      rcases r with e | r
      · obtain ⟨⟨message, rfl⟩, rfl⟩ := hend
        exact ⟨n, message, hrun⟩
      · exact hend.elim

/-! ## A rollback interrupted at its record

The service has written to the candidate, and left a `-wal`. A rollback archives both and is
interrupted as soon as it has recorded that. -/

namespace Halted

open Sample

def old : OldState :=
  .readable { sha256 := sha256 [3], size_bytes := 1, integrity := "ok", foreign_keys := "ok"
              identity := .inr ⟨5, "", 0, 0, 0⟩ }

def activated : State :=
  { operation_id := "op-1", phase := .activated, db := DB
    candidate := "/data/.restore-stage/candidate-0123456789abcdef01234567.db"
    candidate_info := ⟨sha256 [9], 5, "", 0, 0, 0⟩, raw_files := [(.main, sha256 [1])]
    old_state := some old, write_probe := some "ok" }

def rolling : State := activated.rolling [(.main, sha256 [8]), (.wal, sha256 [7])]

def served : Volume
  | .live .main => some (.file [8])
  | .live .wal => some (.file [7])
  | .recovery_root => some .dir
  | .recovery op => if op = "op-1" then some .dir else none
  | .state op => if op = "op-1" then some (.json activated) else none
  | .raw op .main => if op = "op-1" then some (.file [1]) else none
  | .old_consistent op => if op = "op-1" then some (.file [3]) else none
  | _ => none

theorem tree_served : Tree served := by
  refine ⟨?_, fun op _ m => ⟨rfl, rfl⟩⟩
  intro op hmissing p hp hne
  have hop : op ≠ "op-1" := by
    rintro rfl
    cases hmissing
  -- the directory that is there is the one of `op-1`
  have hother : ∀ op', some op' = some op → op' ≠ "op-1" := by
    rintro op' heq rfl
    exact hop (Option.some.inj heq).symm
  cases p with
  | recovery op' => exact if_neg (hother op' hp)
  | state op' => exact if_neg (hother op' hp)
  | old_consistent op' => exact if_neg (hother op' hp)
  | raw op' m =>
      cases m with
      | main => exact if_neg (hother op' hp)
      | wal => rfl
      | shm => rfl
  | live m => cases hp
  | recovery_root => cases hp
  | _ => rfl

def halted : Volume := after sha256 (.rollback "op-1" true) (List.replicate 31 {}) served

theorem state_halted : halted (.state "op-1") = some (.json rolling) := by decide +kernel

/-- Somebody has written to the `-wal`. -/
def written : Volume := Function.update halted (.live .wal) (some (.file [6]))

/-- Somebody has put a directory in the place of the `-wal`. -/
def blocked : Volume := Function.update halted (.live .wal) (some .dir)

theorem foreign_wal {n : Node} (hn : n ≠ .file [7]) :
    Foreign sha256 "op-1" rolling (Function.update halted (.live .wal) (some n)) := by
  refine .changed (m := .wal) rfl (by decide) rfl ?_ ?_
  · rintro ⟨c, hc, hdigest⟩
    rw [Function.update_self] at hc
    obtain rfl := sha256_injective hdigest
    exact hn (Option.some.inj hc)
  · rintro ⟨c, hc, -⟩
    rw [Function.update_of_ne (by simp)] at hc
    have hnone : halted (.forward_displaced "op-1" .wal) = none := by decide +kernel
    rw [hnone] at hc
    cases hc

/-- The halted rollback is finished; the `-wal` that somebody has written is refused. -/
theorem interrupted_rollback_iff_halted :
    (∃ n r w₄, (rollback sha256 "op-1" true).run_until exec (List.replicate n {}) halted = (some r, w₄)
        ∧ RolledBack "op-1" [3] served w₄)
      ∧ Refuses sha256 "op-1" written := by
  have hall := interrupted_rollback_iff sha256 "op-1"
  refine ⟨?_, ?_⟩
  · obtain ⟨old, k, n, r, w', w₄, -, hold, -, -, -, -, hrun, hdone⟩ :=
      hall.1 served halted halted activated true (List.replicate 31 {}) tree_served rfl (.inr rfl) rfl
        ⟨rolling, state_halted, rfl⟩ .none (fun _ => {}) (fun _ => ⟨rfl, rfl⟩)
    obtain rfl : [3] = old := Node.file.inj (Option.some.inj hold)
    rw [List.map_const', List.length_range] at hrun
    exact ⟨n, r, w₄, hrun, hdone⟩
  · refine (hall.2 written rolling ?_ rfl (foreign_wal (by decide))).mpr ?_
    · rw [written, Function.update_of_ne (by simp), state_halted]
    · rintro ⟨d, -, files, -, hwal | ⟨-, hshm⟩⟩
      · exact absurd hwal.no_file (by decide)
      · have hnone : written (.live .shm) = none := by decide +kernel
        have hthere := hshm.there
        rw [hnone] at hthere
        cases hthere

/-- The attempt raises the error of reading the directory. -/
theorem blocked_attempt_raises :
    blocked (.state "op-1") = some (.json rolling) ∧ Foreign sha256 "op-1" rolling blocked
      ∧ ((rollback sha256 "op-1" true).run_until exec (List.replicate 40 {}) blocked).1
        = some (.error .OSError) := by
  refine ⟨by decide +kernel, foreign_wal (by decide), ?_⟩
  rfl

end Halted

end OpenChronicle.OfflineRestore
