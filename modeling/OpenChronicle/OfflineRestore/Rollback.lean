/-
`rollback`: everything a call may have done to the volume when it ends, raises or is stopped.

A first attempt archives the current family in `forward-state` and records its digests. A repeated one
checks that the archive, the database and each sidecar are as an earlier attempt may have left them.
Either way the old database is installed then: the sidecars are moved into `forward-state`, and a copy
of `old-consistent.db` takes the place of the database.

The phase in the record decides which of the two it is, so the record is written when the archive is
whole and not before. A call that is stopped earlier leaves a `forward-state` directory without a record
of it, and the next first attempt refuses to write into it: `Begun.new` is what it has found instead.

The sidecars have to go before the database comes. SQLite would read a `-wal` that belongs to another
database, and the moment between the two, with no sidecar and the old database not yet in place, is one
of those in which a call may be stopped. `Swapping` covers all of them, and says of each file that it is
where it was or where the swap puts it.
-/
import OpenChronicle.OfflineRestore.Activate

set_option autoImplicit false

namespace OpenChronicle.OfflineRestore

open Program

/-! ## The checks of a repeated attempt -/

/-- A sidecar is unchanged where it was or where it was moved, and not in both places. -/
def SideChecked (sha256 : Bytes → Digest) (op : String) (recorded : List (Member × Digest))
    (w : Volume) (m : Member) : Prop :=
  match recorded.lookup m with
  | none => w (.live m) = none ∧ w (.forward_displaced op m) = none
  | some digest =>
      (∃ c, w (.live m) = some (.file c) ∧ sha256 c = digest ∧ w (.forward_displaced op m) = none)
        ∨ (w (.live m) = none ∧ ∃ c, w (.forward_displaced op m) = some (.file c) ∧ sha256 c = digest)

/-- What has passed its check can be moved. -/
theorem SideChecked.regular {sha256 : Bytes → Digest} {op : String}
    {recorded : List (Member × Digest)} {w : Volume} {m : Member}
    (h : SideChecked sha256 op recorded w m) :
    FileOrNone (w (.live m)) ∧ FileOrNone (w (.forward_displaced op m)) := by
  unfold SideChecked at h
  split at h
  · exact ⟨.inl h.1, .inl h.2⟩
  · rcases h with ⟨c, hlive, -, hnone⟩ | ⟨hnone, c, hdisplaced, -⟩
    · exact ⟨.inr ⟨c, hlive⟩, .inl hnone⟩
    · exact ⟨.inl hnone, .inr ⟨c, hdisplaced⟩⟩

/-- What a repeated attempt has seen when it goes on. -/
structure Checked (sha256 : Bytes → Digest) (op : String) (s : State) (old_digest : Digest)
    (files : List (Member × Digest)) (w : Volume) : Prop where
  dir : w (.forward_state op) = some .dir
  recorded : s.forward_files = some files
  nonempty : files ≠ []
  archived : ∀ m digest, (m, digest) ∈ files →
    ∃ c, w (.forward op m) = some (.file c) ∧ sha256 c = digest
  main : ∃ c, w (.live .main) = some (.file c)
    ∧ (files.lookup .main = some (sha256 c) ∨ sha256 c = old_digest)
  side : ∀ m, m ≠ .main → SideChecked sha256 op files w m

section Resume

variable {I : Volume → Prop} {w : Volume} {sha256 : Bytes → Digest} {op : String}

/-- The digests of the archive are compared with the record, one by one. -/
theorem leads_check_archived {files : List (Member × Digest)} {R : Unit → Volume → Prop} (hI : I w)
    (hR : (∀ m digest, (m, digest) ∈ files →
      ∃ c, w (.forward op m) = some (.file c) ∧ sha256 c = digest) → R () w) :
    (check_archived sha256 op files).Leads exec I R w := by
  induction files with
  | nil =>
      refine leads_pure (hR ?_)
      intro m digest hin
      cases hin
  | cons file rest ih =>
      obtain ⟨m, digest⟩ := file
      refine Prog.leads_bind.mpr (leads_regular hI ?_)
      intro _ _
      refine Prog.leads_bind.mpr (leads_sha256_of hI ?_)
      intro c hc
      split
      · exact hI
      · next hdigest =>
          refine ih ?_
          intro hrest
          refine hR ?_
          intro m' digest' hin
          rcases List.mem_cons.mp hin with heq | hin
          · obtain ⟨rfl, rfl⟩ := Prod.mk.inj heq
            exact ⟨c, hc, not_not.mp hdigest⟩
          · exact hrest m' digest' hin

/-- What is neither found nor a symlink is not there. -/
theorem eq_none_of_not_found {n : Option Node} (hfound : found n = false)
    (hlink : is_symlink n = false) : n = none := by
  rcases n with _ | (b | s | _ | r)
  · rfl
  · cases hfound
  · cases hfound
  · cases hfound
  · cases hlink

/-- A link in either place is refused first, so that the rest is about files. -/
theorem leads_check_sidecar {recorded : List (Member × Digest)} {m : Member}
    {R : Unit → Volume → Prop} (hI : I w) (hR : SideChecked sha256 op recorded w m → R () w) :
    (check_sidecar sha256 op recorded m).Leads exec I R w := by
  refine Prog.leads_bind.mpr (leads_look hI ?_)
  refine Prog.leads_bind.mpr (leads_look hI ?_)
  split
  · exact hI
  next hlinks =>
  simp only [Bool.or_eq_true, not_or, Bool.not_eq_true] at hlinks
  unfold SideChecked at hR
  split
  · next hlookup =>
      rw [hlookup] at hR
      split
      · exact hI
      · next hfound =>
          simp only [Bool.or_eq_true, not_or, Bool.not_eq_true] at hfound
          exact leads_pure (hR ⟨eq_none_of_not_found hfound.1 hlinks.1,
            eq_none_of_not_found hfound.2 hlinks.2⟩)
  · next digest hlookup =>
      rw [hlookup] at hR
      split
      · split
        · exact hI
        · next hdisplaced =>
            -- it is still in place
            refine Prog.leads_bind.mpr (leads_sha256_of hI ?_)
            intro c hc
            split
            · exact hI
            · next hdigest =>
                refine leads_pure (hR (.inl ⟨c, hc, not_not.mp hdigest, ?_⟩))
                exact eq_none_of_not_found (by simpa using hdisplaced) hlinks.2
      · next hgone =>
          split
          · exact hI
          · -- it has been moved
            refine Prog.leads_bind.mpr (leads_sha256_of hI ?_)
            intro c hc
            split
            · exact hI
            · next hdigest =>
                refine leads_pure (hR (.inr ⟨?_, c, hc, not_not.mp hdigest⟩))
                exact eq_none_of_not_found (by simpa using hgone) hlinks.1

/-- A repeated attempt changes nothing while it checks. -/
theorem leads_resume_rollback {s : State} {old_digest : Digest} {R : State → Volume → Prop}
    (hI : I w) (hR : ∀ files, Checked sha256 op s old_digest files w → R s w) :
    (resume_rollback sha256 op s old_digest).Leads exec I R w := by
  refine Prog.leads_bind.mpr (leads_look hI ?_)
  split
  · next hdir =>
      split
      · exact hI
      · exact hI
      · next recorded hnonempty hfiles =>
          refine Prog.leads_bind.mpr (leads_check_archived hI ?_)
          intro harchived
          refine Prog.leads_bind.mpr (leads_sha256_of hI ?_)
          intro c hc
          split
          · exact hI
          next hmain =>
          refine Prog.leads_bind.mpr ?_
          refine Prog.leads_bind.mpr (leads_check_sidecar hI ?_)
          intro hwal
          refine Prog.leads_bind.mpr (leads_check_sidecar hI ?_)
          intro hshm
          refine leads_pure (leads_pure (hR recorded ⟨hdir, hfiles, ?_, harchived, ⟨c, hc, ?_⟩, ?_⟩))
          · exact fun hnil => hnonempty hnil
          · by_cases hsame : recorded.lookup .main = some (sha256 c)
            · exact .inl hsame
            · refine .inr ?_
              by_contra hother
              exact hmain ⟨hsame, hother⟩
          · intro m hm
            cases m with
            | main => exact absurd rfl hm
            | wal => exact hwal
            | shm => exact hshm
  · exact hI

end Resume

/-! ## The archive of a first attempt -/

/-- Where the current family is archived. -/
def forwards (op : String) : Set Path :=
  {p | p = .forward_state op ∨ ∃ m, p = .forward op m}

/-- The record that a first attempt writes when its archive is whole. -/
def State.rolling (s : State) (files : List (Member × Digest)) : State :=
  { s with forward_files := some files, phase := .rolling_back, write_probe := some PROBE_PENDING }

/-- The members that are there. -/
def members (w : Volume) : List Member :=
  [Member.main, .wal, .shm].filter fun m => (w (.live m)).isSome

/-- The archive is made of what is there; a sidecar that is not there has no entry in the record. -/
theorem mem_members {w : Volume} {m : Member} {n : Node} (h : w (.live m) = some n) :
    m ∈ members w := by
  rw [members, List.mem_filter, h]
  refine ⟨?_, rfl⟩
  cases m <;> simp

theorem nodup_members (w : Volume) : (members w).Nodup := List.Nodup.filter _ (by decide)

/-- The volume once the archive of a first attempt is whole and recorded. -/
structure Begun (sha256 : Bytes → Digest) (op : String) (s : State) (w : Volume) (s₁ : State)
    (wa : Volume) : Prop where
  regular : ∀ m, FileOrNone (w (.live m))
  new : w (.forward_state op) = none
  agree : Agree (forwards op ∪ {.state op, .state_temp op}) w wa
  dir : wa (.forward_state op) = some .dir
  state : wa (.state op) = some (.json s₁)
  recorded : ∃ files, s₁ = s.rolling files ∧ Recorded sha256 (.forward op) w (members w) files wa

section Begin

variable {I : Volume → Prop} {w : Volume} {sha256 : Bytes → Digest} {op : String}

/-- The archive of a first attempt: nothing is recorded until every copy has been compared. -/
theorem leads_begin_rollback {s : State} {R : State → Volume → Prop} (hsame : I w)
    (hI : (∀ m, FileOrNone (w (.live m))) → w (.forward_state op) = none →
      ∀ w', Agree (forwards op ∪ {.state_temp op}) w w' → w' (.forward_state op) = some .dir → I w')
    (hbegun : ∀ s₁ wa, Begun sha256 op s w s₁ wa → I wa)
    (hR : ∀ s₁ wa, Begun sha256 op s w s₁ wa → R s₁ wa) :
    (begin_rollback sha256 op s).Leads exec I R w := by
  refine Prog.leads_bind.mpr (leads_path_exists hsame ?_)
  split
  · exact hsame
  refine Prog.leads_bind.mpr (leads_present hsame ?_)
  refine Prog.leads_bind.mpr (leads_all_regular hsame ?_)
  split
  · exact hsame
  next hregular =>
  refine Prog.leads_bind.mpr (leads_total_size hsame ?_)
  intro live_size
  refine Prog.leads_bind.mpr (leads_look hsame ?_)
  refine Prog.leads_bind.mpr (leads_disk_free hsame ?_)
  intro free
  split
  · exact hsame
  have hreg : ∀ m, FileOrNone (w (.live m)) := regular_family (by simpa using hregular)
  refine Prog.leads_bind.mpr (leads_mkdir hsame ?_ nofun)
  intro hnew
  have hI' := hI hreg hnew
  set w₁ := Function.update w (.forward_state op) (some .dir) with hw₁
  have h₁ : Agree (forwards op ∪ {.state_temp op}) w w₁ := agree_update (.inl (.inl rfl)) w _
  have hforward : {p | ∃ m ∈ members w, p = Path.forward op m} ⊆ forwards op ∪ {.state_temp op} := by
    rintro p ⟨m, -, rfl⟩
    exact .inl (.inr ⟨m, rfl⟩)
  have hlive₁ : ∀ m, w₁ (.live m) = w (.live m) := by
    intro m
    rw [hw₁, Function.update_of_ne (by simp)]
  refine Prog.leads_bind.mpr (leads_part ((copies_forward op).touches_each (members w))
    ((copies_forward op).copied_each (fun m m' h => (Path.forward.inj h).2) (fun m m' => by simp)
      (nodup_members w)) ?_ ?_)
  · intro w' h
    refine hI' w' (h₁.trans (h.mono hforward)) ?_
    rw [h _ (by simp), hw₁, Function.update_self]
  rintro files w₂ hagree₂ ⟨hmembers, hcopied⟩
  have h₂ := h₁.trans (hagree₂.mono hforward)
  -- the record is written last
  have hdone : ∀ wa, Saving op (s.rolling files) w₂ wa →
      wa (.state op) = some (.json (s.rolling files)) → Begun sha256 op s w (s.rolling files) wa := by
    intro wa hsave hstate
    refine ⟨hreg, hnew, ?_, ?_, hstate, files, rfl, hmembers, ?_⟩
    · refine (h₂.mono ?_).trans (hsave.1.mono Set.subset_union_right)
      rintro p (hp | rfl)
      · exact .inl hp
      · exact .inr (.inr rfl)
    · rw [hsave.1 _ (by simp), hagree₂ _ (by simp), hw₁, Function.update_self]
    · intro m hm
      obtain ⟨b, hb, hcopy, hlookup⟩ := hcopied m hm
      rw [hlive₁] at hb
      refine ⟨b, hb, ?_, hlookup⟩
      rw [hsave.1 _ (by simp), hcopy]
  refine Prog.leads_bind.mpr (leads_save_state ?_ ?_)
  · intro wa hsave
    rcases hsave.2 with hold | hstate
    · refine hI' wa (h₂.trans ?_) ?_
      swap
      · rw [hsave.1 _ (by simp), hagree₂ _ (by simp), hw₁, Function.update_self]
      intro p hp
      by_cases hp' : p = .state op
      · rw [hp', hold]
      · refine hsave.1 p ?_
        rintro (heq | heq)
        · exact hp' heq
        · exact hp (.inr heq)
    · exact hbegun _ wa (hdone wa hsave hstate)
  · intro wa hsave hstate
    exact leads_pure (hR _ wa (hdone wa hsave hstate))

end Begin

/-! ## The swap -/

/-- What the swap of a rollback works on before it is recorded. -/
def exchanged (op : String) : Set Path :=
  {p | p = .rollback op ∨ p = .state_temp op ∨ (∃ m, p = .live m)
    ∨ ∃ m, m ≠ .main ∧ p = .forward_displaced op m}

/-- A sidecar is in place, or it has been moved to where nothing was. -/
def Moved (op : String) (wa w' : Volume) (m : Member) : Prop :=
  (w' (.live m) = wa (.live m) ∧ w' (.forward_displaced op m) = wa (.forward_displaced op m))
    ∨ (w' (.live m) = none ∧ wa (.forward_displaced op m) = none
      ∧ w' (.forward_displaced op m) = wa (.live m))

/-- The volume during the swap of a rollback. -/
structure Swapping (op : String) (old : Bytes) (wa w' : Volume) : Prop where
  agree : Agree (exchanged op) wa w'
  main : w' (.live .main) = wa (.live .main) ∨ w' (.live .main) = some (.file old)
  side : ∀ m, m ≠ .main → Moved op wa w' m

/-- The volume once the swap is recorded; the sidecars now there are those of the probe. -/
structure Swapped (op : String) (old : Bytes) (wa : Volume) (s : State) (w' : Volume) : Prop where
  agree : Agree (exchanged op ∪ {.state op, .incoming op}) wa w'
  state : ∃ probed, w' (.state op) = some (.json { s with phase := .rolled_back, write_probe := probed })
  main : w' (.live .main) = some (.file old)
  side : ∀ m, m ≠ .main →
    (wa (.live m) = none ∧ w' (.forward_displaced op m) = wa (.forward_displaced op m))
      ∨ (wa (.forward_displaced op m) = none ∧ w' (.forward_displaced op m) = wa (.live m))

section Install

variable {I : Volume → Prop} {wa : Volume} {sha256 : Bytes → Digest} {op : String} {old : Bytes}

/-- Nothing has been moved yet. -/
theorem Swapping.start (op : String) (old : Bytes) (wa : Volume) : Swapping op old wa wa :=
  ⟨Agree.refl _ wa, .inl rfl, fun _ _ => .inl ⟨rfl, rfl⟩⟩

/-- A step that touches no file of the family. -/
theorem Swapping.aside {w₁ w₂ : Volume} {T : Set Path} (h : Swapping op old wa w₁)
    (hagree : Agree T w₁ w₂) (hT : T ⊆ {.rollback op, .state_temp op}) : Swapping op old wa w₂ := by
  have hlive : ∀ m, w₂ (.live m) = w₁ (.live m) := by
    intro m
    refine hagree _ fun hin => ?_
    simpa using hT hin
  have hdisplaced : ∀ m, w₂ (.forward_displaced op m) = w₁ (.forward_displaced op m) := by
    intro m
    refine hagree _ fun hin => ?_
    simpa using hT hin
  refine ⟨h.agree.trans (hagree.mono fun p hp => ?_), ?_, ?_⟩
  · rcases hT hp with rfl | rfl
    · exact .inl rfl
    · exact .inr (.inl rfl)
  · rw [hlive]
    exact h.main
  · intro m hm
    rw [Moved, hlive, hdisplaced]
    exact h.side m hm

/-- A sidecar that was still in place is moved. -/
theorem Swapping.move {w₁ w₂ : Volume} {m : Member} (h : Swapping op old wa w₁) (hm : m ≠ .main)
    (hagree : Agree {.live m, .forward_displaced op m} w₁ w₂)
    (hplace : w₁ (.live m) = wa (.live m)) (hfree : wa (.forward_displaced op m) = none)
    (hgone : w₂ (.live m) = none) (hmoved : w₂ (.forward_displaced op m) = w₁ (.live m)) :
    Swapping op old wa w₂ := by
  refine ⟨h.agree.trans (hagree.mono ?_), ?_, ?_⟩
  · rintro p (rfl | rfl)
    · exact .inr (.inr (.inl ⟨m, rfl⟩))
    · exact .inr (.inr (.inr ⟨m, hm, rfl⟩))
  · rw [hagree _ (by simp [Ne.symm hm])]
    exact h.main
  · intro m' hm'
    by_cases heq : m' = m
    · subst heq
      exact .inr ⟨hgone, hfree, hmoved.trans hplace⟩
    · rw [Moved, hagree _ (by simp [heq]), hagree _ (by simp [heq])]
      exact h.side m' hm'

/-- One round of the loop over the sidecars. The other one is left alone, so that its own round
finds it as it was. -/
theorem leads_move {m : Member} {w₁ : Volume} {R : Unit → Volume → Prop} (hm : m ≠ .main)
    (h : Swapping op old wa w₁) (hI : ∀ w', Swapping op old wa w' → I w')
    (hlive : FileOrNone (wa (.live m))) (hfree : FileOrNone (wa (.forward_displaced op m)))
    (hplace : w₁ (.live m) = wa (.live m))
    (hunmoved : w₁ (.forward_displaced op m) = wa (.forward_displaced op m))
    (hR : ∀ w₂, Swapping op old wa w₂ → Agree {.live m, .forward_displaced op m} w₁ w₂ →
      w₂ (.live m) = none → R () w₂) :
    (displace_forward op m).Leads exec I R w₁ := by
  refine leads_displace_forward (hI w₁ h) ?_ ?_ ?_
  · rw [hplace]
    exact hlive
  · intro hnone
    exact hR w₁ h (Agree.refl _ w₁) hnone
  · intro w₂ hagree hgone hnew hmoved
    have hnone : wa (.forward_displaced op m) = none := by
      rcases hfree with hnone | ⟨b, hb⟩
      · exact hnone
      · rw [hunmoved, hb] at hnew
        cases hnew
    exact hR w₂ (h.move hm hagree hplace hnone hgone hmoved) hagree hgone

/-- What happens after the record: the incoming copy of the candidate goes, and the probe runs. -/
theorem Swapped.step {s : State} {w₁ w₂ : Volume} {T : Set Path} {probed : Option String}
    (h : Swapped op old wa s w₁) (hagree : Agree T w₁ w₂)
    (hT : T ⊆ exchanged op ∪ {.state op, .incoming op})
    (hmain : Path.live .main ∉ T) (hdisplaced : ∀ m, Path.forward_displaced op m ∉ T)
    (hstate : w₂ (.state op) = some (.json { s with phase := .rolled_back, write_probe := probed })) :
    Swapped op old wa s w₂ := by
  refine ⟨h.agree.trans (hagree.mono hT), ⟨probed, hstate⟩, ?_, ?_⟩
  · rw [hagree _ hmain]
    exact h.main
  · intro m hm
    rw [hagree _ (hdisplaced m)]
    exact h.side m hm

/-- A write probe changes only the sidecars and the record. -/
theorem Swapped.recorded {s : State} {w₁ w₂ : Volume} (h : Swapped op old wa s w₁)
    (hstate : w₁ (.state op) = some (.json { s with phase := .rolled_back }))
    (hrec : Recording op { s with phase := .rolled_back } w₁ w₂) : Swapped op old wa s w₂ := by
  have hT : {Path.state op, .state_temp op, .live .wal, .live .shm}
      ⊆ exchanged op ∪ {.state op, .incoming op} := by
    rintro p (rfl | rfl | rfl | rfl)
    · exact .inr (.inl rfl)
    · exact .inl (.inr (.inl rfl))
    · exact .inl (.inr (.inr (.inl ⟨_, rfl⟩)))
    · exact .inl (.inr (.inr (.inl ⟨_, rfl⟩)))
  rcases hrec.record with hkept | ⟨text, hnew⟩
  · exact h.step hrec.agree hT (by simp) (by simp) (hkept.trans hstate)
  · exact h.step hrec.agree hT (by simp) (by simp) hnew

/-- The old database takes the place of the current one. -/
theorem Swapping.install {w₁ w₂ : Volume} (h : Swapping op old wa w₁)
    (hagree : Agree {.live .main, .rollback op} w₁ w₂)
    (hmain : w₂ (.live .main) = some (.file old)) : Swapping op old wa w₂ := by
  refine ⟨h.agree.trans (hagree.mono ?_), .inr hmain, ?_⟩
  · rintro p (rfl | rfl)
    · exact .inr (.inr (.inl ⟨_, rfl⟩))
    · exact .inl rfl
  · intro m hm
    rw [Moved, hagree _ (by simp [hm]), hagree _ (by simp)]
    exact h.side m hm

/-- The record is written once all sidecars are gone. -/
theorem Swapping.record {s : State} {w₁ w₂ : Volume} (h : Swapping op old wa w₁)
    (hmain : w₁ (.live .main) = some (.file old)) (hgone : ∀ m, m ≠ .main → w₁ (.live m) = none)
    (hagree : Agree {.state op, .state_temp op} w₁ w₂)
    (hstate : w₂ (.state op) = some (.json { s with phase := .rolled_back })) :
    Swapped op old wa s w₂ := by
  refine ⟨(h.agree.mono Set.subset_union_left).trans (hagree.mono ?_), ⟨s.write_probe, hstate⟩, ?_, ?_⟩
  · rintro p (rfl | rfl)
    · exact .inr (.inl rfl)
    · exact .inl (.inr (.inl rfl))
  · rw [hagree _ (by simp), hmain]
  · intro m hm
    rw [hagree _ (by simp)]
    -- a sidecar that was never there has nothing to be moved
    rcases h.side m hm with ⟨hplace, hunmoved⟩ | ⟨-, hnone, hmoved⟩
    · rw [hgone m hm] at hplace
      exact .inl ⟨hplace.symm, hunmoved⟩
    · exact .inr ⟨hnone, hmoved⟩

/-- The swap of a rollback: at its end the old database is in place, recorded, and nothing is
left to check point. -/
theorem leads_install_old {s : State} {old_digest : Digest} {R : State × Option String → Volume → Prop}
    (hold : wa (.old_consistent op) = some (.file old)) (hdigest : sha256 old = old_digest)
    (hinstalled : s.old_state.elim "" OldState.sha256 = old_digest)
    (hlive : ∀ m, m ≠ .main → FileOrNone (wa (.live m)))
    (hfree : ∀ m, m ≠ .main → FileOrNone (wa (.forward_displaced op m)))
    (hI₁ : ∀ w', Swapping op old wa w' → I w')
    (hI₂ : ∀ w', Swapped op old wa s w' →
      w' (.state op) = some (.json { s with phase := .rolled_back }) → I w')
    (hR : ∀ cleanup w', Swapped op old wa s w' → Probable sha256 op { s with phase := .rolled_back } w' →
      R ({ s with phase := .rolled_back }, cleanup) w') :
    (install_old sha256 op s old_digest).Leads exec I R wa := by
  have haside : ({.rollback op} : Set Path) ⊆ {.rollback op, .state_temp op} := by simp
  -- the copy of the old database
  refine Prog.leads_bind.mpr (leads_part (touches_act (o := .unlink (.rollback op) true)
    (Set.mem_singleton _)) (Prog.leads_trivial _ _) ?_ ?_)
  · exact fun w' h => hI₁ w' ((Swapping.start op old wa).aside h haside)
  intro _ w₁ h₁ _
  refine Prog.leads_bind.mpr (leads_part (touches_copy_durable _ _) (copied _ _) ?_ ?_)
  · exact fun w' h => hI₁ w' ((Swapping.start op old wa).aside (h₁.trans h) haside)
  rintro _ w₂ h₂ ⟨b, hb, hcopy⟩
  rw [h₁ _ (by simp)] at hb
  obtain rfl := file_unique hold hb
  have hagree₂ := h₁.trans h₂
  have hw₂ := (Swapping.start op old wa).aside hagree₂ haside
  refine Prog.leads_bind.mpr (leads_sha256_of (hI₁ w₂ hw₂) ?_)
  intro _ _
  split
  · exact hI₁ w₂ hw₂
  -- the sidecars, then the database
  refine Prog.leads_bind.mpr ?_
  refine Prog.leads_bind.mpr (leads_move (by decide) hw₂ hI₁ (hlive .wal (by decide))
    (hfree .wal (by decide)) (hagree₂ _ (by simp)) (hagree₂ _ (by simp)) ?_)
  intro w₃ hw₃ hagree₃ hwal₃
  refine Prog.leads_bind.mpr (leads_move (by decide) hw₃ hI₁ (hlive .shm (by decide))
    (hfree .shm (by decide)) ?_ ?_ ?_)
  · rw [hagree₃ _ (by simp), hagree₂ _ (by simp)]
  · rw [hagree₃ _ (by simp), hagree₂ _ (by simp)]
  intro w₄ hw₄ hagree₄ hshm₄
  refine leads_pure ?_
  have hrollback : w₄ (.rollback op) = some (.file old) := by
    rw [hagree₄ _ (by simp), hagree₃ _ (by simp), hcopy]
  refine Prog.leads_bind.mpr (leads_replace (hI₁ w₄ hw₄) ?_)
  intro node hnode
  rw [hrollback] at hnode
  obtain rfl := Option.some.inj hnode
  set w₅ := Function.update (Function.update w₄ (.rollback op) none) (.live .main) (some (.file old))
    with hw₅def
  have hagree₅ : Agree {.live .main, .rollback op} w₄ w₅ :=
    (agree_update (by simp) w₄ _).trans (agree_update (by simp) _ _)
  have hmain₅ : w₅ (.live .main) = some (.file old) := Function.update_self _ _ _
  have hwal₅ : w₅ (.live .wal) = none := by
    rw [hagree₅ _ (by simp), hagree₄ _ (by simp), hwal₃]
  have hw₅ : Swapping op old wa w₅ := hw₄.install hagree₅ hmain₅
  have hgone : ∀ m, m ≠ .main → w₅ (.live m) = none := by
    intro m hm
    rcases m with _ | _ | _
    · exact absurd rfl hm
    · exact hwal₅
    · rw [hagree₅ _ (by simp), hshm₄]
  -- the record
  refine Prog.leads_bind.mpr (leads_save_state ?_ ?_)
  · intro w₆ hsave
    rcases hsave.2 with hkept | hrecord
    · refine hI₁ w₆ (hw₅.aside (T := {.state_temp op}) ?_ (by simp))
      intro p hp
      by_cases hp' : p = .state op
      · rw [hp', hkept]
      · exact hsave.1 p (by simpa [hp'] using hp)
    · exact hI₂ w₆ (hw₅.record hmain₅ hgone hsave.1 hrecord) hrecord
  intro w₆ hsave hrecord
  -- what is left to do touches neither the archive nor the database
  have hcleaned : ∀ w₇, Agree {.incoming op} w₆ w₇ → Swapped op old wa s w₇ := by
    intro w₇ h₇
    refine (hw₅.record hmain₅ hgone hsave.1 hrecord).step h₇ ?_ (by simp) (by simp) ((h₇ _ (by simp)).trans hrecord)
    rintro p rfl
    exact .inr (.inr rfl)
  refine Prog.leads_bind.mpr (leads_part (touches_remove_incoming op _) (Prog.leads_trivial _ _) ?_ ?_)
  · exact fun w₇ h₇ => hI₂ w₇ (hcleaned w₇ h₇) ((h₇ _ (by simp)).trans hrecord)
  intro cleanup w₇ h₇ _
  refine leads_pure (hR cleanup w₇ (hcleaned w₇ h₇)
    ⟨(h₇ _ (by simp)).trans hrecord, .inr rfl, ⟨old, (hcleaned w₇ h₇).main, ?_⟩, ?_⟩)
  · exact hdigest.trans hinstalled.symm
  · left
    rw [h₇ _ (by simp), hsave.1 _ (by simp), hwal₅]

end Install

/-! ## Rollback -/

/-- Where the swap of a rollback starts: its own archive is whole, or an earlier attempt's has
been checked. -/
inductive Opens (sha256 : Bytes → Digest) (op : String) (d : OldState) (w : Volume) (s : State) :
    State → Volume → Prop
  | first {s₁ : State} {wa : Volume} (hphase : s.phase = .prepared ∨ s.phase = .activated)
      (h : Begun sha256 op s w s₁ wa) : Opens sha256 op d w s s₁ wa
  | again {files : List (Member × Digest)} (hphase : s.phase = .rolling_back)
      (h : Checked sha256 op s d.sha256 files w) : Opens sha256 op d w s s w

/-- What a call of `rollback` may have done. -/
inductive RollingBack (sha256 : Bytes → Digest) (op : String) (w w' : Volume) : Prop
  /-- It was refused or planned, or it has only looked. -/
  | untouched (h : w' = w)
  | abandoning {s : State} (hstate : w (.state op) = some (.json s)) (hphase : s.phase = .archiving)
      (hagree : Agree {.incoming op, .state op, .state_temp op} w w')
      (hrecord : w' (.state op) = w (.state op)
        ∨ w' (.state op) = some (.json { s with phase := .abandoned }))
  /-- It is copying the current family. -/
  | archiving {s : State} (hstate : w (.state op) = some (.json s))
      (hphase : s.phase = .prepared ∨ s.phase = .activated) (hnew : w (.forward_state op) = none)
      (hagree : Agree (forwards op ∪ {.state_temp op}) w w')
      (hdir : w' (.forward_state op) = some .dir)
  | installing {s s₁ : State} {d : OldState} {old : Bytes} {wa : Volume}
      (hstate : w (.state op) = some (.json s)) (hown : Own op s w)
      (hmain : ∃ b, w (.live .main) = some (.file b)) (hassessed : s.old_state = some d)
      (havailable : d.rollback_available = true) (hold : w (.old_consistent op) = some (.file old))
      (hdigest : sha256 old = d.sha256) (hopens : Opens sha256 op d w s s₁ wa)
      (h : Swapping op old wa w' ∨ Swapped op old wa s₁ w')

section Rollback

variable {w : Volume} {sha256 : Bytes → Digest} {op : String}

/-- An operation that has not got past its archive is given up, and its files are left where they are. -/
theorem leads_abandon {s : State} {apply : Bool} {R : Result → Volume → Prop}
    (hstate : w (.state op) = some (.json s)) (hphase : s.phase = .archiving)
    (hR : ∀ r w', RollingBack sha256 op w w' ∧ Unproved op w w' → R r w') :
    (abandon sha256 op s apply).Leads exec (fun w' => RollingBack sha256 op w w' ∧ Unproved op w w')
      R w := by
  unfold abandon
  split
  · exact leads_pure (hR _ w ⟨.untouched rfl, .inl rfl⟩)
  have hcleaned : ∀ w₁, Agree {.incoming op} w w₁ →
      Agree {.incoming op, .state op, .state_temp op} w w₁ := fun w₁ h => h.mono (by simp)
  refine Prog.leads_bind.mpr (leads_part (touches_remove_incoming op _) (Prog.leads_trivial _ _) ?_ ?_)
  · intro w₁ h₁
    exact ⟨.abandoning hstate hphase (hcleaned w₁ h₁) (.inl (h₁ _ (by simp))), .inl (h₁ _ (by simp))⟩
  intro cleanup w₁ h₁ _
  have hsaving : ∀ w₂, Saving op { s with phase := .abandoned } w₁ w₂ →
      RollingBack sha256 op w w₂ ∧ Unproved op w w₂ := by
    intro w₂ hsave
    have hagree := (hcleaned w₁ h₁).trans (hsave.1.mono (by simp))
    rcases hsave.2 with hkept | hnew
    · have hsame : w₂ (.state op) = w (.state op) := hkept.trans (h₁ _ (by simp))
      exact ⟨.abandoning hstate hphase hagree (.inl hsame), .inl hsame⟩
    · -- the record keeps its write probe, and it was in the phase `archiving`
      refine ⟨.abandoning hstate hphase hagree (.inr hnew), .inr ⟨_, hnew, fun hok => ⟨s, hstate, hok, ?_⟩⟩⟩
      rw [hphase]
      decide
  exact Prog.leads_bind.mpr (leads_save_state hsaving
    fun w₂ hsave _ => leads_pure (hR _ w₂ (hsaving w₂ hsave)))

/-- A record that is written at the start of the swap, or found by a repeated attempt. -/
theorem Opens.unproved {d : OldState} {s s₁ : State} {wa w' : Volume}
    (h : Opens sha256 op d w s s₁ wa) (hstate : w (.state op) = some (.json s)) {p : Phase}
    (hw' : w' (.state op) = some (.json { s₁ with phase := p })) : Unproved op w w' := by
  cases h with
  | first hphase hbegun =>
      obtain ⟨files, rfl, -⟩ := hbegun.recorded
      have hpending : some PROBE_PENDING ≠ some "ok" := by decide
      exact unproved_of_ne hw' hpending
  | again hphase hchecked =>
      refine .inr ⟨_, hw', fun hok => ⟨s, hstate, hok, ?_⟩⟩
      rw [hphase]
      decide

/-- Either way the record says `rolling_back` when the swap starts. -/
theorem Opens.rolling {d : OldState} {s s₁ : State} {wa : Volume} (h : Opens sha256 op d w s s₁ wa) :
    s₁.phase = .rolling_back ∧ s₁.old_state = s.old_state ∧ s.phase ≠ .rolled_back := by
  cases h with
  | first hphase hbegun =>
      obtain ⟨files, rfl, -⟩ := hbegun.recorded
      refine ⟨rfl, rfl, ?_⟩
      rcases hphase with h | h
      · rw [h]
        decide
      · rw [h]
        decide
  | again hphase hchecked =>
      refine ⟨hphase, rfl, ?_⟩
      rw [hphase]
      decide

/-- The record where the swap starts. -/
theorem Opens.state {d : OldState} {s s₁ : State} {wa : Volume} (h : Opens sha256 op d w s s₁ wa)
    (hstate : w (.state op) = some (.json s)) : wa (.state op) = some (.json s₁) := by
  cases h with
  | first hphase hbegun => exact hbegun.state
  | again hphase hchecked => exact hstate

/-- The part of the call that changes the family, after all its checks. -/
theorem leads_restore_old {s : State} {apply : Bool} (hstate : w (.state op) = some (.json s))
    (hown : Own op s w) (hmain : ∃ b, w (.live .main) = some (.file b))
    (hphase : s.phase = .prepared ∨ s.phase = .activated ∨ s.phase = .rolling_back)
    (htree : w (.forward_state op) = none → ∀ m, w (.forward_displaced op m) = none) :
    (restore_old sha256 op s apply).Leads exec
      (fun w' => RollingBack sha256 op w w' ∧ Unproved op w w')
      (fun plan w' => Unproved op w w' ∧ plan.Fit sha256 op (RollingBack sha256 op w) w') w := by
  have hsame : RollingBack sha256 op w w ∧ Unproved op w w := ⟨.untouched rfl, .inl rfl⟩
  unfold restore_old
  split
  · exact hsame
  next d hassessed =>
  split
  · exact hsame
  next havailable =>
  refine Prog.leads_bind.mpr (leads_regular hsame ?_)
  intro old hold
  refine Prog.leads_bind.mpr (leads_sha256_of hsame ?_)
  intro old' hold'
  obtain rfl := file_unique hold hold'
  split
  · exact hsame
  next hdigest =>
  split
  · exact leads_pure hsame.symm
  -- whichever way the rollback was opened, its swap is the same
  have hinside : ∀ {s₁ wa w'}, Opens sha256 op d w s s₁ wa →
      Swapping op old wa w' ∨ Swapped op old wa s₁ w' → RollingBack sha256 op w w' :=
    fun hopens h => .installing hstate hown hmain hassessed (by simpa using havailable) hold
      (not_not.mp hdigest) hopens h
  have hswapping : ∀ {s₁ wa w'}, Opens sha256 op d w s s₁ wa → Swapping op old wa w' →
      RollingBack sha256 op w w' ∧ Unproved op w w' := by
    intro s₁ wa w' hopens h
    refine ⟨hinside hopens (.inl h), hopens.unproved (p := s₁.phase) hstate ?_⟩
    rw [h.agree _ (by simp [exchanged])]
    exact hopens.state hstate
  -- and so is the installation that follows
  have hinstall : ∀ {s₁ wa}, Opens sha256 op d w s s₁ wa → s₁.old_state = some d →
      wa (.old_consistent op) = some (.file old) → (∀ m, m ≠ .main → FileOrNone (wa (.live m))) →
      (∀ m, m ≠ .main → FileOrNone (wa (.forward_displaced op m))) →
      (install_old sha256 op s₁ d.sha256 >>= fun x => pure (Plan.probe x.1 "then start the service."
        fun s => .rolled_back s x.2)).Leads exec
      (fun w' => RollingBack sha256 op w w' ∧ Unproved op w w')
      (fun plan w' => Unproved op w w' ∧ plan.Fit sha256 op (RollingBack sha256 op w) w') wa := by
    intro s₁ wa hopens hassessed₁ hold₁ hlive hfree
    refine Prog.leads_bind.mpr (leads_install_old hold₁ (not_not.mp hdigest)
      (by rw [hassessed₁]; rfl) hlive hfree ?_ ?_ ?_)
    · exact fun w' h => hswapping hopens h
    · exact fun w' h hrecord => ⟨hinside hopens (.inr h), hopens.unproved hstate hrecord⟩
    · intro cleanup w' h hprobable
      refine leads_pure ⟨hopens.unproved hstate hprobable.state, hprobable, ?_⟩
      exact fun w'' hrec => hinside hopens (.inr (h.recorded hprobable.state hrec))
  by_cases hrolling : s.phase = .rolling_back
  · rw [if_pos hrolling]
    refine Prog.leads_bind.mpr (leads_resume_rollback hsame ?_)
    intro files hchecked
    refine hinstall (.again hrolling hchecked) hassessed hold ?_ ?_
    · exact fun m hm => (hchecked.side m hm).regular.1
    · exact fun m hm => (hchecked.side m hm).regular.2
  · rw [if_neg hrolling]
    -- a first attempt records its phase and archives the database in use
    have hfirst : s.phase = .prepared ∨ s.phase = .activated := by
      rcases hphase with h | h | h
      · exact .inl h
      · exact .inr h
      · exact absurd h hrolling
    refine Prog.leads_bind.mpr (leads_begin_rollback hsame ?_ ?_ ?_)
    · exact fun _ hnew w' hagree hdir =>
        ⟨.archiving hstate hfirst hnew hagree hdir, .inl (hagree _ (by simp [forwards]))⟩
    · exact fun s₁ wa h => hswapping (.first hfirst h) (Swapping.start op old wa)
    · intro s₁ wa h
      obtain ⟨files, rfl, -⟩ := h.recorded
      refine hinstall (.first hfirst h) hassessed ?_ ?_ ?_
      · rw [h.agree _ (by simp [forwards]), hold]
      · intro m _
        rw [h.agree _ (by simp [forwards])]
        exact h.regular m
      · intro m _
        rw [h.agree _ (by simp [forwards])]
        exact .inl (htree h.new m)

/-- **What `rollback` may have done** before its write probe, when it is stopped, raises or comes
to the probe. -/
theorem leads_rollback_steps {apply : Bool}
    (htree : w (.forward_state op) = none → ∀ m, w (.forward_displaced op m) = none) :
    (rollback_steps sha256 op apply).Leads exec
      (fun w' => RollingBack sha256 op w w' ∧ Unproved op w w')
      (fun plan w' => Unproved op w w' ∧ plan.Fit sha256 op (RollingBack sha256 op w) w') w := by
  have hsame : RollingBack sha256 op w w ∧ Unproved op w w := ⟨.untouched rfl, .inl rfl⟩
  refine Prog.leads_bind.mpr (leads_refuse_root hsame ?_)
  refine Prog.leads_bind.mpr (leads_regular hsame ?_)
  intro b hmain
  refine Prog.leads_bind.mpr (leads_load_own_state hsame ?_)
  intro s hstate hown
  split
  · next hphase =>
      exact Prog.leads_bind.mpr (leads_abandon hstate hphase fun r w' h => leads_pure h.symm)
  · exact hsame
  · exact hsame
  · next hphase => exact leads_restore_old hstate hown ⟨b, hmain⟩ (.inl hphase) htree
  · next hphase => exact leads_restore_old hstate hown ⟨b, hmain⟩ (.inr (.inl hphase)) htree
  · next hphase => exact leads_restore_old hstate hown ⟨b, hmain⟩ (.inr (.inr hphase)) htree

end Rollback

end OpenChronicle.OfflineRestore
