/-
A rollback that was interrupted: which volumes a repeated attempt takes up, and that it finishes.

The checks of a repeated attempt are decided here one by one, for runs whose file steps do not fail: it
goes on exactly where `Checked` holds. Elsewhere it raises `RestoreError` with nothing changed, or,
where something that is not a file stands in the place of a recorded sidecar, the `OSError` of reading
it.

The other files about the helper say what can be relied on wherever it stops, and there a step that
fails is one more place to stop. To say that a call comes to its end one has to know that its steps do
not fail, and then each check has two outcomes or three, which must exclude each other and leave nothing
out. That is the form of the lemmas below: one hypothesis for each outcome, and the conclusion that the
part has one of them (`Total`).

A sidecar is the one place with three outcomes. It may be as recorded, displaced already or not; it may
be another file, and then the attempt is refused; or it may be no file at all, and then reading it
raises before the check can refuse.
-/
import OpenChronicle.OfflineRestore.Calls

set_option autoImplicit false

namespace OpenChronicle.OfflineRestore

open Program

variable {α : Type}

/-! ## Steps that do not fail -/

/-- No file step fails. -/
def Smooth (c : Choice) : Prop := c.fails = false

/-- No file step fails, and the helper does not run as root. -/
def Usual (c : Choice) : Prop := c.fails = false ∧ c.yes .is_root = false

theorem total_pure {good : Choice → Prop} {w : Volume} {E : Fault → Volume → Prop}
    {R : α → Volume → Prop} {a : α} (hR : R a w) : (pure a : Helper α).Total exec good R E w := hR

section Smooth

variable {good : Choice → Prop} (hgood : ∀ c, good c → c.fails = false) {w : Volume}
  {E : Fault → Volume → Prop}
include hgood

/-- A step that does not fail has one outcome. -/
theorem total_file_step {o : FileOp} {R : o.Resp → Volume → Prop}
    {r : Except Fault o.Resp × Volume} (hexec : ∀ c, exec o c w = c.or_fails w r)
    (hr : Prog.Outcome R E r.1 r.2) : (act o).Total exec good R E w := by
  refine Prog.total_op fun c hc => ?_
  rw [hexec c, Choice.or_fails, hgood c hc]
  exact hr

/-- Looking cannot fail. -/
theorem total_look {p : Path} {R : Option Node → Volume → Prop} (hR : R (w p) w) :
    (act (.look p)).Total exec good R E w :=
  total_file_step hgood (fun _ => rfl) hR

theorem total_path_exists {p : Path} {R : Bool → Volume → Prop} (hR : R (found (w p)) w) :
    (path_exists p).Total exec good R E w :=
  Prog.total_bind (total_look hgood hR)

/-- The digest of what is no file is the `OSError`. -/
theorem total_sha256_of {sha256 : Bytes → Digest} {p : Path} {R : Digest → Volume → Prop}
    (hfile : ∀ b, w p = some (.file b) → R (sha256 b) w)
    (hother : is_regular (w p) = false → E .OSError w) :
    (sha256_of sha256 p).Total exec good R E w := by
  refine Prog.total_bind (total_file_step hgood (fun _ => rfl) ?_)
  split
  · next b hb => exact hfile b hb
  · next hno =>
      refine hother ?_
      rw [is_regular.eq_def]
      split
      · next b hb => exact absurd hb (hno b)
      · rfl

theorem total_sha256_of_file {sha256 : Bytes → Digest} {p : Path} {b : Bytes}
    {R : Digest → Volume → Prop} (hb : w p = some (.file b)) (hR : R (sha256 b) w) :
    (sha256_of sha256 p).Total exec good R E w := by
  refine total_sha256_of hgood ?_ ?_
  · intro c hc
    rw [← file_unique hb hc]
    exact hR
  · intro hother
    rw [hb] at hother
    cases hother

/-- A link is refused by name, before it is followed. -/
theorem total_regular {p : Path} {R : Unit → Volume → Prop}
    (hfile : ∀ b, w p = some (.file b) → R () w)
    (hother : is_regular (w p) = false → ∀ message, E (.RestoreError message) w) :
    (regular p).Total exec good R E w := by
  refine Prog.total_bind (total_look hgood ?_)
  split
  · next hreg =>
      rw [is_regular.eq_def] at hreg
      split at hreg
      · next b hb => exact hfile b hb
      · cases hreg
  · next hreg => exact hother (by simpa using hreg) _

/-- The record can be read here, since it is known to be one; whether it is the operation's own is
checked. -/
theorem total_load_own_state {op : String} {s : State} {R : State → Volume → Prop}
    (hstate : w (.state op) = some (.json s)) (hown : Own op s w → R s w)
    (hother : ¬Own op s w → ∀ message, E (.RestoreError message) w) :
    (load_own_state op).Total exec good R E w := by
  have hroot : (recovery_dir op).Total exec good
      (fun _ w' => w' = w ∧ is_id op = true ∧ is_symlink (w .recovery_root) = false) E w := by
    unfold recovery_dir
    split
    · next hid =>
        refine Prog.total_bind (total_look hgood ?_)
        split
        · next hlink =>
            refine hother (fun h => ?_) _
            rw [h.root] at hlink
            cases hlink
        · next hlink => exact ⟨rfl, hid, by simpa using hlink⟩
    · next hid => exact hother (fun h => hid h.id) _
  refine Prog.total_bind (Prog.total_mono hroot ?_ (fun _ _ => id))
  rintro _ _ ⟨rfl, hid, hlink⟩
  refine Prog.total_bind (Prog.total_bind (total_look hgood ?_))
  rw [hstate]
  refine total_pure ?_
  split
  · next hforeign => exact hother (fun h => hforeign.elim (absurd h.db) (absurd h.operation)) _
  · next hsame =>
      simp only [not_or, not_not] at hsame
      exact hown ⟨hid, hlink, hsame.1, hsame.2⟩

/-! ## The checks, decided -/

end Smooth

/-- What stands in the place of a recorded sidecar cannot be read as a file. -/
structure Unreadable (op : String) (files : List (Member × Digest)) (w : Volume) (m : Member) :
    Prop where
  recorded : files.lookup m ≠ none
  there : found (w (.live m)) = true
  no_link : is_symlink (w (.live m)) = false
  no_file : is_regular (w (.live m)) = false
  unmoved : w (.forward_displaced op m) = none

/-- The archive and the database of a repeated attempt are as recorded. -/
structure Sealed (sha256 : Bytes → Digest) (op : String) (s : State) (old_digest : Digest)
    (files : List (Member × Digest)) (w : Volume) : Prop where
  dir : w (.forward_state op) = some .dir
  recorded : s.forward_files = some files
  nonempty : files ≠ []
  archived : ∀ m digest, (m, digest) ∈ files →
    ∃ c, w (.forward op m) = some (.file c) ∧ sha256 c = digest
  main : ∃ c, w (.live .main) = some (.file c)
    ∧ (files.lookup .main = some (sha256 c) ∨ sha256 c = old_digest)

/-- The checks come to a sidecar that cannot be read. -/
def Stuck (sha256 : Bytes → Digest) (op : String) (s : State) (old_digest : Digest) (w : Volume) :
    Prop :=
  ∃ files, Sealed sha256 op s old_digest files w
    ∧ (Unreadable op files w .wal
      ∨ (SideChecked sha256 op files w .wal ∧ Unreadable op files w .shm))

theorem FileOrNone.no_link {n : Option Node} (h : FileOrNone n) : is_symlink n = false := by
  rcases h with rfl | ⟨b, rfl⟩
  · rfl
  · rfl

section Checks

variable {good : Choice → Prop} (hgood : ∀ c, good c → c.fails = false) {w : Volume}
  {E : Fault → Volume → Prop} {sha256 : Bytes → Digest} {op : String}

/-- The checks are those of the archive and of the two sidecars. -/
theorem Sealed.checked {s : State} {old_digest : Digest} {files : List (Member × Digest)}
    (h : Sealed sha256 op s old_digest files w) (hwal : SideChecked sha256 op files w .wal)
    (hshm : SideChecked sha256 op files w .shm) : Checked sha256 op s old_digest files w := by
  refine ⟨h.dir, h.recorded, h.nonempty, h.archived, h.main, ?_⟩
  intro m hm
  cases m with
  | main => exact absurd rfl hm
  | wal => exact hwal
  | shm => exact hshm

theorem Checked.sealed {s : State} {old_digest : Digest} {files : List (Member × Digest)}
    (h : Checked sha256 op s old_digest files w) : Sealed sha256 op s old_digest files w :=
  ⟨h.dir, h.recorded, h.nonempty, h.archived, h.main⟩

/-- The outcomes exclude each other. -/
theorem Unreadable.not_checked {files : List (Member × Digest)} {m : Member}
    (h : Unreadable op files w m) : ¬SideChecked sha256 op files w m := by
  intro hside
  unfold SideChecked at hside
  split at hside
  · next hnone => exact h.recorded hnone
  · rcases hside with ⟨c, hc, -⟩ | ⟨hnone, -⟩
    · have hfile := h.no_file
      rw [hc] at hfile
      cases hfile
    · have hthere := h.there
      rw [hnone] at hthere
      cases hthere

include hgood

/-- Every recorded file of the archive has its digest, or one of them does not. -/
theorem total_check_archived {files : List (Member × Digest)} {R : Unit → Volume → Prop}
    (hyes : (∀ m digest, (m, digest) ∈ files →
      ∃ c, w (.forward op m) = some (.file c) ∧ sha256 c = digest) → R () w)
    (hno : ¬(∀ m digest, (m, digest) ∈ files →
      ∃ c, w (.forward op m) = some (.file c) ∧ sha256 c = digest) →
      ∀ message, E (.RestoreError message) w) :
    (check_archived sha256 op files).Total exec good R E w := by
  induction files with
  | nil => exact hyes (by simp)
  | cons file rest ih =>
      obtain ⟨m, digest⟩ := file
      have hrefuse : ¬(∃ c, w (.forward op m) = some (.file c) ∧ sha256 c = digest) →
          ∀ message, E (.RestoreError message) w :=
        fun hbad => hno fun hall => hbad (hall m digest List.mem_cons_self)
      refine Prog.total_bind (total_regular hgood ?_ ?_)
      swap
      · intro hother
        refine hrefuse ?_
        rintro ⟨c, hc, -⟩
        rw [hc] at hother
        cases hother
      intro c hc
      refine Prog.total_bind (total_sha256_of_file hgood hc ?_)
      -- the digest decides: refused here, or on to the next file
      split
      · next hdiffers =>
          refine hrefuse ?_ _
          rintro ⟨c', hc', hsame⟩
          obtain rfl := file_unique hc hc'
          exact hdiffers hsame
      · next hsame =>
          refine ih (fun hrest => hyes ?_) (fun hrest => hno fun hall => hrest ?_)
          · intro m' digest' hin
            rcases List.mem_cons.mp hin with heq | hin
            · obtain ⟨rfl, rfl⟩ := Prod.mk.inj heq
              exact ⟨c, hc, not_not.mp hsame⟩
            · exact hrest m' digest' hin
          · exact fun m' digest' hin => hall m' digest' (List.mem_cons_of_mem _ hin)

/-- The round over a sidecar has three ways to end. -/
theorem total_check_sidecar {files : List (Member × Digest)} {m : Member} {R : Unit → Volume → Prop}
    (hyes : SideChecked sha256 op files w m → R () w)
    (hstuck : Unreadable op files w m → E .OSError w)
    (hno : ¬SideChecked sha256 op files w m → ¬Unreadable op files w m →
      ∀ message, E (.RestoreError message) w) :
    (check_sidecar sha256 op files m).Total exec good R E w := by
  refine Prog.total_bind (total_look hgood ?_)
  refine Prog.total_bind (total_look hgood ?_)
  split
  · next hlinks =>
      refine hno (fun h => ?_) (fun h => ?_) _
      · rw [h.regular.1.no_link, h.regular.2.no_link] at hlinks
        cases hlinks
      · rw [h.no_link, h.unmoved] at hlinks
        cases hlinks
  next hlinks =>
  simp only [Bool.or_eq_true, not_or, Bool.not_eq_true] at hlinks
  unfold SideChecked at hyes hno
  split
  · next hlookup =>
      rw [hlookup] at hyes hno
      split
      · next hfound =>
          refine hno (fun h => ?_) (fun h => h.recorded hlookup) _
          rw [h.1, h.2] at hfound
          cases hfound
      · next hfound =>
          simp only [Bool.or_eq_true, not_or, Bool.not_eq_true] at hfound
          exact hyes ⟨eq_none_of_not_found hfound.1 hlinks.1, eq_none_of_not_found hfound.2 hlinks.2⟩
  next digest hlookup =>
  rw [hlookup] at hyes hno
  split
  · next hthere =>
      -- it is in place
      split
      · next hmoved =>
          refine hno (fun h => ?_) (fun h => ?_) _
          · rcases h with ⟨c, -, -, hnone⟩ | ⟨hnone, -⟩
            · rw [hnone] at hmoved
              cases hmoved
            · rw [hnone] at hthere
              cases hthere
          · rw [h.unmoved] at hmoved
            cases hmoved
      next hmoved =>
      have hnone : w (.forward_displaced op m) = none :=
        eq_none_of_not_found (by simpa using hmoved) hlinks.2
      refine Prog.total_bind (total_sha256_of hgood ?_ ?_)
      · intro c hc
        split
        · next hdiffers =>
            refine hno (fun h => ?_) (fun h => ?_) _
            · rcases h with ⟨c', hc', hsame, -⟩ | ⟨hgone, -⟩
              · obtain rfl := file_unique hc hc'
                exact hdiffers hsame
              · rw [hgone] at hc
                cases hc
            · have hfile := h.no_file
              rw [hc] at hfile
              cases hfile
        · next hsame => exact hyes (.inl ⟨c, hc, not_not.mp hsame, hnone⟩)
      · intro hother
        exact hstuck ⟨by rw [hlookup]; nofun, hthere, hlinks.1, hother, hnone⟩
  · next hthere =>
      have hgone : w (.live m) = none := eq_none_of_not_found (by simpa using hthere) hlinks.1
      have hreadable : ¬Unreadable op files w m := by
        intro h
        exact hthere h.there
      split
      · next hother =>
          refine hno (fun h => ?_) hreadable _
          rcases h with ⟨c, hc, -⟩ | ⟨-, c, hc, -⟩
          · rw [hgone] at hc
            cases hc
          · rw [hc] at hother
            cases hother
      next hfile =>
      refine Prog.total_bind (total_sha256_of hgood ?_ ?_)
      · intro c hc
        split
        · next hdiffers =>
            refine hno (fun h => ?_) hreadable _
            rcases h with ⟨c', hc', -⟩ | ⟨-, c', hc', hsame⟩
            · rw [hgone] at hc'
              cases hc'
            · obtain rfl := file_unique hc hc'
              exact hdiffers hsame
        · next hsame => exact hyes (.inr ⟨hgone, c, hc, not_not.mp hsame⟩)
      · intro hother
        rw [hother] at hfile
        exact absurd rfl hfile

/-- **A repeated attempt goes on exactly where it finds everything as it was left.** -/
theorem total_resume_rollback {s : State} {old_digest : Digest} {R : State → Volume → Prop}
    (hmain : is_regular (w (.live .main)) = true)
    (hyes : ∀ files, Checked sha256 op s old_digest files w → R s w)
    (hstuck : Stuck sha256 op s old_digest w → E .OSError w)
    (hno : (∀ files, ¬Checked sha256 op s old_digest files w) → ¬Stuck sha256 op s old_digest w →
      ∀ message, E (.RestoreError message) w) :
    (resume_rollback sha256 op s old_digest).Total exec good R E w := by
  -- what is refused before the sidecars are looked at
  have hunsealed : (∀ files, ¬Sealed sha256 op s old_digest files w) →
      ∀ message, E (.RestoreError message) w := by
    intro hnone
    refine hno (fun files h => hnone files h.sealed) ?_
    rintro ⟨files, h, -⟩
    exact hnone files h
  refine Prog.total_bind (total_look hgood ?_)
  split
  swap
  · next hdir => exact hunsealed (fun files h => hdir h.dir) _
  next hdir =>
  have hfiles : ∀ {files files'}, s.forward_files = some files →
      Sealed sha256 op s old_digest files' w → files' = files := by
    intro files files' heq h
    rw [h.recorded] at heq
    exact Option.some.inj heq
  split
  · next hrecorded =>
      refine hunsealed (fun files h => ?_) _
      rw [h.recorded] at hrecorded
      cases hrecorded
  · next hrecorded => exact hunsealed (fun files h => h.nonempty (hfiles hrecorded h)) _
  next files hnonempty hrecorded =>
  refine Prog.total_bind (total_check_archived hgood ?_ ?_)
  swap
  · exact fun hbad => hunsealed fun files' h => hbad (hfiles hrecorded h ▸ h.archived)
  intro harchived
  refine Prog.total_bind (total_sha256_of hgood ?_ ?_)
  swap
  · intro hother
    rw [hmain] at hother
    cases hother
  intro c hc
  split
  · next hforeign =>
      refine hunsealed (fun files' h => ?_) _
      obtain rfl := hfiles hrecorded h
      obtain ⟨c', hc', hor⟩ := h.main
      obtain rfl := file_unique hc hc'
      exact hor.elim hforeign.1 hforeign.2
  next hknown =>
  have hsealed : Sealed sha256 op s old_digest files w := by
    refine ⟨hdir, hrecorded, fun hnil => hnonempty hnil, harchived, c, hc, ?_⟩
    by_cases hsame : files.lookup .main = some (sha256 c)
    · exact .inl hsame
    · refine .inr ?_
      by_contra hother
      exact hknown ⟨hsame, hother⟩
  have hunchecked : ∀ {m}, m ≠ .main → ¬SideChecked sha256 op files w m →
      ∀ files', ¬Checked sha256 op s old_digest files' w := by
    intro m hm hbad files' h
    obtain rfl := hfiles hrecorded h.sealed
    exact hbad (h.side m hm)
  have hunstuck : (Unreadable op files w .wal → False) →
      (SideChecked sha256 op files w .wal → Unreadable op files w .shm → False) →
      ¬Stuck sha256 op s old_digest w := by
    rintro hwal hshm ⟨files', h, hor⟩
    obtain rfl := hfiles hrecorded h
    exact hor.elim hwal fun hboth => hshm hboth.1 hboth.2
  refine Prog.total_bind (Prog.total_bind (total_check_sidecar hgood ?_ ?_ ?_))
  · intro hwal
    refine Prog.total_bind (total_check_sidecar hgood ?_ ?_ ?_)
    · exact fun hshm => hyes files (hsealed.checked hwal hshm)
    · exact fun hunreadable => hstuck ⟨files, hsealed, .inr ⟨hwal, hunreadable⟩⟩
    · intro hbad hreadable
      exact hno (hunchecked (by decide) hbad)
        (hunstuck (fun h => h.not_checked hwal) fun _ => hreadable)
  · exact fun hunreadable => hstuck ⟨files, hsealed, .inl hunreadable⟩
  · intro hbad hreadable
    exact hno (hunchecked (by decide) hbad) (hunstuck hreadable fun hwal _ => hbad hwal)

end Checks

/-! ## The repeated attempt -/

/-- A repeated attempt comes to its checks: the record is its own, and so is the old database. -/
structure Resumable (sha256 : Bytes → Digest) (op : String) (s : State) (d : OldState) (w : Volume) :
    Prop where
  own : Own op s w
  main : ∃ b, w (.live .main) = some (.file b)
  assessed : s.old_state = some d
  available : d.rollback_available = true
  old : ∃ old, w (.old_consistent op) = some (.file old) ∧ sha256 old = d.sha256

/-- A repeated attempt passes all its checks. -/
def Passes (sha256 : Bytes → Digest) (op : String) (s : State) (w : Volume) : Prop :=
  ∃ d files, Resumable sha256 op s d w ∧ Checked sha256 op s d.sha256 files w

/-- A repeated attempt comes to a recorded sidecar in whose place is something that is no file. -/
def Blocked (sha256 : Bytes → Digest) (op : String) (s : State) (w : Volume) : Prop :=
  ∃ d, Resumable sha256 op s d w ∧ Stuck sha256 op s d.sha256 w

section Attempt

variable {good : Choice → Prop} {w : Volume} {X : Volume → Prop} {E : Fault → Volume → Prop}
  {sha256 : Bytes → Digest} {op : String} {s : State}

theorem total_ask {q : Question} {R : Bool → Volume → Prop} (hR : ∀ c, good c → R (c.yes q) w) :
    (act (.ask q)).Total exec good R E w := Prog.total_op fun c hc => hR c hc

/-- Whether the helper runs as root is asked before anything is changed. -/
theorem total_refuse_root {R : Unit → Volume → Prop} (hR : R () w)
    (hroot : ∀ c, good c → c.yes .is_root = true → ∀ message, E (.RestoreError message) w) :
    refuse_root.Total exec good R E w := by
  refine Prog.total_bind (total_ask fun c hc => ?_)
  split
  · next hyes => exact hroot c hc hyes _
  · exact hR

/-- **A repeated attempt, by what it finds.** -/
theorem via_rollback {R : Result → Volume → Prop} (hgood : ∀ c, good c → c.fails = false)
    (hstate : w (.state op) = some (.json s)) (hphase : s.phase = .rolling_back)
    (hroot : ∀ c, good c → c.yes .is_root = true → ∀ message, X w ∧ E (.RestoreError message) w)
    (hyes : ∀ d files, Resumable sha256 op s d w → Checked sha256 op s d.sha256 files w →
      (install_old sha256 op s d.sha256).Via exec good X (fun x w' =>
        (finish op (.probe x.1 "then start the service." fun s => .rolled_back s x.2)).Total exec good
          R E w') E w)
    (hblocked : Blocked sha256 op s w → X w ∧ E .OSError w)
    (hno : ¬Passes sha256 op s w → ¬Blocked sha256 op s w →
      ∀ message, X w ∧ E (.RestoreError message) w) :
    (rollback sha256 op true).Via exec good X R E w := by
  -- what is refused before the checks of a repeated attempt
  have hrefuse : (∀ d, ¬Resumable sha256 op s d w) → ∀ message, X w ∧ E (.RestoreError message) w := by
    intro hnone
    refine hno ?_ ?_
    · rintro ⟨d, files, h, -⟩
      exact hnone d h
    · rintro ⟨d, h, -⟩
      exact hnone d h
  refine Prog.via_then ?_
  refine Prog.via_bind (total_refuse_root ?_ hroot)
  refine Prog.via_bind (total_regular hgood ?_ ?_)
  swap
  · intro hother
    refine hrefuse fun d h => ?_
    obtain ⟨b, hb⟩ := h.main
    rw [hb] at hother
    cases hother
  intro b hmain
  refine Prog.via_bind (total_load_own_state hgood hstate ?_ ?_)
  swap
  · exact fun hforeign => hrefuse fun d h => hforeign h.own
  intro hown
  rw [hphase]
  dsimp only
  unfold restore_old
  split
  · next hassessed =>
      refine Prog.via_now (hrefuse (fun d h => ?_) "").1 (hrefuse (fun d h => ?_) _).2
      · rw [h.assessed] at hassessed
        cases hassessed
      · rw [h.assessed] at hassessed
        cases hassessed
  next d hassessed =>
  have hsame : ∀ {d'}, Resumable sha256 op s d' w → d' = d := by
    intro d' h
    rw [h.assessed] at hassessed
    exact Option.some.inj hassessed
  split
  · next havailable =>
      have hnone : ∀ d', ¬Resumable sha256 op s d' w := by
        intro d' h
        have := h.available
        rw [hsame h] at this
        rw [this] at havailable
        cases havailable
      exact Prog.via_now (hrefuse hnone "").1 (hrefuse hnone _).2
  next havailable =>
  refine Prog.via_bind (total_regular hgood ?_ ?_)
  swap
  · intro hother
    refine hrefuse fun d' h => ?_
    obtain ⟨old, hold, -⟩ := h.old
    rw [hold] at hother
    cases hother
  intro old hold
  refine Prog.via_bind (total_sha256_of_file hgood hold ?_)
  split
  · next hdiffers =>
      have hnone : ∀ d', ¬Resumable sha256 op s d' w := by
        intro d' h
        obtain ⟨old', hold', hdigest⟩ := h.old
        obtain rfl := file_unique hold hold'
        rw [hsame h] at hdigest
        exact hdiffers hdigest
      exact Prog.via_now (hrefuse hnone "").1 (hrefuse hnone _).2
  next hdigest =>
  have hresumable : Resumable sha256 op s d w :=
    ⟨hown, ⟨b, hmain⟩, hassessed, by simpa using havailable, old, hold, not_not.mp hdigest⟩
  dsimp only [Bool.not_true]
  rw [if_neg (by decide)]
  refine Prog.via_bind (total_resume_rollback hgood (by rw [hmain]; rfl) ?_ ?_ ?_)
  · exact fun files hchecked => Prog.via_then (hyes d files hresumable hchecked)
  · exact fun hstuck => hblocked ⟨d, hresumable, hstuck⟩
  · intro hunchecked hunstuck
    refine hno ?_ ?_
    · rintro ⟨d', files, h, hchecked⟩
      obtain rfl := hsame h
      exact hunchecked files hchecked
    · rintro ⟨d', h, hstuck⟩
      obtain rfl := hsame h
      exact hunstuck hstuck

end Attempt

end OpenChronicle.OfflineRestore
