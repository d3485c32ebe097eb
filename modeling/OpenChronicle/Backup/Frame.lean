/-
What the calls of the catalog touch.

Every program below names the files that it may change (`Within`). What it does not name stays as it is
at each of its steps, whether it is killed there or a step raises (`within_wp`), so that the proofs
about the catalog have to follow only the files of one artifact.

The frame is proved once for a single step (`exec_frame`) and lifted to programs along their syntax:
there is one lemma for each way in which a program is put together, and the lemma about a call only
repeats how the source puts that call together. A call that comes to write another file fails here
first, at the set of roles that it is said to write.

A frame says more than that the other files are the same. A directory may appear, but one that is there
stays; a stem that was listed stays listed; an inspection that has been passed is not forgotten; and the
world stays well formed. These are the facts that the invariant of the catalog reads of the artifacts
that a call is not about.
-/
import OpenChronicle.Backup.Model

set_option autoImplicit false

namespace OpenChronicle.Backup

open Program Prog

/-! ## Frames -/

/-- Files are registered under their stems, in directories that are there. -/
structure Registered (w : World) : Prop where
  /-- A file whose stem were not listed would be one that no `glob` finds. -/
  stem : ∀ k s r, w.files (.file k s r) ≠ none → s ∈ w.stems k
  dir : ∀ k s r, w.files (.file k s r) ≠ none → w.files (.dir k) ≠ none
  /-- A directory lists a name once. -/
  nodup : ∀ k, (w.stems k).Nodup

/-- A set of files. -/
abbrev Touched := Kind → Stem → Role → Prop

/-- Nothing but the files of `t` has changed; a directory may have been made. -/
structure Frame (t : Touched) (w w' : World) : Prop where
  file : ∀ k s r, ¬ t k s r → w'.files (.file k s r) = w.files (.file k s r)
  /-- A directory that is there is not touched; one that is not may be made. -/
  dir : ∀ k, w.files (.dir k) ≠ none → w'.files (.dir k) = w.files (.dir k)
  stems : ∀ k, ∀ s ∈ w.stems k, s ∈ w'.stems k
  /-- Needed for the artifacts that the call is not about: they stay those that passed. -/
  passed : ∀ x ∈ w.passed, x ∈ w'.passed
  registered : Registered w → Registered w'
  /-- No step gives faults back, so that what holds with none left goes on holding. -/
  faults : w'.faults ≤ w.faults

section Frames

variable {t t' : Touched} {w w' w'' : World} {k : Kind} {s : Stem} {r : Role}

/-- A write is seen by who reads the same path, and by nobody else. -/
@[simp] theorem put_files_self (w : World) (p : Path) (node : Node) : (w.put p node).files p = some node :=
  Function.update_self _ _ _

/-- A step writes one path. -/
theorem put_files_of_ne (w : World) {p q : Path} (h : q ≠ p) (node : Node) :
    (w.put p node).files q = w.files q := Function.update_of_ne h _ _

@[simp] theorem remove_files_self (w : World) (p : Path) : (w.remove p).files p = none :=
  Function.update_self _ _ _

theorem remove_files_of_ne (w : World) {p q : Path} (h : q ≠ p) : (w.remove p).files q = w.files q :=
  Function.update_of_ne h _ _

@[simp] theorem put_file_dir (w : World) (k k' : Kind) (s : Stem) (r : Role) (node : Node) :
    (w.put (.file k s r) node).files (.dir k') = w.files (.dir k') :=
  put_files_of_ne w (by simp) node

@[simp] theorem remove_file_dir (w : World) (k k' : Kind) (s : Stem) (r : Role) :
    (w.remove (.file k s r)).files (.dir k') = w.files (.dir k') :=
  remove_files_of_ne w (by simp)

theorem Frame.refl (t : Touched) (w : World) : Frame t w w :=
  ⟨fun _ _ _ _ => rfl, fun _ _ => rfl, fun _ _ => id, fun _ => id, id, Nat.le_refl _⟩

/-- What neither of two parts touches, both leave. -/
theorem Frame.trans (h : Frame t w w') (h' : Frame t w' w'') : Frame t w w'' where
  file k s r hno := (h'.file k s r hno).trans (h.file k s r hno)
  dir k hk := (h'.dir k (by rw [h.dir k hk]; exact hk)).trans (h.dir k hk)
  stems k s hs := h'.stems k s (h.stems k s hs)
  passed x hx := h'.passed x (h.passed x hx)
  registered hw := h'.registered (h.registered hw)
  faults := Nat.le_trans h'.faults h.faults

/-- A frame may be made larger. -/
theorem Frame.mono (h : Frame t w w') (ht : ∀ k s r, t k s r → t' k s r) : Frame t' w w' where
  file k s r hno := h.file k s r fun hyes => hno (ht k s r hyes)
  dir := h.dir
  stems := h.stems
  passed := h.passed
  registered := h.registered
  faults := h.faults

/-- A step that raises uses up one of the faults that the call has left, and may do no more. -/
theorem frame_spend (t : Touched) (w : World) : Frame t w { w with faults := w.faults - 1 } :=
  ⟨fun _ _ _ _ => rfl, fun _ _ => rfl, fun _ _ => id, fun _ => id, fun h => ⟨h.stem, h.dir, h.nodup⟩, Nat.sub_le _ _⟩

/-- What `_inspect` notes of a file that passed is no part of the disk. -/
theorem frame_read (t : Touched) (w : World) (x : Path × Bytes) :
    Frame t w { w with passed := x :: w.passed } :=
  ⟨fun _ _ _ _ => rfl, fun _ _ => rfl, fun _ _ => id, fun _ h => List.mem_cons_of_mem x h,
    fun h => ⟨h.stem, h.dir, h.nodup⟩, Nat.le_refl _⟩

/-- A directory that is made leaves what there is. -/
theorem frame_put_dir (t : Touched) {p : Path} (hp : ∀ k s r, p ≠ .file k s r) (hnew : w.files p = none) :
    Frame t w (w.put p .dir) := by
  have hstems : (w.put p .dir).stems = w.stems := by
    rcases p with _ | k | ⟨k, s, r⟩
    · rfl
    · rfl
    · exact absurd rfl (hp k s r)
  have hfile : ∀ k s r, (w.put p .dir).files (.file k s r) = w.files (.file k s r) :=
    fun k s r => put_files_of_ne w (Ne.symm (hp k s r)) _
  have hdir : ∀ k, w.files (.dir k) ≠ none → (w.put p .dir).files (.dir k) = w.files (.dir k) := by
    intro k hk
    refine put_files_of_ne w ?_ _
    rintro rfl
    exact hk hnew
  refine ⟨fun k s r _ => hfile k s r, hdir, ?_, fun _ => id, fun h => ⟨?_, ?_, ?_⟩, Nat.le_refl _⟩
  · rw [hstems]
    exact fun _ _ => id
  · intro k s r hsome
    rw [hstems]
    exact h.stem k s r (by rw [← hfile]; exact hsome)
  · intro k s r hsome
    have hthere := h.dir k s r (by rw [← hfile]; exact hsome)
    rw [hdir k hthere]
    exact hthere
  · rw [hstems]
    exact h.nodup

/-- A name that was written is one that the directory has had. -/
theorem mem_stems_put (w : World) (k : Kind) (s : Stem) (r : Role) (node : Node) :
    s ∈ (w.put (.file k s r) node).stems k := by
  show s ∈ (if s ∈ w.stems k then w.stems else Function.update w.stems k (s :: w.stems k)) k
  split
  · next hold => exact hold
  · simp

/-- The list of stems only grows: a directory is never made to forget a name by a write. -/
theorem stems_put_of_mem {k' : Kind} {s' : Stem} {node : Node} (h : s' ∈ w.stems k') :
    s' ∈ (w.put (.file k s r) node).stems k' := by
  show s' ∈ (if s ∈ w.stems k then w.stems else Function.update w.stems k (s :: w.stems k)) k'
  split
  · exact h
  · by_cases hk : k' = k
    · subst hk
      simp [h]
    · rw [Function.update_of_ne hk]
      exact h

/-- And it is kept once. -/
theorem nodup_stems_put {node : Node} (h : ∀ k, (w.stems k).Nodup) (k' : Kind) :
    ((w.put (.file k s r) node).stems k').Nodup := by
  show ((if s ∈ w.stems k then w.stems else Function.update w.stems k (s :: w.stems k)) k').Nodup
  split
  · exact h k'
  · next hnew =>
      by_cases hk : k' = k
      · subst hk
        rw [Function.update_self]
        exact List.nodup_cons.mpr ⟨hnew, h k'⟩
      · rw [Function.update_of_ne hk]
        exact h k'

/-- A write in a directory that is there. Without the directory the file would be registered nowhere,
and the world would no longer be well formed. -/
theorem frame_put (ht : t k s r) (hhoused : w.files (.dir k) ≠ none) (node : Node) :
    Frame t w (w.put (.file k s r) node) := by
  refine ⟨?_, fun k' _ => put_file_dir w k k' s r node, fun _ _ => stems_put_of_mem, fun _ => id,
    fun h => ⟨?_, ?_, nodup_stems_put h.nodup⟩, Nat.le_refl _⟩
  · intro k' s' r' hno
    refine put_files_of_ne w ?_ node
    intro heq
    injection heq with hk hs hr
    subst hk hs hr
    exact hno ht
  · intro k' s' r' hsome
    by_cases hp : (Path.file k' s' r') = .file k s r
    · injection hp with hk hs hr
      subst hk hs hr
      exact mem_stems_put w k' s' r' node
    · refine stems_put_of_mem (h.stem k' s' r' ?_)
      intro hnone
      exact hsome ((put_files_of_ne w hp node).trans hnone)
  · intro k' s' r' hsome
    rw [put_file_dir]
    by_cases hp : (Path.file k' s' r') = .file k s r
    · injection hp with hk hs hr
      subst hk hs hr
      exact hhoused
    · refine h.dir k' s' r' ?_
      intro hnone
      exact hsome ((put_files_of_ne w hp node).trans hnone)

/-- `write` asks for the directory itself. -/
theorem frame_write (ht : t k s r) (w : World) (node : Node) : Frame t w (w.write (.file k s r) node) := by
  rw [World.write]
  split
  · next hhoused => exact frame_put ht (Option.isSome_iff_ne_none.mp hhoused) node
  · exact .refl t w

theorem frame_remove (ht : t k s r) (w : World) : Frame t w (w.remove (.file k s r)) := by
  have hold : ∀ p, (w.remove (.file k s r)).files p ≠ none → w.files p ≠ none := by
    intro p hsome hnone
    by_cases hp : p = .file k s r
    · subst hp
      exact hsome (remove_files_self w _)
    · exact hsome ((remove_files_of_ne w hp).trans hnone)
  refine ⟨?_, fun k' _ => remove_file_dir w k k' s r, fun _ _ => id, fun _ => id, fun h => ⟨?_, ?_, h.nodup⟩,
    Nat.le_refl _⟩
  · intro k' s' r' hno
    refine remove_files_of_ne w ?_
    intro heq
    injection heq with hk hs hr
    subst hk hs hr
    exact hno ht
  · intro k' s' r' hsome
    exact h.stem k' s' r' (hold _ hsome)
  · intro k' s' r' hsome
    rw [remove_file_dir]
    exact h.dir k' s' r' (hold _ hsome)

end Frames

/-! ## Steps -/

/-- The paths that a step may change. -/
def FileOp.writes : FileOp → List Path
  | .unlink p _ => [p]
  | .replace source target => [source, target]
  | .sqlite_write p => [p]
  | .open_new p => [p]
  | .write_some p => [p]
  | .write_manifest p _ => [p]
  | _ => []

/-- A step changes only files of `t`. -/
def FileOp.Within (t : Touched) (o : FileOp) : Prop := ∀ p ∈ o.writes, ∃ k s r, p = .file k s r ∧ t k s r

section Steps

variable {env : Env} {t : Touched} {w : World}

/-- A step that raises may have done a part of its work; that part is within what it names too. -/
theorem failed_frame (o : FileOp) (ho : o.Within t) (c : Choice) (w : World) :
    Frame t w (o.failed c w).2 := by
  cases o with
  | sqlite_write p =>
      obtain ⟨k, s, r, rfl, ht⟩ := ho p (by simp [FileOp.writes])
      exact frame_write ht w _
  | write_some p =>
      obtain ⟨k, s, r, rfl, ht⟩ := ho p (by simp [FileOp.writes])
      exact frame_write ht w _
  | write_manifest p m =>
      obtain ⟨k, s, r, rfl, ht⟩ := ho p (by simp [FileOp.writes])
      exact frame_write ht w _
  | _ => exact .refl t w

/-- Making a directory touches no file, so it is within every set of files. -/
theorem mkdir_frame (t : Touched) (k : Kind) (c : Choice) (w : World) :
    Frame t w ((FileOp.mkdir k).done env c w).2 := by
  simp only [FileOp.done]
  split
  · next hnew =>
      split
      · next hroot =>
          refine (frame_put_dir t (by simp) hroot).trans (frame_put_dir t (by simp) ?_)
          exact (put_files_of_ne w (by simp) .dir).trans hnew
      · exact frame_put_dir t (by simp) hnew
  · exact .refl t w
  · exact .refl t w
  · exact .refl t w

theorem done_frame (o : FileOp) (ho : o.Within t) (c : Choice) (w : World) :
    Frame t w (o.done env c w).2 := by
  cases o with
  -- the writes; each names its own file of a snapshot that the frame leaves out
  | mkdir k => exact mkdir_frame t k c w
  | unlink p missing_ok =>
      obtain ⟨k, s, r, rfl, ht⟩ := ho p (by simp [FileOp.writes])
      simp only [FileOp.done]
      split
      · exact frame_remove ht w
      · split
        · exact .refl t w
        · exact .refl t w
  | replace source target =>
      obtain ⟨k, s, r, rfl, ht⟩ := ho source (by simp [FileOp.writes])
      obtain ⟨k', s', r', rfl, ht'⟩ := ho target (by simp [FileOp.writes])
      simp only [FileOp.done]
      split
      · split
        · next hhoused =>
            -- a rename is a removal and then a write
            refine (frame_remove ht w).trans (frame_put ht' ?_ _)
            rw [remove_file_dir]
            exact Option.isSome_iff_ne_none.mp hhoused
        · exact .refl t w
      · exact .refl t w
  | sqlite_write p =>
      obtain ⟨k, s, r, rfl, ht⟩ := ho p (by simp [FileOp.writes])
      exact frame_write ht w _
  | open_new p =>
      obtain ⟨k, s, r, rfl, ht⟩ := ho p (by simp [FileOp.writes])
      simp only [FileOp.done]
      split
      · exact frame_write ht w _
      · exact .refl t w
  | write_some p =>
      obtain ⟨k, s, r, rfl, ht⟩ := ho p (by simp [FileOp.writes])
      exact frame_write ht w _
  | write_manifest p m =>
      obtain ⟨k, s, r, rfl, ht⟩ := ho p (by simp [FileOp.writes])
      exact frame_write ht w _
  -- a read writes nothing but the record of what was read
  | read p =>
      simp only [FileOp.done]
      split
      · exact frame_read t w _
      · exact .refl t w
  | stat p =>
      simp only [FileOp.done]
      split
      · exact .refl t w
      · exact .refl t w
  | sqlite_read p =>
      simp only [FileOp.done]
      split
      · exact .refl t w
      · exact .refl t w
  | quick_check p =>
      simp only [FileOp.done]
      split
      · exact .refl t w
      · exact .refl t w
  | report p =>
      simp only [FileOp.done]
      split
      · exact .refl t w
      · exact .refl t w
  | read_manifest p =>
      simp only [FileOp.done]
      split
      · exact .refl t w
      · exact .refl t w
  | _ => exact .refl t w

/-- A step goes its way, or it raises and there is one less that may. -/
theorem exec_cases (env : Env) (o : FileOp) (c : Choice) (w : World) :
    exec env o c w = o.done env c w
      ∨ 0 < w.faults ∧ o.raises = true
        ∧ exec env o c w = o.failed c { w with faults := w.faults - 1 } := by
  rw [exec]
  split
  · next h => exact .inr ⟨h.2.2, h.2.1, rfl⟩
  · exact .inl rfl

/-- **A step changes what it names, and nothing else.** -/
theorem exec_frame (o : FileOp) (ho : o.Within t) (c : Choice) (w : World) :
    Frame t w (exec env o c w).2 := by
  rcases exec_cases env o c w with hdone | ⟨-, -, hfailed⟩
  · rw [hdone]
    exact done_frame o ho c w
  · rw [hfailed]
    exact (frame_spend t w).trans (failed_frame o ho c _)

end Steps

/-! ## Programs -/

/-- The program changes only files of `t`. -/
def Within {α : Type} (t : Touched) (p : Catalog α) : Prop := p.Makes (FileOp.Within t)

section Programs

variable {α β : Type} {env : Env} {t : Touched} {w : World}

/-- **At each of its steps, and however it ends, a program has changed only what it names.** -/
theorem within_wp {p : Catalog α} (hp : Within t p) (w : World) :
    p.wp (exec env) (Frame t w) (fun _ => Frame t w) w :=
  wp_of_makes (R := Frame t) (Frame.refl t) (fun _ _ _ => Frame.trans)
    (hp.mono fun o ho c w => exec_frame o ho c w)

/-- A program stays within what its steps stay within; the lemmas go along its text. -/
theorem within_act {o : FileOp} (ho : o.Within t) : Within t (act o) := makes_op (S := fileSig) ho

/-- A step that writes nothing. -/
theorem within_idle {o : FileOp} (ho : o.writes = []) : Within t (act o) := by
  refine within_act ?_
  intro p hp
  rw [ho] at hp
  cases hp

/-- What a part of a call touches is touched by the call. -/
theorem within_mono {t' : Touched} {p : Catalog α} (hp : Within t p) (ht : ∀ k s r, t k s r → t' k s r) :
    Within t' p := by
  refine Makes.mono hp ?_
  intro o ho q hq
  obtain ⟨k, s, r, rfl, h⟩ := ho q hq
  exact ⟨k, s, r, rfl, ht k s r h⟩

theorem within_bind {p : Catalog α} {f : α → Catalog β} (hp : Within t p) (hf : ∀ a, Within t (f a)) :
    Within t (p >>= f) := Makes.bind hp hf

/-- What is caught has still been done. -/
theorem within_attempt {p : Catalog α} (hp : Within t p) : Within t p.attempt := Makes.attempt hp

theorem within_pure (a : α) : Within t (pure a) := trivial

theorem within_raise (e : Fault) : Within t (Prog.raise e : Catalog α) := trivial

/-- A refusal is no step at all. -/
theorem within_refuse (message : String) : Within t (refuse message : Catalog α) := trivial

/-- Both branches count, whichever is taken: the frame is about the text of the program. -/
theorem within_ite {c : Prop} [Decidable c] {p q : Catalog α} (hp : Within t p) (hq : Within t q) :
    Within t (if c then p else q) := by
  split
  · exact hp
  · exact hq

/-- A question reads. -/
theorem within_asked (question : Option Node → Bool) (p : Path) : Within t (asked question p) :=
  within_bind (within_idle rfl) fun _ => within_pure _

theorem within_any_of {ps : List (Catalog Bool)} (hps : ∀ p ∈ ps, Within t p) : Within t (any_of ps) := by
  induction ps with
  | nil => exact within_pure _
  | cons p rest ih =>
      refine within_bind (hps p (by simp)) fun yes => within_ite (within_pure _) (ih ?_)
      intro q hq
      exact hps q (by simp [hq])

theorem within_suppress {p : Catalog Unit} (hp : Within t p) : Within t (suppress p) := by
  refine within_bind (within_attempt hp) ?_
  intro r
  split
  · exact within_pure _
  · exact within_raise _
  · exact within_pure _

end Programs

/-! ## The calls -/

/-- Some files of one artifact. -/
def own (id : ArtifactId) (roles : List Role) : Touched :=
  fun k s r => k = id.kind ∧ s = id.stem ∧ r ∈ roles

section Calls

variable {env : Env} {t : Touched} {id : ArtifactId} {roles : List Role}

/-- A step of a call that is about one artifact. -/
theorem within_own {o : FileOp} (ho : ∀ p ∈ o.writes, ∃ r ∈ roles, p = id.path r) :
    Within (own id roles) (act o) := by
  refine within_act ?_
  intro p hp
  obtain ⟨r, hr, rfl⟩ := ho p hp
  exact ⟨id.kind, id.stem, r, rfl, rfl, rfl, hr⟩

theorem own_mono {roles' : List Role} (h : roles ⊆ roles') :
    ∀ k s r, own id roles k s r → own id roles' k s r :=
  fun _ _ _ ⟨hk, hs, hr⟩ => ⟨hk, hs, h hr⟩

theorem within_check_root : Within t (check_root env) := by
  refine within_ite (within_bind (within_any_of ?_) fun _ => ?_) (within_pure _)
  · intro p hp
    simp only [List.mem_cons, List.not_mem_nil, or_false] at hp
    rcases hp with rfl | rfl | rfl
    · exact within_pure _
    · exact within_asked _ _
    · exact within_asked _ _
  · exact within_ite (within_refuse _) (within_pure _)

theorem within_prepare (k : Kind) : Within t (prepare env k) := by
  refine within_bind within_check_root fun _ => within_bind (within_idle rfl) fun _ => ?_
  refine within_bind (within_asked _ _) fun _ => within_ite (within_refuse _) ?_
  refine within_bind (within_idle rfl) fun _ => within_bind (within_idle rfl) fun _ => ?_
  exact within_ite (within_refuse _) (within_pure _)

theorem within_copy_pages : Within (own id [.staged]) (copy_pages id) := by
  have hwrite : Within (own id [.staged]) (act (.sqlite_write (id.path .staged))) :=
    within_own (by simp [FileOp.writes])
  refine within_bind hwrite fun _ => Makes.tryFinally (within_bind hwrite fun _ => ?_) hwrite
  refine within_bind (within_attempt hwrite) ?_
  intro r
  split
  · exact within_pure _
  · exact within_raise _
  · exact within_pure _

/-- A copy that fails `quick_check` is renamed, not removed: its name is one of those that may change. -/
theorem within_stage_backup : Within (own id [.staged, .failed_quick_check, .db]) (stage_backup id) := by
  refine within_bind (within_mono within_copy_pages (own_mono (by simp))) fun _ => ?_
  refine within_bind (within_attempt ?_) ?_
  · refine within_bind (within_idle rfl) fun _ => within_bind (within_attempt (within_idle rfl)) ?_
    intro r
    split
    · exact within_pure _
    · exact within_raise _
  · intro r
    split
    · refine within_bind (within_suppress (within_own ?_)) fun _ => within_raise _
      simp [FileOp.writes]
    · exact within_raise _
    · refine within_own ?_
      simp [FileOp.writes]

theorem within_if_staged {p : Catalog Unit} (hp : Within t p) : Within t (if_staged id p) :=
  within_bind (within_asked _ _) fun _ => within_ite hp (within_pure _)

theorem within_backup :
    Within (own id [.staged, .failed_quick_check, .db]) (backup_from_connection id) := by
  have hunlink : Within (own id [.staged, .failed_quick_check, .db])
      (act (.unlink (id.path .staged) false)) := within_own (by simp [FileOp.writes])
  refine within_bind (within_idle rfl) fun _ => within_bind (within_if_staged hunlink) fun _ => ?_
  refine within_bind (within_attempt within_stage_backup) ?_
  intro r
  split
  · exact within_bind (within_if_staged (within_suppress hunlink)) fun _ => within_raise _
  · exact within_bind (within_idle rfl) fun _ => within_pure _

theorem within_query : Within t (query id) := by
  refine within_bind (within_attempt (within_idle rfl)) ?_
  intro r
  split
  · exact within_refuse _
  · exact within_raise _
  · split
    · exact within_refuse _
    · exact within_pure _

theorem within_inspect : Within t (inspect env id) := by
  refine within_bind (within_any_of ?_) fun _ => within_ite (within_refuse _) ?_
  · intro p hp
    simp only [List.mem_cons, List.not_mem_nil, or_false] at hp
    rcases hp with rfl | rfl
    · exact within_asked _ _
    · exact within_asked _ _
  · refine within_bind (within_any_of ?_) fun _ => within_ite (within_refuse _) ?_
    · intro p hp
      simp only [List.mem_cons, List.not_mem_nil, or_false] at hp
      rcases hp with rfl | rfl
      · exact within_asked _ _
      · exact within_asked _ _
    · refine within_bind within_query fun _ => within_bind (within_idle rfl) fun _ => ?_
      exact within_bind (within_idle rfl) fun _ => within_pure _

/-- What `create` writes before the manifest. -/
def snapshot_roles : List Role := [.staged, .failed_quick_check, .db, .failed_verify]

theorem within_snapshot : Within (own id snapshot_roles) (snapshot env id) := by
  refine within_bind (within_prepare _) fun _ => within_ite (within_refuse _) ?_
  refine within_bind (within_mono within_backup (own_mono (by simp [snapshot_roles]))) fun _ => ?_
  refine within_bind (within_idle rfl) fun _ => within_bind (within_idle rfl) fun _ => ?_
  refine within_bind (within_attempt within_inspect) ?_
  intro r
  split
  · refine within_bind (within_own ?_) fun _ => within_bind (within_idle rfl) fun _ => within_refuse _
    simp [FileOp.writes, snapshot_roles]
  · exact within_raise _
  · exact within_pure _

/-- The manifest is written under a temporary name and renamed. -/
theorem within_publish (m : Manifest) :
    Within (own id [.manifest_temp, .manifest]) (publish_manifest id m) := by
  have hwrites : ∀ o : FileOp, o.writes = [id.path .manifest_temp] →
      Within (own id [.manifest_temp, .manifest]) (act o) := by
    intro o ho
    refine within_own ?_
    simp [ho]
  refine Makes.tryFinally ?_ (hwrites _ rfl)
  refine within_bind (hwrites _ rfl) fun _ => within_bind (hwrites _ rfl) fun _ => ?_
  refine within_bind (hwrites _ rfl) fun _ => within_bind (within_idle rfl) fun _ => ?_
  refine within_bind (within_own ?_) fun _ => within_idle rfl
  simp [FileOp.writes]

theorem within_manifest : Within t (manifest id) := by
  refine within_ite (within_refuse _) (within_bind (within_any_of ?_) fun _ => ?_)
  · intro p hp
    simp only [List.mem_cons, List.not_mem_nil, or_false] at hp
    rcases hp with rfl | rfl | rfl | rfl
    · exact within_asked _ _
    · exact within_asked _ _
    · exact within_asked _ _
    · exact within_asked _ _
  · refine within_ite (within_refuse _) (within_bind (within_attempt (within_idle rfl)) ?_)
    intro r
    split
    · exact within_refuse _
    · exact within_refuse _
    · exact within_ite (within_refuse _) (within_pure _)

theorem within_manifests (k : Kind) (stems : List Stem) : Within t (manifests k stems) := by
  induction stems with
  | nil => exact within_pure _
  | cons s rest ih =>
      cases s with
      | other text => exact ih
      | catalog name =>
          refine within_bind (within_attempt within_manifest) ?_
          intro r
          split
          · exact ih
          · exact within_raise _
          · exact within_bind ih fun _ => within_pure _

theorem within_completed (kinds : List Kind) : Within t (completed kinds) := by
  induction kinds with
  | nil => exact within_pure _
  | cons k rest ih =>
      refine within_bind (within_any_of ?_) fun _ => within_ite ih ?_
      · intro p hp
        simp only [List.mem_cons, List.not_mem_nil, or_false] at hp
        rcases hp with rfl | rfl
        · exact within_asked _ _
        · exact within_asked _ _
      · refine within_bind (within_idle rfl) fun _ => within_bind (within_manifests k _) fun _ => ?_
        exact within_bind ih fun _ => within_pure _

/-- `list` writes nothing at all, and neither do the other calls that only read. -/
theorem within_list (limit : ℤ) : Within t (list limit) := by
  refine within_ite (within_refuse _) ?_
  exact within_bind (within_completed _) fun _ => within_pure _

theorem within_verify : Within t (verify env id) :=
  within_bind within_manifest fun _ => within_bind within_inspect fun _ =>
    within_ite (within_refuse _) (within_pure _)

theorem within_published (k : Kind) (stems : List Stem) : Within t (published k stems) := by
  induction stems with
  | nil => exact within_pure _
  | cons s rest ih => exact within_bind (within_idle rfl) fun _ => within_bind ih fun _ => within_pure _

theorem within_mtimes (k : Kind) (stems : List Stem) : Within t (mtimes k stems) := by
  induction stems with
  | nil => exact within_pure _
  | cons s rest ih => exact within_bind (within_idle rfl) fun _ => within_bind ih fun _ => within_pure _

/-- The pairs of some stems. -/
def pairs (k : Kind) (stems : List Stem) : Touched :=
  fun k' s r => k' = k ∧ s ∈ stems ∧ (r = .db ∨ r = .manifest)

/-- Retention is the only call that touches files of more than one artifact. -/
theorem within_prune (k : Kind) (keep_set : List Stem) (stems : List Stem) :
    Within (pairs k stems) (prune k keep_set stems) := by
  induction stems with
  | nil => exact within_pure _
  | cons s rest ih =>
      have hrest : Within (pairs k (s :: rest)) (prune k keep_set rest) :=
        within_mono ih fun _ _ _ ⟨hk, hs, hr⟩ => ⟨hk, List.mem_cons_of_mem s hs, hr⟩
      refine within_ite hrest (within_bind (within_suppress ?_) fun _ => hrest)
      refine within_bind (within_act ?_) fun _ => within_act ?_
      · intro p hp
        exact ⟨k, s, .db, List.mem_singleton.mp hp, rfl, by simp, .inl rfl⟩
      · intro p hp
        exact ⟨k, s, .manifest, List.mem_singleton.mp hp, rfl, by simp, .inr rfl⟩

end Calls

end OpenChronicle.Backup
