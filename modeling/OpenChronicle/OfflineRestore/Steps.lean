/-
What the parts of the helper do to the volume.

Each part has a footprint: the paths its steps may change, whatever is chosen and wherever it stops.
Beside it stands what the part has established once it returns. A caller takes both from `leads_part`,
and never looks into the part.

The two are proved in different ways. A footprint is a fact about the text of a part, since a step that
is not taken may still be in the text; it follows from the steps one by one (`exec_within`). What is
established is a fact about the runs that return, and it follows from the answers that the steps have
given. Neither mentions the calls of the helper, so that a change to `activate` or `rollback` leaves
this file alone.

Two parts are more than a footprint. `_save_state` writes a temporary file and renames it, so where it
stops the record is the old one or the new one, and never half of either (`Saving`). The write probe
opens the live database, and SQLite may then change the files beside it; what it may change depends on
whether the `-wal` has frames to be checkpointed, and the helper probes only when it has none
(`sqlite_touch_quiet`).
-/
import OpenChronicle.OfflineRestore.Model

set_option autoImplicit false

namespace OpenChronicle.OfflineRestore

open Program

variable {α β : Type}

theorem file_unique {n : Option Node} {b c : Bytes} (hb : n = some (.file b))
    (hc : n = some (.file c)) : b = c := by
  rw [hb] at hc
  exact Node.file.inj (Option.some.inj hc)

/-! ## Footprints -/

/-- The step changes nothing outside of `T`. -/
def FileOp.Within (T : Set Path) : FileOp → Prop
  | look _ => True
  | read _ => True
  | mkdir p _ => p ∈ T
  | create p => p ∈ T
  | append p _ => p ∈ T
  | write_state p _ => p ∈ T
  | replace source target => source ∈ T ∧ target ∈ T
  | unlink p _ => p ∈ T
  | ask _ => True
  | disk_free => True
  | sqlite_report _ => True
  | backup op => .old_consistent op ∈ T
  | sqlite_open => ∀ m, .live m ∈ T
  | sqlite_close => ∀ m, .live m ∈ T

/-- The two volumes differ in `T` only. -/
def Agree (T : Set Path) (w w' : Volume) : Prop := ∀ p, p ∉ T → w' p = w p

theorem Agree.refl (T : Set Path) (w : Volume) : Agree T w w := fun _ _ => rfl

theorem Agree.trans {T : Set Path} {w₁ w₂ w₃ : Volume} (h₁ : Agree T w₁ w₂) (h₂ : Agree T w₂ w₃) :
    Agree T w₁ w₃ := by
  intro p hp
  rw [h₂ p hp, h₁ p hp]

theorem Agree.mono {T T' : Set Path} {w w' : Volume} (h : Agree T w w') (hT : T ⊆ T') :
    Agree T' w w' := fun p hp => h p fun hin => hp (hT hin)

/-- A change inside the footprint. -/
theorem agree_update {T : Set Path} {p : Path} (hp : p ∈ T) (w : Volume) (n : Option Node) :
    Agree T w (Function.update w p n) := by
  intro q hq
  have hne : q ≠ p := by
    rintro rfl
    exact hq hp
  rw [Function.update_of_ne hne]

theorem Choice.agree_or_fails {T : Set Path} {c : Choice} {w : Volume} {r : Except Fault α × Volume}
    (h : Agree T w r.2) : Agree T w (c.or_fails w r).2 := by
  rw [Choice.or_fails]
  split
  · exact Agree.refl T w
  · exact h

theorem agree_with_family {T : Set Path} (hT : ∀ m, Path.live m ∈ T) (w : Volume)
    (main wal shm : Option Node) : Agree T w (with_family w main wal shm) := by
  have hmain := agree_update (hT .main) w main
  have hwal := agree_update (hT .wal) (Function.update w (.live .main) main) wal
  exact (hmain.trans hwal).trans (agree_update (hT .shm) _ shm)

/-- SQLite may write to each of the three live files when it opens the database. -/
theorem agree_sqlite_touch {T : Set Path} (hT : ∀ m, Path.live m ∈ T) (c : Choice) (w : Volume) :
    Agree T w (sqlite_touch c w) := by
  unfold sqlite_touch
  split
  · exact Agree.refl T w
  · exact agree_with_family hT w _ _ _
  · exact agree_with_family hT w _ _ _

/-- A step changes what it names, also when it fails. -/
theorem exec_within {T : Set Path} {o : FileOp} (ho : o.Within T) (c : Choice) (w : Volume) :
    Agree T w (exec o c w).2 := by
  cases o with
  -- an operation that fails has changed nothing
  | look p => exact Choice.agree_or_fails (Agree.refl T w)
  | read p =>
      refine Choice.agree_or_fails ?_
      split <;> exact Agree.refl T w
  | mkdir p exist_ok =>
      refine Choice.agree_or_fails ?_
      split
      · exact agree_update ho w _
      · split <;> exact Agree.refl T w
      · exact Agree.refl T w
  | create p =>
      refine Choice.agree_or_fails ?_
      split
      · exact agree_update ho w _
      · exact Agree.refl T w
  | append p block =>
      refine Choice.agree_or_fails ?_
      split
      · exact agree_update ho w _
      · exact Agree.refl T w
  | write_state p s => exact Choice.agree_or_fails (agree_update ho w _)
  | replace source target =>
      refine Choice.agree_or_fails ?_
      split
      · exact (agree_update ho.1 w _).trans (agree_update ho.2 _ _)
      · exact Agree.refl T w
  | unlink p missing_ok =>
      refine Choice.agree_or_fails ?_
      split
      · exact agree_update ho w _
      · split <;> exact Agree.refl T w
  | ask q => exact Agree.refl T w
  | disk_free => exact Agree.refl T w
  | sqlite_report p => exact Agree.refl T w
  -- the operations on a database come last; they do not fail halfway
  | backup op => exact agree_update ho w _
  | sqlite_open => exact agree_sqlite_touch ho c w
  | sqlite_close => exact agree_sqlite_touch ho c w

/-- Every step of the program is within `T`. -/
def Touches (T : Set Path) (p : Helper α) : Prop := p.Makes (FileOp.Within T)

theorem FileOp.Within.mono {T T' : Set Path} {o : FileOp} (h : o.Within T) (hT : T ⊆ T') :
    o.Within T' := by
  cases o with
  | replace source target => exact ⟨hT h.1, hT h.2⟩
  | sqlite_open => exact fun m => hT (h m)
  | sqlite_close => exact fun m => hT (h m)
  | mkdir p exist_ok => exact hT h
  | create p => exact hT h
  | append p block => exact hT h
  | write_state p s => exact hT h
  | unlink p missing_ok => exact hT h
  | backup op => exact hT h
  | look p => trivial
  | read p => trivial
  | ask q => trivial
  | disk_free => trivial
  | sqlite_report p => trivial

theorem Touches.mono {T T' : Set Path} {p : Helper α} (h : Touches T p) (hT : T ⊆ T') :
    Touches T' p := Prog.Makes.mono h fun _ ho => ho.mono hT

theorem touches_act {T : Set Path} {o : FileOp} (ho : o.Within T) : Touches T (act o) :=
  Prog.makes_op ho

/-- The footprint of a program is that of its parts. -/
theorem Touches.bind {T : Set Path} {p : Helper α} {f : α → Helper β} (hp : Touches T p)
    (hf : ∀ a, Touches T (f a)) : Touches T (p >>= f) := Prog.Makes.bind hp hf

section Parts

variable {I : Volume → Prop} {R : α → Volume → Prop} {w : Volume}

/-- **A part of a program**: wherever it stops the volume differs in its footprint only, and
if it returns it has established `R₀`. -/
theorem leads_part {T : Set Path} {p : Helper α} {R₀ : α → Volume → Prop} (ht : Touches T p)
    (hp : p.Leads exec (fun _ => True) R₀ w) (hI : ∀ w', Agree T w w' → I w')
    (hR : ∀ a w', Agree T w w' → R₀ a w' → R a w') : p.Leads exec I R w := by
  have hmakes : p.Makes fun o => ∀ c w, Agree T w (exec o c w).2 :=
    Prog.Makes.mono ht fun o ho => exec_within ho
  have hframe := Prog.wp_frame (Agree.refl T) (fun _ _ _ => Agree.trans) hmakes hp
  refine Prog.wp_mono hframe ?_ ?_
  · rintro w' ⟨-, hw'⟩
    exact hI w' hw'
  · rintro (e | a) w' ⟨hr, hw'⟩
    · exact hI w' hw'
    · exact hR a w' hw' hr

end Parts

/-! ## Single steps -/

section Single

variable {I : Volume → Prop} {w : Volume}

/-- A file step goes one way, or fails with nothing changed. -/
theorem leads_file_step {o : FileOp} {R : o.Resp → Volume → Prop} (hI : I w)
    {r : Except Fault o.Resp × Volume} (hexec : ∀ c, exec o c w = c.or_fails w r)
    (hr : Prog.Ends I R r.1 r.2) : (act o).Leads exec I R w := by
  refine Prog.wp_op.mpr ⟨hI, ?_⟩
  intro c
  rw [hexec c, Choice.or_fails]
  by_cases hfails : c.fails = true
  · rw [if_pos hfails]
    exact hI
  · rw [if_neg hfails]
    exact hr

/-- The single steps, each with what is known when it has returned. A step that fails has changed
nothing, so the caller has to show `I` for the volume as it is. -/
theorem leads_look {p : Path} {R : Option Node → Volume → Prop} (hI : I w) (hR : R (w p) w) :
    (act (.look p)).Leads exec I R w := by
  exact leads_file_step hI (fun _ => rfl) hR

/-- Only a file can be read: a directory or a link in its place makes the step fail. -/
theorem leads_read {p : Path} {R : Bytes → Volume → Prop} (hI : I w)
    (hR : ∀ b, w p = some (.file b) → R b w) : (act (.read p)).Leads exec I R w := by
  refine leads_file_step hI (fun _ => rfl) ?_
  split
  · next b hb => exact hR b hb
  · exact hI

theorem leads_ask {q : Question} {R : Bool → Volume → Prop} (hI : I w) (hR : ∀ yes, R yes w) :
    (act (.ask q)).Leads exec I R w :=
  Prog.wp_op.mpr ⟨hI, fun c => hR (c.yes q)⟩

theorem leads_disk_free {R : ℕ → Volume → Prop} (hI : I w) (hR : ∀ free, R free w) :
    (act .disk_free).Leads exec I R w :=
  Prog.wp_op.mpr ⟨hI, fun c => hR c.free⟩

theorem leads_sqlite_report {p : Path} {R : Report → Volume → Prop} (hI : I w)
    (hR : ∀ report, R report w) : (act (.sqlite_report p)).Leads exec I R w :=
  Prog.wp_op.mpr ⟨hI, fun c => hR c.report⟩

/-- With `exist_ok` a directory that is there already is fine, and anything else is not. -/
theorem leads_mkdir {p : Path} {exist_ok : Bool} {R : Unit → Volume → Prop} (hI : I w)
    (hnew : w p = none → R () (Function.update w p (some .dir)))
    (hold : exist_ok = true → w p = some .dir → R () w) :
    (act (.mkdir p exist_ok)).Leads exec I R w := by
  refine leads_file_step hI (fun _ => rfl) ?_
  split
  · next hnone => exact hnew hnone
  · next hdir =>
      split
      · next hok => exact hold hok hdir
      · exact hI
  · exact hI

/-- Exclusive creation: nothing was there. -/
theorem leads_create {p : Path} {R : Unit → Volume → Prop} (hI : I w)
    (hR : w p = none → R () (Function.update w p (some (.file [])))) :
    (act (.create p)).Leads exec I R w := by
  refine leads_file_step hI (fun _ => rfl) ?_
  split
  · next hnone => exact hR hnone
  · exact hI

theorem leads_append {p : Path} {block : Bytes} {R : Unit → Volume → Prop} (hI : I w)
    (hR : ∀ b, w p = some (.file b) → R () (Function.update w p (some (.file (b ++ block))))) :
    (act (.append p block)).Leads exec I R w := by
  refine leads_file_step hI (fun _ => rfl) ?_
  split
  · next b hb => exact hR b hb
  · exact hI

theorem leads_write_state {p : Path} {s : State} {R : Unit → Volume → Prop} (hI : I w)
    (hR : R () (Function.update w p (some (.json s)))) : (act (.write_state p s)).Leads exec I R w :=
  leads_file_step hI (fun _ => rfl) hR

/-- A rename, which takes away what stood at the target. -/
theorem leads_replace {source target : Path} {R : Unit → Volume → Prop} (hI : I w)
    (hR : ∀ node, w source = some node →
      R () (Function.update (Function.update w source none) target (some node))) :
    (act (.replace source target)).Leads exec I R w := by
  refine leads_file_step hI (fun _ => rfl) ?_
  split
  · next node hnode => exact hR node hnode
  · exact hI

theorem leads_unlink {p : Path} {missing_ok : Bool} {R : Unit → Volume → Prop} (hI : I w)
    (hR : R () (Function.update w p none)) : (act (.unlink p missing_ok)).Leads exec I R w := by
  refine leads_file_step hI (fun _ => rfl) ?_
  split
  · exact hR
  · next hnone =>
      split
      · have hsame : Function.update w p none = w := by
          rw [← hnone]
          exact Function.update_eq_self p w
        rw [hsame] at hR
        exact hR
      · exact hI

theorem leads_pure {a : α} {R : α → Volume → Prop} (hR : R a w) :
    (pure a : Helper α).Leads exec I R w := hR

theorem leads_refuse {message : String} {R : α → Volume → Prop} (hI : I w) :
    (refuse message : Helper α).Leads exec I R w := hI

end Single

/-! ## Parts that only read -/

section Reading

variable {I : Volume → Prop} {w : Volume}

theorem leads_path_exists {p : Path} {R : Bool → Volume → Prop} (hI : I w)
    (hR : R (found (w p)) w) : (path_exists p).Leads exec I R w :=
  Prog.leads_bind.mpr (leads_look hI hR)

theorem leads_regular {p : Path} {R : Unit → Volume → Prop} (hI : I w)
    (hR : ∀ b, w p = some (.file b) → R () w) : (regular p).Leads exec I R w := by
  refine Prog.leads_bind.mpr (leads_look hI ?_)
  split
  · next hreg =>
      rw [is_regular.eq_def] at hreg
      split at hreg
      · next b hb => exact hR b hb
      · cases hreg
  · exact hI

/-- Which of the three files are there, asked one after the other. -/
theorem leads_present {place : Member → Path} {ms : List Member} {R : List Member → Volume → Prop}
    (hI : I w) (hR : R (ms.filter fun m => (w (place m)).isSome) w) :
    (present place ms).Leads exec I R w := by
  induction ms generalizing R with
  | nil => exact hR
  | cons m rest ih =>
      refine Prog.leads_bind.mpr (leads_look hI ?_)
      refine Prog.leads_bind.mpr (ih ?_)
      rw [List.filter_cons] at hR
      exact hR

theorem leads_all_regular {ms : List Member} {R : Bool → Volume → Prop} (hI : I w)
    (hR : R (ms.all fun m => is_regular (w (.live m))) w) : (all_regular ms).Leads exec I R w := by
  induction ms generalizing R with
  | nil => exact hR
  | cons m rest ih =>
      refine Prog.leads_bind.mpr (leads_look hI ?_)
      exact Prog.leads_bind.mpr (ih hR)

theorem leads_total_size {ms : List Member} {R : ℕ → Volume → Prop} (hI : I w)
    (hR : ∀ n, R n w) : (total_size ms).Leads exec I R w := by
  induction ms generalizing R with
  | nil => exact hR 0
  | cons m rest ih =>
      refine Prog.leads_bind.mpr (leads_look hI ?_)
      exact Prog.leads_bind.mpr (ih fun n => hR _)

/-- The identifier of an operation is checked before any path is built from it. -/
theorem leads_recovery_dir {op : String} {R : Unit → Volume → Prop} (hI : I w)
    (hR : is_id op = true → is_symlink (w .recovery_root) = false → R () w) :
    (recovery_dir op).Leads exec I R w := by
  unfold recovery_dir
  split
  · next hid =>
      refine Prog.leads_bind.mpr (leads_look hI ?_)
      split
      · exact hI
      · next hroot => exact hR hid (by simpa using hroot)
  · exact hI

theorem leads_refuse_root {R : Unit → Volume → Prop} (hI : I w) (hR : R () w) :
    refuse_root.Leads exec I R w := by
  refine Prog.leads_bind.mpr (leads_ask hI ?_)
  intro root
  split
  · exact hI
  · exact hR

/-- The record is the operation's own. -/
structure Own (op : String) (s : State) (w : Volume) : Prop where
  /-- Checked before the paths of the operation are built. -/
  id : is_id op = true
  root : is_symlink (w .recovery_root) = false
  db : s.db = DB
  operation : s.operation_id = op

/-- A record that belongs to another operation or another database is refused. -/
theorem leads_load_own_state {op : String} {R : State → Volume → Prop} (hI : I w)
    (hR : ∀ s, w (.state op) = some (.json s) → Own op s w → R s w) :
    (load_own_state op).Leads exec I R w := by
  refine Prog.leads_bind.mpr (leads_recovery_dir hI ?_)
  intro hid hroot
  refine Prog.leads_bind.mpr ?_
  refine Prog.leads_bind.mpr (leads_look hI ?_)
  split
  · next s hs =>
      refine leads_pure ?_
      split
      · exact hI
      · next hown =>
          simp only [not_or, not_not] at hown
          exact hR s hs ⟨hid, hroot, hown.1, hown.2⟩
  · exact hI

theorem leads_has_sidecars {name : String} {R : Bool → Volume → Prop} (hI : I w)
    (hR : ∀ yes, R yes w) : (has_sidecars name).Leads exec I R w := by
  refine Prog.leads_bind.mpr (leads_path_exists hI ?_)
  split
  · exact hR true
  · exact leads_path_exists hI (hR _)

theorem leads_first_unwritable {ms : List Member} {R : Option Member → Volume → Prop} (hI : I w)
    (hR : ∀ m, R m w) : (first_unwritable ms).Leads exec I R w := by
  induction ms with
  | nil => exact hR none
  | cons m rest ih =>
      refine Prog.leads_bind.mpr (leads_ask hI ?_)
      intro unwritable
      split
      · exact hR (some m)
      · exact ih

variable {sha256 : Bytes → Digest}

theorem leads_sha256_of {p : Path} {R : Digest → Volume → Prop} (hI : I w)
    (hR : ∀ b, w p = some (.file b) → R (sha256 b) w) : (sha256_of sha256 p).Leads exec I R w :=
  Prog.leads_bind.mpr (leads_read hI hR)

/-- SQLite has found nothing wrong, and the identity is the one it read. -/
def Sound (info : BackupInfo) : Prop :=
  ∃ report : Report, ∃ identity, report.inspected = .inr identity
    ∧ info.schema_version = identity.schema_version
    ∧ info.project_identity_sha256 = identity.project_identity_sha256

/-- What is inspected is the file whose digest is recorded. -/
theorem leads_inspect {name : String} {R : BackupInfo → Volume → Prop} (hI : I w)
    (hR : ∀ info b, w (.staged name) = some (.file b) → info.sha256 = sha256 b → Sound info →
      R info w) :
    (inspect sha256 name).Leads exec I R w := by
  refine Prog.leads_bind.mpr (leads_regular hI ?_)
  intro _ _
  refine Prog.leads_bind.mpr (leads_has_sidecars hI ?_)
  intro sidecars
  split
  · exact hI
  · refine Prog.leads_bind.mpr (leads_sqlite_report hI ?_)
    intro report
    split
    · exact hI
    · next identity hreport =>
        refine Prog.leads_bind.mpr (leads_sha256_of hI ?_)
        intro b hb
        exact hR _ b hb rfl ⟨report, identity, hreport, rfl, rfl⟩

/-- The candidate has passed `_preflight`: it is the staged file `b`, found sound and as expected. -/
structure Passed (sha256 : Bytes → Digest) (candidate : String) (expected : Expected)
    (name : String) (info : BackupInfo) (b : Bytes) (w : Volume) : Prop where
  name_eq : staged_name candidate = some name
  staged : w (.staged name) = some (.file b)
  digest : info.sha256 = sha256 b
  sound : Sound info
  expected_sha256 : info.sha256 = expected.sha256
  expected_schema : info.schema_version = expected.schema_version
  expected_project : info.project_identity_sha256 = expected.project_identity_sha256

/-- What `_preflight` has looked at when it returns. -/
theorem leads_preflight {candidate : String} {expected : Expected}
    {R : String × BackupInfo → Volume → Prop} (hI : I w)
    (hR : ∀ name info b, Passed sha256 candidate expected name info b w → R (name, info) w) :
    (preflight sha256 candidate expected).Leads exec I R w := by
  unfold preflight
  split
  · exact hI
  refine Prog.leads_bind.mpr (leads_regular hI ?_)
  intro _ _
  refine Prog.leads_bind.mpr (leads_look hI ?_)
  -- the check on the parent reads at most
  have hparent : ∀ {R' : Bool → Volume → Prop}, (∀ yes, R' yes w) →
      (parent_is_symlink candidate).Leads exec I R' w := by
    intro R' hR'
    unfold parent_is_symlink
    split
    · exact Prog.leads_bind.mpr (leads_look hI (hR' _))
    · exact leads_ask hI hR'
  refine Prog.leads_bind.mpr (hparent ?_)
  intro stage
  split
  · exact hI
  split
  · exact hI
  next name hname =>
    refine Prog.leads_bind.mpr (leads_regular hI ?_)
    intro _ _
    refine Prog.leads_bind.mpr (leads_ask hI ?_)
    intro other
    split
    · exact hI
    refine Prog.leads_bind.mpr (leads_has_sidecars hI ?_)
    intro sidecars
    split
    · exact hI
    refine Prog.leads_bind.mpr (leads_inspect hI ?_)
    intro info b hb hdigest hsound
    split
    · exact hI
    · -- all three expectations are met
      next hexpected =>
        simp only [not_or, not_not] at hexpected
        obtain ⟨hsha, hschema, hproject⟩ := hexpected
        exact hR name info b ⟨hname, hb, hdigest, hsound, hsha, hschema, hproject⟩

end Reading

/-! ## Copies -/

section Copies

variable {I : Volume → Prop} {w : Volume}

/-- The blocks of a file are the file. -/
theorem flatten_blocks (b : Bytes) : (blocks b).flatten = b := by
  rw [blocks, ← List.flatMap_def, Ranking.flatMap_slices]
  refine List.take_of_length_le ?_
  rw [BLOCK]
  omega

/-- A copy is written block by block, so it may stop with any number of them written. -/
theorem touches_append_blocks (target : Path) (bs : List Bytes) :
    Touches {target} (append_blocks target bs) := by
  induction bs with
  | nil => trivial
  | cons block rest ih => exact (touches_act (o := .append target block) (Set.mem_singleton target)).bind fun _ => ih

theorem leads_append_blocks {target : Path} {bs : List Bytes} {b : Bytes}
    (h : w target = some (.file b)) :
    (append_blocks target bs).Leads exec (fun _ => True)
      (fun _ w' => w' target = some (.file (b ++ bs.flatten))) w := by
  induction bs generalizing w b with
  | nil =>
      refine leads_pure ?_
      rw [List.flatten_nil, List.append_nil]
      exact h
  | cons block rest ih =>
      refine Prog.leads_bind.mpr (leads_append trivial ?_)
      intro b' hb'
      obtain rfl := file_unique h hb'
      refine Prog.leads_mono (ih (Function.update_self _ _ _)) ?_
      intro _ w' hw'
      rw [hw', List.flatten_cons, List.append_assoc]

theorem touches_regular {T : Set Path} (p : Path) : Touches T (regular p) := by
  refine (touches_act (o := .look p) trivial).bind ?_
  intro node
  split <;> trivial

theorem touches_copy_durable (source target : Path) :
    Touches {target} (copy_durable source target) := by
  refine (touches_regular source).bind fun _ => ?_
  refine (touches_act (o := .read source) trivial).bind fun b => ?_
  refine (touches_act (o := .create target) (Set.mem_singleton target)).bind fun _ => ?_
  exact touches_append_blocks target _

/-- A copy that has returned is the whole source. -/
theorem copied (source target : Path) :
    (copy_durable source target).Leads exec (fun _ => True)
      (fun _ w' => ∃ b, w source = some (.file b) ∧ w' target = some (.file b)) w := by
  refine Prog.leads_bind.mpr (leads_regular trivial ?_)
  intro _ _
  refine Prog.leads_bind.mpr (leads_read trivial ?_)
  intro b hb
  refine Prog.leads_bind.mpr (leads_create trivial ?_)
  intro _
  refine Prog.leads_mono (leads_append_blocks (Function.update_self _ _ _)) ?_
  intro _ w' hw'
  refine ⟨b, hb, ?_⟩
  rw [hw', flatten_blocks, List.nil_append]

/-! ## The state file -/

/-- Where `save_state` may stop: the old record or the new one is in place. -/
def Saving (op : String) (s : State) (w w' : Volume) : Prop :=
  Agree {.state op, .state_temp op} w w'
    ∧ (w' (.state op) = w (.state op) ∨ w' (.state op) = some (.json s))

theorem saving_temp {op : String} {s : State} {w' : Volume} (h : Saving op s w w')
    (n : Option Node) : Saving op s w (Function.update w' (.state_temp op) n) := by
  refine ⟨h.1.trans (agree_update (by simp) w' n), ?_⟩
  rw [Function.update_of_ne (by simp)]
  exact h.2

/-- The rename is the one step that changes the record. -/
theorem wp_save_state (op : String) (s : State) :
    (save_state op s).wp exec (Saving op s w)
      (fun r w' => Saving op s w w' ∧ (r = .ok () → w' (.state op) = some (.json s))) w := by
  have hstart : Saving op s w w := ⟨Agree.refl _ w, .inl rfl⟩
  have hbody : (do
      act (.write_state (.state_temp op) s)
      act (.replace (.state_temp op) (.state op)) : Helper Unit).Leads exec (Saving op s w)
      (fun _ w' => Saving op s w w' ∧ w' (.state op) = some (.json s)) w := by
    have hwritten := saving_temp hstart (some (.json s))
    refine Prog.leads_bind.mpr (leads_write_state hstart ?_)
    refine leads_replace hwritten ?_
    intro node hnode
    rw [Function.update_self] at hnode
    obtain rfl := Option.some.inj hnode
    refine ⟨⟨?_, .inr (Function.update_self _ _ _)⟩, Function.update_self _ _ _⟩
    exact (saving_temp hwritten none).1.trans (agree_update (by simp) _ _)
  refine Prog.wp_tryFinally (Prog.wp_mono hbody (fun _ => id) ?_)
  intro r w₁ hr
  -- the temporary file is removed in any case, and nothing else changes
  have hfin : ∀ w₁, Saving op s w w₁ → (act (.unlink (.state_temp op) true)).wp exec (Saving op s w)
      (fun _ w₂ => Saving op s w w₂ ∧ w₂ (.state op) = w₁ (.state op)) w₁ := by
    intro w₁ h₁
    refine Prog.wp_op.mpr ⟨h₁, ?_⟩
    intro c
    rw [exec, Choice.or_fails]
    split
    · exact ⟨h₁, rfl⟩
    · split
      · refine ⟨saving_temp h₁ none, ?_⟩
        dsimp only
        rw [Function.update_of_ne (by simp)]
      · exact ⟨h₁, rfl⟩
  rcases r with e | u
  · refine Prog.wp_mono (hfin w₁ hr) (fun _ => id) ?_
    rintro (e' | u) w₂ ⟨h₂, -⟩
    · exact ⟨h₂, nofun⟩
    · exact ⟨h₂, nofun⟩
  · refine Prog.wp_mono (hfin w₁ hr.1) (fun _ => id) ?_
    rintro (e' | u) w₂ ⟨h₂, hsame⟩
    · exact ⟨h₂, nofun⟩
    · refine ⟨h₂, fun _ => ?_⟩
      rw [hsame]
      exact hr.2

/-- For a caller: what has to hold while the record is saved, and once it is. -/
theorem leads_save_state {op : String} {s : State} {R : Unit → Volume → Prop}
    (hI : ∀ w', Saving op s w w' → I w')
    (hR : ∀ w', Saving op s w w' → w' (.state op) = some (.json s) → R () w') :
    (save_state op s).Leads exec I R w := by
  refine Prog.wp_mono (wp_save_state op s) hI ?_
  rintro (e | u) w' ⟨hsaving, hdone⟩
  · exact hI w' hsaving
  · exact hR w' hsaving (hdone rfl)

end Copies

/-! ## Archives -/

section Archives

variable {w : Volume} {sha256 : Bytes → Digest}

theorem touches_sha256_of {T : Set Path} (p : Path) : Touches T (sha256_of sha256 p) :=
  (touches_act (o := .read p) trivial).bind fun _ => trivial

/-- The round of a loop that copies a live file to its place, and answers its digest. -/
structure Copies (sha256 : Bytes → Digest) (place : Member → Path) (round : Member → Helper Digest) :
    Prop where
  /-- A round writes to the place of its own member only. -/
  touches : ∀ m, Touches {place m} (round m)
  copied : ∀ m w, (round m).Leads exec (fun _ => True) (fun digest w' => ∃ b,
    w (.live m) = some (.file b) ∧ w' (place m) = some (.file b) ∧ digest = sha256 b) w

/-- Archiving before the swap, and before a rollback, are the same loop with another target. -/
theorem copies_raw (op : String) : Copies sha256 (.raw op) (archive_raw sha256 op) where
  touches m := by
    refine (touches_sha256_of _).bind fun _ => ?_
    refine (touches_copy_durable _ _).bind fun _ => ?_
    refine (touches_sha256_of _).bind fun _ => ?_
    refine (touches_sha256_of _).bind fun _ => ?_
    split <;> trivial
  copied m w := by
    refine Prog.leads_bind.mpr (leads_sha256_of trivial ?_)
    intro before hbefore
    refine Prog.leads_bind.mpr (Prog.leads_mono (copied _ _) ?_)
    rintro _ w' ⟨b, hb, hcopy⟩
    refine Prog.leads_bind.mpr (leads_sha256_of trivial ?_)
    intro _ _
    refine Prog.leads_bind.mpr (leads_sha256_of trivial ?_)
    intro _ _
    split
    · trivial
    · obtain rfl := file_unique hb hbefore
      exact ⟨b, hb, hcopy, rfl⟩

theorem copies_forward (op : String) : Copies sha256 (.forward op) (archive_forward sha256 op) where
  touches m := by
    refine (touches_copy_durable _ _).bind fun _ => ?_
    refine (touches_sha256_of _).bind fun _ => ?_
    refine (touches_sha256_of _).bind fun _ => ?_
    split <;> trivial
  copied m w := by
    refine Prog.leads_bind.mpr (leads_part (touches_copy_durable _ _) (copied _ _)
      (fun _ _ => trivial) ?_)
    rintro _ w' hagree ⟨b, hb, hcopy⟩
    refine Prog.leads_bind.mpr (leads_sha256_of trivial ?_)
    intro b' hb'
    refine Prog.leads_bind.mpr (leads_sha256_of trivial ?_)
    intro _ _
    split
    · trivial
    · rw [hagree _ (by simp)] at hb'
      obtain rfl := file_unique hb hb'
      exact ⟨b, hb, hcopy, rfl⟩

variable {place : Member → Path} {round : Member → Helper Digest}

theorem Copies.touches_each (h : Copies sha256 place round) (ms : List Member) :
    Touches {p | ∃ m ∈ ms, p = place m} (record_each round ms) := by
  induction ms with
  | nil => trivial
  | cons m rest ih =>
      have hround : Touches {p | ∃ m' ∈ m :: rest, p = place m'} (round m) := by
        refine (h.touches m).mono ?_
        rintro p rfl
        exact ⟨m, List.mem_cons_self, rfl⟩
      have hrest : Touches {p | ∃ m' ∈ m :: rest, p = place m'} (record_each round rest) := by
        refine ih.mono ?_
        rintro p ⟨m', hm', rfl⟩
        exact ⟨m', List.mem_cons_of_mem _ hm', rfl⟩
      exact hround.bind fun _ => hrest.bind fun _ => trivial

/-- What the loop has recorded: the members in turn, each with the digest of its copy. -/
def Recorded (sha256 : Bytes → Digest) (place : Member → Path) (w : Volume) (ms : List Member)
    (files : List (Member × Digest)) (w' : Volume) : Prop :=
  files.map Prod.fst = ms ∧ ∀ m ∈ ms, ∃ b, w (.live m) = some (.file b)
    ∧ w' (place m) = some (.file b) ∧ files.lookup m = some (sha256 b)

/-- **The loop is done only if every file has been copied whole.** The induction is on the
members: a later copy touches neither an earlier one nor a live file. -/
theorem Copies.copied_each (h : Copies sha256 place round) (hinj : Function.Injective place)
    (hlive : ∀ m m', place m ≠ .live m') {ms : List Member} (hnodup : ms.Nodup) :
    (record_each round ms).Leads exec (fun _ => True) (Recorded sha256 place w ms) w := by
  induction ms generalizing w with
  | nil =>
      refine leads_pure ⟨rfl, ?_⟩
      simp
  | cons m rest ih =>
      obtain ⟨hnot, hnodup⟩ := List.nodup_cons.mp hnodup
      refine Prog.leads_bind.mpr (leads_part (h.touches m) (h.copied m w) (fun _ _ => trivial) ?_)
      rintro digest w₁ hagree₁ ⟨b, hb, hcopy, rfl⟩
      refine Prog.leads_bind.mpr (leads_part (h.touches_each rest) (ih hnodup) (fun _ _ => trivial) ?_)
      rintro others w₂ hagree₂ ⟨hmembers, hothers⟩
      refine leads_pure ⟨?_, ?_⟩
      · rw [List.map_cons, hmembers]
      intro m' hm'
      rcases List.mem_cons.mp hm' with rfl | hin
      · -- the copy of this round is not touched again
        refine ⟨b, hb, ?_, ?_⟩
        · rw [hagree₂, hcopy]
          rintro ⟨m'', hm'', heq⟩
          rw [hinj heq] at hnot
          exact hnot hm''
        · simp
      · obtain ⟨b', hb', hcopy', hlookup⟩ := hothers m' hin
        have hne : m' ≠ m := by
          rintro rfl
          exact hnot hin
        refine ⟨b', ?_, hcopy', ?_⟩
        · rw [← hb', hagree₁]
          intro heq
          exact hlive m m' (Set.mem_singleton_iff.mp heq).symm
        · rw [List.lookup_cons, beq_eq_false_iff_ne.mpr hne]
          exact hlookup

end Archives

/-! ## The old state -/

/-- What assessing the old state works on. -/
def assessment (op : String) : Set Path :=
  {p | p = .old_consistent op ∨ p = .scratch_dir op ∨ ∃ m, p = .scratch op m}

section Assessing

variable {sha256 : Bytes → Digest}

theorem touches_present {T : Set Path} (place : Member → Path) (ms : List Member) :
    Touches T (present place ms) := by
  induction ms with
  | nil => trivial
  | cons m rest ih =>
      exact (touches_act (o := .look (place m)) trivial).bind fun _ => ih.bind fun _ => trivial

theorem touches_each {T : Set Path} {round : Member → Helper Unit} (h : ∀ m, Touches T (round m))
    (ms : List Member) : Touches T (each round ms) := by
  induction ms with
  | nil => trivial
  | cons m rest ih => exact (h m).bind fun _ => ih

theorem touches_remove_scratch (op : String) : Touches (assessment op) (remove_scratch op) := by
  have hfile : ∀ m, Touches (assessment op) (act (.unlink (.scratch op m) true)).attempt := by
    intro m
    exact Prog.Makes.attempt (touches_act (o := .unlink (.scratch op m) true) (.inr (.inr ⟨m, rfl⟩)))
  have hdir : Touches (assessment op) (act (.unlink (.scratch_dir op) true)).attempt :=
    Prog.Makes.attempt (touches_act (o := .unlink (.scratch_dir op) true) (.inr (.inl rfl)))
  refine (hfile .main).bind fun _ => ?_
  refine (hfile .wal).bind fun _ => ?_
  refine (hfile .shm).bind fun _ => ?_
  exact hdir.bind fun _ => trivial

theorem touches_consolidate_archive (op : String) :
    Touches (assessment op) (consolidate_archive op) := by
  refine (touches_present _ _).bind fun members => ?_
  refine (touches_each ?_ _).bind fun _ => ?_
  · intro m
    refine (touches_copy_durable _ _).mono ?_
    rintro p rfl
    exact .inr (.inr ⟨m, rfl⟩)
  have hbackup : Touches (assessment op) (consolidate op) :=
    (touches_regular _).bind fun _ => touches_act (o := .backup op) (.inl rfl)
  refine Touches.bind (Prog.Makes.attempt hbackup) fun done => ?_
  split
  · trivial
  · split
    · exact (touches_act (o := .unlink (.old_consistent op) true) (.inl rfl)).bind fun _ => trivial
    · trivial
  · trivial

/-- The assessment works on copies, and leaves the archive and the live files alone. -/
theorem touches_assess_old_state (op : String) :
    Touches (assessment op) (assess_old_state sha256 op) := by
  refine (touches_act (o := .mkdir (.scratch_dir op) false) (.inr (.inl rfl))).bind fun _ => ?_
  refine Touches.bind (Prog.Makes.tryFinally (touches_consolidate_archive op)
    (touches_remove_scratch op)) fun unreadable => ?_
  split
  · trivial
  · refine Touches.bind ?_ fun _ => trivial
    refine (touches_sha256_of _).bind fun _ => ?_
    refine (touches_act (o := .look _) trivial).bind fun _ => ?_
    exact (touches_act (o := .sqlite_report _) trivial).bind fun _ => trivial

end Assessing

/-! ## The write probe -/

section Probe

variable {I : Volume → Prop} {w : Volume}

/-- What SQLite may leave beside a database without frames: its sidecars as they were, or an
empty `-wal` and a `-shm`, or nothing. -/
def Left (w w' : Volume) : Prop :=
  (w' (.live .wal) = w (.live .wal) ∧ w' (.live .shm) = w (.live .shm))
    ∨ ((w' (.live .wal) = none ∨ w' (.live .wal) = some (.file []))
      ∧ (w' (.live .shm) = none ∨ ∃ b, w' (.live .shm) = some (.file b)))

/-- SQLite leaves no frames where there were none. -/
theorem Left.has_frames {w' : Volume} (h : Left w w') (hquiet : has_frames (w (.live .wal)) = false) :
    has_frames (w' (.live .wal)) = false := by
  rcases h with ⟨hwal, -⟩ | ⟨hwal | hwal, -⟩
  · rw [hwal]
    exact hquiet
  · rw [hwal]
    rfl
  · rw [hwal]
    rfl

theorem with_family_wal (w : Volume) (main wal shm : Option Node) :
    with_family w main wal shm (.live .wal) = wal := by
  rw [with_family, Function.update_of_ne (by simp), Function.update_self]

theorem with_family_shm (w : Volume) (main wal shm : Option Node) :
    with_family w main wal shm (.live .shm) = shm := by
  rw [with_family, Function.update_self]

/-- Without frames, only the sidecars change. -/
theorem sqlite_touch_quiet {w₁ : Volume} (hagree : Agree {.live .wal, .live .shm} w w₁)
    (hleft : Left w w₁) (hquiet : has_frames (w (.live .wal)) = false) (c : Choice) :
    Agree {.live .wal, .live .shm} w (sqlite_touch c w₁) ∧ Left w (sqlite_touch c w₁) := by
  have hmain : main_after c w₁ = w₁ (.live .main) := by
    rw [main_after, hleft.has_frames hquiet]
    rfl
  have hfamily : ∀ wal shm, Agree {.live .wal, .live .shm} w
      (with_family w₁ (main_after c w₁) wal shm) := by
    intro wal shm
    rw [hmain, with_family, Function.update_eq_self]
    exact (hagree.trans (agree_update (by simp) _ _)).trans (agree_update (by simp) _ _)
  unfold sqlite_touch
  split
  · exact ⟨hagree, hleft⟩
  · refine ⟨hfamily _ _, .inr ⟨.inl ?_, .inl ?_⟩⟩
    · exact with_family_wal _ _ _ _
    · exact with_family_shm _ _ _ _
  · next shm _ =>
      refine ⟨hfamily _ _, .inr ⟨.inr ?_, .inr ⟨shm, ?_⟩⟩⟩
      · exact with_family_wal _ _ _ _
      · exact with_family_shm _ _ _ _

/-- The text of the probe is not known; what it may have done to the volume is. -/
theorem leads_probe_writable {R : String → Volume → Prop}
    (hquiet : has_frames (w (.live .wal)) = false)
    (hI : ∀ w', Agree {.live .wal, .live .shm} w w' → Left w w' → I w')
    (hR : ∀ text w', Agree {.live .wal, .live .shm} w w' → Left w w' → R text w') :
    probe_writable.Leads exec I R w := by
  have hsame : Agree {.live .wal, .live .shm} w w := Agree.refl _ w
  have hleft : Left w w := .inl ⟨rfl, rfl⟩
  have hstart : I w := hI w hsame hleft
  refine Prog.leads_bind.mpr (leads_present hstart ?_)
  refine Prog.leads_bind.mpr (leads_first_unwritable hstart ?_)
  intro unwritable
  rcases unwritable with _ | m
  · refine Prog.leads_bind.mpr (Prog.wp_op.mpr ⟨hstart, ?_⟩)
    intro c
    obtain ⟨hagree₁, hleft₁⟩ := sqlite_touch_quiet hsame hleft hquiet c
    refine Prog.leads_bind.mpr (Prog.wp_op.mpr ⟨hI _ hagree₁ hleft₁, ?_⟩)
    intro c'
    obtain ⟨hagree₂, hleft₂⟩ := sqlite_touch_quiet hagree₁ hleft₁ hquiet c'
    dsimp only [exec, Prog.Ends]
    split
    · exact hR _ _ hagree₂ hleft₂
    · exact hR _ _ hagree₂ hleft₂
  · exact hR _ _ hsame hleft

/-- Where `require_writable` may stop. -/
structure Recording (op : String) (s : State) (w w' : Volume) : Prop where
  agree : Agree {.state op, .state_temp op, .live .wal, .live .shm} w w'
  left : Left w w'
  record : w' (.state op) = w (.state op)
    ∨ ∃ text, w' (.state op) = some (.json { s with write_probe := some text })

/-- The probe is recorded before its result is looked at. -/
theorem leads_require_writable {op : String} {s : State} {next : String}
    {R : State → Volume → Prop} (hquiet : has_frames (w (.live .wal)) = false)
    (hI : ∀ w', Recording op s w w' → I w')
    (hR : ∀ text w', Recording op s w w' → R { s with write_probe := some text } w') :
    (require_writable op s next).Leads exec I R w := by
  have hprobed : ∀ w₁, Agree {.live .wal, .live .shm} w w₁ → Left w w₁ → Recording op s w w₁ := by
    intro w₁ hagree hleft
    refine ⟨hagree.mono ?_, hleft, .inl (hagree _ (by simp))⟩
    rintro p (rfl | rfl) <;> simp
  refine Prog.leads_bind.mpr (leads_probe_writable hquiet ?_ ?_)
  · intro w₁ hagree hleft
    exact hI w₁ (hprobed w₁ hagree hleft)
  · intro text w₁ hagree hleft
    have hsaved : ∀ w₂, Saving op { s with write_probe := some text } w₁ w₂ →
        Recording op s w w₂ := by
      rintro w₂ ⟨hagree', hrecord⟩
      have hwal : w₂ (.live .wal) = w₁ (.live .wal) := hagree' _ (by simp)
      have hshm : w₂ (.live .shm) = w₁ (.live .shm) := hagree' _ (by simp)
      refine ⟨(hprobed w₁ hagree hleft).agree.trans (hagree'.mono ?_), ?_, ?_⟩
      · rintro p (rfl | rfl) <;> simp
      · rw [Left, hwal, hshm]
        exact hleft
      · rcases hrecord with hold | hnew
        · left
          rw [hold, hagree _ (by simp)]
        · exact .inr ⟨text, hnew⟩
    refine Prog.leads_bind.mpr (leads_save_state (fun w₂ h₂ => hI w₂ (hsaved w₂ h₂)) ?_)
    intro w₂ h₂ _
    split
    · exact hR text w₂ (hsaved w₂ h₂)
    · split
      · exact hI w₂ (hsaved w₂ h₂)
      · exact hI w₂ (hsaved w₂ h₂)

/-- The digest of what the last swap of an operation installed. -/
def State.installed (s : State) : Digest :=
  match s.phase with
  | .activated => s.candidate_info.sha256
  | .rolled_back => s.old_state.elim "" OldState.sha256
  | _ => ""

/-- The moment of a write probe: the swap is recorded, and the database is what it installed,
with nothing to check point. -/
structure Probable (sha256 : Bytes → Digest) (op : String) (s : State) (w : Volume) : Prop where
  state : w (.state op) = some (.json s)
  phase : s.phase = .activated ∨ s.phase = .rolled_back
  main : ∃ b, w (.live .main) = some (.file b) ∧ sha256 b = s.installed
  /-- The `-wal` was displaced with the database that it belonged to. -/
  wal : w (.live .wal) = none ∨ w (.live .wal) = some (.file [])

theorem Probable.quiet {sha256 : Bytes → Digest} {op : String} {s : State}
    (h : Probable sha256 op s w) : has_frames (w (.live .wal)) = false := by
  rcases h.wal with hnone | hempty
  · rw [hnone]
    rfl
  · rw [hempty]
    rfl

/-- The record is the old one, or its write probe is not `ok`, unless it was so already in a
phase in which nothing is installed. -/
def Unproved (op : String) (w w' : Volume) : Prop :=
  w' (.state op) = w (.state op)
    ∨ ∃ s, w' (.state op) = some (.json s) ∧ (s.write_probe = some "ok" → ∃ s₀,
      w (.state op) = some (.json s₀) ∧ s₀.write_probe = some "ok"
        ∧ s₀.phase ≠ .activated ∧ s₀.phase ≠ .rolled_back)

theorem unproved_of_ne {op : String} {s : State} {w' : Volume}
    (hstate : w' (.state op) = some (.json s)) (hne : s.write_probe ≠ some "ok") :
    Unproved op w w' := .inr ⟨s, hstate, fun hok => absurd hok hne⟩

/-- What is left of a call may go on, and leaves a volume in `I`. -/
def Plan.Fit (sha256 : Bytes → Digest) (op : String) (I : Volume → Prop) : Plan → Volume → Prop
  | .answer _, w => I w
  | .probe s _ _, w => Probable sha256 op s w ∧ ∀ w', Recording op s w w' → I w'

/-- What a plan still has to do, once its record is saved. -/
theorem leads_finish {sha256 : Bytes → Digest} {op : String} {plan : Plan}
    (h : plan.Fit sha256 op I w) : (finish op plan).Leads exec I (fun _ => I) w := by
  rcases plan with r | ⟨s, next, answer⟩
  · exact h
  · refine Prog.leads_bind.mpr (leads_require_writable h.1.quiet h.2 ?_)
    exact fun text w' hrec => leads_pure (h.2 w' hrec)

end Probe

/-! ## Moving sidecars -/

section Moving

variable {I : Volume → Prop} {w : Volume}

/-- Absent, or a regular file. -/
def FileOrNone (n : Option Node) : Prop := n = none ∨ ∃ b, n = some (.file b)

/-- A live sidecar is moved away, so that the new database is not opened beside it. -/
theorem leads_displace {op : String} {m : Member} {R : Unit → Volume → Prop} (hI : I w)
    (hreg : FileOrNone (w (.live m)))
    (hR : ∀ w', Agree {.live m, .displaced op m} w w' → w' (.live m) = none → R () w') :
    (displace op m).Leads exec I R w := by
  refine Prog.leads_bind.mpr (leads_path_exists hI ?_)
  split
  · refine leads_replace hI ?_
    intro node _
    refine hR _ ((agree_update (by simp) w _).trans (agree_update (by simp) _ _)) ?_
    rw [Function.update_of_ne (by simp), Function.update_self]
  · next hnone =>
      refine leads_pure (hR w (Agree.refl _ w) ?_)
      rcases hreg with hnone' | ⟨b, hb⟩
      · exact hnone'
      · rw [hb] at hnone
        exact absurd rfl hnone

/-- A sidecar is moved to where nothing was, or there is none to move. -/
theorem leads_displace_forward {op : String} {m : Member} {R : Unit → Volume → Prop} (hI : I w)
    (hreg : FileOrNone (w (.live m)))
    (hnone : w (.live m) = none → R () w)
    (hmoved : ∀ w', Agree {.live m, .forward_displaced op m} w w' → w' (.live m) = none →
      found (w (.forward_displaced op m)) = false →
      w' (.forward_displaced op m) = w (.live m) → R () w') :
    (displace_forward op m).Leads exec I R w := by
  refine Prog.leads_bind.mpr (leads_path_exists hI ?_)
  split
  · refine Prog.leads_bind.mpr (leads_path_exists hI ?_)
    split
    · exact hI
    · next hfree =>
        refine leads_replace hI ?_
        intro node hnode
        refine hmoved _ ((agree_update (by simp) w _).trans (agree_update (by simp) _ _)) ?_ ?_ ?_
        · rw [Function.update_of_ne (by simp), Function.update_self]
        · simpa using hfree
        · rw [Function.update_self, hnode]
  · next hgone =>
      refine leads_pure (hnone ?_)
      rcases hreg with hnone' | ⟨b, hb⟩
      · exact hnone'
      · rw [hb] at hgone
        exact absurd rfl hgone

theorem touches_remove_incoming {sha256 : Bytes → Digest} (op : String) (digest : Digest) :
    Touches {.incoming op} (remove_incoming sha256 op digest) := by
  refine (touches_act (o := .look _) trivial).bind fun node => ?_
  split
  · trivial
  · refine (touches_sha256_of _).bind fun _ => ?_
    split
    · trivial
    · exact (touches_act (o := .unlink (.incoming op) false) (Set.mem_singleton _)).bind
        fun _ => trivial
  · trivial

end Moving

end OpenChronicle.OfflineRestore
