/-
What the store answers an onboarding run, call by call.

Whatever the extractor does and whichever inserts the store refuses, listing and deleting rows behave
the same, so the lemmas are about a handler of which only that is known (`Serves`).

They are the step lemmas for three results that ask different things of a run: how it fails, what it
makes of overlapping with another one, and what a sequence of runs delivers. The part with an argument
in it is the watermark. Saving one lists the rows of its source, deletes them one after the other and
inserts one; it is shown that the rows that were listed are still there when they are deleted, that
nothing else is deleted, and that the one row left is the new one (`watermarks_of_save`).
-/
import Mathlib.Algebra.Order.BigOperators.Group.List
import Mathlib.Data.List.Forall2
import OpenChronicle.GitOnboard.Model

set_option autoImplicit false

namespace OpenChronicle

open Program

variable {F C : Type}

/-! ## What the store calls do -/

/-- The rows of a source in a project, whatever their order. -/
theorem Db.mem_list_memory_by_source {db : Db F} {source project_id : String} {m : MemoryItem} :
    m ∈ db.list_memory_by_source source (some project_id)
      ↔ db.get_memory m.id = some m ∧ m.source = source ∧ m.project_id = some project_id := by
  rw [Db.list_memory_by_source, Db.newest_first, List.mem_insertionSort, List.mem_filter,
    db.mem_items_iff]
  simp

/-- No row is listed twice, so none is deleted twice. -/
theorem Db.list_memory_by_source_nodup (db : Db F) (source project_id : String) :
    ((db.list_memory_by_source source (some project_id)).map (·.id)).Nodup := by
  rw [Db.list_memory_by_source, Db.newest_first,
    ((List.perm_insertionSort _ _).map _).nodup_iff]
  exact db.items_nodup.sublist (List.filter_sublist.map _)

/-- Deleting a row that is there succeeds and removes this row alone. -/
theorem Db.delete_memory_found {db : Db F} {m : MemoryItem} {memory_id : String}
    (h : db.get_memory memory_id = some m) : ∃ db', db.delete_memory memory_id = .ok db' := by
  obtain ⟨row, hrow, -⟩ := Option.map_eq_some_iff.mp h
  unfold Db.delete_memory
  split
  · next hnone => rw [hnone] at hrow; cases hrow
  · exact ⟨_, rfl⟩

/-- Inserting under a free id succeeds where the project is there. -/
theorem Db.add_memory_free {db : Db F} {item : MemoryItem} (hid : db.get_memory item.id = none)
    (hfk : ∀ p, item.project_id = some p → p ∈ db.projects.map (·.id)) :
    ∃ db', db.add_memory item = .ok db' := by
  have hfree : item.id ∉ db.memory_items.map (·.id) := by
    rw [Db.get_memory, Option.map_eq_none_iff] at hid
    exact Keyed.lookup_eq_none_iff.mp hid
  rw [Db.add_memory, dif_neg hfree, dif_pos hfk]
  exact ⟨_, rfl⟩

/-! ## A run alone -/

/-- A handler that lists and deletes as the store does. -/
structure Serves (h : (o : OnboardOp) → Db F → Except Exc o.Resp × Db F) : Prop where
  list : ∀ source project_id db, h (.list_memory_by_source source project_id) db
    = (.ok (db.list_memory_by_source source (some project_id)), db)
  delete : ∀ memory_id db db', db.delete_memory memory_id = .ok db' → h (.delete_memory memory_id) db = (.ok (), db')

section Eval

variable {h : (o : OnboardOp) → Db F → Except Exc o.Resp × Db F}

/-- A single call. -/
theorem eval_onboard_act (o : OnboardOp) (db : Db F) :
    (onboard_act o).eval (S := onboardSig) h db = h o db :=
  Prog.eval_op _ _ _

/-- A call that is answered, and what follows it. -/
theorem eval_answered {α : Type} {o : OnboardOp} {r : o.Resp} {db db' : Db F}
    {k : o.Resp → OnboardProg α} (ho : h o db = (.ok r, db')) :
    (onboard_act o >>= k).eval (S := onboardSig) h db = (k r).eval (S := onboardSig) h db' := by
  rw [Prog.eval_bind, eval_onboard_act, ho]

/-- A call that raises. -/
theorem eval_raised {α : Type} {o : OnboardOp} {e : Exc} {db db' : Db F}
    {k : o.Resp → OnboardProg α} (ho : h o db = (.error e, db')) :
    (onboard_act o >>= k).eval (S := onboardSig) h db = (.error e, db') := by
  rw [Prog.eval_bind, eval_onboard_act, ho]

/-- Deleting rows that are there, each once, removes exactly them. -/
theorem eval_delete_all (hs : Serves h) (items : List MemoryItem) (db : Db F)
    (hthere : ∀ m ∈ items, db.get_memory m.id = some m) (hnodup : (items.map (·.id)).Nodup) :
    ∃ db', (delete_all items).eval (S := onboardSig) h db = (.ok (), db')
      ∧ db'.projects = db.projects
      ∧ ∀ id, db'.get_memory id = if id ∈ items.map (·.id) then none else db.get_memory id := by
  induction items generalizing db with
  | nil => exact ⟨db, rfl, rfl, fun id => by simp⟩
  | cons m rest ih =>
      obtain ⟨db₁, hdel⟩ := Db.delete_memory_found (hthere m List.mem_cons_self)
      obtain ⟨hget, -, hproj⟩ := Db.delete_memory_ok hdel
      rw [List.map_cons, List.nodup_cons] at hnodup
      have hthere' : ∀ m' ∈ rest, db₁.get_memory m'.id = some m' := by
        intro m' hm'
        have hne : m'.id ≠ m.id := fun h => hnodup.1 (h ▸ List.mem_map_of_mem hm')
        rw [hget, if_neg hne]
        exact hthere m' (List.mem_cons_of_mem _ hm')
      obtain ⟨db', heval, hproj', hget'⟩ := ih db₁ hthere' hnodup.2
      refine ⟨db', (eval_answered (hs.delete m.id db db₁ hdel)).trans heval, hproj'.trans hproj, ?_⟩
      intro id
      rw [hget', hget, List.map_cons]
      by_cases hid : id = m.id
      · simp [hid]
      · simp [hid]

end Eval

/-! ## The world of a run -/

namespace OnboardWorld

variable (X : OnboardWorld F)

/-- The world of a run serves, whatever it refuses. -/
theorem serves : Serves X.answer := by
  refine ⟨fun _ _ _ => rfl, ?_⟩
  intro memory_id db db' hdel
  rw [answer, hdel]

/-- An insert that is not refused is the store's. -/
theorem answer_add {db db' : Db F} {item : MemoryItem} (haccepts : X.refuses db item = false)
    (hadd : db.add_memory item = .ok db') : X.answer (.add_memory item) db = (.ok (), db') := by
  rw [answer, if_neg (by simp [haccepts]), hadd]

end OnboardWorld

theorem onboard_answer_eq (E : OnboardEnv F C) : onboard_answer E = E.world.answer := by
  funext o db
  cases o with
  | extract since_commit =>
      simp only [onboard_answer, OnboardWorld.answer, OnboardEnv.world]
      rcases extract_history_from_path E.R E.head E.max_commits since_commit with e | history
      · rfl
      · rfl
  | _ => rfl

/-! ## The watermark rows -/

/-- The rows that hold the project's watermark. -/
def Db.watermarks (db : Db F) (project_id : String) : List MemoryItem :=
  db.list_memory_by_source WATERMARK_SOURCE (some project_id)

/-- The new row is at the end. -/
theorem Db.add_memory_items {db db' : Db F} {item : MemoryItem} (h : db.add_memory item = .ok db') :
    db'.items = db.items ++ [item] := by
  unfold Db.add_memory at h
  split at h
  · cases h
  · split at h
    · obtain rfl := Except.ok.inj h
      simp [Db.items]
    · cases h

/-- A row of another source leaves the list of this one. -/
theorem Db.list_memory_by_source_add {db db' : Db F} {item : MemoryItem} {source project_id : String}
    (h : db.add_memory item = .ok db') (hother : item.source ≠ source) :
    db'.list_memory_by_source source (some project_id) = db.list_memory_by_source source (some project_id) := by
  rw [Db.list_memory_by_source, Db.list_memory_by_source, Db.add_memory_items h, List.filter_append]
  simp [hother]

/-- The first row of a source. -/
theorem Db.watermarks_add {db db' : Db F} {item : MemoryItem} {project_id : String}
    (h : db.add_memory item = .ok db') (hnone : db.watermarks project_id = [])
    (hsource : item.source = WATERMARK_SOURCE) (hproject : item.project_id = some project_id) :
    db'.watermarks project_id = [item] := by
  rw [Db.watermarks, Db.list_memory_by_source, Db.newest_first] at hnone
  have hempty := (List.perm_insertionSort (fun a b : MemoryItem => toLex (b.created_at, b.id) ≤ toLex (a.created_at, a.id))
    (db.items.filter fun m =>
      m.source = WATERMARK_SOURCE && (some project_id).all fun p => m.project_id = some p)).symm
  rw [hnone] at hempty
  rw [Db.watermarks, Db.list_memory_by_source, Db.add_memory_items h, List.filter_append, hempty.eq_nil]
  simp [hsource, hproject, Db.newest_first]

/-- What `save_watermark` inserts. -/
def watermark_item (X : OnboardWorld F) (project_id latest_hash : String) (db : Db F) : MemoryItem :=
  { id := X.new_id db, content := latest_hash, tags := [WATERMARK_SOURCE], created_at := X.now
    pinned := false, project_id := some project_id, source := WATERMARK_SOURCE }

/-- Saving comes down to one insert, in a store whose watermark rows are gone. -/
theorem eval_save_watermark_add (X : OnboardWorld F) (project_id latest_hash : String) (db : Db F) :
    ∃ db₁, (save_watermark project_id latest_hash).eval (S := onboardSig) X.answer db
        = X.answer (.add_memory (watermark_item X project_id latest_hash db₁)) db₁
      ∧ db₁.projects = db.projects ∧ db₁.watermarks project_id = [] := by
  obtain ⟨db₁, hdel, hproj₁, hget₁⟩ := eval_delete_all X.serves (db.watermarks project_id) db
    (fun m hm => (Db.mem_list_memory_by_source.mp hm).1) (db.list_memory_by_source_nodup _ _)
  refine ⟨db₁, ?_, hproj₁, ?_⟩
  · refine (eval_answered (r := db.watermarks project_id) rfl).trans ?_
    rw [Prog.eval_bind, hdel]
    refine (eval_answered (r := (X.new_id db₁, X.now)) rfl).trans ?_
    exact eval_onboard_act _ _
  · refine List.eq_nil_iff_forall_not_mem.mpr ?_
    intro m hm
    obtain ⟨hthere, hsource, hpid⟩ := Db.mem_list_memory_by_source.mp hm
    rw [hget₁] at hthere
    split at hthere
    · cases hthere
    · next hout =>
        have hin : m ∈ db.watermarks project_id := Db.mem_list_memory_by_source.mpr ⟨hthere, hsource, hpid⟩
        exact hout (List.mem_map_of_mem hin)

/-- Saving leaves one row, with the given hash. -/
theorem eval_save_watermark (X : OnboardWorld F) (project_id latest_hash : String) (db : Db F)
    (hfresh : ∀ db : Db F, db.get_memory (X.new_id db) = none)
    (haccepts : ∀ db item, item.source = WATERMARK_SOURCE → X.refuses db item = false)
    (hproj : project_id ∈ db.projects.map (·.id)) :
    ∃ db' item, (save_watermark project_id latest_hash).eval (S := onboardSig) X.answer db
        = (.ok (), db')
      ∧ project_id ∈ db'.projects.map (·.id)
      ∧ db'.watermarks project_id = [item] ∧ item.content = latest_hash := by
  obtain ⟨db₁, heval, hproj₁, hnone⟩ := eval_save_watermark_add X project_id latest_hash db
  have hfk : ∀ p, (watermark_item X project_id latest_hash db₁).project_id = some p →
      p ∈ db₁.projects.map (·.id) := by
    intro p hp
    obtain rfl := Option.some.inj hp
    rw [hproj₁]
    exact hproj
  obtain ⟨db', hadd⟩ := Db.add_memory_free (hfresh db₁) hfk
  refine ⟨db', watermark_item X project_id latest_hash db₁, heval.trans (X.answer_add (haccepts _ _ rfl) hadd),
    ?_, ?_, rfl⟩
  · rw [(Db.add_memory_ok hadd).2.2, hproj₁]
    exact hproj
  · exact Db.watermarks_add hadd hnone rfl rfl

/-- A watermark that is saved is the only one. -/
theorem watermarks_of_save {X : OnboardWorld F} {project_id latest_hash : String} {db db' : Db F}
    (h : (save_watermark project_id latest_hash).eval (S := onboardSig) X.answer db = (.ok (), db')) :
    db'.projects = db.projects ∧ (db'.watermarks project_id).map (·.content) = [latest_hash] := by
  obtain ⟨db₁, heval, hproj₁, hnone⟩ := eval_save_watermark_add X project_id latest_hash db
  rw [heval, OnboardWorld.answer] at h
  split at h
  · cases h
  · split at h
    · next db₂ hadd =>
        obtain ⟨-, rfl⟩ := Prod.mk.inj h
        refine ⟨(Db.add_memory_ok hadd).2.2.trans hproj₁, ?_⟩
        rw [Db.watermarks_add hadd hnone rfl rfl]
        rfl
    · cases h

end OpenChronicle
