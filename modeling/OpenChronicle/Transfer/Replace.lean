/-
`import_memory.execute` with `mode="replace"`, among other clients.

The import looks for projects, then for a memory, then snapshots the ids, validates, and opens its
transaction. Each of these is a store call of its own, so another client's `add_project` or `add_memory`
can come in between, and the emptiness is not looked at again inside the transaction.

What is asked is exactly when the transaction starts on a store with rows in it. The log of the run
says: each insert of a client is in it, at the place where it went through, and so are the two reads
that the importing task makes. As long as no transaction has been started, the rows of the store are those of the
start and of the inserts (`tally_of_reach`), so that a read that found nothing excludes all inserts
before it, and what is left to exclude are those between the read and the transaction
(`none_added_iff`). There is one read for each table, so an insert may be harmless at a moment at which
the other kind would not be.

One import is enough to ask the question, and runs have one. With two, the rows of the first would have
to be told from those of the clients, and the answer would be about the order of the two imports.
-/
import OpenChronicle.Lib.Interleave
import OpenChronicle.Transfer.WritePhase

set_option autoImplicit false

namespace OpenChronicle

open Program PyStr

variable {F : Type}

/-! ## The clients -/

/-- What the clients of the run do. -/
inductive ClientTask (F : Type) where
  | replace (payload : Json) (now : Instant)
  | add_project (project : Project)
  | add_memory (item : MemoryItem)

/-- The calls of each. -/
def client_program (iso : IsoFormat) : ClientTask F → StoreProg F Unit
  | .replace payload now => do
      let _ ← import_memory iso now "replace" payload
      pure ()
  | .add_project project => store_call (.write (.add_project project))
  | .add_memory item => store_call (.write (.add_memory item))

/-- Clients of one store. A call is atomic, and a block is exclusive. -/
@[reducible] def clients (iso : IsoFormat) (hash_content : String → String) (F : Type) :
    Machine (storeSig F) Exc where
  World := Db F
  Task := ClientTask F
  Choice := Unit
  Env := Empty
  prog := client_program iso
  launch _ db := some db
  exec _ o _ db := some (serve_call hash_content o db)
  env e := e.elim
  kills e := e.elim

section Runs

variable {iso : IsoFormat} {hash_content : String → String}

open Machine

/-- At most one import is started. -/
def OneImport (c : (clients iso hash_content F).Conf) (a : (clients iso hash_content F).Action) :
    Prop :=
  ∀ payload now, a = .start (.replace payload now) →
    ∀ t payload' now', .started t (.replace payload' now') ∉ c.log

/-- No `add_project` went through after the import had looked for projects, and no
`add_memory` after it had looked for a memory: these are its first two calls. -/
def Undisturbed (t : ℕ) (log : List (clients iso hash_content F).Event) : Prop :=
  (∀ u project pre, .called u ⟨.write (.add_project project), .ok ()⟩ :: pre <:+ log →
      own t pre = [])
    ∧ ∀ u item pre, .called u ⟨.write (.add_memory item), .ok ()⟩ :: pre <:+ log →
      (own t pre).length < 2

/-! ## What each call does -/

/-- A write method outside of blocks. -/
theorem perform_write (w : StoreWrite F) (db : Db F) :
    perform hash_content (.write false w) db = match w.apply hash_content db with
      | .ok db' => (.ok (), db')
      | .error e => (.error e, db) := by
  have hrun : (Script.write false w).exec hash_content (Session.boot db)
      = ((w.outcome hash_content db).1, (Session.boot db).settle (w.outcome hash_content db).2) :=
    Script.exec_eq (.write false w) (Session.steady_boot db) trivial
  rw [perform, hrun, StoreWrite.outcome]
  rcases w.apply hash_content db with e | db'
  · rfl
  · rfl

/-- An insert adds one row at the end. -/
theorem add_project_rows {db db' : Db F} {project : Project} (h : db.add_project project = .ok db') :
    db'.projects = db.projects ++ [project] ∧ db'.memory_items = db.memory_items := by
  rw [Db.add_project] at h
  split at h
  · cases h
  · rw [← Except.ok.inj h]
    exact ⟨rfl, rfl⟩

theorem add_memory_rows {db db' : Db F} {item : MemoryItem} (h : db.add_memory item = .ok db') :
    db'.projects = db.projects ∧ ∃ row, db'.memory_items = db.memory_items ++ [row] := by
  rw [Db.add_memory] at h
  split at h
  · cases h
  · split at h
    · rw [← Except.ok.inj h]
      exact ⟨rfl, _, rfl⟩
    · cases h

/-- A call that is in the log was answered by the store as it was then. -/
theorem answered {c c' : (clients iso hash_content F).Conf} {a : (clients iso hash_content F).Action}
    {t : ℕ} {o : StoreOp F} {r : Except Exc o.Resp} (h : c.step a = some c')
    (hlog : c'.log = .called t ⟨o, r⟩ :: c.log) : serve_call hash_content o c.world = (r, c'.world) := by
  obtain ⟨task, w, -, -, rfl⟩ | ⟨u, choice, o', k, r', w, -, -, hexec, rfl⟩ | ⟨e, -, -⟩ :=
    Conf.step_cases h
  · cases (List.cons.inj hlog).1
  · obtain ⟨rfl, hcall⟩ := Event.called.inj (List.cons.inj hlog).1
    cases hcall
    exact Option.some.inj hexec
  · exact e.elim

/-! ## What each client calls, and when -/

/-- The order of a client's calls, newest first. The import comes to its block only after
two reads that found nothing. -/
def ClientOrder : ClientTask F → List (Call (storeSig F) Exc) → Call (storeSig F) Exc → Prop
  | .replace _ _, before, c => match c.op with
      | .write _ => False
      | .block _ => ∃ items projects, before = [⟨.list_memory none, items⟩, ⟨.list_projects, projects⟩,
          ⟨.list_memory (some 1), .ok []⟩, ⟨.list_projects, .ok []⟩]
      | _ => True
  | .add_project project, _, c => c.op = .write (.add_project project)
  | .add_memory item, _, c => c.op = .write (.add_memory item)

/-- After its two reads the import makes two more, and then its one block. -/
theorem sat_import_payload (payload : Json.Dict) (now now' : Instant) (p : Json) :
    (import_payload iso now payload : StoreProg F ImportCounts).Sat (ClientOrder (.replace p now'))
      (fun _ _ => True) [⟨.list_memory (some 1), .ok []⟩, ⟨.list_projects, .ok []⟩] := by
  refine Prog.Sat.bind (Prog.sat_op ?_)
  intro projects
  refine ⟨trivial, ?_⟩
  rcases projects with e | projects
  · trivial
  refine Prog.Sat.bind (Prog.sat_op ?_)
  intro items
  refine ⟨trivial, ?_⟩
  rcases items with e | items
  · trivial
  dsimp only
  split
  · trivial
  · refine Prog.Sat.bind (Prog.sat_op ?_)
    intro done
    refine ⟨⟨_, _, rfl⟩, ?_⟩
    rcases done with e | _ <;> trivial

/-- Every client keeps to its order. -/
theorem client_ordered (task : ClientTask F) :
    (client_program iso task).Sat (ClientOrder task) (fun _ _ => True) [] := by
  cases task with
  | add_project project => exact Prog.sat_op fun _ => ⟨rfl, trivial⟩
  | add_memory item => exact Prog.sat_op fun _ => ⟨rfl, trivial⟩
  | replace payload now =>
      refine Prog.Sat.bind (Prog.Sat.mono (Q := fun _ _ => True) ?_ ?_)
      · rw [import_memory.eq_def, if_neg (by decide)]
        rcases payload with _ | _ | _ | _ | _ | _ | fields
        iterate 6 trivial
        dsimp only
        rw [if_pos rfl]
        refine Prog.Sat.bind (Prog.sat_op ?_)
        intro projects
        refine ⟨trivial, ?_⟩
        rcases projects with e | projects
        · trivial
        refine Prog.Sat.bind (Prog.sat_op ?_)
        intro items
        refine ⟨trivial, ?_⟩
        rcases items with e | items
        · trivial
        dsimp only
        split
        · next hempty =>
            obtain ⟨rfl, rfl⟩ := hempty
            exact sat_import_payload fields now now _
        · trivial
      · rintro before (e | n) - - <;> trivial

/-- In every interleaving, each client's own calls are in its order. -/
theorem in_client_order {ok : (clients iso hash_content F).Conf → (clients iso hash_content F).Action → Prop}
    {db₀ : Db F} {c : (clients iso hash_content F).Conf} (hr : Reach ok (Conf.initial db₀) c) {t : ℕ}
    {call : Call (storeSig F) Exc} {pre : List (clients iso hash_content F).Event}
    (h : .called t call :: pre <:+ c.log) :
    ∃ task, .started t task ∈ pre ∧ ClientOrder task (own t pre) call :=
  (reach_inOrder client_ordered hr).each (.called t call) pre h

/-- One number stands for every import of the run. -/
theorem one_import {db₀ : Db F} {c : (clients iso hash_content F).Conf}
    (hr : Reach OneImport (Conf.initial db₀) c) {t u : ℕ} {payload payload' : Json}
    {now now' : Instant} (ht : .started t (.replace payload now) ∈ c.log)
    (hu : .started u (.replace payload' now') ∈ c.log) : t = u := by
  induction hr with
  | init => cases ht
  | @step c c' a _ hone hs ih =>
      obtain ⟨task, w, rfl, -, rfl⟩ | ⟨v, choice, o, k, r, w, rfl, -, -, rfl⟩ | ⟨e, -, -⟩ :=
        Conf.step_cases hs
      · rcases List.mem_cons.mp ht with hhead | ht'
        · obtain ⟨rfl, rfl⟩ := Event.started.inj hhead
          rcases List.mem_cons.mp hu with hhead' | hu
          · exact (Event.started.inj hhead').1.symm
          · exact absurd hu (hone _ _ rfl u _ _)
        · rcases List.mem_cons.mp hu with hhead' | hu
          · obtain ⟨rfl, rfl⟩ := Event.started.inj hhead'
            exact absurd ht' (hone _ _ rfl t _ _)
          · exact ih ht' hu
      · have hpast : ∀ v' task', .started v' task' ∈ .called v ⟨o, r⟩ :: c.log →
            .started v' task' ∈ c.log := by
          intro v' task' hin
          rcases List.mem_cons.mp hin with heq | hin
          · cases heq
          · exact hin
        exact ih (hpast _ _ ht) (hpast _ _ hu)
      · exact e.elim

/-! ## What is in the store -/

/-- An insert of a client that went through. -/
def added_project : (clients iso hash_content F).Event → Bool
  | .called _ ⟨.write (.add_project _), .ok _⟩ => true
  | _ => false

def added_memory : (clients iso hash_content F).Event → Bool
  | .called _ ⟨.write (.add_memory _), .ok _⟩ => true
  | _ => false

/-- The store has rows from the beginning, or from an insert of a client. -/
structure Tally (db₀ : Db F) (c : (clients iso hash_content F).Conf) : Prop where
  projects : c.world.projects = []
    ↔ db₀.projects = [] ∧ ∀ e ∈ c.log, added_project e = false
  items : c.world.memory_items = []
    ↔ db₀.memory_items = [] ∧ ∀ e ∈ c.log, added_memory e = false

/-- A step that leaves the store alone. -/
theorem Tally.keep {db₀ : Db F} {c c' : (clients iso hash_content F).Conf}
    {e : (clients iso hash_content F).Event} (h : Tally db₀ c) (hlog : c'.log = e :: c.log)
    (hworld : c'.world = c.world) (hp : added_project e = false) (hm : added_memory e = false) :
    Tally db₀ c' := by
  refine ⟨?_, ?_⟩
  · rw [hworld, hlog, List.forall_mem_cons, h.projects]
    simp only [hp, true_and]
  · rw [hworld, hlog, List.forall_mem_cons, h.items]
    simp only [hm, true_and]

/-- A step of a client's insert: it goes through, or it leaves the store alone. -/
theorem Tally.write {db₀ : Db F} {c c' : (clients iso hash_content F).Conf} {u : ℕ} {w : StoreWrite F}
    {r : Except Exc Unit} (h : Tally db₀ c) (hw : (∃ p, w = .add_project p) ∨ ∃ m, w = .add_memory m)
    (hlog : c'.log = .called u ⟨.write w, r⟩ :: c.log)
    (hserve : serve_call hash_content (.write w) c.world = (r, c'.world)) : Tally db₀ c' := by
  rw [serve_call, perform_write] at hserve
  rcases happ : w.apply hash_content c.world with e | db'
  · rw [happ] at hserve
    obtain ⟨rfl, hworld⟩ := Prod.mk.inj hserve
    rcases hw with ⟨p, rfl⟩ | ⟨m, rfl⟩
    · exact h.keep hlog hworld.symm rfl rfl
    · exact h.keep hlog hworld.symm rfl rfl
  · rw [happ] at hserve
    obtain ⟨rfl, rfl⟩ := Prod.mk.inj hserve
    rcases hw with ⟨p, rfl⟩ | ⟨m, rfl⟩
    · obtain ⟨hprojects, hitems⟩ := add_project_rows happ
      refine ⟨?_, ?_⟩
      · rw [hprojects, hlog, List.forall_mem_cons]
        simp [added_project]
      · rw [hitems, hlog, List.forall_mem_cons, h.items]
        simp [added_memory]
    · obtain ⟨hprojects, row, hitems⟩ := add_memory_rows happ
      refine ⟨?_, ?_⟩
      · rw [hprojects, hlog, List.forall_mem_cons, h.projects]
        simp [added_project]
      · rw [hitems, hlog, List.forall_mem_cons]
        simp [added_memory]

/-- **Where rows come from**, as long as no transaction has been started. -/
theorem tally_of_reach {ok : (clients iso hash_content F).Conf → (clients iso hash_content F).Action → Prop}
    {db₀ : Db F} {c : (clients iso hash_content F).Conf} (hr : Reach ok (Conf.initial db₀) c)
    (hblock : ∀ t body r, .called t ⟨.block body, r⟩ ∉ c.log) : Tally db₀ c := by
  induction hr with
  | init =>
      refine ⟨?_, ?_⟩
      · simp [Conf.initial]
      · simp [Conf.initial]
  | @step c c' a hr ha hs ih =>
      obtain ⟨e, he⟩ := Conf.step_log hs
      have hc : Tally db₀ c := by
        apply ih
        intro t body r hin
        apply hblock t body r
        rw [he]
        exact List.mem_cons_of_mem _ hin
      rcases e with ⟨t, task⟩ | ⟨t, ⟨o, r⟩⟩ | e
      · have hworld : c'.world = c.world := by
          obtain ⟨task', w, -, hw, rfl⟩ | ⟨u, choice, o, k, r, w, -, -, -, rfl⟩ | ⟨e, -, -⟩ :=
            Conf.step_cases hs
          · exact (Option.some.inj hw).symm
          · cases (List.cons.inj he).1
          · exact e.elim
        exact hc.keep he hworld rfl rfl
      · have hserve := answered hs he
        have hlast : .called t ⟨o, r⟩ :: c.log <:+ c'.log := by
          rw [he]
        obtain ⟨task, -, horder⟩ := in_client_order (hr.step ha hs) hlast
        rcases o with _ | limit | w | body
        · exact hc.keep he (Prod.mk.inj hserve).2.symm rfl rfl
        · exact hc.keep he (Prod.mk.inj hserve).2.symm rfl rfl
        · refine hc.write ?_ he hserve
          rcases task with ⟨payload, now⟩ | p | m
          · exact absurd horder id
          · exact .inl ⟨p, StoreOp.write.inj horder⟩
          · exact .inr ⟨m, StoreOp.write.inj horder⟩
        · exact absurd (he ▸ List.mem_cons_self) (hblock t body r)
      · exact e.elim

/-! ## Between the reads and the block -/

theorem added_project_iff {e : (clients iso hash_content F).Event} :
    added_project e = true ↔ ∃ u project, e = .called u ⟨.write (.add_project project), .ok ()⟩ := by
  constructor
  · intro h
    rw [added_project.eq_def] at h
    split at h
    · exact ⟨_, _, rfl⟩
    · cases h
  · rintro ⟨u, project, rfl⟩
    rfl

theorem added_memory_iff {e : (clients iso hash_content F).Event} :
    added_memory e = true ↔ ∃ u item, e = .called u ⟨.write (.add_memory item), .ok ()⟩ := by
  constructor
  · intro h
    rw [added_memory.eq_def] at h
    split at h
    · exact ⟨_, _, rfl⟩
    · cases h
  · rintro ⟨u, item, rfl⟩
    rfl

/-- If a read found nothing, the inserts left to exclude are those after it. -/
theorem none_added_iff {added : (clients iso hash_content F).Event → Bool} {t : ℕ}
    {read : Call (storeSig F) Exc} {pre₁ log : List (clients iso hash_content F).Event}
    (hread : .called t read :: pre₁ <:+ log) (hself : added (.called t read) = false)
    (hbefore : ∀ e ∈ pre₁, added e = false) :
    (∀ e ∈ log, added e = false)
      ↔ ∀ e pre, added e = true → e :: pre <:+ log → (own t pre).length ≤ (own t pre₁).length := by
  constructor
  · intro hnone e pre hadd hin
    have hmem : e ∈ log := hin.subset List.mem_cons_self
    rw [hnone e hmem] at hadd
    cases hadd
  · intro hquiet e hmem
    by_contra hadd
    rw [Bool.not_eq_false] at hadd
    obtain ⟨pre, hin⟩ := suffix_of_mem hmem
    have hshort := hquiet e pre hadd hin
    -- the insert stands before the read or after it
    rcases List.suffix_or_suffix_of_suffix hread hin with hafter | hprior
    · rcases List.suffix_cons_iff.mp hafter with heq | hafter
      · rw [← (List.cons.inj heq).1, hself] at hadd
        cases hadd
      · have hlong := (own_suffix (t := t) hafter).length_le
        rw [own_called_self, List.length_cons] at hlong
        omega
    · rcases List.suffix_cons_iff.mp hprior with heq | hprior
      · rw [(List.cons.inj heq).1, hself] at hadd
        cases hadd
      · rw [hbefore e (hprior.subset List.mem_cons_self)] at hadd
        cases hadd

/-- What the first read of the import sees. -/
theorem list_projects_eq_nil {db : Db F} (h : db.list_projects = []) : db.projects = [] := by
  have hperm : (db.list_projects).Perm db.projects := List.perm_insertionSort _ _
  rw [h] at hperm
  exact hperm.nil_eq.symm

theorem list_memory_eq_nil {db : Db F}
    (h : db.list_memory (some 1) false 0 none none none false = []) : db.memory_items = [] := by
  have htake : (db.list_memory none false 0 none none none false).take 1 = [] := h
  rw [List.take_eq_nil_iff] at htake
  have hall : db.list_memory none false 0 none none none false = [] := by
    rcases htake with h1 | hall
    · cases h1
    · exact hall
  have hperm := Db.list_memory_perm db
  rw [hall] at hperm
  exact List.map_eq_nil_iff.mp hperm.nil_eq.symm

/-- When the import starts its transaction, no transaction has been started. -/
theorem no_block_before {db₀ : Db F} {c : (clients iso hash_content F).Conf}
    (hr : Reach OneImport (Conf.initial db₀) c) {t : ℕ} {payload : Json} {now : Instant}
    (ht : .started t (.replace payload now) ∈ c.log)
    (hown : ∀ call ∈ own t c.log, ∀ body, call.op ≠ .block body) :
    ∀ u body r, .called u ⟨.block body, r⟩ ∉ c.log := by
  intro u body r hin
  obtain ⟨pre, hpre⟩ := suffix_of_mem hin
  obtain ⟨task, hstart, horder⟩ := in_client_order hr hpre
  rcases task with ⟨payload', now'⟩ | p | m
  · have hsame : t = u := by
      apply one_import hr ht
      exact hpre.subset (List.mem_cons_of_mem _ hstart)
    rw [← hsame] at hin
    exact hown _ (mem_own.mpr hin) body rfl
  · cases horder
  · cases horder

/-- A read of the import, at the moment it was made. -/
theorem tally_at_read {db₀ : Db F} {c : (clients iso hash_content F).Conf}
    (hr : Reach OneImport (Conf.initial db₀) c)
    (hblock : ∀ u body r, .called u ⟨.block body, r⟩ ∉ c.log) {t : ℕ} {o : StoreOp F}
    {r : Except Exc o.Resp} {pre : List (clients iso hash_content F).Event}
    (hin : .called t ⟨o, r⟩ :: pre <:+ c.log) :
    ∃ c₁ db, Tally db₀ c₁ ∧ c₁.log = pre ∧ serve_call hash_content o c₁.world = (r, db) := by
  obtain ⟨c₁, a₁, c₂, hr₁, hl₁, ha₁, hs₁, hl₂, -⟩ := hr.cut hin
  refine ⟨c₁, c₂.world, ?_, hl₁, ?_⟩
  · apply tally_of_reach hr₁
    intro u body r' hmem
    apply hblock u body r'
    apply hin.subset
    rw [hl₁] at hmem
    exact List.mem_cons_of_mem _ hmem
  · apply answered hs₁
    rw [hl₂, hl₁]

/-- **The store is empty when the transaction starts, exactly if nothing came in between.** -/
theorem empty_at_block_iff {db₀ : Db F} {c c' : (clients iso hash_content F).Conf}
    {a : (clients iso hash_content F).Action} {t : ℕ} {body : Script F} {r : Except Exc Unit}
    (hr : Reach OneImport (Conf.initial db₀) c) (ha : OneImport c a) (hs : c.step a = some c')
    (hlog : c'.log = .called t ⟨.block body, r⟩ :: c.log) :
    (c.world.projects = [] ∧ c.world.memory_items = []) ↔ Undisturbed t c.log := by
  have hlast : .called t ⟨.block body, r⟩ :: c.log <:+ c'.log := by
    rw [hlog]
  obtain ⟨task, hstart, horder⟩ := in_client_order (hr.step ha hs) hlast
  rcases task with ⟨payload, now⟩ | p | m
  · obtain ⟨items, projects, hown⟩ := horder
    have hblock : ∀ u body r, .called u ⟨.block body, r⟩ ∉ c.log := by
      apply no_block_before hr hstart
      intro call hcall body'
      rw [hown] at hcall
      simp only [List.mem_cons, List.not_mem_nil, or_false] at hcall
      rcases hcall with rfl | rfl | rfl | rfl <;> exact nofun
    have hc := tally_of_reach hr hblock
    -- the two reads
    have hsuf₁ : [⟨.list_projects, .ok []⟩] <:+ own t c.log := by
      rw [hown]
      exact ⟨[_, _, _], rfl⟩
    have hsuf₂ : [⟨.list_memory (some 1), .ok []⟩, ⟨.list_projects, .ok []⟩] <:+ own t c.log := by
      rw [hown]
      exact ⟨[_, _], rfl⟩
    obtain ⟨pre₁, hin₁, hown₁⟩ := own_split hsuf₁
    obtain ⟨pre₂, hin₂, hown₂⟩ := own_split hsuf₂
    obtain ⟨c₁, db₁, htally₁, rfl, hserve₁⟩ := tally_at_read hr hblock hin₁
    obtain ⟨c₂, db₂, htally₂, rfl, hserve₂⟩ := tally_at_read hr hblock hin₂
    have hnone₁ : c₁.world.projects = [] :=
      list_projects_eq_nil (Except.ok.inj (Prod.mk.inj hserve₁).1)
    have hnone₂ : c₂.world.memory_items = [] :=
      list_memory_eq_nil (Except.ok.inj (Prod.mk.inj hserve₂).1)
    obtain ⟨hbegin₁, hquiet₁⟩ := htally₁.projects.mp hnone₁
    obtain ⟨hbegin₂, hquiet₂⟩ := htally₂.items.mp hnone₂
    rw [hc.projects, hc.items, none_added_iff hin₁ rfl hquiet₁, none_added_iff hin₂ rfl hquiet₂,
      hown₁, hown₂, Undisturbed]
    simp only [hbegin₁, hbegin₂, true_and]
    refine and_congr ?_ ?_
    · constructor
      · intro h u project pre hin
        exact List.length_eq_zero_iff.mp (Nat.le_zero.mp (h _ pre rfl hin))
      · intro h e pre hadd hin
        obtain ⟨u, project, rfl⟩ := added_project_iff.mp hadd
        rw [h u project pre hin]
    · constructor
      · intro h u item pre hin
        exact Nat.lt_succ_of_le (h _ pre rfl hin)
      · intro h e pre hadd hin
        obtain ⟨u, item, rfl⟩ := added_memory_iff.mp hadd
        exact Nat.le_of_lt_succ (h u item pre hin)
  · cases horder
  · cases horder

/-- The step adds a row. -/
def Adds (c c' : (clients iso hash_content F).Conf) : Prop :=
  (∃ p ∈ c'.world.projects, p ∉ c.world.projects)
    ∨ ∃ m ∈ c'.world.memory_items, m ∉ c.world.memory_items

/-- **When `replace` writes into an empty store.** The import adds rows in its transaction
only. Rows go into a store that was empty when the transaction started, exactly if no
`add_project` went through after the import had looked for projects and no `add_memory` after
it had looked for a memory. -/
theorem replace_writes_into_empty_iff {db₀ : Db F} {c c' : (clients iso hash_content F).Conf} {t : ℕ}
    {payload : Json} {now : Instant} (hr : Reach OneImport (Conf.initial db₀) c)
    (ht : .started t (.replace payload now) ∈ c.log) (hs : c.step (.run t ()) = some c') :
    (Adds c c' → ∃ body r, c'.log = .called t ⟨.block body, r⟩ :: c.log)
      ∧ ((Adds c c' → c.world.projects = [] ∧ c.world.memory_items = [])
        ↔ (Adds c c' → Undisturbed t c.log)) := by
  have ha : OneImport c (.run t ()) := nofun
  obtain ⟨e, he⟩ := Conf.step_log hs
  -- a step that does not change the store adds nothing
  have hsame : c'.world = c.world → ¬ Adds c c' := by
    intro hworld
    rw [Adds, hworld]
    rintro (⟨p, hin, hnot⟩ | ⟨m, hin, hnot⟩)
    · exact hnot hin
    · exact hnot hin
  obtain ⟨task, w, hrun, -, -⟩ | ⟨u, choice, o, k, r, w, hrun, -, -, hc'⟩ | ⟨e, -, -⟩ :=
    Conf.step_cases hs
  · cases hrun
  · obtain ⟨rfl, -⟩ := Action.run.inj hrun
    have hlog : c'.log = .called t ⟨o, r⟩ :: c.log := by
      rw [hc']
    have hserve := answered hs hlog
    rcases o with _ | limit | w | body
    · have hnone := hsame (Prod.mk.inj hserve).2.symm
      exact ⟨fun hadd => absurd hadd hnone, by simp only [hnone, false_implies]⟩
    · have hnone := hsame (Prod.mk.inj hserve).2.symm
      exact ⟨fun hadd => absurd hadd hnone, by simp only [hnone, false_implies]⟩
    · -- the import calls no write method outside of its transaction
      have hlast : .called t ⟨.write w, r⟩ :: c.log <:+ c'.log := by
        rw [hlog]
      obtain ⟨task, hstart, horder⟩ := in_client_order (hr.step ha hs) hlast
      obtain rfl := (reach_inOrder client_ordered hr).once t _ _ ht hstart
      exact absurd horder id
    · refine ⟨fun _ => ⟨body, r, hlog⟩, ?_⟩
      rw [empty_at_block_iff hr ha hs hlog]
  · exact e.elim

end Runs

/-! ### One client comes in between -/

namespace Overtaken

open Machine

abbrev Store := clients Surrogate.iso id Unit

/-- An envelope with one project. -/
def payload : Json :=
  .dict [("format_version", .int 1),
    ("projects", .list [.dict [("id", .str "a"), ("name", .str "a"),
      ("created_at", .str "1970-01-01T00:00:00+00:00")]]),
    ("memory_items", .list [])]

/-- Only the first step may start an import. -/
def import_first (c : Store.Conf) : Store.Action → Bool
  | .start (.replace _ _) => c.log.isEmpty
  | _ => true

theorem import_first_sound (c : Store.Conf) (a : Store.Action) (h : import_first c a = true) :
    OneImport c a := by
  rintro p now rfl t p' now' hin
  rw [List.isEmpty_iff.mp h] at hin
  cases hin

def is_import : Store.Event → Bool
  | .started 0 (.replace _ _) => true
  | _ => false

/-- Whether the step adds a project. -/
def adds_project (c c' : Store.Conf) : Bool :=
  c'.world.projects.any fun p => !(c.world.projects.map (·.id)).contains p.id

theorem adds_of_adds_project {c c' : Store.Conf} (h : adds_project c c' = true) : Adds c c' := by
  obtain ⟨p, hin, hnot⟩ := List.any_eq_true.mp h
  refine .inl ⟨p, hin, ?_⟩
  intro hold
  simp only [Bool.not_eq_true', List.contains_eq_mem, decide_eq_false_iff_not] at hnot
  exact hnot (List.mem_map_of_mem hold)

/-- The import up to its transaction, alone. -/
def alone : List Store.Action :=
  [.start (.replace payload 0), .run 0 (), .run 0 (), .run 0 (), .run 0 ()]

/-- The same, with another client's `add_project` after the two reads. -/
def overtaken : List Store.Action :=
  [.start (.replace payload 0), .start (.add_project { id := "b", name := "b", created_at := 0 }),
    .run 0 (), .run 0 (), .run 1 (), .run 0 (), .run 0 ()]

theorem started_of_any {c : Store.Conf} (h : c.log.any is_import = true) :
    ∃ payload now, .started 0 (.replace payload now) ∈ c.log := by
  obtain ⟨e, hin, he⟩ := List.any_eq_true.mp h
  rw [is_import.eq_def] at he
  split at he
  · exact ⟨_, _, hin⟩
  · cases he

/-- Alone, the import writes its project into the empty store. -/
theorem replace_writes_into_empty_alone : ∃ c c' : Store.Conf,
    Reach OneImport (Conf.initial {}) c ∧ c.step (.run 0 ()) = some c' ∧ Adds c c'
      ∧ Undisturbed 0 c.log := by
  have hrun : ((Conf.initial (M := Store) {}).steps import_first alone).any
      (fun c => (c.step (.run 0 ())).any fun c' => c.log.any is_import && adds_project c c'
        && c.world.projects.isEmpty && c.world.memory_items.isEmpty) = true := by decide +kernel
  obtain ⟨c, hsteps, hrun⟩ := (Option.any_eq_true _ _).mp hrun
  obtain ⟨c', hs, hrun⟩ := (Option.any_eq_true _ _).mp hrun
  simp only [Bool.and_eq_true, List.isEmpty_iff] at hrun
  obtain ⟨⟨⟨hstart, hadd⟩, hprojects⟩, hitems⟩ := hrun
  have hr := reach_of_steps import_first_sound hsteps
  obtain ⟨p, now, hin⟩ := started_of_any hstart
  have hadds := adds_of_adds_project hadd
  refine ⟨c, c', hr, hs, hadds, ?_⟩
  exact (replace_writes_into_empty_iff hr hin hs).2.mp (fun _ => ⟨hprojects, hitems⟩) hadds

/-- With the other client in between, the transaction starts on a store with a project, and
the import adds its own to it. -/
theorem replace_writes_into_non_empty : ∃ c c' : Store.Conf,
    Reach OneImport (Conf.initial {}) c ∧ (∃ payload now, .started 0 (.replace payload now) ∈ c.log)
      ∧ c.step (.run 0 ()) = some c' ∧ Adds c c' ∧ c.world.projects ≠ [] := by
  have hrun : ((Conf.initial (M := Store) {}).steps import_first overtaken).any
      (fun c => (c.step (.run 0 ())).any fun c' => c.log.any is_import && adds_project c c'
        && !c.world.projects.isEmpty) = true := by decide +kernel
  obtain ⟨c, hsteps, hrun⟩ := (Option.any_eq_true _ _).mp hrun
  obtain ⟨c', hs, hrun⟩ := (Option.any_eq_true _ _).mp hrun
  simp only [Bool.and_eq_true, Bool.not_eq_true', List.isEmpty_eq_false_iff] at hrun
  obtain ⟨⟨hstart, hadd⟩, hprojects⟩ := hrun
  refine ⟨c, c', reach_of_steps import_first_sound hsteps, started_of_any hstart, hs,
    adds_of_adds_project hadd, ?_⟩
  exact hprojects

end Overtaken

end OpenChronicle
