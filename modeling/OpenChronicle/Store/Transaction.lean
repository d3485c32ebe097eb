/-
`SqliteStore.transaction()`, `_commit_if_needed` and the write methods, on a connection
with SQLite's transactions (`Lib/Savepoints.lean`).

A `Script` is what one thread does: write methods, `with store.transaction():` blocks
nested anyhow, exceptions raised anywhere, and `try` around any part of it. `exec` runs
it as the source does. `spec` says what the blocks are for, on a plain database: a block
that ends exceptionally leaves it as it found it. The two agree as long as no block is
left by an exception outside `Exception`; the handler of `transaction()` does not see
those, and leaves the SQLite transaction or the savepoint open.
-/
import OpenChronicle.Lib.Savepoints
import OpenChronicle.Store.Schema

set_option autoImplicit false

namespace OpenChronicle

open Savepoints

variable {F : Type}

/-! ## Exceptions -/

/-- The exceptions outside `Exception`. -/
inductive BaseExc where
  | KeyboardInterrupt
  | SystemExit
  | GeneratorExit
  /-- Any other `BaseException`, such as `asyncio.CancelledError`. -/
  | other
  deriving DecidableEq, Repr

inductive Raised where
  | exception (e : Exc)
  | base (b : BaseExc)
  deriving DecidableEq, Repr

inductive Exit where
  | normal
  | raised (e : Raised)
  deriving DecidableEq, Repr

/-! ## The session -/

/-- The connection and `_transaction_depth`. -/
structure Session (F : Type) where
  conn : Conn (Db F)
  depth : ℕ := 0

namespace Session

/-- A new connection to a file. -/
def boot (file : Db F) : Session F := { conn := { file } }

def view (c : Session F) : Db F := c.conn.view

/-- `_commit_if_needed`. -/
def commit_if_needed (c : Session F) : Session F :=
  if c.depth = 0 then { c with conn := c.conn.commit_open } else c

/-- One statement; a statement that fails changes nothing. -/
def statement (f : Db F → Except Exc (Db F)) (c : Session F) : Exit × Session F :=
  match f c.view with
  | .ok db => (.normal, { c with conn := c.conn.put db })
  | .error e => (.raised (.exception e), c)

/-- A write method that is one statement and then `_commit_if_needed()`. -/
def method (f : Db F → Except Exc (Db F)) (c : Session F) : Exit × Session F :=
  match c.statement f with
  | (.normal, c') => (.normal, c'.commit_if_needed)
  | (.raised e, c') => (.raised e, c')

/-- How `transaction()` ends: the depth goes down in every case, `ok` is the statement on
a normal return, `undo` the ones of its `except Exception`. A statement that is refused
raises in its turn. -/
def leave (ok undo : Conn (Db F) → Option (Conn (Db F))) (out : Exit × Session F) :
    Exit × Session F :=
  let c := out.2
  match out.1 with
  | .normal =>
      match ok c.conn with
      | some conn => (.normal, { conn, depth := c.depth - 1 })
      | none => (.raised (.exception .OperationalError), { c with depth := c.depth - 1 })
  | .raised (.exception e) =>
      match undo c.conn with
      | some conn => (.raised (.exception e), { conn, depth := c.depth - 1 })
      | none => (.raised (.exception .OperationalError), { c with depth := c.depth - 1 })
  | .raised (.base b) => (.raised (.base b), { c with depth := c.depth - 1 })

/-- `f"sp_{self._transaction_depth + 1}"`. -/
def savepoint_name (depth : ℕ) : String := "sp_" ++ toString (depth + 1)

/-- The session the body of a block starts in: `BEGIN` for the outermost one, which is
refused inside an open transaction, and a savepoint for the others. -/
def enter (c : Session F) : Option (Session F) :=
  if c.depth = 0 then c.conn.begin.map fun conn => { conn, depth := c.depth + 1 }
  else some { conn := c.conn.savepoint (savepoint_name c.depth), depth := c.depth + 1 }

/-- `with store.transaction(): body`. -/
def transaction (body : Session F → Exit × Session F) (c : Session F) : Exit × Session F :=
  let name := savepoint_name c.depth
  match c.enter with
  | none => (.raised (.exception .OperationalError), c)
  | some c' =>
      if c.depth = 0 then leave Conn.commit Conn.rollback (body c')
      else
        leave (·.release name) (fun conn => (conn.rollback_to name).bind (·.release name)) (body c')

end Session

/-! ## The write methods -/

/-- A call of a write method; `update_memory` is given its `utc_now()`. -/
inductive StoreWrite (F : Type) where
  | add_project (project : Project)
  | update_project (project_id : String) (name : Option String) (metadata : Option Json.Dict)
  | delete_project (project_id : String)
  | add_memory (item : MemoryItem)
  | set_pinned (memory_id : String) (pinned : Bool)
  | update_memory (now : Instant) (memory_id : String) (content : Option String)
      (tags : Option (List PyStr.Text))
  | delete_memory (memory_id : String)
  | save_embedding (memory_id : String) (embedding : List F) (model provider content_hash : String)
      (model_revision : Option String) (settings_fingerprint : String) (status : EmbeddingStatus)
  | delete_embedding (memory_id : String)

namespace StoreWrite

variable (hash_content : String → String)

/-- What the method does to the database when it runs alone. -/
def apply : StoreWrite F → Db F → Except Exc (Db F)
  | add_project project, db => db.add_project project
  | update_project project_id name metadata, db => db.update_project project_id name metadata
  | delete_project project_id, db =>
      if db.get_project project_id = none then .error (.ProjectNotFound (some project_id))
      else (db.delete_memories_of project_id).delete_project_row project_id
  | add_memory item, db => db.add_memory item
  | set_pinned memory_id pinned, db => db.set_pinned memory_id pinned
  | update_memory now memory_id content tags, db => db.update_memory now memory_id content tags
  | delete_memory memory_id, db => db.delete_memory memory_id
  | save_embedding memory_id embedding model provider content_hash model_revision
      settings_fingerprint status, db =>
      .ok (db.save_embedding hash_content memory_id embedding model provider content_hash
        model_revision settings_fingerprint status).2
  | delete_embedding memory_id, db => .ok (db.delete_embedding memory_id)

/-- A method alone: what `apply` says, or an `Exception` and no change. -/
def outcome (w : StoreWrite F) (db : Db F) : Exit × Db F :=
  match w.apply hash_content db with
  | .ok db' => (.normal, db')
  | .error e => (.raised (.exception e), db)

/-- The method on the connection: one statement and a commit, or a block of its own. -/
def exec : StoreWrite F → Session F → Exit × Session F
  | delete_project project_id, c =>
      c.transaction fun c =>
        if c.view.get_project project_id = none then
          (.raised (.exception (.ProjectNotFound (some project_id))), c)
        else
          match c.statement fun db => .ok (db.delete_memories_of project_id) with
          | (.normal, c) => c.statement (·.delete_project_row project_id)
          | out => out
  | delete_memory memory_id, c => c.transaction (·.statement (·.delete_memory memory_id))
  | save_embedding memory_id embedding model provider content_hash model_revision
      settings_fingerprint status, c =>
      let out := c.view.save_embedding hash_content memory_id embedding model provider content_hash
        model_revision settings_fingerprint status
      -- a refusal returns before the commit
      if out.1 then c.method fun _ => .ok out.2 else (.normal, c)
  | w, c => c.method (w.apply hash_content)

end StoreWrite

/-! ## Scripts -/

/-- What one thread does. `busy` says that another connection holds the write lock until
the retries are used up; it matters only where this one does not hold it itself. -/
inductive Script (F : Type) where
  | skip
  | write (busy : Bool) (w : StoreWrite F)
  | raise (e : Raised)
  | seq (first second : Script F)
  /-- `with store.transaction(): body`. -/
  | block (busy : Bool) (body : Script F)
  /-- `try: body` with an `except` that passes over what `catches` says. -/
  | attempt (body : Script F) (catches : Raised → Bool)

/-- `OperationalError: database is locked`. -/
def locked_out : Exit := .raised (.exception .OperationalError)

namespace Script

variable (hash_content : String → String)

/-- The script on the connection. -/
def exec : Script F → Session F → Exit × Session F
  | skip, c => (.normal, c)
  | write busy w, c =>
      if busy && c.conn.work.isNone then (locked_out, c) else w.exec hash_content c
  | raise e, c => (.raised e, c)
  | seq first second, c =>
      match first.exec c with
      | (.normal, c') => second.exec c'
      | out => out
  | block busy body, c =>
      if busy && c.conn.work.isNone then (locked_out, c) else c.transaction body.exec
  | attempt body catches, c =>
      match body.exec c with
      | (.raised e, c') => if catches e then (.normal, c') else (.raised e, c')
      | out => out

/-- A block that ends normally keeps what its body did, any other undoes it. -/
def keep_or_undo (out : Exit × Db F) (db : Db F) : Exit × Db F :=
  match out with
  | (.normal, db') => (.normal, db')
  | (.raised e, _) => (.raised e, db)

/-- What the script is to do, on a database; `inside` is whether a block is around it. -/
def spec : Script F → Bool → Db F → Exit × Db F
  | skip, _, db => (.normal, db)
  | write busy w, inside, db =>
      if busy && !inside then (locked_out, db) else w.outcome hash_content db
  | raise e, _, db => (.raised e, db)
  | seq first second, inside, db =>
      match first.spec inside db with
      | (.normal, db') => second.spec inside db'
      | out => out
  | block busy body, inside, db =>
      if busy && !inside then (locked_out, db) else keep_or_undo (body.spec true db) db
  | attempt body catches, inside, db =>
      match body.spec inside db with
      | (.raised e, db') => if catches e then (.normal, db') else (.raised e, db')
      | out => out

/-- Every block that is entered is left normally or by an `Exception`. -/
def LeftByExceptions : Script F → Bool → Db F → Prop
  | seq first second, inside, db =>
      first.LeftByExceptions inside db
        ∧ ((first.spec hash_content inside db).1 = .normal →
          second.LeftByExceptions inside (first.spec hash_content inside db).2)
  | block busy body, inside, db =>
      (busy && !inside) = false →
        body.LeftByExceptions true db ∧ ∀ b, (body.spec hash_content true db).1 ≠ .raised (.base b)
  | attempt body _, inside, db => body.LeftByExceptions inside db
  | _, _, _ => True

end Script

/-! ## What a block amounts to -/

namespace Session

/-- The depth counts the open blocks: outside of them no SQLite transaction is open, inside
one that `BEGIN` opened is. -/
structure Steady (c : Session F) : Prop where
  outside : c.depth = 0 → c.conn.work = none
  inside : c.depth ≠ 0 → ∃ w, c.conn.work = some w ∧ w.begun = true

/-- The session with another database in view. -/
def settle (c : Session F) (db : Db F) : Session F := { c with conn := c.conn.put db }

/-- A store that was just opened is outside any block. -/
theorem steady_boot (file : Db F) : (boot file).Steady := ⟨fun _ => rfl, fun h => absurd rfl h⟩

/-- Leaving a state as it was changes nothing. -/
theorem settle_view (c : Session F) : c.settle c.view = c := by
  rcases c with ⟨⟨file, work⟩, depth⟩
  rcases work with _ | w
  · rfl
  · rfl

/-- What is settled is seen. -/
theorem view_settle (c : Session F) (db : Db F) : (c.settle db).view = db := by
  rcases c with ⟨⟨file, work⟩, depth⟩
  rcases work with _ | w
  · rfl
  · rfl

/-- The later of two states is the one that counts. -/
theorem settle_settle (c : Session F) (db db' : Db F) : (c.settle db).settle db' = c.settle db' := by
  rcases c with ⟨⟨file, work⟩, depth⟩
  rcases work with _ | w
  · rfl
  · rfl

/-- A statement opens no block and leaves none. -/
theorem Steady.settle {c : Session F} (h : c.Steady) (db : Db F) : (c.settle db).Steady := by
  rcases c with ⟨⟨file, work⟩, depth⟩
  rcases work with _ | w
  · refine ⟨fun _ => rfl, ?_⟩
    intro hd
    obtain ⟨w, hw, -⟩ := h.inside hd
    cases hw
  · refine ⟨fun hd => absurd (h.outside hd) (by simp), ?_⟩
    intro hd
    obtain ⟨w', hw', hb⟩ := h.inside hd
    obtain rfl := Option.some.inj hw'
    exact ⟨_, rfl, hb⟩

/-- Between blocks there is no transaction, and inside one there is. -/
theorem Steady.isNone_work {c : Session F} (h : c.Steady) :
    c.conn.work.isNone = !decide (c.depth ≠ 0) := by
  by_cases hd : c.depth = 0
  · simp [h.outside hd, hd]
  · obtain ⟨w, hw, -⟩ := h.inside hd
    simp [hw, hd]

/-- In a steady session there is nothing for `_commit_if_needed` to commit. -/
theorem Steady.commit_if_needed {c : Session F} (h : c.Steady) : c.commit_if_needed = c := by
  rw [Session.commit_if_needed]
  split
  · next hd => rw [Conn.commit_open, Conn.commit, h.outside hd]; rfl
  · rfl

theorem statement_eq (c : Session F) (f : Db F → Except Exc (Db F)) :
    c.statement f = match f c.view with
      | .ok db => (.normal, c.settle db)
      | .error e => (.raised (.exception e), c) := rfl

theorem Steady.method_eq {c : Session F} (h : c.Steady) (f : Db F → Except Exc (Db F)) :
    c.method f = c.statement f := by
  rw [method, statement_eq]
  rcases f c.view with e | db
  · rfl
  · simp only [(h.settle db).commit_if_needed]

/-- A block whose body only moves the database in view, and is not left by an exception
outside `Exception`, either keeps what the body did or undoes it. -/
theorem transaction_eq {c : Session F} (h : c.Steady) {body : Session F → Exit × Session F}
    (out : Exit × Db F)
    (hbody : ∀ c' : Session F, c'.Steady → c'.depth ≠ 0 → c'.view = c.view →
      body c' = (out.1, c'.settle out.2))
    (hleft : ∀ b, out.1 ≠ .raised (.base b)) :
    c.transaction body = ((Script.keep_or_undo out c.view).1, c.settle (Script.keep_or_undo out c.view).2) := by
  obtain ⟨exit, db⟩ := out
  rcases c with ⟨⟨file, work⟩, depth⟩
  by_cases hd : depth = 0
  · subst hd
    obtain rfl : work = none := h.outside rfl
    -- `BEGIN` copies the file, and `COMMIT` or `ROLLBACK` decides which copy stays
    have hrun := hbody { conn := { file, work := some { now := file } }, depth := 1 }
      ⟨fun hd => absurd hd Nat.one_ne_zero, fun _ => ⟨_, rfl, rfl⟩⟩ Nat.one_ne_zero rfl
    simp only [transaction, enter, if_pos, Conn.begin, Option.map_some, Nat.zero_add, hrun]
    rcases exit with _ | (e | b)
    · rfl
    · rfl
    · exact absurd rfl (hleft b)
  · obtain ⟨w, hw, hb⟩ := h.inside hd
    obtain rfl : work = some w := hw
    -- the savepoint is on top of the others, so its name means it
    have hrun := hbody
      { conn := Conn.savepoint { file, work := some w } (savepoint_name depth), depth := depth + 1 }
      ⟨fun hd => absurd hd (by simp), fun _ => ⟨_, rfl, hb⟩⟩ (by simp) rfl
    simp only [transaction, enter, if_neg hd, hrun, leave]
    rcases exit with _ | (e | b)
    · simp [settle, Conn.savepoint, Conn.put, Conn.release, Conn.find_mark, Script.keep_or_undo, hb]
    · simp [settle, Conn.savepoint, Conn.put, Conn.release, Conn.rollback_to, Conn.find_mark,
        Script.keep_or_undo, hb, view, Conn.view]
    · exact absurd rfl (hleft b)

end Session

namespace StoreWrite

variable (hash_content : String → String)

/-- The write methods raise exceptions of `Exception` only. -/
theorem outcome_ne_base (w : StoreWrite F) (db : Db F) (b : BaseExc) :
    (w.outcome hash_content db).1 ≠ .raised (.base b) := by
  rw [outcome]
  split
  · exact nofun
  · exact fun h => by cases h

theorem keep_outcome (w : StoreWrite F) (db : Db F) :
    Script.keep_or_undo (w.outcome hash_content db) db = w.outcome hash_content db := by
  rw [outcome]
  split
  · rfl
  · rfl

variable {hash_content}

/-- In a steady session a method moves the database in view as `apply` says, whether it is
one statement or a block of its own. -/
theorem exec_eq {c : Session F} (h : c.Steady) (w : StoreWrite F) :
    w.exec hash_content c
      = ((w.outcome hash_content c.view).1, c.settle (w.outcome hash_content c.view).2) := by
  have plain : c.method (w.apply hash_content)
      = ((w.outcome hash_content c.view).1, c.settle (w.outcome hash_content c.view).2) := by
    rw [h.method_eq, Session.statement_eq, outcome]
    rcases w.apply hash_content c.view with e | db
    · simp only [c.settle_view]
    · rfl
  cases w with
  | add_project | update_project | add_memory | set_pinned | update_memory | delete_embedding =>
      exact plain
  | save_embedding memory_id embedding model provider content_hash model_revision
      settings_fingerprint status =>
      simp only [exec]
      rcases hout : c.view.save_embedding hash_content memory_id embedding model provider content_hash
        model_revision settings_fingerprint status with ⟨_ | _, db⟩
      · -- a refusal leaves the database as it is
        have hsame : db = c.view := by
          rcases Db.save_embedding_cases hash_content c.view memory_id embedding model provider
            content_hash model_revision settings_fingerprint status with ⟨heq, -⟩ | ⟨heq, -⟩
          · exact (congrArg Prod.snd (hout.symm.trans heq))
          · exact absurd (hout ▸ heq) (by simp)
        simp [outcome, apply, hout, hsame, c.settle_view]
      · rw [if_pos rfl, h.method_eq, Session.statement_eq]
        simp [outcome, apply, hout]
  | delete_memory memory_id =>
      rw [exec, Session.transaction_eq h (outcome hash_content (.delete_memory memory_id) c.view)
        ?_ (outcome_ne_base hash_content _ _), keep_outcome]
      intro c' _ _ hview
      rw [Session.statement_eq, outcome, apply, hview]
      rcases c.view.delete_memory memory_id with e | db
      · simp only [← hview, c'.settle_view]
      · rfl
  | delete_project project_id =>
      rw [exec, Session.transaction_eq h (outcome hash_content (.delete_project project_id) c.view)
        ?_ (outcome_ne_base hash_content _ _), keep_outcome]
      intro c' _ _ hview
      rw [outcome, apply, hview]
      by_cases hfound : c.view.get_project project_id = none
      · rw [if_pos hfound, if_pos hfound]
        simp only [← hview, c'.settle_view]
      · rw [if_neg hfound, if_neg hfound]
        simp only [Session.statement_eq, hview, c'.view_settle]
        rcases hrow : (c.view.delete_memories_of project_id).delete_project_row project_id with e | db
        · -- no memory of the project is left, so the second statement is not refused
          exact absurd hrow (Db.delete_project_row_ne_error _ _ _)
        · simp only [c'.settle_settle]

end StoreWrite

namespace Script

variable {hash_content : String → String}

/-- As long as blocks are left normally or by an `Exception`, a script moves the database
in view as `spec` says, and nothing else about the session. -/
theorem exec_eq (s : Script F) {c : Session F} (h : c.Steady)
    (hleft : s.LeftByExceptions hash_content (decide (c.depth ≠ 0)) c.view) :
    s.exec hash_content c
      = ((s.spec hash_content (decide (c.depth ≠ 0)) c.view).1,
        c.settle (s.spec hash_content (decide (c.depth ≠ 0)) c.view).2) := by
  induction s generalizing c with
  | skip => exact Prod.ext rfl c.settle_view.symm
  | raise e => exact Prod.ext rfl c.settle_view.symm
  | write busy w =>
      rw [exec, spec, h.isNone_work]
      split
      · exact Prod.ext rfl c.settle_view.symm
      · exact StoreWrite.exec_eq h w
  | seq first second ih₁ ih₂ =>
      rw [exec, spec, ih₁ h hleft.1]
      rcases hrun : first.spec hash_content (decide (c.depth ≠ 0)) c.view with ⟨_ | e, db⟩
      · have hleft₂ := hleft.2 (by rw [hrun])
        rw [hrun] at hleft₂
        -- the second statement starts from what the first one left in view
        have hsecond := ih₂ (c := c.settle db) (h.settle db) (by rw [c.view_settle]; exact hleft₂)
        rw [c.view_settle] at hsecond
        simp only [hsecond, c.settle_settle]
        rfl
      · rfl
  | block busy body ih =>
      rw [exec, spec, h.isNone_work]
      by_cases hbusy : (busy && !decide (c.depth ≠ 0)) = true
      · rw [if_pos hbusy, if_pos hbusy]
        exact Prod.ext rfl c.settle_view.symm
      · rw [if_neg hbusy, if_neg hbusy]
        -- inside the block the depth is positive, whatever it was outside
        obtain ⟨hin, hbase⟩ := hleft (by simpa using hbusy)
        refine Session.transaction_eq h (body.spec hash_content true c.view) ?_ hbase
        intro c' hc' hdepth hview
        have hrun := ih hc' (by rw [decide_eq_true hdepth, hview]; exact hin)
        rw [decide_eq_true hdepth, hview] at hrun
        exact hrun
  | attempt body catches ih =>
      rw [exec, spec, ih h hleft]
      rcases body.spec hash_content (decide (c.depth ≠ 0)) c.view with ⟨_ | e, db⟩
      · rfl
      · dsimp only
        split
        · rfl
        · rfl

/-! ## Every state of a run -/

variable (hash_content) in
/-- Running `s` from `c` comes to run `t` from `d`. -/
inductive Comes : Script F → Session F → Script F → Session F → Prop where
  | here {s : Script F} {c : Session F} : Comes s c s c
  | first {a b t : Script F} {c d : Session F} : Comes a c t d → Comes (seq a b) c t d
  | second {a b t : Script F} {c d : Session F} : (a.exec hash_content c).1 = .normal →
      Comes b (a.exec hash_content c).2 t d → Comes (seq a b) c t d
  | body {busy : Bool} {a t : Script F} {c c' d : Session F} :
      (busy && c.conn.work.isNone) = false → c.enter = some c' → Comes a c' t d →
      Comes (block busy a) c t d
  | guarded {a t : Script F} {catches : Raised → Bool} {c d : Session F} : Comes a c t d →
      Comes (attempt a catches) c t d

/-- A block opens a transaction or a savepoint, one level deeper. -/
theorem steady_of_enter {c c' : Session F} (h : c.Steady) (henter : c.enter = some c') :
    c'.Steady ∧ c'.depth ≠ 0 ∧ c'.view = c.view := by
  rcases c with ⟨⟨file, work⟩, depth⟩
  by_cases hd : depth = 0
  · subst hd
    obtain rfl : work = none := h.outside rfl
    cases henter
    exact ⟨⟨fun hd => absurd hd Nat.one_ne_zero, fun _ => ⟨_, rfl, rfl⟩⟩, Nat.one_ne_zero, rfl⟩
  · obtain ⟨w, hw, hb⟩ := h.inside hd
    obtain rfl : work = some w := hw
    rw [Session.enter, if_neg hd] at henter
    cases henter
    exact ⟨⟨fun hd => absurd hd (Nat.succ_ne_zero _), fun _ => ⟨_, rfl, hb⟩⟩, Nat.succ_ne_zero _, rfl⟩

/-- What holds where a run starts holds wherever it comes to. -/
theorem Comes.steady {s t : Script F} {c d : Session F} (hcomes : Comes hash_content s c t d)
    (h : c.Steady) (hleft : s.LeftByExceptions hash_content (decide (c.depth ≠ 0)) c.view) :
    d.Steady ∧ t.LeftByExceptions hash_content (decide (d.depth ≠ 0)) d.view := by
  induction hcomes with
  | here => exact ⟨h, hleft⟩
  | first _ ih => exact ih h hleft.1
  | @second a b t c d hnormal _ ih =>
      have hrun := exec_eq a h hleft.1
      rw [hrun] at hnormal ih
      refine ih (h.settle _) ?_
      rw [c.view_settle]
      exact hleft.2 hnormal
  | @body busy a t c c' d hbusy henter _ ih =>
      obtain ⟨hsteady, hdepth, hview⟩ := steady_of_enter h henter
      rw [h.isNone_work] at hbusy
      refine ih hsteady ?_
      rw [decide_eq_true hdepth, hview]
      exact (hleft hbusy).1
  | guarded _ ih => exact ih h hleft

variable (hash_content) in
/-- **Blocks are atomic** in every run that leaves them normally or by an `Exception`:
wherever the run comes to, a block that ends exceptionally leaves the database in view as
it found it; the depth is what it was, and where it is 0 no SQLite transaction is open;
nothing inside a block reaches the file; and outside of blocks the file is what `spec`
makes of it, so a write commits its own work and nothing of a block that failed. -/
theorem transaction_atomic (s : Script F) (file : Db F)
    (hleft : s.LeftByExceptions hash_content false file) {t : Script F} {d : Session F}
    (hcomes : Comes hash_content s (Session.boot file) t d) :
    (∀ busy body e, t = .block busy body → (t.exec hash_content d).1 = .raised e →
        (t.exec hash_content d).2.view = d.view)
      ∧ (t.exec hash_content d).2.depth = d.depth
      ∧ (d.depth = 0 → (t.exec hash_content d).2.conn.work = none)
      ∧ (d.depth ≠ 0 → (t.exec hash_content d).2.conn.file = d.conn.file)
      ∧ (d.depth = 0 → t.exec hash_content d
          = ((t.spec hash_content false d.conn.file).1,
            Session.boot (t.spec hash_content false d.conn.file).2)) := by
  -- where the run has come to, the session and its specification agree
  obtain ⟨hsteady, hleft'⟩ := hcomes.steady (Session.steady_boot file) hleft
  have hrun := exec_eq t hsteady hleft'
  refine ⟨?_, ?_, ?_, ?_, ?_⟩
  · -- a block that raises is undone to the view it began with
    rintro busy body e rfl hraised
    rw [hrun] at hraised ⊢
    rw [d.view_settle]
    rw [spec] at hraised ⊢
    split at hraised
    · next hbusy => rw [if_pos hbusy]
    · next hbusy =>
        rw [if_neg hbusy]
        rcases hbody : body.spec hash_content true d.view with ⟨_ | e', db⟩
        · rw [hbody] at hraised
          cases hraised
        · rfl
  · rw [hrun]
    rfl
  · intro hd
    rw [hrun]
    exact (hsteady.settle _).outside hd
  · intro hd
    rw [hrun]
    obtain ⟨w, hw, -⟩ := hsteady.inside hd
    simp only [Session.settle, Conn.put, hw]
  · intro hd
    rcases d with ⟨⟨dfile, work⟩, depth⟩
    obtain rfl : depth = 0 := hd
    obtain rfl : work = none := hsteady.outside rfl
    exact hrun

/-! ## Invariants of every statement

A property that each statement keeps holds in every copy the connection has, however the
blocks around the statements end. -/

variable (hash_content) in
/-- `P` is kept by every statement of the write methods. -/
structure Kept (P : Db F → Prop) : Prop where
  apply : ∀ w db db', P db → StoreWrite.apply hash_content w db = .ok db' → P db'
  delete_memories_of : ∀ db project_id, P db → P (Db.delete_memories_of db project_id)
  delete_project_row : ∀ db db' project_id, P db →
    Db.delete_project_row db project_id = .ok db' → P db'

section Kept

variable {P : Db F → Prop} {c : Session F}

/-- A property of stores that every write keeps holds of every copy: statement by statement, -/
theorem all_statement (h : c.conn.All P) {f : Db F → Except Exc (Db F)}
    (hf : ∀ db db', P db → f db = .ok db' → P db') : (c.statement f).2.conn.All P := by
  rw [Session.statement_eq]
  rcases hrun : f c.view with e | db
  · exact h
  · exact h.put (hf c.view db h.view hrun)

/-- method by method, -/
theorem all_method (h : c.conn.All P) {f : Db F → Except Exc (Db F)}
    (hf : ∀ db db', P db → f db = .ok db' → P db') : (c.method f).2.conn.All P := by
  have hs := all_statement h hf
  rw [Session.method]
  rcases hrun : c.statement f with ⟨_ | e, c'⟩
  · rw [hrun] at hs
    dsimp only [Session.commit_if_needed] at hs ⊢
    split
    · exact hs.commit_open
    · exact hs
  · rw [hrun] at hs
    exact hs

/-- at the end of a block, whichever way it is left, -/
theorem all_leave {ok undo : Conn (Db F) → Option (Conn (Db F))}
    (hok : ∀ c c' : Conn (Db F), c.All P → ok c = some c' → c'.All P)
    (hundo : ∀ c c' : Conn (Db F), c.All P → undo c = some c' → c'.All P)
    {out : Exit × Session F} (h : out.2.conn.All P) :
    (Session.leave ok undo out).2.conn.All P := by
  obtain ⟨exit, c⟩ := out
  rw [Session.leave]
  rcases exit with _ | (e | b)
  · dsimp only
    split
    · next hrun => exact hok _ _ h hrun
    · exact h
  · dsimp only
    split
    · next hrun => exact hundo _ _ h hrun
    · exact h
  · exact h

/-- and at its beginning. -/
theorem all_enter {c' : Session F} (h : c.conn.All P) (henter : c.enter = some c') :
    c'.conn.All P := by
  rw [Session.enter] at henter
  split at henter
  · obtain ⟨conn, hb, rfl⟩ := Option.map_eq_some_iff.mp henter
    exact h.begin hb
  · cases henter
    exact h.savepoint _

theorem all_transaction {body : Session F → Exit × Session F} (h : c.conn.All P)
    (hbody : ∀ c', c'.conn.All P → (body c').2.conn.All P) : (c.transaction body).2.conn.All P := by
  rw [Session.transaction]
  split
  · exact h
  · next c' henter =>
      have hrun := hbody c' (all_enter h henter)
      split
      · exact all_leave (fun _ _ h hc => h.commit hc) (fun _ _ h hr => h.rollback hr) hrun
      · refine all_leave (fun _ _ h hr => h.release hr) ?_ hrun
        intro c₁ c₂ h hr
        obtain ⟨c₃, hto, hrel⟩ := Option.bind_eq_some_iff.mp hr
        exact (h.rollback_to hto).release hrel

theorem all_write (hP : Kept hash_content P) (w : StoreWrite F) (h : c.conn.All P) :
    (w.exec hash_content c).2.conn.All P := by
  have plain := all_method h (hP.apply w)
  cases w with
  | add_project | update_project | add_memory | set_pinned | update_memory | delete_embedding =>
      exact plain
  | save_embedding =>
      rw [StoreWrite.exec]
      split
      · refine all_method h ?_
        rintro _ _ - ⟨⟩
        exact hP.apply (.save_embedding ..) c.view _ h.view rfl
      · exact h
  | delete_memory memory_id =>
      exact all_transaction h fun c' h' => all_statement h' (hP.apply (.delete_memory memory_id))
  | delete_project project_id =>
      refine all_transaction h ?_
      intro c' h'
      split
      · exact h'
      · have hfirst : (c'.statement fun db => .ok (db.delete_memories_of project_id)).2.conn.All P :=
          all_statement h' (by
            rintro db _ hdb ⟨⟩
            exact hP.delete_memories_of db project_id hdb)
        split
        · next c₁ hrun =>
            rw [hrun] at hfirst
            exact all_statement hfirst fun db db' => hP.delete_project_row db db' project_id
        · exact hfirst

/-- By induction over the script. -/
theorem all_exec (hP : Kept hash_content P) (s : Script F) (h : c.conn.All P) :
    (s.exec hash_content c).2.conn.All P := by
  induction s generalizing c with
  | skip => exact h
  | raise e => exact h
  | write busy w =>
      rw [exec]
      split
      · exact h
      · exact all_write hP w h
  | seq first second ih₁ ih₂ =>
      have hfirst := ih₁ h
      rw [exec]
      split
      · next c' hrun =>
          rw [hrun] at hfirst
          exact ih₂ hfirst
      · exact hfirst
  | block busy body ih =>
      rw [exec]
      split
      · exact h
      · exact all_transaction h fun c' h' => ih h'
  | attempt body catches ih =>
      have hbody := ih h
      rw [exec]
      split
      · next e c' hrun =>
          rw [hrun] at hbody
          split
          · exact hbody
          · exact hbody
      · exact hbody

theorem Comes.all {s t : Script F} {d : Session F} (hP : Kept hash_content P)
    (hcomes : Comes hash_content s c t d) (h : c.conn.All P) : d.conn.All P := by
  induction hcomes with
  | here => exact h
  | first _ ih => exact ih h
  | @second a _ _ _ _ _ _ ih => exact ih (all_exec hP a h)
  | body _ henter _ ih => exact ih (all_enter h henter)
  | guarded _ ih => exact ih h

end Kept

/-! ### An interrupted block -/

namespace Interrupted

def project (id : String) : Project := { id, name := id, created_at := 0 }

def add (id : String) : Script Unit := .write false (.add_project (project id))

/-- A block that adds a project and is then left by `e`. -/
def failing (e : Raised) : Script Unit := .block false (.seq (add "a") (.raise e))

/-- The block, its exception caught further out, and later a write of its own. -/
def script (e : Raised) : Script Unit := .seq (.attempt (failing e) fun _ => true) (add "b")

end Interrupted

open Interrupted in
/-- A block left by an `Exception`: its project is gone, and the later write commits only
its own. -/
theorem transaction_atomic_sample :
    (script (.exception .Other)).LeftByExceptions id false {}
      ∧ ((failing (.exception .Other)).exec id (Session.boot {})).1 = .raised (.exception .Other)
      ∧ ((failing (.exception .Other)).exec id (Session.boot {})).2.view.projects = []
      ∧ ((script (.exception .Other)).exec id (Session.boot {})).2.conn.file.projects
        = [project "b"] := by
  have hleft : (script (.exception .Other)).LeftByExceptions id false {} := by
    refine ⟨fun _ => ⟨⟨trivial, fun _ => trivial⟩, ?_⟩, fun _ => trivial⟩
    intro b
    exact fun h => by cases h
  have hblock := transaction_atomic id (script (.exception .Other)) {} hleft
    (.first (.guarded .here))
  have hwhole := transaction_atomic id (script (.exception .Other)) {} hleft .here
  refine ⟨hleft, rfl, ?_, ?_⟩
  · rw [hblock.1 false (.seq (add "a") (.raise (.exception .Other))) (.exception .Other) rfl rfl]
    rfl
  · rw [hwhole.2.2.2.2 rfl]
    rfl

open Interrupted in
/-- A block left by `KeyboardInterrupt`: its project stays in view, the depth is back to 0
with the SQLite transaction open, and the later write commits both projects. -/
theorem interrupted_block_is_committed_later :
    ((failing (.base .KeyboardInterrupt)).exec id (Session.boot {})).1
        = .raised (.base .KeyboardInterrupt)
      ∧ ((failing (.base .KeyboardInterrupt)).exec id (Session.boot {})).2.view.projects
        ≠ (Session.boot (F := Unit) {}).view.projects
      ∧ ((failing (.base .KeyboardInterrupt)).exec id (Session.boot {})).2.depth = 0
      ∧ ((failing (.base .KeyboardInterrupt)).exec id (Session.boot {})).2.conn.work.isSome
      ∧ ((script (.base .KeyboardInterrupt)).exec id (Session.boot {})).2.conn.file.projects
        = [project "a", project "b"] := by
  refine ⟨rfl, ?_, rfl, rfl, rfl⟩
  exact fun h => by cases h

end Script

end OpenChronicle
