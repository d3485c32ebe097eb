/-
Two ways to run a search.

Among other clients (`MayAnswer`): each store call is answered by some store, a different one for each
call if the others wrote in between, and any call may raise. Nothing is assumed about the provider.

Alone (`SearchWorld.answer`): one store for the whole call, and a provider that follows a script, an
arbitrary function of how often it was asked before.

A statement for all runs among others holds of every search there is, and can say only what survives any
write: that a row is one of some store, that it passes the filters of the call that read it. What is
said of order, of pages or of completeness is said of a search alone. The two are connected by
`yields_run_alone`: what comes out alone is one of the things that can come out among others.
-/
import OpenChronicle.Health
import OpenChronicle.Search.Model

set_option autoImplicit false

namespace OpenChronicle

open Program

variable {F R : Type} [LinearOrder R]

/-- What a store answers to a store call; `none` for the provider's operations. -/
def store_answer (P : Platform R) (s : SqliteStore F) :
    (o : SearchOp F) → Option (Except Exc o.Resp)
  | .search_pinned q limit p tags phrase => some (s.search_pinned P q limit p tags phrase)
  | .search_memory q top_k p incl tags phrase excl =>
      some (s.search_memory P q top_k p incl tags 0 phrase excl)
  | .list_embeddings model provider dims fp rev known =>
      some (.ok (s.db.list_embeddings model provider dims fp rev known))
  | .eligible_memory_ids p tags => some (.ok (s.db.eligible_memory_ids p tags))
  | .get_memory id => some (.ok (s.db.get_memory id))
  | .embed _ => none
  | .revision_snapshot => none
  | .note _ => none

/-- What a call may answer among other clients: a store call answers from some
store, a provider call anything, and every call may raise. -/
def MayAnswer (P : Platform R) (o : SearchOp F) (r : Except Exc o.Resp) : Prop :=
  (∃ e, r = .error e) ∨ ∃ s : SqliteStore F, ∀ x, store_answer P s o = some x → r = x

/-- A provider's script: its answers by how many calls it has had. -/
structure Port (F : Type) where
  embed : ℕ → String → Except Exc (List F)
  revision_snapshot : ℕ → RevisionSnapshot

/-- The store, and how far the provider is in its script. -/
structure SearchWorld (F : Type) where
  store : SqliteStore F
  port : Port F
  /-- Provider calls so far; it also dates the failures. -/
  calls : ℕ := 0
  health : Health := {}

/-- The handler of a search running alone. -/
def SearchWorld.answer (P : Platform R) (o : SearchOp F) (w : SearchWorld F) :
    Except Exc o.Resp × SearchWorld F :=
  match o with
  | .search_pinned q limit p tags phrase => (w.store.search_pinned P q limit p tags phrase, w)
  | .search_memory q top_k p incl tags phrase excl =>
      (w.store.search_memory P q top_k p incl tags 0 phrase excl, w)
  | .list_embeddings model provider dims fp rev known =>
      (.ok (w.store.db.list_embeddings model provider dims fp rev known), w)
  | .eligible_memory_ids p tags => (.ok (w.store.db.eligible_memory_ids p tags), w)
  | .get_memory id => (.ok (w.store.db.get_memory id), w)
  | .embed text => (w.port.embed w.calls text, { w with calls := w.calls + 1 })
  | .revision_snapshot => (.ok (w.port.revision_snapshot w.calls), { w with calls := w.calls + 1 })
  | .note .recovered => (.ok (), { w with health := w.health.search_recovered })
  | .note .failed => (.ok (), { w with health := w.health.search_failed w.calls })

/-- The result of a search alone on a store. -/
def run_alone {α : Type} (P : Platform R) (w : SearchWorld F) (p : SearchProg F α) : Except Exc α :=
  (p.eval (SearchWorld.answer P) w).1

/-- An outcome that is a value. -/
theorem ok_of_toOption {α : Type} {x : Except Exc α} {a : α} (h : x.toOption = some a) :
    x = .ok a := by
  cases x with
  | error e => cases h
  | ok b => exact congrArg _ (Option.some.inj h)

/-- A first step that leaves the world as it is only contributes its answer. -/
theorem run_alone_bind {α β : Type} {P : Platform R} {w : SearchWorld F} {p : SearchProg F α}
    {x : Except Exc α} (hp : p.eval (SearchWorld.answer P) w = (x, w)) (f : α → SearchProg F β) :
    run_alone P w (p >>= f) = x >>= fun a => run_alone P w (f a) := by
  rw [run_alone, Prog.eval_bind, hp]
  cases x with
  | error e => rfl
  | ok a => rfl

theorem except_ok_bind {α β : Type} (a : α) (f : α → Except Exc β) : (.ok a >>= f) = f a := rfl

/-- What follows a value is asked of that value only. -/
theorem except_bind_congr {α β : Type} {x : Except Exc α} {f g : α → Except Exc β}
    (h : ∀ a, x = .ok a → f a = g a) : x >>= f = x >>= g := by
  cases x with
  | error e => rfl
  | ok a => exact h a rfl

/-- A `try` body: its outcome becomes a value, its effects stay. -/
theorem run_alone_attempt {α β : Type} (P : Platform R) (w : SearchWorld F) (p : SearchProg F α)
    (f : Except Exc α → SearchProg F β) :
    run_alone P w (p.attempt >>= f)
      = run_alone P (p.eval (SearchWorld.answer P) w).2 (f (run_alone P w p)) := by
  rw [run_alone, Prog.eval_bind, Prog.eval_attempt]
  rfl

/-! ## What an answer among others tells

One inversion for each store call: its value is what some store answers. -/

section Inversion

variable {P : Platform R}

/-- The general form. -/
theorem mayAnswer_ok {o : SearchOp F} {v : o.Resp} (h : MayAnswer P o (.ok v)) :
    ∃ s : SqliteStore F, ∀ x, store_answer P s o = some x → Except.ok v = x := by
  rcases h with ⟨e, he⟩ | h
  · cases he
  · exact h

theorem yields_search_pinned {q : String} {limit : ℤ} {p : Option String}
    {tags : Option (List PyStr.Text)} {phrase : Bool} {l : List MemoryItem}
    (h : (ask (.search_pinned q limit p tags phrase) : SearchProg F _).Yields (MayAnswer P) (.ok l)) :
    ∃ s : SqliteStore F, s.search_pinned P q limit p tags phrase = .ok l := by
  obtain ⟨s, hs⟩ := mayAnswer_ok (Prog.yields_op_ok.mp h)
  exact ⟨s, (hs _ rfl).symm⟩

theorem yields_search_memory {q : String} {top_k : ℕ} {p : Option String} {incl : Bool}
    {tags : Option (List PyStr.Text)} {phrase : Bool} {excl : List String} {l : List MemoryItem}
    (h : (ask (.search_memory q top_k p incl tags phrase excl) : SearchProg F _).Yields
      (MayAnswer P) (.ok l)) :
    ∃ s : SqliteStore F, s.search_memory P q top_k p incl tags 0 phrase excl = .ok l := by
  obtain ⟨s, hs⟩ := mayAnswer_ok (Prog.yields_op_ok.mp h)
  exact ⟨s, (hs _ rfl).symm⟩

theorem yields_list_embeddings {model provider fp : String} {dims : ℕ} {rev : Option String}
    {known : Bool} {l : List (String × List F)}
    (h : (ask (.list_embeddings model provider dims fp rev known) : SearchProg F _).Yields
      (MayAnswer P) (.ok l)) :
    ∃ s : SqliteStore F, s.db.list_embeddings model provider dims fp rev known = l := by
  obtain ⟨s, hs⟩ := mayAnswer_ok (Prog.yields_op_ok.mp h)
  exact ⟨s, (Except.ok.inj (hs _ rfl)).symm⟩

theorem yields_get_memory {id : String} {m : Option MemoryItem}
    (h : (ask (.get_memory id) : SearchProg F _).Yields (MayAnswer P) (.ok m)) :
    ∃ s : SqliteStore F, s.db.get_memory id = m := by
  obtain ⟨s, hs⟩ := mayAnswer_ok (Prog.yields_op_ok.mp h)
  exact ⟨s, (Except.ok.inj (hs _ rfl)).symm⟩

/-- A search alone is one of the ways it can go among others. -/
theorem yields_run_alone {α : Type} (P : Platform R) (w : SearchWorld F) (p : SearchProg F α) :
    p.Yields (MayAnswer P) (run_alone P w p) := by
  refine Prog.yields_of_eval ?_ p w
  intro o w
  refine .inr ⟨w.store, ?_⟩
  intro x hx
  cases o <;> first | exact Option.some.inj hx | cases hx

end Inversion

/-! ## A small deployment

Three notes that all match the query, newest first `agenda`, `backup`,
`restore`; the last two are embedded, `restore` closest to the query. The
full-text index was never built, so the store uses its fallback engine. -/

namespace Sample

/-- Lower-case ASCII, which case folding leaves alone. -/
def platform : Platform ℕ := ⟨id, id, id, fun _ _ => .error .OperationalError⟩

def memory (id : String) (rowid : ℕ) (pinned : Bool) : MemoryRow :=
  { id, content := "nas notes", created_at := -(rowid : ℤ), pinned, rowid }

def vector (memory_id : String) (v : List ℚ) : EmbeddingRow ℚ :=
  { memory_id, embedding := v, provider := "ollama", model := "nomic-embed-text",
    dimensions := v.length, content_hash := "nas notes", model_revision := some "r1",
    settings_fingerprint := "", status := .ok }

def store : SqliteStore ℚ where
  db :=
    { memory_items := [memory "agenda" 1 false, memory "backup" 2 false, memory "restore" 3 false]
      memory_embeddings := [vector "backup" [0, 1], vector "restore" [1, 0]]
      memory_pk := by decide
      rowid_pk := by decide
      embedding_pk := by decide
      memory_fk := by simp [memory]
      embedding_fk := by decide }
  fts5_active := false

def provider : Provider ℚ ℚ where
  model_name := "nomic-embed-text"
  provider_name := "ollama"
  settings_fingerprint := ""
  similarity v q := (List.zipWith (· * ·) v q).sum
  numpy :=
    { select := fun l k => (Ranking.sortDesc Prod.snd l).take k
      isTop := fun l k => by
        have : Std.Total fun a b : String × ℚ => b.2 ≤ a.2 := ⟨fun a b => le_total _ _⟩
        have : IsTrans (String × ℚ) fun a b => b.2 ≤ a.2 := ⟨fun _ _ _ h₁ h₂ => le_trans h₂ h₁⟩
        exact Ranking.isTop_of_sort (fun _ _ h => h) k l }
  sets := ⟨fun k s => k ∪ s, fun _ _ => List.Perm.refl _⟩

/-- A provider that answers every query with the same unit vector. -/
def port : Port ℚ := ⟨fun _ _ => .ok [4 / 5, 3 / 5], fun _ => ⟨true, some "r1"⟩⟩

def world : SearchWorld ℚ := { store, port }

end Sample

end OpenChronicle
