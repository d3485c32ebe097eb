/-
`embedding_status` against the candidates of `_backfill`.

Freshness is written three times in the source: `_is_current` compares fields for one memory,
`stale_embedding_counts` counts rows with a negated condition and rows with a positive one and a join,
`count_unembeddable_embeddings` counts rows once more. By the keys a row and its memory determine each
other, so every count is a count of memories by what their row is, and the three agree memory by memory.

`paired` is what makes the counts comparable. The join of the source goes over the rows and looks for
their memories, the candidate loop goes over the memories and looks for their rows; both are
permutations of the list of pairs. Behind that, the buckets are four predicates on a pair, and that they
split the memories as they should is decided by cases.
-/
import OpenChronicle.Embedding.Model

set_option autoImplicit false

namespace OpenChronicle

open Program

variable {F : Type}

/-! ## Rows and memories -/

namespace Db

variable (db : Db F)

/-- Every row with the memory it belongs to, in the order of the memories. -/
def paired : List (EmbeddingRow F × MemoryRow) :=
  db.memory_items.filterMap fun m => (db.embedding_row m.id).map fun e => (e, m)

/-- A row and its memory. -/
theorem mem_paired_iff {e : EmbeddingRow F} {m : MemoryRow} :
    (e, m) ∈ db.paired ↔ m ∈ db.memory_items ∧ db.embedding_row m.id = some e := by
  rw [paired, List.mem_filterMap]
  constructor
  · rintro ⟨m', hm', heq⟩
    obtain ⟨e', he', hpair⟩ := Option.map_eq_some_iff.mp heq
    obtain ⟨rfl, rfl⟩ := Prod.mk.inj hpair
    exact ⟨hm', he'⟩
  · rintro ⟨hm, he⟩
    exact ⟨m, hm, by rw [he]; rfl⟩

/-- The key of the table: one row for a memory. -/
theorem embedding_row_eq_some {e : EmbeddingRow F} {memory_id : String} :
    db.embedding_row memory_id = some e ↔ e ∈ db.memory_embeddings ∧ e.memory_id = memory_id := by
  constructor
  · intro h
    exact ⟨Keyed.mem_of_lookup h, Keyed.key_of_lookup (fun r : EmbeddingRow F => r.memory_id) h⟩
  · rintro ⟨he, rfl⟩
    exact Keyed.lookup_of_mem (fun r : EmbeddingRow F => r.memory_id) db.embedding_pk he

/-- No pair twice, since no memory is there twice. -/
theorem paired_nodup : db.paired.Nodup := by
  refine List.Nodup.filterMap ?_ (db.memory_pk.of_map _)
  intro m m' x hx hx'
  obtain ⟨e, -, rfl⟩ := Option.map_eq_some_iff.mp hx
  obtain ⟨e', -, hpair⟩ := Option.map_eq_some_iff.mp hx'
  exact (Prod.mk.inj hpair).2.symm

/-- The join of the source has the same pairs. -/
theorem mem_joined_iff {e : EmbeddingRow F} {m : MemoryRow} :
    (e, m) ∈ db.joined ↔ m ∈ db.memory_items ∧ db.embedding_row m.id = some e := by
  rw [embedding_row_eq_some, joined, List.mem_flatMap]
  constructor
  · rintro ⟨e', he', hin⟩
    obtain ⟨m', hm', hpair⟩ := List.mem_map.mp hin
    obtain ⟨rfl, rfl⟩ := Prod.mk.inj hpair
    obtain ⟨hm', hid⟩ := List.mem_filter.mp hm'
    exact ⟨hm', he', (of_decide_eq_true hid).symm⟩
  · rintro ⟨hm, he, hid⟩
    refine ⟨e, he, List.mem_map.mpr ⟨m, List.mem_filter.mpr ⟨hm, ?_⟩, rfl⟩⟩
    simpa using hid.symm

/-- And no pair twice. -/
theorem joined_nodup : db.joined.Nodup := by
  refine List.nodup_flatMap.mpr ⟨?_, ?_⟩
  · intro e _
    refine List.Nodup.map ?_ ((db.memory_pk.of_map _).filter _)
    intro m m' h
    exact (Prod.mk.inj h).2
  · refine (db.embedding_pk.of_map _).imp ?_
    intro e e' hne x hx hx'
    obtain ⟨m, -, rfl⟩ := List.mem_map.mp hx
    obtain ⟨m', -, hpair⟩ := List.mem_map.mp hx'
    exact hne (Prod.mk.inj hpair).1.symm

/-- The join pairs each memory with its row. -/
theorem joined_perm : db.joined.Perm db.paired := by
  refine (List.perm_ext_iff_of_nodup db.joined_nodup db.paired_nodup).mpr ?_
  rintro ⟨e, m⟩
  rw [mem_joined_iff, mem_paired_iff]

/-- Every row has a memory. -/
theorem embeddings_perm : db.memory_embeddings.Perm (db.paired.map (·.1)) := by
  have hnodup : (db.paired.map (·.1)).Nodup := by
    refine List.Nodup.map_on ?_ db.paired_nodup
    rintro ⟨e, m⟩ h ⟨e', m'⟩ h' rfl
    obtain ⟨hm, he⟩ := db.mem_paired_iff.mp h
    obtain ⟨hm', he'⟩ := db.mem_paired_iff.mp h'
    have hid : m.id = m'.id :=
      (db.embedding_row_eq_some.mp he).2.symm.trans (db.embedding_row_eq_some.mp he').2
    rw [List.inj_on_of_nodup_map db.memory_pk hm hm' hid]
  refine (List.perm_ext_iff_of_nodup (db.embedding_pk.of_map _) hnodup).mpr ?_
  intro e
  rw [List.mem_map]
  constructor
  · intro he
    obtain ⟨m, hm, hid⟩ := db.embedding_fk e he
    exact ⟨(e, m), db.mem_paired_iff.mpr ⟨hm, db.embedding_row_eq_some.mpr ⟨he, hid.symm⟩⟩, rfl⟩
  · rintro ⟨⟨e', m⟩, hin, rfl⟩
    exact (db.embedding_row_eq_some.mp (db.mem_paired_iff.mp hin).2).1

/-- A count of rows is a count of memories. -/
theorem countP_paired (p : EmbeddingRow F → MemoryRow → Bool) :
    db.paired.countP (fun x => p x.1 x.2)
      = db.memory_items.countP fun m => (db.embedding_row m.id).any fun e => p e m := by
  rw [paired, List.countP_filterMap]
  refine List.countP_congr ?_
  intro m _
  rcases db.embedding_row m.id with _ | e <;> simp

end Db

/-! ## The report -/

/-- What `embedding_status` returns. -/
structure StatusReport where
  total_memories : ℕ
  embedded : ℕ
  missing : ℤ
  unembeddable : ℕ
  space_mismatch : ℕ
  content_mismatch : ℕ
  stale : ℕ
  deriving DecidableEq, Repr

section Service

variable (D : Deployment F)

/-- The port's identity with the snapshot's revision. -/
def active_space (snapshot : RevisionSnapshot) : Db.Space where
  provider := D.provider_name
  model := D.model_name
  settings_fingerprint := D.settings_fingerprint
  model_revision := snapshot.value
  match_revision := snapshot.known

/-- `embedding_status`. -/
def embedding_status (snapshot : RevisionSnapshot) (db : Db F) : StatusReport :=
  let s := active_space D snapshot
  { total_memories := db.count_memory none
    embedded := db.count_embeddings (some .ok)
    missing := db.count_memory none - db.count_embeddings none
    unembeddable := db.count_unembeddable_embeddings D.hash_content s
    space_mismatch := db.space_mismatch s
    content_mismatch := db.content_mismatch D.hash_content s
    stale := db.space_mismatch s + db.content_mismatch D.hash_content s }

/-! ## Running alone

The store answers, and nothing else happens between two calls. The provider's answers come
from a list, one for each request. -/

/-- What the provider makes of a request. -/
abbrev Answer (F : Type) := Except Exc (List (List F))

def alone : (o : EmbOp F) → EmbWorld F × List (Answer F) →
    Except Exc o.Resp × (EmbWorld F × List (Answer F))
  | .http_post_embed _, (w, []) => (.error .Other, (w, []))
  | .http_post_embed _, (w, a :: rest) => (a, (w, rest))
  | o, (w, script) =>
      match w.exec D 0 o .goes with
      | some (r, w') => (r, (w', script))
      | none => (.error .Other, (w, script))

/-- A memory whose row is current. -/
def has_current (db : Db F) (revision : Option String) (memory_id content : String) : Bool :=
  (db.get_embedding_identity memory_id).any fun i => identity_current D i content revision

/-- What the candidate loop keeps. -/
def is_candidate (db : Db F) (revision : Option String) (force : Bool) (item : MemoryItem) : Bool :=
  force || !has_current D db revision item.id item.content

variable {D} {w : EmbWorld F} {script : List (Answer F)} {revision : Option String} {force : Bool}

/-- Alone, the check of a candidate reads the memory's row. -/
theorem eval_may_skip (memory_id content : String) :
    (may_skip D memory_id content revision force).eval (S := embSig F) (alone D) (w, script)
      = (.ok (!force && has_current D w.db revision memory_id content), (w, script)) := by
  rcases force with _ | _
  · rfl
  · rfl

/-- By induction over the listing. -/
theorem eval_select_candidates (items : List MemoryItem) :
    (select_candidates D revision force items).eval (S := embSig F) (alone D) (w, script)
      = (.ok (items.filter (is_candidate D w.db revision force)), (w, script)) := by
  induction items with
  | nil => rfl
  | cons item rest ih =>
      rw [select_candidates, Prog.eval_bind, eval_may_skip]
      dsimp only
      rw [Prog.eval_bind, ih, List.filter_cons]
      rcases hc : is_candidate D w.db revision force item with _ | _
      · have hskip : (!force && has_current D w.db revision item.id item.content) = true := by
          rw [is_candidate] at hc
          rcases force with _ | _
          · simpa using hc
          · cases hc
        simp [hskip]
      · have hskip : (!force && has_current D w.db revision item.id item.content) = false := by
          rw [is_candidate] at hc
          rcases force with _ | _
          · simpa using hc
          · rfl
        simp [hskip]

/-- The candidates `_backfill` selects, for the whole corpus. -/
theorem eval_candidates :
    ((act (.list_memory none) : EmbProg F (List MemoryItem)) >>= select_candidates D revision force).eval
        (S := embSig F) (alone D) (w, script)
      = (.ok ((w.db.list_memory none false 0 none none none false).filter
          (is_candidate D w.db revision force)), (w, script)) := by
  rw [Prog.eval_bind]
  exact eval_select_candidates _

end Service

/-! ## Memory by memory -/

section Counts

variable (D : Deployment F) (db : Db F) (r : Option String)

/-- The rows counted in `space_mismatch`. -/
def space_bucket (x : EmbeddingRow F × MemoryRow) : Bool :=
  (active_space D ⟨true, r⟩).differs x.1.toEmbeddingIdentity

/-- The rows counted in `content_mismatch`. -/
def content_bucket (x : EmbeddingRow F × MemoryRow) : Bool :=
  (active_space D ⟨true, r⟩).holds x.1.toEmbeddingIdentity
    && D.hash_content x.2.content ≠ x.1.content_hash

/-- The rows counted in `unembeddable`. -/
def parked (x : EmbeddingRow F × MemoryRow) : Bool :=
  x.1.status = .content_too_long && (active_space D ⟨true, r⟩).holds x.1.toEmbeddingIdentity
    && D.hash_content x.2.content = x.1.content_hash

/-- The rows with a vector that `_is_current` accepts. -/
def current_ok (x : EmbeddingRow F × MemoryRow) : Bool :=
  x.1.status = .ok && identity_current D x.1.toEmbeddingIdentity x.2.content r

/-- `_is_current` on a row and its memory. -/
def current (x : EmbeddingRow F × MemoryRow) : Bool :=
  identity_current D x.1.toEmbeddingIdentity x.2.content r

/-- Counts of a split class add up. -/
theorem countP_add_countP {α : Type} {l : List α} {p q s : α → Bool}
    (h : ∀ x, (p x).toNat + (q x).toNat = (s x).toNat) : l.countP p + l.countP q = l.countP s := by
  induction l with
  | nil => rfl
  | cons x t ih =>
      have hx := h x
      have hcount : ∀ p : α → Bool, (x :: t).countP p = t.countP p + (p x).toNat := by
        intro p
        rw [List.countP_cons]
        rcases p x with _ | _
        · rfl
        · rfl
      rw [hcount p, hcount q, hcount s]
      omega

variable {D db r}

/-- A row is stale in one of the two ways, or current. -/
theorem stale_split (x : EmbeddingRow F × MemoryRow) :
    (space_bucket D r x).toNat + (content_bucket D r x).toNat = (!current D r x).toNat := by
  by_cases hp : x.1.provider = D.provider_name
  · by_cases hm : x.1.model = D.model_name
    · by_cases hf : x.1.settings_fingerprint = D.settings_fingerprint
      · by_cases hr : x.1.model_revision = r
        · by_cases hh : x.1.content_hash = D.hash_content x.2.content
          · simp [space_bucket, content_bucket, current, identity_current, active_space,
              Db.Space.differs, Db.Space.holds, hp, hm, hf, hr, hh]
          · have hh' : D.hash_content x.2.content ≠ x.1.content_hash := fun h => hh h.symm
            simp [space_bucket, content_bucket, current, identity_current, active_space,
              Db.Space.differs, Db.Space.holds, hp, hm, hf, hr, hh, hh']
        · simp [space_bucket, content_bucket, current, identity_current, active_space,
            Db.Space.differs, Db.Space.holds, hp, hm, hf, hr]
      · simp [space_bucket, content_bucket, current, identity_current, active_space,
          Db.Space.differs, Db.Space.holds, hp, hm, hf]
    · simp [space_bucket, content_bucket, current, identity_current, active_space,
        Db.Space.differs, Db.Space.holds, hp, hm]
  · simp [space_bucket, content_bucket, current, identity_current, active_space,
      Db.Space.differs, Db.Space.holds, hp]

theorem current_iff (x : EmbeddingRow F × MemoryRow) :
    current D r x = ((active_space D ⟨true, r⟩).holds x.1.toEmbeddingIdentity
      && D.hash_content x.2.content = x.1.content_hash) := by
  have hhash : decide (x.1.content_hash = D.hash_content x.2.content)
      = decide (D.hash_content x.2.content = x.1.content_hash) := decide_eq_decide.mpr eq_comm
  simp only [current, identity_current, active_space, Db.Space.holds, Bool.not_true, Bool.false_or]
  rw [hhash]
  rfl

/-- A current row is parked or has a vector. -/
theorem current_split (x : EmbeddingRow F × MemoryRow) :
    (parked D r x).toNat + (current_ok D r x).toNat = (current D r x).toNat := by
  have hok : current_ok D r x = (decide (x.1.status = .ok) && current D r x) := rfl
  have hparked : parked D r x = (decide (x.1.status = .content_too_long) && current D r x) := by
    rw [current_iff, parked, Bool.and_assoc]
  rw [hok, hparked]
  rcases hs : x.1.status with _ | _
  · simp
  · simp

theorem space_mismatch_eq :
    db.space_mismatch (active_space D ⟨true, r⟩) = db.joined.countP (space_bucket D r) := by
  rw [Db.space_mismatch, db.embeddings_perm.countP_eq, List.countP_map, db.joined_perm.countP_eq]
  rfl

theorem content_mismatch_eq :
    db.content_mismatch D.hash_content (active_space D ⟨true, r⟩)
      = db.joined.countP (content_bucket D r) := by
  rw [Db.content_mismatch, List.countP_filter]
  refine List.countP_congr ?_
  intro x _
  rw [content_bucket, Bool.and_comm]

theorem unembeddable_eq :
    db.count_unembeddable_embeddings D.hash_content (active_space D ⟨true, r⟩)
      = db.joined.countP (parked D r) := by
  rw [Db.count_unembeddable_embeddings, List.countP_filter]
  refine List.countP_congr ?_
  intro x _
  rw [parked, Bool.and_comm]

theorem count_embeddings_eq : db.count_embeddings none = db.joined.length := by
  rw [Db.count_embeddings, List.countP_eq_length.mpr (by simp), db.embeddings_perm.length_eq,
    List.length_map, db.joined_perm.length_eq]

theorem count_memory_eq : db.count_memory none = db.memory_items.length := by
  rw [Db.count_memory, List.countP_eq_length.mpr (by simp), Db.items, List.length_map]

variable (D db r) in
/-- Every row is current or in one of the stale buckets. -/
theorem current_add_stale :
    db.joined.countP (current D r)
        + (db.joined.countP (space_bucket D r) + db.joined.countP (content_bucket D r))
      = db.joined.length := by
  have hstale := countP_add_countP (l := db.joined) (stale_split (D := D) (r := r))
  rw [hstale, List.length_eq_countP_add_countP (current D r)]
  congr 1
  refine List.countP_congr ?_
  intro x _
  simp

variable (D db r) in
/-- The candidates are the memories without a current row. -/
theorem candidates_add_current :
    ((db.list_memory none false 0 none none none false).filter (is_candidate D db r false)).length
        + db.joined.countP (current D r) = db.memory_items.length := by
  have hcand : ((db.list_memory none false 0 none none none false).filter
        (is_candidate D db r false)).length
      = db.memory_items.countP fun m => !(db.embedding_row m.id).any fun e => current D r (e, m) := by
    rw [← List.countP_eq_length_filter, db.list_memory_perm.countP_eq, Db.items, List.countP_map]
    refine List.countP_congr ?_
    intro m _
    simp only [Function.comp_apply, is_candidate, has_current, Db.get_embedding_identity, current]
    rcases db.embedding_row m.id with _ | e <;> simp
  have hcur : db.joined.countP (current D r)
      = db.memory_items.countP fun m => (db.embedding_row m.id).any fun e => current D r (e, m) := by
    rw [db.joined_perm.countP_eq]
    exact db.countP_paired fun e m => current D r (e, m)
  have hsplit := List.length_eq_countP_add_countP
    (fun m : MemoryRow => (db.embedding_row m.id).any fun e => current D r (e, m)) (l := db.memory_items)
  rw [hcand, hcur, hsplit, Nat.add_comm]
  congr 1
  refine List.countP_congr ?_
  intro m _
  simp

variable (D db r) in
/-- How the report and the candidates are related, for the snapshot of a known revision. -/
structure StatusAgrees (chosen : List MemoryItem) : Prop where
  /-- The candidates are what is missing and what is in the two stale buckets. -/
  work : (chosen.length : ℤ) = (embedding_status D ⟨true, r⟩ db).missing
    + (embedding_status D ⟨true, r⟩ db).space_mismatch
    + (embedding_status D ⟨true, r⟩ db).content_mismatch
  /-- The join lists every row once, and the three counts are counts of rows in it. -/
  rows : (db.joined.map (·.1)).Perm db.memory_embeddings
  space : (embedding_status D ⟨true, r⟩ db).space_mismatch = db.joined.countP (space_bucket D r)
  content : (embedding_status D ⟨true, r⟩ db).content_mismatch = db.joined.countP (content_bucket D r)
  unembeddable : (embedding_status D ⟨true, r⟩ db).unembeddable = db.joined.countP (parked D r)
  disjoint : ∀ x ∈ db.joined, ¬ (space_bucket D r x = true ∧ content_bucket D r x = true)
  /-- Ok, a current tombstone, or a tombstone in a stale bucket, and only one of them. -/
  classes : ∀ x ∈ db.joined,
    (x.1.status = .ok ∧ parked D r x = false)
      ∨ (x.1.status = .content_too_long ∧ parked D r x = true
        ∧ space_bucket D r x = false ∧ content_bucket D r x = false)
      ∨ (x.1.status = .content_too_long ∧ parked D r x = false
        ∧ (space_bucket D r x = true ∨ content_bucket D r x = true))
  total : (embedding_status D ⟨true, r⟩ db).unembeddable + db.joined.countP (current_ok D r)
    + chosen.length = (embedding_status D ⟨true, r⟩ db).total_memories

/-- **The report counts the backfill's work.** With a known revision, the candidates that a
non-forced backfill of the whole corpus selects are those the report announces. -/
theorem status_counts_backfill (D : Deployment F) (w : EmbWorld F) (script : List (Answer F))
    (r : Option String) :
    ∃ chosen, ((act (.list_memory none) : EmbProg F (List MemoryItem)) >>=
          select_candidates D r false).eval (S := embSig F) (alone D) (w, script)
        = (.ok chosen, (w, script))
      ∧ StatusAgrees D w.db r chosen := by
  refine ⟨_, eval_candidates, ?_⟩
  -- the three counts split the joined rows: candidates and current, stale and current
  have hcand := candidates_add_current D w.db r
  have hstale := current_add_stale D w.db r
  have hcurrent := countP_add_countP (l := w.db.joined) (current_split (D := D) (r := r))
  refine ⟨?_, ?_, space_mismatch_eq, content_mismatch_eq, unembeddable_eq, ?_, ?_, ?_⟩
  · simp only [embedding_status, space_mismatch_eq, content_mismatch_eq, count_memory_eq,
      count_embeddings_eq]
    omega
  · exact (w.db.joined_perm.map _).trans w.db.embeddings_perm.symm
  · rintro x - ⟨hs, hc⟩
    have hx := stale_split (D := D) (r := r) x
    have hle : (!current D r x).toNat ≤ 1 := Bool.toNat_le _
    rw [← hx, hs, hc] at hle
    exact absurd hle (by decide)
  · intro x _
    have hx := stale_split (D := D) (r := r) x
    -- a row is parked if it is a tombstone and current
    have hparked : parked D r x = (decide (x.1.status = .content_too_long) && current D r x) := by
      rw [current_iff, parked, Bool.and_assoc]
    rw [hparked]
    rcases hstatus : x.1.status with _ | _
    · exact .inl ⟨rfl, by simp⟩
    · rcases hcur : current D r x with _ | _
      · rw [hcur] at hx
        refine .inr (.inr ⟨rfl, by simp, ?_⟩)
        rcases hs : space_bucket D r x with _ | _
        · rcases hc : content_bucket D r x with _ | _
          · rw [hs, hc] at hx
            cases hx
          · exact .inr rfl
        · exact .inl rfl
      · rw [hcur] at hx
        refine .inr (.inl ⟨rfl, by simp, ?_, ?_⟩)
        · rcases hs : space_bucket D r x with _ | _
          · rfl
          · rw [hs] at hx
            simp at hx
        · rcases hc : content_bucket D r x with _ | _
          · rfl
          · rw [hc] at hx
            simp at hx
  · simp only [embedding_status, unembeddable_eq, count_memory_eq]
    omega

end Counts

end OpenChronicle
