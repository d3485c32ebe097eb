/-
Tables as lists of rows with a unique key, and the lookup by key.

`lookup` is `SELECT … WHERE key = ?` on a table whose key is unique. Each lemma says what the lookup
sees after one kind of write, so that a proof about a table never goes back to the list it is stored in.

That the key is unique is a hypothesis of those lemmas that need it (`(rows.map key).Nodup`), and with
each lemma about a write comes one that says that the key is still unique after it. A table that carries
the fact as a field can then be built from each write. The order of the rows is kept, as it is what a
query without `ORDER BY` shows.
-/
import Mathlib.Data.List.Nodup

set_option autoImplicit false

namespace Keyed

variable {α κ : Type} [DecidableEq κ] (key : α → κ)

/-- The row with key `k`, if there is one. -/
def lookup (rows : List α) (k : κ) : Option α := rows.find? (key · = k)

variable {key} {rows : List α} {k k' : κ} {r : α}

/-- What is found is a row, and has the key. -/
theorem mem_of_lookup (h : lookup key rows k = some r) : r ∈ rows :=
  List.mem_of_find?_eq_some h

theorem key_of_lookup (key : α → κ) (h : lookup key rows k = some r) : key r = k := by
  simpa using List.find?_some h

/-- A key is found if some row has it. -/
theorem lookup_isSome_iff : (lookup key rows k).isSome ↔ k ∈ rows.map key := by
  simp [lookup, List.find?_isSome]

theorem lookup_eq_none_iff : lookup key rows k = none ↔ k ∉ rows.map key := by
  rw [← lookup_isSome_iff]
  simp

/-- With a unique key the lookup finds the row itself. -/
theorem lookup_of_mem (key : α → κ) (hn : (rows.map key).Nodup) (hr : r ∈ rows) :
    lookup key rows (key r) = some r := by
  have hs : (lookup key rows (key r)).isSome := lookup_isSome_iff.mpr (List.mem_map_of_mem hr)
  obtain ⟨r', hr'⟩ := Option.isSome_iff_exists.mp hs
  rw [hr', List.inj_on_of_nodup_map hn (mem_of_lookup hr') hr (key_of_lookup key hr')]

/-- `UPDATE`: a row-wise change that keeps every key. -/
theorem lookup_map (f : α → α) (hf : ∀ r, key (f r) = key r) :
    lookup key (rows.map f) k = (lookup key rows k).map f := by
  have hp : (fun r => decide (key r = k)) ∘ f = fun r => decide (key r = k) := by
    funext r
    rw [Function.comp_apply, hf]
  rw [lookup, lookup, List.find?_map, hp]

/-- Rows that are rewritten under their key, or dropped. -/
theorem lookup_filterMap (f : α → Option α) (hf : ∀ r r', f r = some r' → key r' = key r)
    (hn : (rows.map key).Nodup) :
    lookup key (rows.filterMap f) k = (lookup key rows k).bind f := by
  induction rows with
  | nil => rfl
  | cons a t ih =>
      obtain ⟨ha, hn⟩ := List.nodup_cons.mp hn
      have hlater := ih hn
      unfold lookup at hlater ⊢
      by_cases hk : key a = k
      · -- the row with this key; no later one has it
        have hnone : t.find? (fun r => key r = k) = none := by
          rw [List.find?_eq_none]
          intro r hr
          have hne : key r ≠ k := fun h => ha (List.mem_map.mpr ⟨r, hr, h.trans hk.symm⟩)
          simpa using hne
        rw [List.find?_cons_of_pos (by simpa using hk), Option.bind_some]
        rcases hfa : f a with _ | a'
        · rw [List.filterMap_cons_none hfa, hlater, hnone]
          rfl
        · rw [List.filterMap_cons_some hfa, List.find?_cons_of_pos]
          simpa using (hf a a' hfa).trans hk
      · rw [List.find?_cons_of_neg (by simpa using hk)]
        rcases hfa : f a with _ | a'
        · rw [List.filterMap_cons_none hfa]
          exact hlater
        · rw [List.filterMap_cons_some hfa, List.find?_cons_of_neg]
          · exact hlater
          · have hne : key a' ≠ k := fun h => hk ((hf a a' hfa).symm.trans h)
            simpa using hne

omit [DecidableEq κ] in
theorem nodup_filterMap (f : α → Option α) (hf : ∀ r r', f r = some r' → key r' = key r)
    (hn : (rows.map key).Nodup) : ((rows.filterMap f).map key).Nodup := by
  induction rows with
  | nil => exact List.nodup_nil
  | cons a t ih =>
      obtain ⟨ha, hn⟩ := List.nodup_cons.mp hn
      rcases hfa : f a with _ | a'
      · rw [List.filterMap_cons_none hfa]
        exact ih hn
      · rw [List.filterMap_cons_some hfa, List.map_cons]
        refine List.nodup_cons.mpr ⟨?_, ih hn⟩
        intro hmem
        obtain ⟨r', hr', hkey⟩ := List.mem_map.mp hmem
        obtain ⟨r, hr, hfr⟩ := List.mem_filterMap.mp hr'
        refine ha (List.mem_map.mpr ⟨r, hr, ?_⟩)
        rw [← hf r r' hfr, hkey, hf a a' hfa]

/-- `DELETE … WHERE key = ?`. -/
theorem lookup_filter_ne : lookup key (rows.filter (key · ≠ k')) k
    = if k = k' then none else lookup key rows k := by
  unfold lookup
  rw [List.find?_filter]
  split
  · next h => subst h; simp
  · next h =>
      congr 1
      funext r
      by_cases hr : key r = k
      · simp [hr, h]
      · simp [hr]

/-- `INSERT` of a row. -/
theorem lookup_append_singleton (hr : key r ∉ rows.map key) :
    lookup key (rows ++ [r]) k = if k = key r then some r else lookup key rows k := by
  unfold lookup
  rw [List.find?_append]
  by_cases h : k = key r
  · subst h
    have hnone : rows.find? (key · = key r) = none := lookup_eq_none_iff.mpr hr
    simp [hnone]
  · have h' : ¬ key r = k := fun e => h e.symm
    simp [h, h']

variable (key) in
/-- A table is any one of its rows and the rows with other keys. -/
theorem perm_cons_filter_ne (hn : (rows.map key).Nodup) (hr : r ∈ rows) :
    rows.Perm (r :: rows.filter (key · ≠ key r)) := by
  induction rows with
  | nil => cases hr
  | cons a t ih =>
      rw [List.map_cons, List.nodup_cons] at hn
      by_cases ha : key a = key r
      · have har : a = r := by
          rcases List.mem_cons.mp hr with h | h
          · exact h.symm
          · exact absurd (ha ▸ List.mem_map_of_mem h) hn.1
        subst har
        have hrest : t.filter (key · ≠ key a) = t := by
          refine List.filter_eq_self.mpr ?_
          intro b hb
          have hne : key b ≠ key a := fun h => hn.1 (h ▸ List.mem_map_of_mem hb)
          simpa using hne
        rw [List.filter_cons_of_neg (by simp), hrest]
      · have hr' : r ∈ t := by
          rcases List.mem_cons.mp hr with h | h
          · exact absurd (h ▸ rfl) ha
          · exact h
        rw [List.filter_cons_of_pos (by simpa using ha)]
        exact ((ih hn.2 hr').cons a).trans (List.Perm.swap r a _)

/-! ## Insert or replace -/

variable (key) in
/-- `INSERT … ON CONFLICT(key) DO UPDATE`: replace the row with this key in its
place, or append it. -/
def upsert (rows : List α) (row : α) : List α :=
  if key row ∈ rows.map key then rows.map fun r => if key r = key row then row else r
  else rows ++ [row]

theorem upsert_keys (rows : List α) (row : α) :
    (upsert key rows row).map key
      = if key row ∈ rows.map key then rows.map key else rows.map key ++ [key row] := by
  unfold upsert
  split
  · rw [List.map_map]
    refine List.map_congr_left fun r _ => ?_
    simp only [Function.comp_apply]
    split
    · next h => exact h.symm
    · rfl
  · simp

theorem upsert_nodup (hn : (rows.map key).Nodup) (row : α) :
    ((upsert key rows row).map key).Nodup := by
  rw [upsert_keys]
  split
  · exact hn
  · next h => exact hn.append (by simp) (by simpa using h)

/-- The row is there, and every other one whose key it does not take. -/
theorem mem_upsert_iff {row : α} :
    r ∈ upsert key rows row ↔ r = row ∨ (r ∈ rows ∧ key r ≠ key row) := by
  unfold upsert
  split
  · next hmem =>
      rw [List.mem_map]
      constructor
      · rintro ⟨r', hr', rfl⟩
        by_cases h : key r' = key row
        · rw [if_pos h]
          exact .inl rfl
        · rw [if_neg h]
          exact .inr ⟨hr', h⟩
      · rintro (rfl | ⟨hr, hne⟩)
        · obtain ⟨r', hr', hkey⟩ := List.mem_map.mp hmem
          exact ⟨r', hr', if_pos hkey⟩
        · exact ⟨r, hr, if_neg hne⟩
  · next hmem =>
      rw [List.mem_append, List.mem_singleton]
      constructor
      · rintro (hr | hr)
        · exact .inr ⟨hr, fun h => hmem (h ▸ List.mem_map_of_mem hr)⟩
        · exact .inl hr
      · rintro (hr | ⟨hr, -⟩)
        · exact .inr hr
        · exact .inl hr

theorem mem_upsert {row : α} (h : r ∈ upsert key rows row) : r = row ∨ r ∈ rows :=
  (mem_upsert_iff.mp h).imp_right And.left

theorem lookup_upsert (rows : List α) (row : α) (k : κ) :
    lookup key (upsert key rows row) k
      = if k = key row then some row else lookup key rows k := by
  unfold upsert
  split
  · next hin =>
      have hkey : ∀ r : α, key (if key r = key row then row else r) = key r := by
        intro r
        split
        · next h => exact h.symm
        · rfl
      rw [lookup_map _ hkey]
      split
      · next h =>
          subst h
          obtain ⟨r, hr⟩ := Option.isSome_iff_exists.mp (lookup_isSome_iff.mpr hin)
          simp [hr, key_of_lookup key hr]
      · next h =>
          cases hr : lookup key rows k with
          | none => rfl
          | some r => simp [key_of_lookup key hr, h]
  · next hin => exact lookup_append_singleton hin

end Keyed
