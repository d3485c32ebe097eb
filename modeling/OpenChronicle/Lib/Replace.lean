/-
`str.replace`: every occurrence cut out and something put where it was.

A text with its occurrences replaced can hold new ones, made of what stood before an occurrence, the
replacement and what stood behind. Not if the replacement has no character of the text looked for: then
an occurrence would lie in one of the pieces between two cuts, and those are free of it.

Replacing is splitting and joining, and the two lemmas that are used are about the joining: glue that
has no character of a needle keeps the needle out (`not_infix_intercalate`). They are used for secrets
that are taken out of a text one after the other, where the second turn must not bring back what the
first took.
-/
import OpenChronicle.Lib.Delimited

set_option autoImplicit false

namespace PyStr

variable {α : Type} [DecidableEq α]

/-- `s.replace(old, new)`; `old` is not empty. -/
def replace (old new s : List α) : List α := new.intercalate (split_on old s)

variable {sep needle old new s a b : List α}

/-! ## The pieces -/

/-- A cut is at the first occurrence. -/
theorem of_partition_eq_some (h : partition sep s = some (a, b)) : s = a ++ sep ++ b := by
  induction s generalizing a with
  | nil =>
      rw [partition] at h
      split at h
      · next hsep =>
          cases h
          rw [hsep]
          rfl
      · cases h
  | cons c s ih =>
      rw [partition] at h
      split at h
      · next hprefix =>
          cases h
          obtain ⟨rest, hrest⟩ := hprefix
          rw [← hrest, List.drop_left, List.nil_append]
      · obtain ⟨⟨before, after⟩, hcut, hab⟩ := Option.map_eq_some_iff.mp h
        cases hab
        rw [ih hcut]
        rfl

/-- Before the first occurrence there is none. -/
theorem not_infix_before (hsep : sep ≠ []) (h : partition sep s = some (a, b)) : ¬ sep <:+: a := by
  induction s generalizing a with
  | nil =>
      rw [partition, if_neg hsep] at h
      cases h
  | cons c s ih =>
      rw [partition] at h
      split at h
      · cases h
        exact fun hin => hsep (List.infix_nil.mp hin)
      · next hprefix =>
          obtain ⟨⟨before, after⟩, hcut, hab⟩ := Option.map_eq_some_iff.mp h
          cases hab
          intro hin
          rcases List.infix_cons_iff.mp hin with hstart | hlater
          · -- an occurrence at the front of the piece is one at the front of the text
            refine hprefix (hstart.trans ?_)
            rw [of_partition_eq_some hcut, List.append_assoc]
            exact ⟨_, rfl⟩
          · exact ih hcut hlater

/-- A text that is cut nowhere has no occurrence. -/
theorem not_infix_of_partition_eq_none (h : partition sep s = none) : ¬ sep <:+: s := by
  induction s with
  | nil =>
      rw [partition] at h
      split at h
      · cases h
      · next hsep => exact fun hin => hsep (List.infix_nil.mp hin)
  | cons c s ih =>
      rw [partition] at h
      split at h
      · cases h
      · next hprefix =>
          have hlater := ih (Option.map_eq_none_iff.mp h)
          intro hin
          rcases List.infix_cons_iff.mp hin with hstart | htail
          · exact hprefix hstart
          · exact hlater htail

/-- With cuts enough for its length, no piece holds the separator. -/
theorem not_infix_piece (hsep : sep ≠ []) {n : ℕ} (hn : s.length ≤ n) : ∀ p ∈ split_max sep n s, ¬ sep <:+: p := by
  induction n generalizing s with
  | zero =>
      have hs : s = [] := List.length_eq_zero_iff.mp (Nat.le_zero.mp hn)
      intro p hp
      rw [split_max, List.mem_singleton] at hp
      rw [hp, hs]
      exact fun hin => hsep (List.infix_nil.mp hin)
  | succ n ih =>
      intro p hp
      rw [split_max] at hp
      rcases hcut : partition sep s with _ | ⟨before, after⟩
      · rw [hcut] at hp
        rw [List.mem_singleton.mp hp]
        exact not_infix_of_partition_eq_none hcut
      · rw [hcut] at hp
        rcases List.mem_cons.mp hp with rfl | hrest
        · exact not_infix_before hsep hcut
        · -- the rest is shorter by the separator
          have hs := of_partition_eq_some hcut
          have hpos := List.length_pos_iff.mpr hsep
          have hlen : s.length = before.length + sep.length + after.length := by
            rw [hs, List.length_append, List.length_append]
          exact ih (by omega) p hrest

/-- A piece is a part of the text. -/
theorem infix_of_piece {n : ℕ} : ∀ p ∈ split_max sep n s, p <:+: s := by
  induction n generalizing s with
  | zero =>
      intro p hp
      rw [split_max, List.mem_singleton] at hp
      rw [hp]
  | succ n ih =>
      intro p hp
      rw [split_max] at hp
      rcases hcut : partition sep s with _ | ⟨before, after⟩
      · rw [hcut] at hp
        rw [List.mem_singleton.mp hp]
      · rw [hcut] at hp
        have hs := of_partition_eq_some hcut
        rcases List.mem_cons.mp hp with rfl | hrest
        · exact ⟨[], sep ++ after, by rw [hs, List.nil_append, List.append_assoc]⟩
        · refine (ih p hrest).trans ⟨before ++ sep, [], ?_⟩
          rw [hs, List.append_nil]

/-! ## Joining them -/

omit [DecidableEq α] in
/-- Glue without a character of the needle separates its occurrences. -/
theorem not_infix_intercalate {glue : List α} {pieces : List (List α)} (hneedle : needle ≠ []) (hglue : glue ≠ [])
    (hfree : ∀ c ∈ glue, c ∉ needle) (h : ∀ p ∈ pieces, ¬ needle <:+: p) :
    ¬ needle <:+: glue.intercalate pieces := by
  have hplain : ¬ needle <:+: glue := by
    intro hin
    obtain ⟨c, rest, rfl⟩ := List.exists_cons_of_ne_nil hneedle
    exact hfree c (hin.subset List.mem_cons_self) List.mem_cons_self
  -- glue in front of a text free of the needle changes nothing: its last character is foreign
  have hstep : ∀ p rest : List α, ¬ needle <:+: p → ¬ needle <:+: rest → ¬ needle <:+: p ++ (glue ++ rest) := by
    intro p rest hp hrest hin
    obtain ⟨c, g, rfl⟩ := List.exists_cons_of_ne_nil hglue
    rcases infix_append_char (hfree c List.mem_cons_self) hin with hleft | hright
    · exact hp hleft
    · clear hin hplain hp
      induction g with
      | nil => exact hrest hright
      | cons d g ih =>
          have hd : d ∉ needle := hfree d (List.mem_cons_of_mem c List.mem_cons_self)
          rcases infix_append_char (a := []) hd hright with hnil | hright'
          · exact hneedle (List.infix_nil.mp hnil)
          · refine ih (List.cons_ne_nil c g) ?_ hright'
            intro x hx
            rcases List.mem_cons.mp hx with rfl | hx
            · exact hfree x List.mem_cons_self
            · exact hfree x (List.mem_cons_of_mem c (List.mem_cons_of_mem d hx))
  induction pieces with
  | nil => exact fun hin => hneedle (List.infix_nil.mp hin)
  | cons p rest ih =>
      have hp := h p List.mem_cons_self
      have hlater := ih fun q hq => h q (List.mem_cons_of_mem p hq)
      rcases rest with _ | ⟨q, rest⟩
      · rw [List.intercalate_singleton]
        exact hp
      · rw [List.intercalate_cons_cons, List.append_assoc]
        exact hstep p _ hp hlater

/-- **Nothing of what was replaced is left**, when the replacement has none of its characters. -/
theorem not_infix_replace (hold : old ≠ []) (hnew : new ≠ []) (hfree : ∀ c ∈ new, c ∉ old) :
    ¬ old <:+: replace old new s :=
  not_infix_intercalate hold hnew hfree (not_infix_piece hold (Nat.le_refl _))

/-- A replacement brings back nothing that was not there. -/
theorem not_infix_replace_of_not_infix (hneedle : needle ≠ []) (hnew : new ≠ []) (hfree : ∀ c ∈ new, c ∉ needle)
    (h : ¬ needle <:+: s) : ¬ needle <:+: replace old new s :=
  not_infix_intercalate hneedle hnew hfree fun p hp hin => h (hin.trans (infix_of_piece p hp))

end PyStr
