/-
Universal newlines: what a text stream makes of the line ends of other systems.

A stream opened as text hands a carriage return on as a line feed, and a carriage
return with the line feed after it as one line feed. So the reader does not see
the text that the writer wrote, and a format that is read back exactly on paper
is not read back exactly through such a stream.

The decoder is one pass with one bit of memory, the pending carriage return, and
every proof below is an induction over that pass. Three things are worth knowing
of it. A text without carriage returns goes through as it is. Text that is free
of line feeds after the decoding stood in the source as it stands in the result,
so a sentinel found in what was read was there in what was written. And where a
text is stripped anyway, only carriage returns inside it count.
-/
import OpenChronicle.Lib.Delimited

set_option autoImplicit false

namespace PyStr

/-- The decoder after a carriage return (`pending`) or not. -/
def newlines_from : (pending : Bool) → List Char → List Char
  | _, [] => []
  | pending, c :: s =>
      if c = '\r' then '\n' :: newlines_from true s
      else if pending = true ∧ c = '\n' then newlines_from false s
      else c :: newlines_from false s

/-- What is read of a text in universal newlines mode. -/
def universal_newlines (s : List Char) : List Char := newlines_from false s

theorem newlines_cr (pending : Bool) (s : List Char) :
    newlines_from pending ('\r' :: s) = '\n' :: newlines_from true s := rfl

theorem newlines_cons {pending : Bool} {c : Char} (hcr : c ≠ '\r') (hlf : pending = true → c ≠ '\n')
    (s : List Char) : newlines_from pending (c :: s) = c :: newlines_from false s := by
  rw [newlines_from, if_neg hcr, if_neg fun h => hlf h.1 h.2]

theorem newlines_cons_false {c : Char} (hcr : c ≠ '\r') (s : List Char) :
    newlines_from false (c :: s) = c :: newlines_from false s :=
  newlines_cons hcr (fun h => absurd h Bool.false_ne_true) s

/-- Up to its last carriage return a text is decoded by itself: what follows it does not matter
unless it begins with the line feed that would belong to it. -/
theorem newlines_append {t : List Char} (ht : ∀ c ∈ t.head?, c ≠ '\n') (s : List Char) :
    ∀ pending, newlines_from pending (s ++ t) = newlines_from pending s ++ newlines_from false t := by
  induction s with
  | nil =>
      intro pending
      cases t with
      | nil => rfl
      | cons c t =>
          have hlf : c ≠ '\n' := ht c rfl
          rw [List.nil_append, newlines_from, newlines_from]
          simp [hlf, newlines_from]
  | cons c s ih =>
      intro pending
      rw [List.cons_append, newlines_from, newlines_from]
      split
      · rw [ih, List.cons_append]
      · split
        · exact ih false
        · rw [ih, List.cons_append]

/-- A text without carriage returns goes through, whatever follows it. -/
theorem universal_newlines_append {s : List Char} (h : '\r' ∉ s) (t : List Char) :
    universal_newlines (s ++ t) = s ++ universal_newlines t := by
  induction s with
  | nil => rfl
  | cons c s ih =>
      obtain ⟨hc, hs⟩ := not_or.mp (mt List.mem_cons.mpr h)
      have ih := ih hs
      rw [universal_newlines] at ih ⊢
      rw [List.cons_append, newlines_cons_false (Ne.symm hc), ih]
      rfl

/-! ## What was found was there -/

theorem prefix_of_newlines {p : List Char} (hp : '\n' ∉ p) (s : List Char)
    (h : p <+: newlines_from false s) : p <+: s := by
  induction s generalizing p with
  | nil => exact h
  | cons c s ih =>
      cases p with
      | nil => exact List.nil_prefix
      | cons a p =>
          obtain ⟨ha, hp⟩ := not_or.mp (mt List.mem_cons.mpr hp)
          by_cases hcr : c = '\r'
          · -- the text begins with a line feed now
            rw [hcr, newlines_cr] at h
            exact absurd (List.cons_prefix_cons.mp h).1.symm ha
          · rw [newlines_cons_false hcr, List.cons_prefix_cons] at h
            exact List.cons_prefix_cons.mpr ⟨h.1, ih hp h.2⟩

theorem infix_of_newlines {p : List Char} (hp : '\n' ∉ p) (s : List Char) :
    ∀ pending, p <:+: newlines_from pending s → p <:+: s := by
  induction s with
  | nil => exact fun _ h => h
  | cons c s ih =>
      intro pending h
      by_cases hcr : c = '\r'
      · rw [hcr, newlines_cr, List.infix_cons_iff] at h
        rcases h with h | h
        · cases p with
          | nil => exact List.nil_infix
          | cons a p => exact absurd ((List.cons_prefix_cons.mp h).1 ▸ List.mem_cons_self) hp
        · exact (ih true h).trans (List.infix_cons List.infix_rfl)
      · by_cases hlf : pending = true ∧ c = '\n'
        · obtain ⟨rfl, rfl⟩ := hlf
          exact (ih false h).trans (List.infix_cons List.infix_rfl)
        · rw [newlines_cons hcr fun h₁ h₂ => hlf ⟨h₁, h₂⟩, List.infix_cons_iff] at h
          rcases h with h | h
          · rw [← newlines_cons_false hcr] at h
            exact (prefix_of_newlines hp _ h).isInfix
          · exact (ih false h).trans (List.infix_cons List.infix_rfl)

theorem infix_of_universal_newlines {p s : List Char} (hp : '\n' ∉ p)
    (h : p <:+: universal_newlines s) : p <:+: s := infix_of_newlines hp s false h

/-! ## Stripped text -/

theorem mem_newlines {c : Char} (s : List Char) :
    ∀ pending, c ∈ newlines_from pending s → c ∈ s ∨ c = '\n' := by
  induction s with
  | nil => exact fun _ h => .inl h
  | cons d s ih =>
      intro pending h
      rw [newlines_from] at h
      split at h
      · rcases List.mem_cons.mp h with rfl | h
        · exact .inr rfl
        · exact (ih true h).imp_left (List.mem_cons_of_mem d)
      · split at h
        · exact (ih false h).imp_left (List.mem_cons_of_mem d)
        · rcases List.mem_cons.mp h with rfl | h
          · exact .inl List.mem_cons_self
          · exact (ih false h).imp_left (List.mem_cons_of_mem d)

theorem space_of_newlines {s : List Char} (h : ∀ c ∈ s, isspace c = true) :
    ∀ c ∈ universal_newlines s, isspace c = true := by
  intro c hc
  rcases mem_newlines s false hc with hc | rfl
  · exact h c hc
  · rfl

/-- **Only carriage returns inside count** where the ends are stripped. -/
theorem strip_universal_newlines {s : List Char} (h : '\r' ∉ strip s) :
    strip (universal_newlines s) = strip s := by
  set core := (s.dropWhile isspace).rdropWhile isspace with hcore
  have hsplit : s = s.takeWhile isspace ++ (core ++ (s.dropWhile isspace).rtakeWhile isspace) := by
    rw [hcore, List.rdropWhile_append_rtakeWhile, List.takeWhile_append_dropWhile]
  have hleft : ∀ c ∈ s.takeWhile isspace, isspace c = true := fun c hc => List.mem_takeWhile_imp hc
  have hright : ∀ c ∈ (s.dropWhile isspace).rtakeWhile isspace, isspace c = true :=
    fun c hc => List.mem_rtakeWhile_imp hc
  by_cases hne : core = []
  · -- nothing but whitespace, before and after
    have hblank : ∀ c ∈ s, isspace c = true := by
      intro c hc
      rw [hsplit, hne, List.nil_append, List.mem_append] at hc
      exact hc.elim (hleft c) (hright c)
    have hdrop : ∀ t : List Char, (∀ c ∈ t, isspace c = true) → strip t = [] := by
      intro t ht
      rw [strip, List.dropWhile_eq_nil_iff.mpr ht]
      rfl
    rw [hdrop s hblank, hdrop _ (space_of_newlines hblank)]
  · have htrimmed : Trimmed core := by
      constructor
      · intro c hc
        obtain ⟨rest, hrest⟩ : ∃ rest, s.dropWhile isspace = c :: rest := by
          obtain ⟨rest, hcons⟩ := List.head?_eq_some_iff.mp hc
          have hprefix : core <+: s.dropWhile isspace := List.rdropWhile_prefix _ _
          obtain ⟨t, ht⟩ := hprefix
          exact ⟨rest ++ t, by rw [← ht, hcons, List.cons_append]⟩
        have hnot := List.head?_dropWhile_not isspace s
        rw [hrest] at hnot
        simpa using hnot
      · intro c hc
        have hlast := List.rdropWhile_last_not isspace (s.dropWhile isspace) hne
        rw [List.getLast?_eq_some_getLast hne, Option.mem_def] at hc
        rw [← Option.some.inj hc]
        simpa using hlast
    have hhead : ∀ c ∈ (core ++ (s.dropWhile isspace).rtakeWhile isspace).head?, c ≠ '\n' := by
      intro c hc hlf
      obtain ⟨a, rest, hcons⟩ := List.exists_cons_of_ne_nil hne
      rw [hcons, List.cons_append, List.head?_cons, Option.mem_def] at hc
      have hspace := htrimmed.1 a (by rw [hcons]; rfl)
      rw [Option.some.inj hc, hlf] at hspace
      exact absurd hspace (by decide)
    have hdecoded : universal_newlines s = universal_newlines (s.takeWhile isspace)
        ++ core ++ universal_newlines ((s.dropWhile isspace).rtakeWhile isspace) := by
      conv_lhs => rw [hsplit]
      rw [universal_newlines, newlines_append hhead, List.append_assoc]
      congr 1
      exact universal_newlines_append h _
    have hstripped : strip s = core := rfl
    rw [hdecoded, hstripped]
    exact strip_append (space_of_newlines hleft) (space_of_newlines hright) htrimmed hne

end PyStr
