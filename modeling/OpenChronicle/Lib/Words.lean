/-
The words of `str.split()`.

Removing characters that are not whitespace commutes with splitting, up to the words that vanish:
`split_filter`. It is why a text may be cleaned before it is split or after.

The loop of `split` carries the word that is being read, so each statement about the words of a text is
first one about the loop, with the word so far in it, and the statement about `split` is the case of an
empty one.
-/
import OpenChronicle.Lib.PyStr

set_option autoImplicit false

namespace PyStr

variable {s acc w : List Char} {c : Char}

/-! ## What the words are made of -/

/-- No word is empty and none holds whitespace, as long as the one being read does not. -/
theorem word_of_splitLoop (hacc : ∀ c ∈ acc, isspace c = false) (hw : w ∈ splitLoop s acc) :
    w ≠ [] ∧ ∀ c ∈ w, isspace c = false := by
  induction s generalizing acc with
  | nil =>
      rw [splitLoop] at hw
      by_cases h : acc = []
      · rw [if_pos h] at hw
        cases hw
      · rw [if_neg h, List.mem_singleton] at hw
        subst hw
        exact ⟨by simpa using h, by simpa using hacc⟩
  | cons c cs ih =>
      rw [splitLoop] at hw
      by_cases hc : isspace c = true
      · rw [if_pos hc] at hw
        by_cases h : acc = []
        · rw [if_pos h] at hw
          exact ih (by simp) hw
        · rw [if_neg h] at hw
          rcases List.mem_cons.mp hw with rfl | hw
          · exact ⟨by simpa using h, by simpa using hacc⟩
          · exact ih (by simp) hw
      · rw [if_neg hc] at hw
        refine ih ?_ hw
        intro d hd
        rcases List.mem_cons.mp hd with rfl | hd
        · simpa using hc
        · exact hacc d hd

/-- What every word is. -/
theorem word_of_split (hw : w ∈ split s) : w ≠ [] ∧ ∀ c ∈ w, isspace c = false :=
  word_of_splitLoop (by simp) hw

/-- The words hold every character that is not whitespace. -/
theorem flatten_splitLoop (hacc : ∀ c ∈ acc, isspace c = false) :
    (splitLoop s acc).flatten = acc.reverse ++ s.filter (fun c => !isspace c) := by
  induction s generalizing acc with
  | nil =>
      rw [splitLoop]
      by_cases h : acc = []
      · simp [h]
      · simp [h]
  | cons c cs ih =>
      rw [splitLoop]
      by_cases hc : isspace c = true
      · rw [if_pos hc, List.filter_cons_of_neg (by simpa using hc)]
        by_cases h : acc = []
        · rw [if_pos h, ih (by simp), h]
        · rw [if_neg h, List.flatten_cons, ih (by simp)]
          rfl
      · have hkeep : ∀ d ∈ c :: acc, isspace d = false := by
          intro d hd
          rcases List.mem_cons.mp hd with rfl | hd
          · simpa using hc
          · exact hacc d hd
        rw [if_neg hc, ih hkeep, List.filter_cons_of_pos (by simpa using hc)]
        simp

/-- Splitting loses the whitespace and nothing else. -/
theorem flatten_split : (split s).flatten = s.filter fun c => !isspace c := by
  rw [split, flatten_splitLoop (by simp)]
  rfl

/-- A character stands in a word when it stands in the text and is not whitespace. -/
theorem mem_split_iff : (∃ w ∈ split s, c ∈ w) ↔ c ∈ s ∧ isspace c = false := by
  rw [← List.mem_flatten, flatten_split, List.mem_filter]
  simp

/-! ## Cleaning and splitting -/

variable {p : Char → Bool}

/-- Characters that go are not whitespace, so the word being read is only cut shorter;
one that is cut to nothing is no word. -/
theorem splitLoop_filter (hp : ∀ c, isspace c = true → p c = true) :
    splitLoop (s.filter p) (acc.filter p)
      = ((splitLoop s acc).map (·.filter p)).filter (· ≠ []) := by
  induction s generalizing acc with
  | nil =>
      rw [List.filter_nil, splitLoop, splitLoop]
      by_cases h : acc = []
      · simp [h]
      · rw [if_neg h]
        by_cases hcut : acc.filter p = []
        · simp [hcut, List.filter_reverse]
        · simp [hcut, List.filter_reverse]
  | cons c cs ih =>
      by_cases hc : isspace c = true
      · have hnil := @ih []
        rw [List.filter_nil] at hnil
        rw [List.filter_cons_of_pos (hp c hc), splitLoop, splitLoop, if_pos hc, if_pos hc, hnil]
        by_cases h : acc = []
        · simp [h]
        · rw [if_neg h]
          by_cases hcut : acc.filter p = []
          · simp [hcut, List.filter_reverse]
          · simp [hcut, List.filter_reverse]
      · have hcons := @ih (c :: acc)
        rw [splitLoop, if_neg hc]
        by_cases hkeep : p c = true
        · rw [List.filter_cons_of_pos hkeep, splitLoop, if_neg hc]
          rw [List.filter_cons_of_pos hkeep] at hcons
          exact hcons
        · rw [List.filter_cons_of_neg hkeep]
          rw [List.filter_cons_of_neg hkeep] at hcons
          exact hcons

/-- **Cleaning commutes with splitting.** -/
theorem split_filter (hp : ∀ c, isspace c = true → p c = true) :
    split (s.filter p) = ((split s).map (·.filter p)).filter (· ≠ []) := by
  have h := @splitLoop_filter s [] p hp
  rw [List.filter_nil] at h
  exact h

end PyStr
