/-
`str.strip` on any string, and what it does to blank ones.

A setting read from the environment counts as unset when nothing is left of it, so the readers of
settings all begin with the question whether a string is blank.

A string of Python may hold a surrogate, from bytes of the environment that are no UTF-8. None of them
is whitespace, so such a string is never blank, however it looks when it is shown.
-/
import Mathlib.Data.List.DropRight
import OpenChronicle.Lib.PyStr

set_option autoImplicit false

namespace PyStr

/-- `Py_UNICODE_ISSPACE`; no surrogate is whitespace. -/
def CodePoint.isspace : CodePoint → Bool
  | .scalar c => PyStr.isspace c
  | .surrogate _ => false

namespace Text

/-- `s.strip()`. -/
def strip (s : Text) : Text := (s.dropWhile CodePoint.isspace).rdropWhile CodePoint.isspace

/-- `not s.strip()`. -/
def blank (s : Text) : Bool := s.all CodePoint.isspace

/-- Nothing is left exactly of a blank string. -/
theorem strip_eq_nil_iff {s : Text} : s.strip = [] ↔ s.blank = true := by
  rw [strip, List.rdropWhile_eq_nil_iff, blank, List.all_eq_true]
  constructor
  · intro h c hc
    by_contra hspace
    -- the first character that is no whitespace would be left
    have hne : s.dropWhile CodePoint.isspace ≠ [] := by
      intro hnil
      exact hspace (List.dropWhile_eq_nil_iff.mp hnil c hc)
    have hhead := List.head_dropWhile_not CodePoint.isspace hne
    rw [h _ (List.head_mem hne)] at hhead
    cases hhead
  · intro h c hc
    exact h c ((List.dropWhile_suffix _).subset hc)

end Text

end PyStr
