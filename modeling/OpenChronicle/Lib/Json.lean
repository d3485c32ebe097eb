/-
The values of Python's `json` module.

A `Json` is what `json.loads` returns. Integers have no bound, a float is its IEEE bits, a string may
hold lone surrogates, a dict lists its keys in order. `json.dumps` escapes every character outside
ASCII, so a value is written whatever its strings hold, and it is read back as it was: the two strings
that would not be, a lone high surrogate directly before a lone low one, come neither from a JSON text
nor from a command line.

The text of a value is not modelled here. Where a module writes a value and reads it back, it takes the
two functions as one that keeps the value; where it reads a text from a file, what `json.loads` makes of
it is a parameter of that module.
-/
import Mathlib.Algebra.Ring.Nat
import OpenChronicle.Lib.PyStr

set_option autoImplicit false

open PyStr

/-- The seven types that a JSON text can have. -/
inductive Json where
  | null
  | bool (b : Bool)
  | int (n : ℤ)
  | float (bits : BitVec 64)
  | str (s : Text)
  | list (items : List Json)
  | dict (fields : List (Text × Json))
  deriving Repr

namespace Json

/-- A `dict`. A key stands once; the first is the one found. -/
abbrev Dict := List (Text × Json)

/-- `key in d`. -/
def Dict.has (d : Dict) (key : Text) : Bool := d.any (·.1 = key)

/-- `d.get(key)`; `None` is `null`. -/
def Dict.get (d : Dict) (key : Text) : Json := ((d.find? (·.1 = key)).map (·.2)).getD .null

/-- `type(value).__name__`. -/
def type_name : Json → String
  | null => "NoneType"
  | bool _ => "bool"
  | int _ => "int"
  | float _ => "float"
  | str _ => "str"
  | list _ => "list"
  | dict _ => "dict"

/-- `bool(value)`. Both zeros are false, and every NaN is true. -/
def truthy : Json → Bool
  | null => false
  | bool b => b
  | int n => n ≠ 0
  | float bits => bits.toNat % 2 ^ 63 ≠ 0
  | str s => s ≠ []
  | list items => !items.isEmpty
  | dict fields => !fields.isEmpty

/-- `isinstance(value, str)` for every item, and then the strings. -/
def strings : List Json → Option (List Text)
  | [] => some []
  | str s :: rest => (strings rest).map (s :: ·)
  | _ :: _ => none

/-- A list of strings is one. -/
theorem strings_map_str (l : List Text) : strings (l.map str) = some l := by
  induction l with
  | nil => rfl
  | cons s rest ih => rw [List.map_cons, strings, ih]; rfl

/-- And no other list is. -/
theorem strings_eq_some {items : List Json} {l : List Text} (h : strings items = some l) :
    items = l.map str := by
  induction items generalizing l with
  | nil =>
      rw [strings] at h
      cases h
      rfl
  | cons x rest ih =>
      cases x with
      | str s =>
          rw [strings] at h
          obtain ⟨l', hl', rfl⟩ := Option.map_eq_some_iff.mp h
          rw [ih hl', List.map_cons]
      | _ => cases h

end Json
