/-
The `str` methods the program uses, on lists of characters.

`str.split()` with no argument and `str.isspace` follow Unicode, not ASCII: the set below is CPython's
`Py_UNICODE_ISSPACE`. `str.lower` and `str.casefold` are tables too large to restate and nothing below
depends on them, so the callers take them as parameters.

There are two kinds of string. What is read from a column or bound to one is a `String` of Lean, a
sequence of scalar values. What comes from `json.loads`, from the environment or from a command line may
hold lone surrogates besides, and is a `Text`. `Text.encode` leads from the second kind to the first,
where there is a way.
-/
import Mathlib.Data.List.Infix

set_option autoImplicit false

namespace PyStr

/-- `Py_UNICODE_ISSPACE`. -/
def isspace (c : Char) : Bool :=
  let n := c.toNat
  (0x09 ≤ n && n ≤ 0x0D) || (0x1C ≤ n && n ≤ 0x20) || n == 0x85 || n == 0xA0 || n == 0x1680
    || (0x2000 ≤ n && n ≤ 0x200A) || n == 0x2028 || n == 0x2029 || n == 0x202F || n == 0x205F
    || n == 0x3000

/-- The loop of `str.split()`: `acc` is the word being read, reversed. -/
def splitLoop : List Char → List Char → List (List Char)
  | [], acc => if acc = [] then [] else [acc.reverse]
  | c :: cs, acc =>
      if isspace c then
        if acc = [] then splitLoop cs [] else acc.reverse :: splitLoop cs []
      else splitLoop cs (c :: acc)

/-- `s.split()`: the maximal runs of non-whitespace. -/
def split (s : List Char) : List (List Char) := splitLoop s []

/-- `not s.strip()`: nothing but whitespace. -/
def isBlank (s : List Char) : Bool := s.all isspace

/-- `sep.join(parts)`. -/
def join (sep : List Char) (parts : List (List Char)) : List Char := sep.intercalate parts

/-- `s.replace(c, "")`. -/
def without (c : Char) (s : List Char) : List Char := s.filter (· ≠ c)

/-- `needle in hay`. -/
def contains {α : Type} [DecidableEq α] (needle hay : List α) : Bool := decide (needle <:+: hay)

/-- `string.punctuation`. -/
def punctuation : List Char := "!\"#$%&'()*+,-./:;<=>?@[\\]^_`\x7b|\x7d~".toList

/-! ## Any string

`json.loads` answers lone surrogates for escapes that name them, and no UTF-8 text holds
one: binding such a string to a statement raises. A `String` is exactly what can be bound. -/

/-- A code point of a `str`. -/
inductive CodePoint where
  | scalar (c : Char)
  | surrogate (n : Fin 2048)
  deriving DecidableEq, Repr

/-- A `str`. -/
abbrev Text := List CodePoint

instance : LawfulBEq Text := inferInstanceAs (LawfulBEq (List CodePoint))

/-- A text without surrogates. -/
def Text.ofString (s : String) : Text := s.toList.map .scalar

instance : Coe String Text := ⟨Text.ofString⟩

/-- A surrogate has no scalar value. -/
def CodePoint.scalar? : CodePoint → Option Char
  | scalar c => some c
  | surrogate _ => none

/-- `s.encode("utf-8")`; `none` is the `UnicodeEncodeError`. -/
def Text.encode (t : Text) : Option String := (t.mapM CodePoint.scalar?).map String.ofList

/-- A text that comes from a column can be bound again. -/
theorem Text.encode_ofString (s : String) : (Text.ofString s).encode = some s := by
  rw [Text.encode, Text.ofString, List.mapM_map]
  have h : ∀ l : List Char, l.mapM (fun c => (CodePoint.scalar c).scalar?) = some l := by
    intro l
    induction l with
    | nil => rfl
    | cons c t ih =>
        rw [List.mapM_cons, ih]
        rfl
  have hs : s.toList.mapM (CodePoint.scalar? ∘ CodePoint.scalar) = some s.toList := h s.toList
  rw [hs]
  simp

/-- Encoding is the left inverse, so a string has one encoding. -/
theorem Text.encode_eq_some {t : Text} {s : String} : t.encode = some s ↔ t = Text.ofString s := by
  constructor
  · intro h
    obtain ⟨cs, hcs, rfl⟩ := Option.map_eq_some_iff.mp h
    have key : ∀ (t : Text) (cs : List Char), t.mapM CodePoint.scalar? = some cs →
        t = cs.map .scalar := by
      intro t
      induction t with
      | nil =>
          intro cs hcs
          rw [List.mapM_nil] at hcs
          cases hcs
          rfl
      | cons p t ih =>
          intro cs hcs
          rw [List.mapM_cons] at hcs
          cases p with
          | surrogate n => cases hcs
          | scalar c =>
              cases ht : t.mapM CodePoint.scalar? with
              | none => rw [ht] at hcs; cases hcs
              | some cs' =>
                  rw [ht] at hcs
                  cases hcs
                  rw [List.map_cons, ← ih cs' ht]
    rw [key t cs hcs, Text.ofString, String.toList_ofList]
  · rintro rfl
    exact Text.encode_ofString s

/-- So equality of texts is equality of strings. -/
theorem Text.ofString_injective : Function.Injective Text.ofString := by
  intro s t h
  have hs := Text.encode_ofString s
  rw [h, Text.encode_ofString] at hs
  exact (Option.some.inj hs).symm

end PyStr
