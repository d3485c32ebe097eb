/-
Sequences packed into words of one width: `struct.pack(f"{len(xs)}f", *xs)` and back.

The packed text has no header. It is read by its own length, and what it was packed from comes back one
word for each value, up to what one word keeps of a value.

What one word keeps is `round`, a field of the code: a value that has more bits than a word is rounded
when it is packed, and only the rounded value is read back. Nothing else is asked of the code, so the
same lemmas serve single and double precision.
-/
import Mathlib.Data.List.Basic

set_option autoImplicit false

namespace FixedWidth

variable {α β : Type}

/-- A code whose words all have the same width. -/
structure Code (α β : Type) where
  width : ℕ
  encode : α → List β
  decode : List β → α
  /-- What is left of a value after a word has held it. -/
  round : α → α
  width_pos : 0 < width
  encode_length : ∀ x, (encode x).length = width
  decode_encode : ∀ x, decode (encode x) = round x

namespace Code

variable (C : Code α β)

/-- One word after another. -/
def pack (xs : List α) : List β := xs.flatMap C.encode

/-- The first `n` words of a text. -/
def words : ℕ → List β → List α
  | 0, _ => []
  | n + 1, s => C.decode (s.take C.width) :: words n (s.drop C.width)

/-- A text read by its own length; `none` where the length is no number of words. -/
def unpack (s : List β) : Option (List α) :=
  if s.length % C.width = 0 then some (C.words (s.length / C.width) s) else none

/-- As many words as were asked for. -/
@[simp] theorem words_length (n : ℕ) (s : List β) : (C.words n s).length = n := by
  induction n generalizing s with
  | zero => rfl
  | succ n ih => rw [words, List.length_cons, ih]

/-- The length tells how many values there are, so no header is needed. -/
theorem pack_length (xs : List α) : (C.pack xs).length = C.width * xs.length := by
  induction xs with
  | nil => rfl
  | cons x xs ih =>
      rw [pack, List.flatMap_cons, List.length_append, C.encode_length, ← pack, ih, List.length_cons,
        Nat.mul_succ, Nat.add_comm]

/-- By induction over the values; each word is cut off where it was put. -/
theorem words_pack (xs : List α) : C.words xs.length (C.pack xs) = xs.map C.round := by
  induction xs with
  | nil => rfl
  | cons x xs ih =>
      have htake : (C.pack (x :: xs)).take C.width = C.encode x := by
        rw [pack, List.flatMap_cons, List.take_left' (C.encode_length x)]
      have hdrop : (C.pack (x :: xs)).drop C.width = C.pack xs := by
        rw [pack, List.flatMap_cons, List.drop_left' (C.encode_length x)]
        rfl
      rw [List.length_cons, words, htake, hdrop, ih, C.decode_encode, List.map_cons]

/-- What was packed is read back, one value for each. -/
theorem unpack_pack (xs : List α) : C.unpack (C.pack xs) = some (xs.map C.round) := by
  rw [unpack, pack_length, Nat.mul_mod_right, if_pos rfl, Nat.mul_div_cancel_left _ C.width_pos, words_pack]

end Code

end FixedWidth
