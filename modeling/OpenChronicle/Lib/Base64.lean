/-
Base64 with padding (RFC 4648, section 4), on lists of bytes.

Three bytes become four characters, each standing for six bits; a last group of one or two bytes is
filled up with zero bits and `=`. `decode` is its left inverse, so the text determines the bytes, and no
character of it is outside the alphabet.

The second fact is as useful as the first where an encoded text is put between quotes or into a header:
no character of it ends either.
-/
import Mathlib.Data.List.Basic
import Mathlib.Tactic.Common

set_option autoImplicit false

namespace Base64

/-- The place of a character in it is the value of its six bits. -/
def alphabet : List Char := "ABCDEFGHIJKLMNOPQRSTUVWXYZabcdefghijklmnopqrstuvwxyz0123456789+/".toList

/-- The character for six bits. -/
def digit (n : ℕ) : Char := alphabet.getD n '='

/-- The six bits of a character. -/
def value (c : Char) : Option ℕ := if c ∈ alphabet then some (alphabet.idxOf c) else none

/-- `base64.b64encode`; a byte is a number below 256. -/
def encode : List ℕ → List Char
  | [] => []
  | [a] => [digit (a / 4), digit (a % 4 * 16), '=', '=']
  | [a, b] => [digit (a / 4), digit (a % 4 * 16 + b / 16), digit (b % 16 * 4), '=']
  | a :: b :: c :: rest =>
      digit (a / 4) :: digit (a % 4 * 16 + b / 16) :: digit (b % 16 * 4 + c / 64) :: digit (c % 64)
        :: encode rest

/-- The bytes of one group of four characters. -/
def group (p q r s : Char) : Option (List ℕ) := do
  let a ← value p
  let b ← value q
  if r = '=' then some [a * 4 + b / 16]
  else
    let c ← value r
    if s = '=' then some [a * 4 + b / 16, b % 16 * 16 + c / 4]
    else
      let d ← value s
      some [a * 4 + b / 16, b % 16 * 16 + c / 4, c % 4 * 64 + d]

/-- Group by group; only the last may be filled up. -/
def decode : List Char → Option (List ℕ)
  | [] => some []
  | p :: q :: r :: s :: rest => do
      let bytes ← group p q r s
      let more ← decode rest
      some (bytes ++ more)
  | _ => none

example : String.ofList (encode [102, 111, 111, 98]) = "Zm9vYg==" := by decide +kernel

/-! ## One group -/

/-- Decided for the sixty-four values. -/
theorem digits : ∀ n < 64, value (digit n) = some n ∧ digit n ∈ alphabet ∧ digit n ≠ '=' := by
  decide +kernel

/-- A digit is read back, -/
theorem value_digit {n : ℕ} (h : n < 64) : value (digit n) = some n := (digits n h).1

/-- is in the alphabet, -/
theorem digit_mem {n : ℕ} (h : n < 64) : digit n ∈ alphabet := (digits n h).2.1

/-- and is not taken for padding. -/
theorem digit_ne_pad {n : ℕ} (h : n < 64) : digit n ≠ '=' := (digits n h).2.2

section Group

variable {a b c : ℕ}

/-- The three lengths of a group. Each byte is put together again from the bits of its two characters. -/
theorem group_one (ha : a < 256) : group (digit (a / 4)) (digit (a % 4 * 16)) '=' '=' = some [a] := by
  have hbyte : a / 4 * 4 + a % 4 * 16 / 16 = a := by omega
  rw [group, value_digit (by omega), value_digit (by omega)]
  simp only [Option.bind_eq_bind, Option.bind_some, if_pos, hbyte]

theorem group_two (ha : a < 256) (hb : b < 256) :
    group (digit (a / 4)) (digit (a % 4 * 16 + b / 16)) (digit (b % 16 * 4)) '=' = some [a, b] := by
  have hfirst : a / 4 * 4 + (a % 4 * 16 + b / 16) / 16 = a := by omega
  have hsecond : (a % 4 * 16 + b / 16) % 16 * 16 + b % 16 * 4 / 4 = b := by omega
  rw [group, value_digit (by omega), value_digit (by omega)]
  simp only [Option.bind_eq_bind, Option.bind_some]
  rw [if_neg (digit_ne_pad (by omega)), value_digit (by omega)]
  simp only [Option.bind_some, if_pos, hfirst, hsecond]

theorem group_three (ha : a < 256) (hb : b < 256) (hc : c < 256) :
    group (digit (a / 4)) (digit (a % 4 * 16 + b / 16)) (digit (b % 16 * 4 + c / 64)) (digit (c % 64))
      = some [a, b, c] := by
  have hfirst : a / 4 * 4 + (a % 4 * 16 + b / 16) / 16 = a := by omega
  have hsecond : (a % 4 * 16 + b / 16) % 16 * 16 + (b % 16 * 4 + c / 64) / 4 = b := by omega
  have hthird : (b % 16 * 4 + c / 64) % 4 * 64 + c % 64 = c := by omega
  rw [group, value_digit (by omega), value_digit (by omega)]
  simp only [Option.bind_eq_bind, Option.bind_some]
  rw [if_neg (digit_ne_pad (by omega)), value_digit (by omega)]
  simp only [Option.bind_some]
  rw [if_neg (digit_ne_pad (by omega)), value_digit (by omega)]
  simp only [Option.bind_some, hfirst, hsecond, hthird]

end Group

/-! ## Any number of bytes -/

/-- **The round trip.** -/
theorem decode_encode (bytes : List ℕ) (h : ∀ b ∈ bytes, b < 256) : decode (encode bytes) = some bytes := by
  induction bytes using encode.induct with
  | case1 => rfl
  | case2 a =>
      rw [encode, decode, group_one (h a (by simp))]
      rfl
  | case3 a b =>
      rw [encode, decode, group_two (h a (by simp)) (h b (by simp))]
      rfl
  | case4 a b c rest ih =>
      have hrest : decode (encode rest) = some rest := ih fun d hd => h d (by simp [hd])
      rw [encode, decode, group_three (h a (by simp)) (h b (by simp)) (h c (by simp)), hrest]
      rfl

/-- The characters are digits and padding. -/
theorem mem_encode {bytes : List ℕ} (h : ∀ b ∈ bytes, b < 256) {x : Char} (hx : x ∈ encode bytes) :
    x ∈ alphabet ∨ x = '=' := by
  induction bytes using encode.induct with
  | case1 => cases hx
  | case2 a =>
      have ha := h a (by simp)
      simp only [encode, List.mem_cons, List.not_mem_nil, or_false] at hx
      rcases hx with rfl | rfl | rfl | rfl
      · exact .inl (digit_mem (by omega))
      · exact .inl (digit_mem (by omega))
      · exact .inr rfl
      · exact .inr rfl
  | case3 a b =>
      have ha := h a (by simp)
      have hb := h b (by simp)
      simp only [encode, List.mem_cons, List.not_mem_nil, or_false] at hx
      rcases hx with rfl | rfl | rfl | rfl
      · exact .inl (digit_mem (by omega))
      · exact .inl (digit_mem (by omega))
      · exact .inl (digit_mem (by omega))
      · exact .inr rfl
  | case4 a b c rest ih =>
      have ha := h a (by simp)
      have hb := h b (by simp)
      have hc := h c (by simp)
      simp only [encode, List.mem_cons] at hx
      rcases hx with rfl | rfl | rfl | rfl | hx
      · exact .inl (digit_mem (by omega))
      · exact .inl (digit_mem (by omega))
      · exact .inl (digit_mem (by omega))
      · exact .inl (digit_mem (by omega))
      · exact ih (fun d hd => h d (by simp [hd])) hx

end Base64
