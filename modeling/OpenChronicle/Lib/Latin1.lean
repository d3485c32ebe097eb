/-
The bytes of a header, read as Latin-1, and the bytes of a text in UTF-8.

A server that decodes header values as Latin-1 turns each byte into the character with its number.
Nothing is lost, but a string method then works on bytes and knows nothing of UTF-8: the byte 0x85 ends
a line and 0xA0 is a space, and either may be the last byte of a character.

The result about this is `strip_utf8`. The first byte of a character of several bytes is never read as
whitespace, so stripping does no harm at the front; at the end it takes the last byte of a character
away exactly if that byte is one of the two. Which characters those are is `EndsInSpace`: their number
tells.
-/
import OpenChronicle.Lib.Strip

set_option autoImplicit false

namespace PyStr

/-- The character a byte is decoded to. -/
def latin1 (b : UInt8) : CodePoint := .scalar (Char.ofNat b.toNat)

/-- The byte of a character, if it has one. -/
def CodePoint.latin1? : CodePoint → Option UInt8
  | .scalar c => if c.toNat < 256 then some (UInt8.ofNat c.toNat) else none
  | .surrogate _ => none

namespace Text

/-- `bytes.decode("latin-1")`. -/
def of_latin1 (bytes : List UInt8) : Text := bytes.map latin1

/-- `s.encode("latin-1")`; `none` is the `UnicodeEncodeError`. -/
def encode_latin1 (s : Text) : Option (List UInt8) := s.mapM CodePoint.latin1?

/-- `s.lower()`, of characters that Latin-1 has. -/
def lower_latin1 (s : Text) : Text := s.map fun
  | .scalar c =>
      if (65 ≤ c.toNat ∧ c.toNat ≤ 90) ∨ (0xC0 ≤ c.toNat ∧ c.toNat ≤ 0xDE ∧ c.toNat ≠ 0xD7) then
        .scalar (Char.ofNat (c.toNat + 32))
      else .scalar c
  | c => c

end Text

/-- Whether a byte is whitespace once it is decoded. -/
def byte_space (b : UInt8) : Bool := (latin1 b).isspace

/-- `s.encode("utf-8")` of a text without surrogates. -/
def utf8 (s : String) : List UInt8 := s.toList.flatMap String.utf8EncodeChar

/-- Every byte is the number of a character. -/
theorem toNat_latin1 (b : UInt8) : (Char.ofNat b.toNat).toNat = b.toNat := by
  have hb : b.toNat < 256 := b.toNat_lt
  rw [Char.ofNat, dif_pos (show b.toNat.isValidChar from .inl (by omega))]
  rfl

/-- So a byte can be read back from its character. -/
theorem latin1?_latin1 (b : UInt8) : (latin1 b).latin1? = some b := by
  rw [latin1, CodePoint.latin1?, toNat_latin1, if_pos b.toNat_lt, UInt8.ofNat_toNat]

/-- Decoding loses no byte. -/
theorem encode_of_latin1 (bytes : List UInt8) : (Text.of_latin1 bytes).encode_latin1 = some bytes := by
  unfold Text.of_latin1 Text.encode_latin1
  induction bytes with
  | nil => rfl
  | cons b rest ih =>
      rw [List.map_cons, List.mapM_cons, latin1?_latin1, ih]
      rfl

/-- The whitespace of Python among the first 256 characters. -/
theorem byte_space_iff {b : UInt8} : byte_space b = true
    ↔ (9 ≤ b.toNat ∧ b.toNat ≤ 13) ∨ (28 ≤ b.toNat ∧ b.toNat ≤ 32) ∨ b.toNat = 0x85 ∨ b.toNat = 0xA0 := by
  have hb : b.toNat < 256 := b.toNat_lt
  simp only [byte_space, latin1, CodePoint.isspace, isspace, toNat_latin1, Bool.or_eq_true, Bool.and_eq_true,
    decide_eq_true_eq, beq_iff_eq]
  omega

/-- `strip`, on the bytes. -/
def strip_bytes (bytes : List UInt8) : List UInt8 := (bytes.dropWhile byte_space).rdropWhile byte_space

/-- Stripping the text is stripping the bytes. -/
theorem strip_of_latin1 (bytes : List UInt8) : (Text.of_latin1 bytes).strip = Text.of_latin1 (strip_bytes bytes) := by
  unfold Text.strip Text.of_latin1 strip_bytes
  rw [List.dropWhile_map, List.rdropWhile, List.rdropWhile, ← List.map_reverse, List.dropWhile_map, ← List.map_reverse]
  rfl

/-! ## The ends of a text -/

/-- An ASCII byte is whitespace if the character is. -/
theorem byte_space_ascii {n : ℕ} (hn : n < 256) :
    byte_space (UInt8.ofNat n) = true ↔ (9 ≤ n ∧ n ≤ 13) ∨ (28 ≤ n ∧ n ≤ 32) ∨ n = 0x85 ∨ n = 0xA0 := by
  rw [byte_space_iff, UInt8.toNat_ofNat_of_lt' hn]

/-- For ASCII it makes no difference in which encoding one looks. -/
theorem not_ascii_space {c : Char} (hspace : isspace c = false) (hascii : c.toNat ≤ 0x7f) :
    ¬ byte_space (UInt8.ofNat c.toNat) = true := by
  intro h
  rw [byte_space_ascii (by omega)] at h
  have hc : isspace c = true := by
    simp only [isspace, Bool.or_eq_true, Bool.and_eq_true, decide_eq_true_eq, beq_iff_eq]
    omega
  rw [hspace] at hc
  cases hc

/-- The first byte of a character is no whitespace if the character is none. -/
theorem first_byte {c : Char} (hspace : isspace c = false) :
    ∃ b rest, String.utf8EncodeChar c = b :: rest ∧ byte_space b = false := by
  have hlead : ∀ n, 0xC0 ≤ n → n < 256 → byte_space (UInt8.ofNat n) = false := by
    intro n hlow hhigh
    rw [Bool.eq_false_iff, ne_eq, byte_space_ascii hhigh]
    omega
  unfold String.utf8EncodeChar
  dsimp only
  split
  · next hascii => exact ⟨_, _, rfl, Bool.eq_false_iff.mpr (not_ascii_space hspace hascii)⟩
  · split
    · exact ⟨_, _, rfl, hlead _ (by omega) (by omega)⟩
    · split
      · exact ⟨_, _, rfl, hlead _ (by omega) (by omega)⟩
      · exact ⟨_, _, rfl, hlead _ (by omega) (by omega)⟩

/-- A character that is no whitespace, with a last byte that Latin-1 reads as whitespace. -/
def EndsInSpace (c : Char) : Prop := 128 ≤ c.toNat ∧ (c.toNat % 64 = 5 ∨ c.toNat % 64 = 32)

instance (c : Char) : Decidable (EndsInSpace c) := inferInstanceAs (Decidable (_ ∧ _))

/-- By the four lengths that a character has in UTF-8. -/
theorem last_byte {c : Char} (hspace : isspace c = false) :
    ∃ init b, String.utf8EncodeChar c = init ++ [b] ∧ (byte_space b = true ↔ EndsInSpace c) := by
  have htail : 128 ≤ c.toNat → (byte_space (UInt8.ofNat (c.val.toNat % 0x40 + 0x80)) = true ↔ EndsInSpace c) := by
    intro hlow
    have hval : c.val.toNat = c.toNat := rfl
    rw [byte_space_ascii (by omega), hval, EndsInSpace]
    omega
  have hval : c.val.toNat = c.toNat := rfl
  unfold String.utf8EncodeChar
  dsimp only
  split
  · next hascii =>
      refine ⟨[], _, rfl, iff_of_false (not_ascii_space hspace hascii) fun h => ?_⟩
      rw [EndsInSpace] at h
      omega
  · split
    · exact ⟨[_], _, rfl, htail (by omega)⟩
    · split
      · exact ⟨[_, _], _, rfl, htail (by omega)⟩
      · exact ⟨[_, _, _], _, rfl, htail (by omega)⟩

/-- **What stripping the decoded bytes of a text takes away**: nothing, if the text has no whitespace at its ends
and its last character does not end in a byte that is read as whitespace. -/
theorem strip_utf8 {s : String} {first last : Char} (hfirst : s.toList.head? = some first)
    (hlast : s.toList.getLast? = some last) (hopen : isspace first = false) (hclose : isspace last = false) :
    strip_bytes (utf8 s) = utf8 s ↔ ¬ EndsInSpace last := by
  obtain ⟨lead, rest, hlead, hleading⟩ := first_byte hopen
  obtain ⟨init, trail, htrail, htrailing⟩ := last_byte hclose
  obtain ⟨chars, hchars⟩ := List.head?_eq_some_iff.mp hfirst
  obtain ⟨before, hbefore⟩ := List.getLast?_eq_some_iff.mp hlast
  have hdrop : (utf8 s).dropWhile byte_space = utf8 s := by
    rw [utf8, hchars, List.flatMap_cons, hlead, List.cons_append]
    exact List.dropWhile_cons_of_neg (by rw [hleading]; exact Bool.false_ne_true)
  have hend : utf8 s = (before.flatMap String.utf8EncodeChar ++ init) ++ [trail] := by
    rw [utf8, hbefore, List.flatMap_append, List.flatMap_singleton, htrail, List.append_assoc]
  rw [strip_bytes, hdrop, ← htrailing, hend, List.rdropWhile_eq_self_iff]
  constructor
  · intro h
    have hlast := h (List.append_ne_nil_of_right_ne_nil _ (List.cons_ne_nil _ _))
    rwa [List.getLast_append_singleton] at hlast
  · intro h hne
    rwa [List.getLast_append_singleton]

end PyStr
