import SchemaMigration.Text.Utf8
import Mathlib.Tactic.SplitIfs

/-!
# Texts are read from their octets

The strict reading of octets inverts UTF-8: it reads each character from its encoding, whatever follows
(`decodeFrom_utf8EncodeChar`), and so every text from its octets (`decodeUtf8?_toUTF8`). The ranges that it has for a
second octet leave out the surrogates and the encodings that are too long, and no character.
-/

namespace SchemaMigration.Text

section

variable {bits owed low high v : Nat} {b : UInt8} {rest : List UInt8}

/-- The first octet of several says how many follow. -/
theorem decodeFrom_lead (h : leadByte b.toNat = some (owed + 1, low, high)) :
    decodeFrom .start (b :: rest) = decodeFrom (.inside (leadBits (owed + 1) b.toNat) (owed + 1) low high) rest := by
  rw [decodeFrom, h]
  rfl

/-- An octet that is not the last one adds its bits. -/
theorem decodeFrom_next (hlow : low ≤ b.toNat) (hhigh : b.toNat ≤ high) :
    decodeFrom (.inside bits (owed + 2) low high) (b :: rest) =
      decodeFrom (.inside (bits * 64 + b.toNat % 64) (owed + 1) 0x80 0xBF) rest := by
  rw [decodeFrom, if_pos ⟨hlow, hhigh⟩, if_neg (by omega)]
  rfl

/-- The last octet completes the character. -/
theorem decodeFrom_last (hlow : low ≤ b.toNat) (hhigh : b.toNat ≤ high) :
    decodeFrom (.inside bits 1 low high) (b :: rest) =
      (Char.ofNat (bits * 64 + b.toNat % 64) :: (decodeFrom .start rest).1, (decodeFrom .start rest).2) := by
  rw [decodeFrom, if_pos ⟨hlow, hhigh⟩, if_pos (by omega)]

theorem toNat_ofNat_of_lt {n : Nat} (h : n < 256) : (UInt8.ofNat n).toNat = n :=
  Nat.mod_eq_of_lt h

theorem decodeFrom_one (h : v ≤ 0x7F) :
    decodeFrom .start (UInt8.ofNat v :: rest) =
      (Char.ofNat v :: (decodeFrom .start rest).1, (decodeFrom .start rest).2) := by
  have hlead : leadByte (UInt8.ofNat v).toNat = some (0, 0x80, 0xBF) := by
    rw [toNat_ofNat_of_lt (by omega), leadByte, if_pos h]
  rw [decodeFrom, hlead, toNat_ofNat_of_lt (by omega)]
  rfl

theorem decodeFrom_two (hlow : 0x7F < v) (hhigh : v ≤ 0x7FF) :
    decodeFrom .start (UInt8.ofNat (v / 64 % 32 + 192) :: UInt8.ofNat (v % 64 + 128) :: rest) =
      (Char.ofNat v :: (decodeFrom .start rest).1, (decodeFrom .start rest).2) := by
  have hfirst := toNat_ofNat_of_lt (n := v / 64 % 32 + 192) (by omega)
  have hsecond := toNat_ofNat_of_lt (n := v % 64 + 128) (by omega)
  have hlead : leadByte (UInt8.ofNat (v / 64 % 32 + 192)).toNat = some (1, 0x80, 0xBF) := by
    rw [hfirst, leadByte, if_neg (by omega), if_pos (by omega)]
  have hbits : leadBits 1 (v / 64 % 32 + 192) * 64 + (v % 64 + 128) % 64 = v := by
    simp only [leadBits]
    omega
  rw [decodeFrom_lead hlead, decodeFrom_last (by omega) (by omega), hfirst, hsecond, hbits]

/-- The first octet of three. The range of the second one leaves out what is encoded in two octets, and the
surrogates. -/
theorem leadByte_three {n : Nat} (hlow : 0xE0 ≤ n) (hhigh : n ≤ 0xEF) :
    leadByte n = some (2, if n = 0xE0 then 0xA0 else 0x80, if n = 0xED then 0x9F else 0xBF) := by
  have hall : ∀ i < 16, leadByte (0xE0 + i) =
      some (2, if 0xE0 + i = 0xE0 then 0xA0 else 0x80, if 0xE0 + i = 0xED then 0x9F else 0xBF) := by decide
  obtain ⟨i, rfl⟩ := Nat.exists_eq_add_of_le hlow
  exact hall i (by omega)

/-- The first octet of four. The range of the second one leaves out what is encoded in three octets, and what is too
great for a character. -/
theorem leadByte_four {n : Nat} (hlow : 0xF0 ≤ n) (hhigh : n ≤ 0xF4) :
    leadByte n = some (3, if n = 0xF0 then 0x90 else 0x80, if n = 0xF4 then 0x8F else 0xBF) := by
  have hall : ∀ i < 5, leadByte (0xF0 + i) =
      some (3, if 0xF0 + i = 0xF0 then 0x90 else 0x80, if 0xF0 + i = 0xF4 then 0x8F else 0xBF) := by decide
  obtain ⟨i, rfl⟩ := Nat.exists_eq_add_of_le hlow
  exact hall i (by omega)

theorem decodeFrom_three (hlow : 0x7FF < v) (hhigh : v ≤ 0xFFFF) (hvalid : v < 0xD800 ∨ 0xDFFF < v) :
    decodeFrom .start (UInt8.ofNat (v / 4096 % 16 + 224) :: UInt8.ofNat (v / 64 % 64 + 128) ::
        UInt8.ofNat (v % 64 + 128) :: rest) =
      (Char.ofNat v :: (decodeFrom .start rest).1, (decodeFrom .start rest).2) := by
  have hfirst := toNat_ofNat_of_lt (n := v / 4096 % 16 + 224) (by omega)
  have hsecond := toNat_ofNat_of_lt (n := v / 64 % 64 + 128) (by omega)
  have hthird := toNat_ofNat_of_lt (n := v % 64 + 128) (by omega)
  have hlead := leadByte_three (n := v / 4096 % 16 + 224) (by omega) (by omega)
  rw [← hfirst] at hlead
  have hbits : (leadBits 2 (v / 4096 % 16 + 224) * 64 + (v / 64 % 64 + 128) % 64) * 64 + (v % 64 + 128) % 64 = v := by
    simp only [leadBits]
    omega
  rw [decodeFrom_lead hlead, decodeFrom_next (by split <;> omega) (by split <;> omega),
    decodeFrom_last (by omega) (by omega), hfirst, hsecond, hthird, hbits]

theorem decodeFrom_four (hlow : 0xFFFF < v) (hvalid : v < 0x110000) :
    decodeFrom .start (UInt8.ofNat (v / 262144 % 8 + 240) :: UInt8.ofNat (v / 4096 % 64 + 128) ::
        UInt8.ofNat (v / 64 % 64 + 128) :: UInt8.ofNat (v % 64 + 128) :: rest) =
      (Char.ofNat v :: (decodeFrom .start rest).1, (decodeFrom .start rest).2) := by
  have hfirst := toNat_ofNat_of_lt (n := v / 262144 % 8 + 240) (by omega)
  have hsecond := toNat_ofNat_of_lt (n := v / 4096 % 64 + 128) (by omega)
  have hthird := toNat_ofNat_of_lt (n := v / 64 % 64 + 128) (by omega)
  have hfourth := toNat_ofNat_of_lt (n := v % 64 + 128) (by omega)
  have hlead := leadByte_four (n := v / 262144 % 8 + 240) (by omega) (by omega)
  rw [← hfirst] at hlead
  have hbits : ((leadBits 3 (v / 262144 % 8 + 240) * 64 + (v / 4096 % 64 + 128) % 64) * 64 +
      (v / 64 % 64 + 128) % 64) * 64 + (v % 64 + 128) % 64 = v := by
    simp only [leadBits]
    omega
  rw [decodeFrom_lead hlead, decodeFrom_next (by split <;> omega) (by split <;> omega),
    decodeFrom_next (by omega) (by omega), decodeFrom_last (by omega) (by omega), hfirst, hsecond, hthird, hfourth,
    hbits]

end

/-- A character is read from its encoding, whatever follows. -/
theorem decodeFrom_utf8EncodeChar (c : Char) (rest : List UInt8) :
    decodeFrom .start (String.utf8EncodeChar c ++ rest) =
      (c :: (decodeFrom .start rest).1, (decodeFrom .start rest).2) := by
  have hback : Char.ofNat c.val.toNat = c := Char.ofNat_toNat c
  have hvalid : c.val.toNat < 0xD800 ∨ (0xDFFF < c.val.toNat ∧ c.val.toNat < 0x110000) := c.valid
  unfold String.utf8EncodeChar
  generalize c.val.toNat = v at hback hvalid ⊢
  subst hback
  dsimp only
  split_ifs with h1 h2 h3
  · exact decodeFrom_one h1
  · exact decodeFrom_two (by omega) h2
  · exact decodeFrom_three (by omega) h3 (by omega)
  · exact decodeFrom_four (by omega) (by omega)

theorem decodeFrom_flatMap (cs : List Char) : decodeFrom .start (cs.flatMap String.utf8EncodeChar) = (cs, true) := by
  induction cs with
  | nil => rfl
  | cons c cs ih => rw [List.flatMap_cons, decodeFrom_utf8EncodeChar, ih]

/-- The octets of a text are those of its characters. -/
theorem toList_toUTF8 (s : String) : s.toUTF8.data.toList = s.toList.flatMap String.utf8EncodeChar := by
  rw [String.toUTF8_eq_toByteArray, ← String.utf8Encode_toList, List.utf8Encode, List.toList_data_toByteArray]

theorem decodeUtf8?_toUTF8 (s : String) : decodeUtf8? s.toUTF8.data.toList = some s := by
  rw [decodeUtf8?, toList_toUTF8, decodeFrom_flatMap]
  simp

end SchemaMigration.Text
