/-!
# Octets as text

Two readings of a sequence of octets: the strict one refuses what is not UTF-8, the lenient one writes U+FFFD for each
maximal piece that no UTF-8 sequence starts with.
-/

namespace SchemaMigration.Text

/-- How many octets follow the first one of a character, and the range of the second: none for an octet that starts no
character. -/
def leadByte (b : Nat) : Option (Nat × Nat × Nat) :=
  if b ≤ 0x7F then some (0, 0x80, 0xBF)
  else if 0xC2 ≤ b ∧ b ≤ 0xDF then some (1, 0x80, 0xBF)
  else if b = 0xE0 then some (2, 0xA0, 0xBF)
  else if b = 0xED then some (2, 0x80, 0x9F)
  else if 0xE1 ≤ b ∧ b ≤ 0xEF then some (2, 0x80, 0xBF)
  else if b = 0xF0 then some (3, 0x90, 0xBF)
  else if 0xF1 ≤ b ∧ b ≤ 0xF3 then some (3, 0x80, 0xBF)
  else if b = 0xF4 then some (3, 0x80, 0x8F)
  else none

/-- The bits of the first octet that belong to the code point, for a character of `n + 1` octets. -/
def leadBits (n b : Nat) : Nat :=
  match n with
  | 0 => b
  | 1 => b % 32
  | 2 => b % 16
  | _ => b % 8

/-- Where the reader stands: between characters, or inside one with the bits so far, the number of octets still owed
and the range of the next one. -/
inductive Utf8State
  | start
  | inside (bits owed low high : Nat)

/-- The replacement character. -/
def replacement : Char := '\uFFFD'

/-- Reads octets as text, with the replacement character for every piece that is no UTF-8. The second component says
whether there was none. -/
def decodeFrom : Utf8State → List UInt8 → List Char × Bool
  | .start, [] => ([], true)
  | .inside .., [] => ([replacement], false)
  | .start, b :: rest =>
    match leadByte b.toNat with
    | none => let (cs, _) := decodeFrom .start rest; (replacement :: cs, false)
    | some (0, _, _) => let (cs, ok) := decodeFrom .start rest; (Char.ofNat b.toNat :: cs, ok)
    | some (n, low, high) => decodeFrom (.inside (leadBits n b.toNat) n low high) rest
  | .inside bits owed low high, b :: rest =>
    let n := b.toNat
    if low ≤ n ∧ n ≤ high then
      let bits := bits * 64 + n % 64
      if owed ≤ 1 then let (cs, ok) := decodeFrom .start rest; (Char.ofNat bits :: cs, ok)
      else decodeFrom (.inside bits (owed - 1) 0x80 0xBF) rest
    else
      -- the octet that ends the bad piece starts afresh
      match leadByte n with
      | none => let (cs, _) := decodeFrom .start rest; (replacement :: replacement :: cs, false)
      | some (0, _, _) => let (cs, _) := decodeFrom .start rest; (replacement :: Char.ofNat n :: cs, false)
      | some (m, low, high) =>
        let (cs, _) := decodeFrom (.inside (leadBits m n) m low high) rest
        (replacement :: cs, false)

/-- The text of a sequence of octets, if it is UTF-8. -/
def decodeUtf8? (bytes : List UInt8) : Option String :=
  let (cs, ok) := decodeFrom .start bytes
  if ok then some (String.ofList cs) else none

/-- The text of a sequence of octets, with U+FFFD for what is no UTF-8. -/
def decodeUtf8Lenient (bytes : List UInt8) : String :=
  String.ofList (decodeFrom .start bytes).1

end SchemaMigration.Text
