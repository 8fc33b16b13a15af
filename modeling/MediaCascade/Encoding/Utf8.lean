import MediaCascade.Encoding.Fault

/-!
# UTF-8

A character is one to four bytes: a lead byte, and continuation bytes of six bits each. The second
byte is restricted after `E0`, `ED`, `F0` and `F4`, so that every character has one encoding and no
surrogate has any.

* `Utf8.decode` goes through the bytes once and keeps the character it is in (`Utf8.Pending`).
* The fault of a byte that does not go on with a character is the lead byte and the continuation
  bytes before it; the fault of an end within a character is what was read of it.
* `Utf8.encodeChar` writes a character.
-/

namespace MediaCascade.Utf8

/-! ## 1. Reading -/

/-- A character of which the lead byte was read. -/
structure Pending where
  /-- Where the lead byte stands. -/
  position : Nat
  lead : UInt8
  /-- The continuation bytes that were read. -/
  tail : Bytes
  /-- The bits that were read, as a number. -/
  value : Nat
  /-- The number of bytes to come behind the next one. -/
  missing : Nat
  /-- The least and the greatest byte that may come next. -/
  low : Nat
  high : Nat
  deriving DecidableEq, Repr

/-- The character that a lead byte starts, by the form of the byte. -/
def Pending.ofLead? (position : Nat) (b : UInt8) : Option Pending :=
  let n := b.toNat
  if 0xC2 ≤ n ∧ n ≤ 0xDF then some ⟨position, b, [], n - 0xC0, 0, 0x80, 0xBF⟩
  else if n = 0xE0 then some ⟨position, b, [], n - 0xE0, 1, 0xA0, 0xBF⟩
  else if n = 0xED then some ⟨position, b, [], n - 0xE0, 1, 0x80, 0x9F⟩
  else if 0xE1 ≤ n ∧ n ≤ 0xEF then some ⟨position, b, [], n - 0xE0, 1, 0x80, 0xBF⟩
  else if n = 0xF0 then some ⟨position, b, [], n - 0xF0, 2, 0x90, 0xBF⟩
  else if n = 0xF4 then some ⟨position, b, [], n - 0xF0, 2, 0x80, 0x8F⟩
  else if 0xF1 ≤ n ∧ n ≤ 0xF3 then some ⟨position, b, [], n - 0xF0, 2, 0x80, 0xBF⟩
  else none

/-- The name of the encoding in its faults. -/
def codec : Text := "utf-8".toList

/-- The fault of a character that was not read to its end. -/
def Pending.fault (p : Pending) (cause : Malformation) : Undecodable :=
  ⟨codec, p.position, p.lead, p.tail, cause⟩

/-- Reads bytes, the next of them at `position` and within the character `pending`, if any. -/
def decodeFrom (position : Nat) : (pending : Option Pending) → Bytes → Except Undecodable Text
  | none, [] => .ok []
  | some p, [] => .error (p.fault .unexpectedEnd)
  | none, b :: rest =>
    if b.toNat < 0x80 then
      (decodeFrom (position + 1) none rest).map (Char.ofNat b.toNat :: ·)
    else
      match Pending.ofLead? position b with
      | none => .error ⟨codec, position, b, [], .invalidStart⟩
      | some p => decodeFrom (position + 1) (some p) rest
  | some p, b :: rest =>
    if p.low ≤ b.toNat ∧ b.toNat ≤ p.high then
      let value := p.value * 64 + (b.toNat - 0x80)
      match p.missing with
      | 0 => (decodeFrom (position + 1) none rest).map (Char.ofNat value :: ·)
      | missing + 1 =>
        decodeFrom (position + 1)
          (some ⟨p.position, p.lead, p.tail ++ [b], value, missing, 0x80, 0xBF⟩) rest
    else .error (p.fault .invalidContinuation)

/-- Reads bytes. -/
def decode (bytes : Bytes) : Except Undecodable Text := decodeFrom 0 none bytes

/-! ## 2. Writing -/

/-- The bytes of a character. -/
def encodeChar (c : Char) : Bytes :=
  let n := c.toNat
  if n < 0x80 then [UInt8.ofNat n]
  else if n < 0x800 then [UInt8.ofNat (0xC0 + n / 64), UInt8.ofNat (0x80 + n % 64)]
  else if n < 0x10000 then
    [UInt8.ofNat (0xE0 + n / 4096), UInt8.ofNat (0x80 + n / 64 % 64), UInt8.ofNat (0x80 + n % 64)]
  else
    [UInt8.ofNat (0xF0 + n / 262144), UInt8.ofNat (0x80 + n / 4096 % 64),
      UInt8.ofNat (0x80 + n / 64 % 64), UInt8.ofNat (0x80 + n % 64)]

/-- The bytes of a text. -/
def encode (s : Text) : Bytes := s.flatMap encodeChar

/-! ## 3. The mark at the start of a file -/

/-- The bytes of U+FEFF, with which a file may be marked as UTF-8. -/
def byteOrderMark : Bytes := [0xEF, 0xBB, 0xBF]

/-- Reads bytes behind a mark, if there is one. Positions count from behind the mark, and a file
    that ends within the mark is empty. -/
def decodeMarked (bytes : Bytes) : Except Undecodable Text :=
  if bytes.isPrefixOf byteOrderMark then .ok []
  else if byteOrderMark.isPrefixOf bytes then decode (bytes.drop byteOrderMark.length)
  else decode bytes

/-- Writes a mark and a text. -/
def encodeMarked (s : Text) : Bytes := byteOrderMark ++ encode s

example : byteOrderMark = encodeChar (Char.ofNat 0xFEFF) := by decide

end MediaCascade.Utf8
