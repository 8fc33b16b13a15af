import MediaCascade.Encoding.Fault

/-!
# UTF-16

A character is one unit of 16 bits, or a high and a low surrogate. The two bytes of a unit stand in
one of two orders.

* `Utf16.decode` reads units in a given order.
* `Utf16.decodeMarked` reads the order from a mark at the start of the file. Without a mark the
  bytes are read as little-endian, for their faults only: a text that has no mark is refused.
* `Utf16.encode` writes units in a given order; `Utf16.encodeMarked` writes a mark and
  little-endian units.
-/

namespace MediaCascade.Utf16

/-- The order of the two bytes of a unit. -/
inductive Endian where
  | little
  | big
  deriving DecidableEq, Repr

namespace Endian

/-- The name of the encoding in its faults. -/
def codec : Endian → Text
  | .little => "utf-16-le".toList
  | .big => "utf-16-be".toList

/-- The unit of two bytes. -/
def toUnit (e : Endian) (first second : UInt8) : Nat :=
  match e with
  | .little => first.toNat + 256 * second.toNat
  | .big => 256 * first.toNat + second.toNat

/-- The two bytes of a unit. -/
def ofUnit (e : Endian) (unit : Nat) : Bytes :=
  match e with
  | .little => [UInt8.ofNat (unit % 256), UInt8.ofNat (unit / 256)]
  | .big => [UInt8.ofNat (unit / 256), UInt8.ofNat (unit % 256)]

end Endian

/-! ## 1. Reading -/

/-- A high surrogate that was read: its place, its bytes and its unit. -/
structure High where
  position : Nat
  first : UInt8
  second : UInt8
  unit : Nat
  deriving DecidableEq, Repr

/-- The character of a high and a low surrogate. -/
def combine (high low : Nat) : Char :=
  Char.ofNat (0x10000 + (high - 0xD800) * 1024 + (low - 0xDC00))

/-- Reads bytes, the next of them at `position` and behind the high surrogate `pending`, if any. -/
def decodeFrom (e : Endian) (position : Nat) : (pending : Option High) → Bytes →
    Except Undecodable Text
  | none, [] => .ok []
  | none, [b] => .error ⟨e.codec, position, b, [], .truncated⟩
  | some h, [] => .error ⟨e.codec, h.position, h.first, [h.second], .unexpectedEnd⟩
  | some h, [b] => .error ⟨e.codec, h.position, h.first, [h.second, b], .unexpectedEnd⟩
  | none, a :: b :: rest =>
    let unit := e.toUnit a b
    if unit < 0xD800 ∨ 0xDFFF < unit then
      (decodeFrom e (position + 2) none rest).map (Char.ofNat unit :: ·)
    else if unit < 0xDC00 then decodeFrom e (position + 2) (some ⟨position, a, b, unit⟩) rest
    else .error ⟨e.codec, position, a, [b], .loneLowSurrogate⟩
  | some h, a :: b :: rest =>
    let unit := e.toUnit a b
    if 0xDC00 ≤ unit ∧ unit ≤ 0xDFFF then
      (decodeFrom e (position + 2) none rest).map (combine h.unit unit :: ·)
    else .error ⟨e.codec, h.position, h.first, [h.second], .loneHighSurrogate⟩

/-- Reads bytes in a given order. A mark is an ordinary character. -/
def decode (e : Endian) (bytes : Bytes) : Except Undecodable Text := decodeFrom e 0 none bytes

/-- The unit that marks the byte order. -/
def byteOrderMark : Nat := 0xFEFF

/-- Reads bytes in the order that the mark at their start shows. An empty file needs no mark. -/
def decodeMarked (bytes : Bytes) : Except DecodeFault Text :=
  match bytes with
  | [] => .ok []
  | 0xFF :: 0xFE :: rest => (decodeFrom .little 2 none rest).mapError .undecodable
  | 0xFE :: 0xFF :: rest => (decodeFrom .big 2 none rest).mapError .undecodable
  | _ =>
    match decode .little bytes with
    | .error fault => .error (.undecodable fault)
    | .ok _ => .error .unmarked

/-! ## 2. Writing -/

/-- The units of a character. -/
def units (c : Char) : List Nat :=
  let n := c.toNat
  if n < 0x10000 then [n]
  else [0xD800 + (n - 0x10000) / 1024, 0xDC00 + (n - 0x10000) % 1024]

/-- The bytes of a text in a given order. -/
def encode (e : Endian) (s : Text) : Bytes := (s.flatMap units).flatMap e.ofUnit

/-- Writes a mark and a text, little-endian. -/
def encodeMarked (s : Text) : Bytes := Endian.ofUnit .little byteOrderMark ++ encode .little s

end MediaCascade.Utf16
