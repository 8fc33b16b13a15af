import MediaCascade.Text.Quoted

/-!
# Faults of encoded text

Bytes that are no text in an encoding, and characters that an encoding cannot write. Each fault
names the encoding, the place and the cause.
-/

namespace MediaCascade

/-- The content of a file. -/
abbrev Bytes := List UInt8

/-! ## 1. Reading -/

/-- Why bytes are no text. -/
inductive Malformation where
  /-- A byte beyond the characters of the encoding. -/
  | outOfRange
  /-- A byte that starts no character. -/
  | invalidStart
  /-- A byte that does not go on with the character before it. -/
  | invalidContinuation
  /-- The bytes end within a character. -/
  | unexpectedEnd
  /-- The bytes end within a 16-bit unit. -/
  | truncated
  /-- A low surrogate without a high one before it. -/
  | loneLowSurrogate
  /-- A high surrogate without a low one behind it. -/
  | loneHighSurrogate
  deriving DecidableEq, Repr

/-- The cause in words. -/
def Malformation.message : Malformation → Text
  | .outOfRange => "ordinal not in range(128)".toList
  | .invalidStart => "invalid start byte".toList
  | .invalidContinuation => "invalid continuation byte".toList
  | .unexpectedEnd => "unexpected end of data".toList
  | .truncated => "truncated data".toList
  | .loneLowSurrogate => "illegal encoding".toList
  | .loneHighSurrogate => "illegal UTF-16 surrogate".toList

/-- Bytes that cannot be read: where they start, and the bytes, of which there is at least one. -/
structure Undecodable where
  codec : Text
  position : Nat
  first : UInt8
  others : Bytes
  cause : Malformation
  deriving DecidableEq, Repr

/-- A place in a text or file: one position, or the first and the last of several. -/
def positionText (position count : Nat) : Text :=
  if count ≤ 1 then Text.ofNat position
  else Text.ofNat position ++ '-' :: Text.ofNat (position + count - 1)

/-- The fault in words. -/
def Undecodable.message (e : Undecodable) : Text :=
  '\'' :: e.codec ++ "' codec can't decode ".toList ++
    (if e.others.isEmpty then "byte 0x".toList ++ Text.hexDigits 2 e.first.toNat
      else "bytes".toList) ++
    " in position ".toList ++ positionText e.position (e.others.length + 1) ++
    ": ".toList ++ e.cause.message

/-- Why a file is no text. -/
inductive DecodeFault where
  | undecodable (fault : Undecodable)
  /-- The bytes are text, but lack the mark that shows their order. -/
  | unmarked
  deriving DecidableEq, Repr

/-- The fault in words. -/
def DecodeFault.message : DecodeFault → Text
  | .undecodable fault => fault.message
  | .unmarked => "UTF-16 stream does not start with BOM".toList

/-! ## 2. Writing -/

/-- A run of characters that cannot be written: where it starts, its first character and length,
    and the number of characters that the encoding has. -/
structure Unencodable where
  codec : Text
  position : Nat
  first : Char
  count : Nat
  limit : Nat
  deriving DecidableEq, Repr

/-- The fault in words. -/
def Unencodable.message (e : Unencodable) : Text :=
  '\'' :: e.codec ++ "' codec can't encode ".toList ++
    (if e.count ≤ 1 then "character '".toList ++ Text.codePointEscape e.first ++ ['\'']
      else "characters".toList) ++
    " in position ".toList ++ positionText e.position e.count ++
    ": ordinal not in range(".toList ++ Text.ofNat e.limit ++ ")".toList

end MediaCascade
