import MediaCascade.Encoding.SingleByte
import MediaCascade.Encoding.Utf16
import MediaCascade.Encoding.Utf8

/-!
# Encodings by name

The encodings in which style sheets are read and written.

* `Encoding.ofName?` finds an encoding by one of its names, without regard to case.
* `Encoding.decode` and `Encoding.encode` read and write a text.
* A file is read with every line ending in a line feed (`Text.unifyLineEnds`); writing leaves line
  ends as they are.
-/

namespace MediaCascade

/-- An encoding of text. -/
inductive Encoding where
  | utf8
  /-- UTF-8 with a mark at the start of the file. -/
  | utf8Marked
  | latin1
  | ascii
  /-- UTF-16 in the byte order that a mark at the start of the file shows. -/
  | utf16Marked
  | utf16 (order : Utf16.Endian)
  deriving DecidableEq, Repr

namespace Encoding

/-! ## 1. Names -/

/-- The first name of each encoding, in lower case and with `_` for each run of other signs. -/
def names : List (String × Encoding) :=
  [("utf_8", .utf8), ("utf_8_sig", .utf8Marked), ("latin_1", .latin1), ("ascii", .ascii),
   ("utf_16", .utf16Marked), ("utf_16_le", .utf16 .little), ("utf_16_be", .utf16 .big)]

/-- Other names, written in the same way. -/
def otherNames : List (String × Encoding) :=
  [("u8", .utf8), ("utf", .utf8), ("utf8", .utf8), ("utf8_ucs2", .utf8), ("utf8_ucs4", .utf8),
   ("cp65001", .utf8), ("8859", .latin1), ("cp819", .latin1), ("csisolatin1", .latin1),
   ("ibm819", .latin1), ("iso8859", .latin1), ("iso8859_1", .latin1), ("iso_8859_1", .latin1),
   ("iso_8859_1_1987", .latin1), ("iso_ir_100", .latin1), ("l1", .latin1), ("latin", .latin1),
   ("latin1", .latin1), ("646", .ascii), ("ansi_x3.4_1968", .ascii), ("ansi_x3_4_1968", .ascii),
   ("ansi_x3.4_1986", .ascii), ("cp367", .ascii), ("csascii", .ascii), ("ibm367", .ascii),
   ("iso646_us", .ascii), ("iso_646.irv_1991", .ascii), ("iso_ir_6", .ascii), ("us", .ascii),
   ("us_ascii", .ascii), ("u16", .utf16Marked), ("utf16", .utf16Marked),
   ("unicodelittleunmarked", .utf16 .little), ("utf_16le", .utf16 .little),
   ("unicodebigunmarked", .utf16 .big), ("utf_16be", .utf16 .big)]

/-- Whether a character stands in a name as it is: a letter or a digit of ASCII, or a point. -/
def isNameChar (c : Char) : Bool := c.isAlphanum || c == '.'

/-- A name in lower case, with `_` for each run of other signs within it and nothing for those at
    its ends. -/
def normalizeName (name : Text) : Text :=
  Text.joinWith ['_']
    ((name.splitOnP fun c => !isNameChar c).filter (fun part => !part.isEmpty) |>.map
      fun part => part.map Char.toLower)

/-- The encoding of a name. A point in one of the other names may stand for `_`. -/
def ofName? (name : Text) : Option Encoding :=
  let given := normalizeName name
  let pointless := given.map fun c => if c = '.' then '_' else c
  ((names ++ otherNames).lookup (String.ofList given)).or
    (otherNames.lookup (String.ofList pointless))

example : ofName? ['U', 'T', 'F', '8'] = some .utf8 := by decide +kernel

example : ofName? ['I', 'S', 'O', '-', '8', '8', '5', '9', '-', '1'] = some .latin1 := by
  decide +kernel

/-! ## 2. Reading and writing -/

/-- Reads bytes. -/
def decode (e : Encoding) (bytes : Bytes) : Except DecodeFault Text :=
  match e with
  | .utf8 => (Utf8.decode bytes).mapError .undecodable
  | .utf8Marked => (Utf8.decodeMarked bytes).mapError .undecodable
  | .latin1 => (SingleByte.decode "latin-1".toList 256 0 bytes).mapError .undecodable
  | .ascii => (SingleByte.decode "ascii".toList 128 0 bytes).mapError .undecodable
  | .utf16Marked => Utf16.decodeMarked bytes
  | .utf16 order => (Utf16.decode order bytes).mapError .undecodable

/-- Writes a text. -/
def encode (e : Encoding) (s : Text) : Except Unencodable Bytes :=
  match e with
  | .utf8 => .ok (Utf8.encode s)
  | .utf8Marked => .ok (Utf8.encodeMarked s)
  | .latin1 => SingleByte.encode "latin-1".toList 256 s
  | .ascii => SingleByte.encode "ascii".toList 128 s
  | .utf16Marked => .ok (Utf16.encodeMarked s)
  | .utf16 order => .ok (Utf16.encode order s)

end Encoding

/-- A text whose lines end in a line feed each, where they ended in a carriage return, a line feed,
    or one behind the other. -/
def Text.unifyLineEnds : Text → Text
  | [] => []
  | '\r' :: '\n' :: rest => '\n' :: unifyLineEnds rest
  | c :: rest => (if c = '\r' then '\n' else c) :: unifyLineEnds rest

/-- No carriage return is left. -/
theorem Text.not_mem_unifyLineEnds (s : Text) : '\r' ∉ Text.unifyLineEnds s := by
  fun_induction Text.unifyLineEnds s with
  | case1 => simp
  | case2 rest ih => simpa using ih
  | case3 c rest _ ih =>
    simp only [List.mem_cons, not_or]
    refine ⟨?_, ih⟩
    split
    · decide
    · next h => exact fun e => h e.symm

end MediaCascade
