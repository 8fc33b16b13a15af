import MediaCascade.Text.Basic
import MediaCascade.Text.Printable

/-!
# Quoted texts

A quoted text stands between two equal quotation marks, on one line, in printable characters only.

* The mark is `'`, or `"` for a text that has a `'` and no `"` (`Text.quoteMark`).
* The mark and the backslash are written with a backslash before them; tab, line feed and carriage
  return as a backslash and a letter (`Text.escape`).
* Any other character that is not printable is written by its code point, in two, four or eight
  hexadecimal digits, whichever is the least that holds it (`Text.codePointEscape`).
-/

namespace MediaCascade.Text

/-! ## 1. Code points -/

/-- A hexadecimal digit, in lower case. -/
def hexDigit (n : Nat) : Char :=
  if n < 10 then Char.ofNat (0x30 + n) else Char.ofNat (0x61 + (n - 10))

/-- The lowest `digits` hexadecimal digits of a number, highest digit first. -/
def hexDigits : (digits : Nat) → Nat → Text
  | 0, _ => []
  | digits + 1, n => hexDigits digits (n / 16) ++ [hexDigit (n % 16)]

/-- A character written by its code point. -/
def codePointEscape (c : Char) : Text :=
  if c.toNat < 0x100 then '\\' :: 'x' :: hexDigits 2 c.toNat
  else if c.toNat < 0x10000 then '\\' :: 'u' :: hexDigits 4 c.toNat
  else '\\' :: 'U' :: hexDigits 8 c.toNat

/-! ## 2. Quoting -/

/-- The quotation mark a text is quoted with. -/
def quoteMark (s : Text) : Char :=
  if s.contains '\'' && !s.contains '"' then '"' else '\''

/-- How a character is written between two quotation marks. -/
def escape (mark c : Char) : Text :=
  if c = mark ∨ c = '\\' then ['\\', c]
  else if c = '\t' then ['\\', 't']
  else if c = '\n' then ['\\', 'n']
  else if c = '\r' then ['\\', 'r']
  else if isPrintable c then [c]
  else codePointEscape c

/-- A text in quotation marks. -/
def quoted (s : Text) : Text :=
  quoteMark s :: s.flatMap (escape (quoteMark s)) ++ [quoteMark s]

example : quoted ['a', '\'', 'b'] = ['"', 'a', '\'', 'b', '"'] := by decide +kernel

example : quoted ['\'', '"'] = ['\'', '\\', '\'', '"', '\''] := by decide +kernel

example : quoted [Char.ofNat 0xA0, '\n'] = ['\'', '\\', 'x', 'a', '0', '\\', 'n', '\''] := by
  decide +kernel

end MediaCascade.Text
