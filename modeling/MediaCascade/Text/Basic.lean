/-!
# Text as lists of characters

All reading and writing of style sheets in this library is on lists of characters, so that every
rule about a text is a rule about a list: a part of a text is an infix (`<:+:`), cutting at a
character is `List.splitOn`, and lengths, positions and counts are in characters.

* `Text.breakOn` cuts a text before the first occurrence of a keyword.
* `Text.joinWith` writes a separator between the parts of a list.
* `Text.ofNat` writes a number in decimal digits.

What is NOT here: trimming (`MediaCascade.Text.Blank`) and quoting (`MediaCascade.Text.Quoted`).
-/

namespace MediaCascade

/-- A text: a list of characters. -/
abbrev Text := List Char

namespace Text

/-! ## 1. Cutting before a keyword -/

/-- The text before the first occurrence of `needle`, and the text from that occurrence on.
    Where `needle` does not occur, everything is before it. -/
def breakOn (needle : Text) : Text → Text × Text
  | [] => ([], [])
  | c :: rest =>
    if needle.isPrefixOf (c :: rest) then ([], c :: rest)
    else
      let later := breakOn needle rest
      (c :: later.1, later.2)

/-- **Nothing is lost**: the two parts make up the text. -/
@[simp] theorem breakOn_append (needle s : Text) :
    (breakOn needle s).1 ++ (breakOn needle s).2 = s := by
  induction s with
  | nil => rfl
  | cons c rest ih =>
    unfold breakOn
    split
    · rfl
    · simp [ih]

/-- The second part is empty or starts with the keyword. -/
theorem breakOn_snd (needle s : Text) :
    (breakOn needle s).2 = [] ∨ needle <+: (breakOn needle s).2 := by
  induction s with
  | nil => exact .inl rfl
  | cons c rest ih =>
    unfold breakOn
    split
    · exact .inr (List.isPrefixOf_iff_prefix.1 ‹_›)
    · exact ih

/-! ## 2. Joining -/

/-- The parts one after the other, with `separator` between neighbours. -/
def joinWith (separator : Text) (parts : List Text) : Text :=
  separator.intercalate parts

@[simp] theorem joinWith_nil (separator : Text) : joinWith separator [] = [] := rfl

@[simp] theorem joinWith_singleton (separator part : Text) : joinWith separator [part] = part := by
  simp [joinWith]

@[simp] theorem joinWith_cons_cons (separator p q : Text) (rest : List Text) :
    joinWith separator (p :: q :: rest) = p ++ separator ++ joinWith separator (q :: rest) := by
  simp [joinWith, List.intercalate_cons_cons]

/-! ## 3. Numbers -/

/-- A number in decimal digits. -/
def ofNat (n : Nat) : Text := Nat.toDigits 10 n

end Text

end MediaCascade
