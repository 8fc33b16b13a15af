import MediaCascade.Text.Basic

/-!
# Control sequences

A control sequence is a command to a terminal within a text: the escape character U+001B and `[`,
then parameter characters (U+0030 to U+003F), then intermediate characters (U+0020 to U+002F), and
one final character (U+0040 to U+007E). Any number of the two middle kinds will do, also none.

* `Text.afterControlSequence?` reads the control sequence that a text starts with.
* `Text.plain` leaves out all control sequences, from left to right. What comes together where one
  was left out is not read again.

The program itself removes nothing from what it prints. The command-line library that it prints with
does, where the output is not a terminal; the library is not among the sources of the program, and
`plain` follows what the library is known to do.

Main statements: `plain` only leaves out characters (`plain_sublist`), and none of a text without
escape characters (`plain_eq_self`).
-/

namespace MediaCascade.Text

/-! ## 1. One control sequence -/

/-- The escape character. -/
def escapeCharacter : Char := '\x1b'

/-- Whether a character is a parameter of a control sequence. -/
def isParameter (c : Char) : Bool := decide (0x30 ≤ c.toNat) && decide (c.toNat ≤ 0x3F)

/-- Whether a character stands between the parameters and the end of a control sequence. -/
def isIntermediate (c : Char) : Bool := decide (0x20 ≤ c.toNat) && decide (c.toNat ≤ 0x2F)

/-- Whether a character ends a control sequence. -/
def isFinal (c : Char) : Bool := decide (0x40 ≤ c.toNat) && decide (c.toNat ≤ 0x7E)

/-- The text behind the control sequence that a text starts with. -/
def afterControlSequence? : Text → Option Text
  | escape :: '[' :: rest =>
    if escape = escapeCharacter then
      match (rest.dropWhile isParameter).dropWhile isIntermediate with
      | [] => none
      | c :: after => if isFinal c then some after else none
    else none
  | _ => none

/-- What is left behind a control sequence is the end of the text, without its first character. -/
theorem suffix_of_afterControlSequence? {c : Char} {rest after : Text}
    (h : afterControlSequence? (c :: rest) = some after) : after <:+ rest := by
  unfold afterControlSequence? at h
  split at h
  · next escape tail heq =>
    cases heq
    split at h
    · split at h
      · cases h
      · next last behind hd =>
        split at h
        · cases h
          have h₁ : last :: after <:+ tail := by
            rw [← hd]
            exact (List.dropWhile_suffix _).trans (List.dropWhile_suffix _)
          exact ((List.suffix_cons _ _).trans h₁).trans (List.suffix_cons _ _)
        · cases h
    · cases h
  · cases h

theorem length_le_of_afterControlSequence? {c : Char} {rest after : Text}
    (h : afterControlSequence? (c :: rest) = some after) : after.length ≤ rest.length :=
  (suffix_of_afterControlSequence? h).length_le

/-! ## 2. All control sequences -/

/-- The text without its control sequences. -/
def plain (s : Text) : Text :=
  match s with
  | [] => []
  | c :: rest =>
    match h : afterControlSequence? (c :: rest) with
    | some after =>
      have := length_le_of_afterControlSequence? h
      plain after
    | none => c :: plain rest
termination_by s.length

@[simp] theorem plain_nil : plain [] = [] := by
  rw [plain]

theorem plain_of_some {c : Char} {rest after : Text}
    (h : afterControlSequence? (c :: rest) = some after) : plain (c :: rest) = plain after := by
  rw [plain]
  split
  · next h' => rw [h] at h'; cases h'; rfl
  · next h' => rw [h] at h'; cases h'

theorem plain_of_none {c : Char} {rest : Text} (h : afterControlSequence? (c :: rest) = none) :
    plain (c :: rest) = c :: plain rest := by
  rw [plain]
  split
  · next h' => rw [h] at h'; cases h'
  · rfl

/-- **Nothing is added and nothing moves**: characters are only left out. -/
theorem plain_sublist (s : Text) : List.Sublist (plain s) s := by
  induction hn : s.length using Nat.strongRecOn generalizing s with
  | ind n ih =>
    cases s with
    | nil => simp
    | cons c rest =>
      cases h : afterControlSequence? (c :: rest) with
      | some after =>
        have hlt : after.length < n := by
          have hle := length_le_of_afterControlSequence? h
          rw [List.length_cons] at hn
          omega
        rw [plain_of_some h]
        exact (ih after.length hlt after rfl).trans
          ((suffix_of_afterControlSequence? h).sublist.trans (List.sublist_cons_self _ _))
      | none =>
        rw [plain_of_none h]
        have hlt : rest.length < n := by
          rw [List.length_cons] at hn
          omega
        exact (ih rest.length hlt rest rfl).cons_cons c

theorem afterControlSequence?_eq_none {c : Char} (hc : c ≠ escapeCharacter) (rest : Text) :
    afterControlSequence? (c :: rest) = none := by
  unfold afterControlSequence?
  split
  · next escape tail heq =>
    cases heq
    rw [if_neg hc]
  · rfl

/-- **A text without escape characters stays as it is.** -/
theorem plain_eq_self {s : Text} (h : escapeCharacter ∉ s) : plain s = s := by
  induction s with
  | nil => exact plain_nil
  | cons c rest ih =>
    have hc : c ≠ escapeCharacter := fun e => h (by simp [e])
    rw [plain_of_none (afterControlSequence?_eq_none hc rest), ih fun hm => h (by simp [hm])]

example : plain ['\x1b', '[', '1', ';', '3', 'm', 'x', '\x1b', '[', 'm'] = ['x'] := by
  decide +kernel

example : plain ['\x1b', '[', '\x1b', '[', '0', 'm', '0', 'm'] = ['\x1b', '[', '0', 'm'] := by
  decide +kernel

end MediaCascade.Text
