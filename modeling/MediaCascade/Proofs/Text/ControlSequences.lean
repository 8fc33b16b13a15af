import MediaCascade.Text.ControlSequence

/-!
# Where leaving out control sequences shows

`Text.plain` changes a text exactly if it has a control sequence somewhere
(`Text.plain_eq_self_iff`). The first one that is left out makes the text shorter, and nothing that
is left out later makes up for it.

What stands in front without an escape character stays as it is (`Text.plain_append`); so do the
fixed words and the numbers of a message.
-/

namespace MediaCascade.Text

/-- A control sequence starts somewhere in the text. -/
def HasControlSequence (s : Text) : Prop :=
  ∃ tail, tail <:+ s ∧ (afterControlSequence? tail).isSome = true

/-- A text with a control sequence loses characters. -/
theorem HasControlSequence.length_plain_lt {s : Text} (h : HasControlSequence s) :
    (plain s).length < s.length := by
  obtain ⟨tail, hsuffix, htail⟩ := h
  induction s with
  | nil =>
    rw [List.suffix_nil.mp hsuffix] at htail
    cases htail
  | cons c rest ih =>
    cases hhere : afterControlSequence? (c :: rest) with
    | some after =>
      have hplain := (plain_sublist after).length_le
      have hafter := length_le_of_afterControlSequence? hhere
      rw [plain_of_some hhere, List.length_cons]
      omega
    | none =>
      rw [plain_of_none hhere, List.length_cons, List.length_cons]
      rcases List.suffix_cons_iff.mp hsuffix with rfl | hrest
      · rw [hhere] at htail
        cases htail
      · exact Nat.add_lt_add_right (ih hrest) 1

/-- **Leaving out control sequences changes a text exactly if it has one.** -/
theorem plain_eq_self_iff (s : Text) : plain s = s ↔ ¬HasControlSequence s := by
  constructor
  · intro h hsequence
    have hlt := hsequence.length_plain_lt
    rw [h] at hlt
    exact Nat.lt_irrefl _ hlt
  · intro h
    induction s with
    | nil => exact plain_nil
    | cons c rest ih =>
      have hhere : afterControlSequence? (c :: rest) = none := by
        rw [← Option.not_isSome_iff_eq_none]
        exact fun hsome => h ⟨c :: rest, List.suffix_rfl, hsome⟩
      have hrest : ¬HasControlSequence rest := fun ⟨tail, hsuffix, htail⟩ =>
        h ⟨tail, hsuffix.trans (List.suffix_cons c rest), htail⟩
      rw [plain_of_none hhere, ih hrest]

/-- What stands in front without an escape character stays. -/
theorem plain_append {front : Text} (h : escapeCharacter ∉ front) (s : Text) :
    plain (front ++ s) = front ++ plain s := by
  induction front with
  | nil => rfl
  | cons c rest ih =>
    rw [List.mem_cons, not_or] at h
    rw [List.cons_append, plain_of_none (afterControlSequence?_eq_none (Ne.symm h.1) _), ih h.2,
      List.cons_append]

/-- A number has no escape character. -/
theorem escape_not_mem_ofNat (n : Nat) : escapeCharacter ∉ ofNat n := by
  intro h
  have hdigit := Nat.isDigit_of_mem_toDigits (by decide) (by decide) h
  exact absurd hdigit (by decide)

end MediaCascade.Text
