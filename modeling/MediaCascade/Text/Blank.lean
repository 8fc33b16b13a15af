import MediaCascade.Text.Basic

/-!
# Blank characters and trimming

A blank is a character of Unicode's white space, or one of the four information separators
U+001C to U+001F; these are 29 characters in all. The zero-width characters (U+200B, U+FEFF,
U+180E) are not blank.

* `Text.trim` removes blanks at both ends, `Text.trimEnd` at the end only.
* `Text.IsTrimmed` says that a text has no blank at either end.
-/

namespace MediaCascade

/-- The ranges of blank code points, ends included, in ascending order. -/
def blankRanges : List (Nat × Nat) :=
  [(0x09, 0x0D), (0x1C, 0x20), (0x85, 0x85), (0xA0, 0xA0), (0x1680, 0x1680), (0x2000, 0x200A),
   (0x2028, 0x2029), (0x202F, 0x202F), (0x205F, 0x205F), (0x3000, 0x3000)]

/-- Whether a character is blank. -/
def isBlank (c : Char) : Bool :=
  blankRanges.any fun range => range.1 ≤ c.toNat && c.toNat ≤ range.2

/-- The ranges hold 29 code points. -/
example : (blankRanges.map fun range => range.2 + 1 - range.1).sum = 29 := by decide

namespace Text

/-! ## 1. Trimming -/

/-- The text without the blanks at its start. -/
def trimStart (s : Text) : Text := s.dropWhile isBlank

/-- The text without the blanks at its end. -/
def trimEnd (s : Text) : Text := (s.reverse.dropWhile isBlank).reverse

/-- The text without the blanks at its two ends. -/
def trim (s : Text) : Text := trimEnd (trimStart s)

/-! ## 2. Trimmed texts -/

/-- A text that has no blank at its start and none at its end. -/
def IsTrimmed (s : Text) : Prop :=
  (∀ c ∈ s.head?, isBlank c = false) ∧ (∀ c ∈ s.getLast?, isBlank c = false)

instance (s : Text) : Decidable (IsTrimmed s) :=
  decidable_of_iff
    ((s.head?.all fun c => !isBlank c) = true ∧ (s.getLast?.all fun c => !isBlank c) = true)
    (by simp [IsTrimmed, Option.all_eq_true])

/-- Trimming the start leaves a suffix. -/
theorem trimStart_suffix_self (s : Text) : trimStart s <:+ s := List.dropWhile_suffix _

/-- Trimming the end leaves a prefix. -/
theorem trimEnd_prefix_self (s : Text) : trimEnd s <+: s := by
  have h := List.dropWhile_suffix (l := s.reverse) isBlank
  rw [← List.reverse_prefix, List.reverse_reverse] at h
  exact h

/-- **What is left of a trimmed text is a part of it.** -/
theorem trim_isInfix (s : Text) : trim s <:+: s :=
  (trimEnd_prefix_self _).isInfix.trans (trimStart_suffix_self s).isInfix

/-- Dropping blanks leaves nothing of a text that is blank throughout. -/
theorem trimStart_eq_nil_iff (s : Text) : trimStart s = [] ↔ ∀ c ∈ s, isBlank c = true := by
  induction s with
  | nil => simp [trimStart]
  | cons c rest ih =>
    rw [trimStart, List.dropWhile_cons]
    by_cases hc : isBlank c = true
    · rw [if_pos hc, ← trimStart, ih, List.forall_mem_cons]
      exact ⟨fun h => ⟨hc, h⟩, fun h => h.2⟩
    · rw [if_neg hc, List.forall_mem_cons]
      exact ⟨fun h => absurd h (List.cons_ne_nil _ _), fun h => absurd h.1 hc⟩

theorem trimEnd_eq_nil_iff (s : Text) : trimEnd s = [] ↔ ∀ c ∈ s, isBlank c = true := by
  have h := trimStart_eq_nil_iff s.reverse
  rw [trimEnd, List.reverse_eq_nil_iff]
  exact h.trans ⟨fun h' c hc => h' c (List.mem_reverse.2 hc),
    fun h' c hc => h' c (List.mem_reverse.1 hc)⟩

/-- **Trimming leaves nothing exactly of the texts that are blank throughout.** -/
theorem trim_eq_nil_iff (s : Text) : trim s = [] ↔ ∀ c ∈ s, isBlank c = true := by
  rw [trim, trimEnd_eq_nil_iff]
  constructor
  · intro h
    refine (trimStart_eq_nil_iff s).1 ?_
    cases hs : trimStart s with
    | nil => rfl
    | cons c rest =>
      have hc : isBlank c = false := by
        have := List.head?_dropWhile_not isBlank s
        rw [show s.dropWhile isBlank = c :: rest from hs] at this
        simpa using this
      have := h c (by rw [hs]; simp)
      simp [hc] at this
  · intro h c hc
    exact h c ((trimStart_suffix_self s).subset hc)

end Text

end MediaCascade
