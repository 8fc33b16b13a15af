import MediaCascade.Text.Blank

/-!
# What trimming takes away

Trimming takes blanks off the two ends and nothing else.

* A trimmed text stays as it is (`Text.trim_of_isTrimmed`), and what trimming leaves is trimmed
  (`Text.isTrimmed_trim`).
* Blanks put before or behind a text do not change what trimming leaves (`Text.trim_pad`).
-/

namespace MediaCascade.Text

/-- A text that has blanks only; a reader skips it without a word. -/
def Blank (s : Text) : Prop := ∀ c ∈ s, isBlank c = true

instance (s : Text) : Decidable (Blank s) := List.decidableBAll (fun c => isBlank c = true) s

theorem blank_nil : Blank [] := fun _ h => absurd h List.not_mem_nil

theorem Blank.append {s t : Text} (hs : Blank s) (ht : Blank t) : Blank (s ++ t) := by
  intro c hc
  rcases List.mem_append.mp hc with h | h
  · exact hs c h
  · exact ht c h

/-- A character that is not blank does not stand in a blank text. -/
theorem Blank.not_mem {s : Text} (hs : Blank s) {c : Char} (hc : isBlank c = false) : c ∉ s := by
  intro h
  rw [hs c h] at hc
  cases hc

/-! ## 1. Trimming at one end -/

theorem trimStart_append_of_blank {b : Text} (hb : Blank b) (s : Text) :
    trimStart (b ++ s) = trimStart s := by
  induction b with
  | nil => rfl
  | cons c rest ih =>
    have hc : isBlank c = true := hb c List.mem_cons_self
    have hrest : Blank rest := fun x hx => hb x (List.mem_cons_of_mem _ hx)
    rw [List.cons_append, trimStart, List.dropWhile_cons_of_pos hc]
    exact ih hrest

/-- Dropping blanks stops at a character that is not blank. -/
theorem trimStart_append_cons {c : Char} (hc : isBlank c = false) (s r : Text) :
    trimStart (s ++ c :: r) = trimStart s ++ c :: r := by
  induction s with
  | nil =>
    show List.dropWhile isBlank (c :: r) = _
    rw [List.dropWhile_cons_of_neg (by simp [hc])]
    rfl
  | cons x rest ih =>
    by_cases hx : isBlank x = true
    · rw [List.cons_append, trimStart, List.dropWhile_cons_of_pos hx, trimStart,
        List.dropWhile_cons_of_pos hx]
      exact ih
    · rw [List.cons_append, trimStart, List.dropWhile_cons_of_neg hx, trimStart,
        List.dropWhile_cons_of_neg hx]
      rfl

/-- Trimming the end is trimming the start, read backwards. -/
theorem trimEnd_eq_reverse (s : Text) : trimEnd s = (trimStart s.reverse).reverse := rfl

theorem trimEnd_append_of_blank {b : Text} (hb : Blank b) (s : Text) :
    trimEnd (s ++ b) = trimEnd s := by
  have hr : Blank b.reverse := fun c hc => hb c (List.mem_reverse.mp hc)
  rw [trimEnd_eq_reverse, List.reverse_append, trimStart_append_of_blank hr]
  rfl

theorem trimEnd_append_cons {c : Char} (hc : isBlank c = false) (s r : Text) :
    trimEnd (s ++ c :: r) = s ++ c :: trimEnd r := by
  have hr : (s ++ c :: r).reverse = r.reverse ++ c :: s.reverse := by simp
  rw [trimEnd_eq_reverse, hr, trimStart_append_cons hc, List.reverse_append, List.reverse_cons,
    List.reverse_reverse, List.append_assoc]
  rfl

theorem trimStart_of_head {s : Text} (h : ∀ c ∈ s.head?, isBlank c = false) :
    trimStart s = s := by
  cases s with
  | nil => rfl
  | cons c rest =>
    have hc : isBlank c = false := h c rfl
    exact List.dropWhile_cons_of_neg (by simp [hc])

theorem trimEnd_of_getLast {s : Text} (h : ∀ c ∈ s.getLast?, isBlank c = false) :
    trimEnd s = s := by
  have hr : ∀ c ∈ s.reverse.head?, isBlank c = false := by
    rw [List.head?_reverse]
    exact h
  rw [trimEnd_eq_reverse, trimStart_of_head hr, List.reverse_reverse]

/-- What is left of a text that is trimmed at the start begins with no blank. -/
theorem head_trimStart (s : Text) : ∀ c ∈ (trimStart s).head?, isBlank c = false := by
  intro c hc
  have h := List.head?_dropWhile_not isBlank s
  rw [show (s.dropWhile isBlank).head? = some c from hc] at h
  simpa using h

theorem getLast_trimEnd (s : Text) : ∀ c ∈ (trimEnd s).getLast?, isBlank c = false := by
  intro c hc
  rw [trimEnd_eq_reverse, List.getLast?_reverse] at hc
  exact head_trimStart _ c hc

/-! ## 2. Trimming at both ends -/

/-- **A trimmed text stays as it is.** -/
theorem trim_of_isTrimmed {s : Text} (h : IsTrimmed s) : trim s = s := by
  rw [trim, trimStart_of_head h.1, trimEnd_of_getLast h.2]

/-- The first character of a prefix is the first of the text. -/
theorem head_of_isPrefix {s t : Text} (h : s <+: t) : ∀ c ∈ s.head?, c ∈ t.head? := by
  intro c hc
  obtain ⟨r, rfl⟩ := h
  cases s with
  | nil => cases hc
  | cons x rest => exact hc

/-- **What trimming leaves is trimmed.** -/
theorem isTrimmed_trim (s : Text) : IsTrimmed (trim s) := by
  refine ⟨fun c hc => ?_, getLast_trimEnd _⟩
  exact head_trimStart s c (head_of_isPrefix (trimEnd_prefix_self _) c hc)

theorem trim_append_of_blank_left {b : Text} (hb : Blank b) (s : Text) :
    trim (b ++ s) = trim s := by
  rw [trim, trimStart_append_of_blank hb, trim]

/-- Trimming the start first changes nothing. -/
theorem trim_trimStart (s : Text) : trim (trimStart s) = trim s := by
  rw [trim, trimStart_of_head (head_trimStart s), trim]

theorem trim_eq_nil_of_blank {s : Text} (h : Blank s) : trim s = [] := (trim_eq_nil_iff s).mpr h

theorem trim_append_of_blank_right {b : Text} (hb : Blank b) (s : Text) :
    trim (s ++ b) = trim s := by
  -- a text of blanks only is lost whole; in any other the start is found before `b` is reached
  by_cases hs : Blank s
  · rw [trim_eq_nil_of_blank hs, trim_eq_nil_of_blank (hs.append hb)]
  · have hne : trimStart s ≠ [] := fun h => hs ((trimStart_eq_nil_iff s).mp h)
    have hstart : trimStart (s ++ b) = trimStart s ++ b := by
      rw [trimStart, List.dropWhile_append, if_neg]
      · rfl
      · simpa [trimStart] using hne
    rw [trim, hstart, trimEnd_append_of_blank hb, trim]

/-- **What is trimmed away are blanks at the two ends.** -/
theorem exists_eq_pad_trim (s : Text) :
    ∃ before behind, Blank before ∧ Blank behind ∧ s = before ++ trim s ++ behind := by
  have hstart : ∀ t : Text, ∃ b, Blank b ∧ t = b ++ trimStart t := fun t =>
    ⟨t.takeWhile isBlank, List.all_eq_true.mp List.all_takeWhile,
      List.takeWhile_append_dropWhile.symm⟩
  obtain ⟨before, hb, hs⟩ := hstart s
  obtain ⟨behind, hr, ht⟩ := hstart (trimStart s).reverse
  refine ⟨before, behind.reverse, hb, fun c hc => hr c (List.mem_reverse.mp hc), ?_⟩
  have hend : trimStart s = trim s ++ behind.reverse := by
    rw [trim, trimEnd_eq_reverse, ← List.reverse_append, ← ht, List.reverse_reverse]
  rw [List.append_assoc, ← hend]
  exact hs

/-- Characters that are not blank are kept. -/
theorem mem_trim_iff {c : Char} (hc : isBlank c = false) (s : Text) : c ∈ trim s ↔ c ∈ s := by
  refine ⟨fun h => (trim_isInfix s).subset h, fun h => ?_⟩
  obtain ⟨before, behind, hb, hr, hs⟩ := exists_eq_pad_trim s
  rw [hs] at h
  rcases List.mem_append.mp h with h | h
  · rcases List.mem_append.mp h with h | h
    · exact absurd h (hb.not_mem hc)
    · exact h
  · exact absurd h (hr.not_mem hc)

/-- A character that is not blank, at the end, stops trimming there. -/
theorem trim_append_singleton {c : Char} (hc : isBlank c = false) (s : Text) :
    trim (s ++ [c]) = trimStart s ++ [c] := by
  rw [trim, trimStart_append_cons hc, trimEnd_of_getLast]
  intro d hd
  rw [List.getLast?_concat] at hd
  cases hd
  exact hc

/-- **Blanks before and behind a trimmed text are all that trimming takes.** -/
theorem trim_pad {before s behind : Text} (hb : Blank before) (hs : IsTrimmed s)
    (hr : Blank behind) : trim (before ++ s ++ behind) = s := by
  rw [trim_append_of_blank_right hr, trim_append_of_blank_left hb, trim_of_isTrimmed hs]

end MediaCascade.Text
