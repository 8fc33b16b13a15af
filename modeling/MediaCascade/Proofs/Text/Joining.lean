import MediaCascade.Proofs.Text.Trimming
import Mathlib.Data.List.Flatten

/-!
# Joined parts

What a text that is joined from parts (`Text.joinWith`) has of its parts.

* `joinWith_induction`: a property of all parts that texts keep when they are put together.
* `mem_joinWith_iff`, `forall_mem_joinWith`: its characters.
* `Text.trimStart_joinWith`, `Text.trimEnd_joinWith`: trimming it is trimming its first or last part.
* `joinWith_sublist`: fewer parts make a text with fewer characters.
-/

namespace MediaCascade

/-! ## 1. Part by part -/

theorem joinWith_cons (sep p : Text) (rest : List Text) :
    Text.joinWith sep (p :: rest) = p ++ rest.flatMap fun q => sep ++ q := by
  induction rest generalizing p with
  | nil => rw [Text.joinWith_singleton, List.flatMap_nil, List.append_nil]
  | cons q more ih => rw [Text.joinWith_cons_cons, ih, List.flatMap_cons, List.append_assoc,
      List.append_assoc]

theorem joinWith_cons_of_ne_nil {sep p : Text} {rest : List Text} (hne : rest ≠ []) :
    Text.joinWith sep (p :: rest) = p ++ sep ++ Text.joinWith sep rest := by
  obtain ⟨q, more, rfl⟩ := List.exists_cons_of_ne_nil hne
  exact Text.joinWith_cons_cons sep p q more

/-- The parts of a text that is cut at a character make up the text. -/
theorem joinWith_splitOn (c : Char) (s : Text) : Text.joinWith [c] (s.splitOn c) = s :=
  List.intercalate_splitOn c

/-- What holds of all parts, and is kept when two texts are put together with `c` between them,
    holds of the joined parts. -/
theorem joinWith_induction {P : Text → Prop} {c : Char} (nil : P [])
    (step : ∀ s t, P s → P t → P (s ++ c :: t)) {parts : List Text} (h : ∀ p ∈ parts, P p) :
    P (Text.joinWith [c] parts) := by
  induction parts with
  | nil => exact nil
  | cons p rest ih =>
    have hrest := ih fun q hq => h q (List.mem_cons_of_mem _ hq)
    cases rest with
    | nil =>
      rw [Text.joinWith_singleton]
      exact h p List.mem_cons_self
    | cons q more =>
      rw [Text.joinWith_cons_cons, List.append_assoc]
      exact step p _ (h p List.mem_cons_self) hrest

/-! ## 2. Characters -/

/-- The characters of the parts stand in the joined text. -/
theorem mem_joinWith {sep p : Text} {parts : List Text} (hp : p ∈ parts) {c : Char} (hc : c ∈ p) :
    c ∈ Text.joinWith sep parts := by
  cases parts with
  | nil => cases hp
  | cons q rest =>
    rw [joinWith_cons]
    rcases List.mem_cons.mp hp with rfl | hp
    · exact List.mem_append_left _ hc
    · exact List.mem_append_right _
        (List.mem_flatMap.mpr ⟨p, hp, List.mem_append_right _ hc⟩)

/-- What holds of the characters of the separator and of the parts holds of those of the joined
    text. -/
theorem forall_mem_joinWith {P : Char → Prop} {sep : Text} {parts : List Text}
    (hsep : ∀ c ∈ sep, P c) (hparts : ∀ p ∈ parts, ∀ c ∈ p, P c) :
    ∀ c ∈ Text.joinWith sep parts, P c := by
  cases parts with
  | nil => exact fun c hc => absurd hc List.not_mem_nil
  | cons p rest =>
    obtain ⟨hp, hrest⟩ := List.forall_mem_cons.mp hparts
    rw [joinWith_cons]
    refine List.forall_mem_append.mpr ⟨hp, fun c hc => ?_⟩
    obtain ⟨q, hq, hc⟩ := List.mem_flatMap.mp hc
    exact (List.mem_append.mp hc).elim (hsep c) (hrest q hq c)

/-- Characters other than those of the separator are those of the parts. -/
theorem mem_joinWith_iff {c : Char} {sep : Text} (hc : c ∉ sep) (parts : List Text) :
    c ∈ Text.joinWith sep parts ↔ ∃ p ∈ parts, c ∈ p := by
  cases parts with
  | nil => simp
  | cons p rest =>
    rw [joinWith_cons, List.mem_append, List.mem_flatMap]
    simp [hc]

/-- Fewer parts make a text with fewer characters. -/
theorem joinWith_sublist (sep : Text) {fewer parts : List Text} (h : fewer.Sublist parts) :
    (Text.joinWith sep fewer).Sublist (Text.joinWith sep parts) := by
  induction h with
  | slnil => exact .refl _
  | @cons fewer parts p h ih =>
    cases parts with
    | nil =>
      rw [List.sublist_nil.mp h]
      exact List.nil_sublist _
    | cons next rest =>
      rw [Text.joinWith_cons_cons]
      exact ih.trans (List.sublist_append_right _ _)
  | cons_cons p h =>
    rw [joinWith_cons, joinWith_cons]
    exact (h.flatMap fun q => sep ++ q).append_left p

/-! ## 3. Trimming -/

/-- Trimming the start of joined parts is trimming the first of them. -/
theorem Text.trimStart_joinWith {c : Char} (hc : isBlank c = false) (p : Text) (rest : List Text) :
    trimStart (joinWith [c] (p :: rest)) = joinWith [c] (trimStart p :: rest) := by
  cases rest with
  | nil => rw [joinWith_singleton, joinWith_singleton]
  | cons q more =>
    rw [joinWith_cons_cons, joinWith_cons_cons, List.append_assoc, List.append_assoc]
    exact trimStart_append_cons hc p _

/-- Trimming the end is trimming the last. -/
theorem Text.trimEnd_joinWith {c : Char} (hc : isBlank c = false) (front : List Text) (p : Text) :
    trimEnd (joinWith [c] (front ++ [p])) = joinWith [c] (front ++ [trimEnd p]) := by
  induction front with
  | nil => rw [List.nil_append, List.nil_append, joinWith_singleton, joinWith_singleton]
  | cons q rest ih =>
    have hne : ∀ r : Text, rest ++ [r] ≠ [] := fun r =>
      List.append_ne_nil_of_right_ne_nil _ (List.cons_ne_nil r [])
    rw [List.cons_append, List.cons_append, joinWith_cons_of_ne_nil (hne p),
      joinWith_cons_of_ne_nil (hne _), List.append_assoc, List.append_assoc, ← ih]
    exact trimEnd_append_cons hc q _

end MediaCascade
