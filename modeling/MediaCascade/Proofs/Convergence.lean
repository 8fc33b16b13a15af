import MediaCascade.Proofs.FixedPoint
import MediaCascade.Proofs.Stylesheet.MediaCount

/-!
# Cleaning again and again

Cleaning a text adds no `@media` to it (`mediaCount_css_clean_le`), and a cleaned text that is not
clean loses one (`css_clean_clean_or_lt`): it has a context that is named by the keyword alone, and
this name is skipped when the text is read. What was behind it is cut into blocks anew, so that
other texts may be lost and other contexts may be found; but none of them has an `@media` that was
not there before.

So the texts settle after one cleaning more than there are occurrences
(`cleanedTimes_settle`).
-/

namespace MediaCascade

/-! ## 1. One cleaning -/

/-- **Cleaning adds no `@media`**, and takes away those in the texts that are skipped. -/
theorem mediaCount_css_clean_add_gaps_le (css : Text) :
    mediaCount (clean css).css + total mediaCount (Source.ofText css).gaps ≤ mediaCount css := by
  have hread := Stylesheet.sheetCount_ofText_le css
  have hsimplify := Stylesheet.sheetCount_simplify_le (Stylesheet.tidy_ofText css).valid
  have hrender : mediaCount (clean css).css ≤ sheetCount (Stylesheet.ofText css).1.simplify.1 :=
    Stylesheet.mediaCount_render_le _
  omega

theorem mediaCount_css_clean_le (css : Text) : mediaCount (clean css).css ≤ mediaCount css :=
  Nat.le_trans (Nat.le_add_right _ _) (mediaCount_css_clean_add_gaps_le css)

/-- **A cleaned text is clean or has fewer `@media` when it is cleaned again.** -/
theorem css_clean_clean_or_lt (css : Text) :
    (clean (clean css).css).css = (clean css).css ∨
      mediaCount (clean (clean css).css).css < mediaCount (clean css).css := by
  have htidy := Stylesheet.tidy_ofText css
  have hcss : (clean css).css = (Stylesheet.ofText css).1.simplify.1.render := rfl
  rw [hcss]
  by_cases hbare : mediaKeyword ∈ (Stylesheet.ofText css).1.mediaKeys
  · right
    rw [← Stylesheet.mediaKeys_simplify] at hbare
    obtain ⟨gap, hgap, hin⟩ :=
      Stylesheet.exists_gap_render htidy.simplify htidy.valid.settled_simplify.full hbare
    have hpos : 0 < mediaCount gap :=
      Nat.pos_of_ne_zero fun h => (mediaCount_eq_zero_iff gap).mp h hin
    have hskipped := le_total_of_mem mediaCount hgap
    have hclean := mediaCount_css_clean_add_gaps_le (Stylesheet.ofText css).1.simplify.1.render
    omega
  · left
    rw [clean_render_simplify htidy hbare]

/-! ## 2. All cleanings -/

/-- What is left of a text after it is cleaned `n` times. -/
def cleanedTimes (css : Text) : Nat → Text
  | 0 => css
  | n + 1 => (clean (cleanedTimes css n)).css

theorem cleanedTimes_succ (css : Text) (n : Nat) :
    cleanedTimes css (n + 1) = (clean (cleanedTimes css n)).css := rfl

/-- A text that is not changed once is not changed any more. -/
theorem cleanedTimes_eq_of_le {css : Text} {n m : Nat}
    (h : cleanedTimes css (n + 1) = cleanedTimes css n) (hle : n ≤ m) :
    cleanedTimes css m = cleanedTimes css n := by
  induction hle with
  | refl => rfl
  | step _ ih => rw [cleanedTimes_succ, ih, ← cleanedTimes_succ, h]

/-- **As long as the texts change, each of them has lost one occurrence more.** The first cleaning
    does not count: it may change the text without a loss. -/
theorem cleanedTimes_clean_or_lost (css : Text) (n : Nat) :
    cleanedTimes css (n + 2) = cleanedTimes css (n + 1) ∨
      mediaCount (cleanedTimes css (n + 2)) + (n + 1) ≤ mediaCount css := by
  induction n with
  | zero =>
    have hfirst := mediaCount_css_clean_le css
    rcases css_clean_clean_or_lt css with heq | hlt
    · exact .inl heq
    · exact .inr (Nat.le_trans hlt hfirst)
  | succ n ih =>
    rcases ih with heq | hlost
    · left
      rw [cleanedTimes_succ, heq, ← cleanedTimes_succ, heq]
    · rcases css_clean_clean_or_lt (cleanedTimes css (n + 1)) with heq | hlt
      · exact .inl heq
      · right
        have hlt' : mediaCount (cleanedTimes css (n + 1 + 2)) + 1 ≤
          mediaCount (cleanedTimes css (n + 2)) := hlt
        omega

/-- **Cleaning shrinks, and settles**: it adds no `@media`, and a text with `k` of them is the same
    from some cleaning on, the `k + 1`-st at the latest. -/
theorem cleanedTimes_settle (css : Text) :
    mediaCount (clean css).css ≤ mediaCount css ∧
      ∃ n ≤ mediaCount css + 1, ∀ m, n ≤ m → cleanedTimes css m = cleanedTimes css n := by
  refine ⟨mediaCount_css_clean_le css, mediaCount css + 1, Nat.le_refl _, fun m hm => ?_⟩
  rcases cleanedTimes_clean_or_lost css (mediaCount css) with heq | hlost
  · exact cleanedTimes_eq_of_le heq hm
  · omega

/-- The second cleaning can be needed for a single `@media`, one without a query. -/
example :
    let css : Text := mediaKeyword ++ [' ', '{', 'a', '{', 'b', ':', 'c', '}', '}']
    mediaCount css = 1 ∧ cleanedTimes css 1 ≠ cleanedTimes css 2 := by decide +kernel

end MediaCascade
