import MediaCascade.Proofs.Text.Trimming
import MediaCascade.Source.MediaBlock

/-!
# Where a word occurs in a text

* A character that is not in a word separates its occurrences: the word occurs in `x ++ c :: y`
  only if it occurs in `x` or in `y` (`Text.infix_append_cons_iff`). A word without blanks occurs in
  a text exactly if it occurs in what trimming leaves of it (`Text.infix_trim_iff`).
* A text is cut before a word at the first position where the word stands
  (`Text.breakOn_eq_iff`).
* The first character of `@media` stands in it once, so that an occurrence cannot begin before an
  `@` and end behind it. A text without `@media` that is followed by one is therefore cut exactly
  there (`MediaFree.breakOn_append`).

`MediaFree` texts are those that `@media` does not occur in. What is written between the parts of a
rule has no character of `@media`, which makes being `MediaFree` a matter of the parts alone.
-/

namespace MediaCascade

/-! ## 1. Occurrences and separators -/

/-- A prefix of `c :: y` without the character `c` has no characters. -/
theorem Text.eq_nil_of_prefix_cons {c : Char} {word y : Text} (hc : c ∉ word)
    (h : word <+: c :: y) : word = [] := by
  rcases List.prefix_cons_iff.mp h with hnil | ⟨rest, rfl, _⟩
  · exact hnil
  · exact absurd List.mem_cons_self hc

/-- A word does not begin before a character that it does not have and end behind it. -/
theorem Text.prefix_append_cons_iff {c : Char} {word : Text} (hc : c ∉ word) (x y : Text) :
    word <+: x ++ c :: y ↔ word <+: x := by
  refine ⟨fun h => ?_, fun h => h.trans (List.prefix_append _ _)⟩
  induction x generalizing word with
  | nil =>
    have hnil := Text.eq_nil_of_prefix_cons hc h
    exact hnil ▸ List.nil_prefix
  | cons d rest ih =>
    rcases List.prefix_cons_iff.mp h with rfl | ⟨word', rfl, h'⟩
    · exact List.nil_prefix
    · have hc' : c ∉ word' := fun hm => hc (List.mem_cons_of_mem _ hm)
      exact List.cons_prefix_cons.mpr ⟨rfl, ih hc' h'⟩

/-- **A character that is not in the word separates its occurrences.** -/
theorem Text.infix_append_cons_iff {c : Char} {word : Text} (hc : c ∉ word) (x y : Text) :
    word <:+: x ++ c :: y ↔ word <:+: x ∨ word <:+: y := by
  constructor
  · intro h
    rcases List.infix_append_iff.mp h with hx | hy | ⟨l, r, rfl, hl, hr⟩
    · exact .inl hx
    · rcases List.infix_cons_iff.mp hy with hp | hi
      · rw [Text.eq_nil_of_prefix_cons hc hp]
        exact .inl List.nil_infix
      · exact .inr hi
    · -- the part of the occurrence behind `x` would have to begin with `c`
      have hr' : c ∉ r := fun hmem => hc (List.mem_append_right l hmem)
      rw [Text.eq_nil_of_prefix_cons hr' hr, List.append_nil]
      exact .inl hl.isInfix
  · rintro (h | h)
    · exact h.trans (List.prefix_append _ _).isInfix
    · exact h.trans ((List.suffix_cons _ _).isInfix.trans (List.suffix_append _ _).isInfix)

/-! ## 2. Occurrences and blanks -/

section Blank

variable {word : Text} (hw : ∀ c ∈ word, isBlank c = false)
include hw

theorem Text.infix_blank_append_iff {b : Text} (hb : Blank b) (s : Text) :
    word <:+: b ++ s ↔ word <:+: s := by
  induction b with
  | nil => exact Iff.rfl
  | cons c rest ih =>
    have hc : c ∉ word := fun hm => hb.not_mem (hw c hm) List.mem_cons_self
    have hrest := ih fun d hd => hb d (List.mem_cons_of_mem _ hd)
    refine (Text.infix_append_cons_iff hc [] (rest ++ s)).trans ⟨?_, fun h => .inr (hrest.mpr h)⟩
    rintro (h | h)
    · rw [List.infix_nil.mp h]
      exact List.nil_infix
    · exact hrest.mp h

theorem Text.infix_append_blank_iff {b : Text} (hb : Blank b) (s : Text) :
    word <:+: s ++ b ↔ word <:+: s := by
  cases b with
  | nil => rw [List.append_nil]
  | cons c rest =>
    have hc : c ∉ word := fun hm => hb.not_mem (hw c hm) List.mem_cons_self
    refine (Text.infix_append_cons_iff hc s rest).trans ⟨?_, .inl⟩
    rintro (h | h)
    · exact h
    · -- a word in a blank text has no characters
      have hnil : word = [] := by
        refine List.eq_nil_iff_forall_not_mem.mpr fun d hd => ?_
        exact hb.not_mem (hw d hd) (List.mem_cons_of_mem _ (h.subset hd))
      rw [hnil]
      exact List.nil_infix

/-- **Trimming takes no occurrence away** of a word without blanks. -/
theorem Text.infix_trim_iff (s : Text) : word <:+: trim s ↔ word <:+: s := by
  obtain ⟨before, behind, hb, hr, hs⟩ := exists_eq_pad_trim s
  calc word <:+: trim s
    _ ↔ word <:+: before ++ trim s := (infix_blank_append_iff hw hb _).symm
    _ ↔ word <:+: before ++ trim s ++ behind := (infix_append_blank_iff hw hr _).symm
    _ ↔ word <:+: s := by rw [← hs]

end Blank

/-! ## 3. The first occurrence -/

/-- Before the place where a text is cut, the word does not stand anywhere. -/
theorem Text.not_prefix_drop_breakOn (word s : Text) :
    ∀ i < (breakOn word s).1.length, ¬ word <+: s.drop i := by
  induction s with
  | nil => intro i hi; exact absurd hi (Nat.not_lt_zero i)
  | cons c rest ih =>
    intro i hi
    rw [breakOn] at hi
    split at hi
    · exact absurd hi (Nat.not_lt_zero i)
    · next hp =>
      cases i with
      | zero => exact fun h => hp (List.isPrefixOf_iff_prefix.mpr h)
      | succ i => exact ih i (Nat.lt_of_succ_lt_succ hi)

/-- **A text is cut at the first position where the word stands**, or not at all. -/
theorem Text.breakOn_eq_iff (word s x y : Text) :
    breakOn word s = (x, y) ↔
      x ++ y = s ∧ (∀ i < x.length, ¬ word <+: s.drop i) ∧ (y = [] ∨ word <+: y) := by
  constructor
  · intro h
    have happend := breakOn_append word s
    have hbefore := not_prefix_drop_breakOn word s
    have hbehind := breakOn_snd word s
    rw [h] at happend hbefore hbehind
    exact ⟨happend, hbefore, hbehind⟩
  · rintro ⟨rfl, hbefore, hy⟩
    induction x with
    | nil =>
      cases y with
      | nil => rfl
      | cons c rest =>
        have hp := hy.resolve_left (List.cons_ne_nil c rest)
        rw [List.nil_append, breakOn, if_pos (List.isPrefixOf_iff_prefix.mpr hp)]
    | cons c rest ih =>
      have hfirst : ¬ word <+: c :: (rest ++ y) := hbefore 0 (Nat.succ_pos _)
      have hlater := ih fun i hi => hbefore (i + 1) (Nat.succ_lt_succ hi)
      rw [List.cons_append, breakOn, if_neg fun h => hfirst (List.isPrefixOf_iff_prefix.mp h),
        hlater]

/-! ## 4. Texts without `@media` -/

/-- No character of `@media` is blank. -/
theorem isBlank_of_mem_mediaKeyword : ∀ c ∈ mediaKeyword, isBlank c = false := by
  have hall : mediaKeyword.all (fun c => !isBlank c) = true := by decide
  intro c hc
  simpa using List.all_eq_true.mp hall c hc

/-- A text that `@media` does not occur in. -/
def MediaFree (s : Text) : Prop := ¬ mediaKeyword <:+: s

instance (s : Text) : Decidable (MediaFree s) := inferInstanceAs (Decidable (¬ _))

namespace MediaFree

theorem nil : MediaFree [] := by decide

/-- A part of a text without `@media` is without it. -/
theorem of_infix {s t : Text} (ht : MediaFree t) (h : s <:+: t) : MediaFree s :=
  fun hs => ht (hs.trans h)

theorem append_cons {c : Char} (hc : c ∉ mediaKeyword) {x y : Text} (hx : MediaFree x)
    (hy : MediaFree y) : MediaFree (x ++ c :: y) := by
  intro h
  rcases (Text.infix_append_cons_iff hc x y).mp h with h | h
  · exact hx h
  · exact hy h

theorem cons {c : Char} (hc : c ∉ mediaKeyword) {y : Text} (hy : MediaFree y) :
    MediaFree (c :: y) := append_cons (x := []) hc nil hy

/-- A blank is no character of `@media`. -/
theorem append_of_blank {s t : Text} (hs : Text.Blank s) (ht : MediaFree t) :
    MediaFree (s ++ t) :=
  fun h => ht ((Text.infix_blank_append_iff isBlank_of_mem_mediaKeyword hs t).mp h)

/-- `@` stands in `@media` only in front. -/
theorem at_not_mem_tail : '@' ∉ mediaKeyword.tail := by decide

/-- **A text without `@media` is cut off where `@media` begins behind it.** -/
theorem breakOn_append {g s : Text} (hg : MediaFree g) (hs : mediaKeyword <+: s) :
    Text.breakOn mediaKeyword (g ++ s) = (g, s) := by
  obtain ⟨r, rfl⟩ := hs
  induction g with
  | nil =>
    have hp : mediaKeyword.isPrefixOf (mediaKeyword ++ r) = true :=
      List.isPrefixOf_iff_prefix.mpr (List.prefix_append _ _)
    show Text.breakOn mediaKeyword ('@' :: (mediaKeyword.tail ++ r)) = _
    rw [Text.breakOn, if_pos]
    · rfl
    · exact hp
  | cons c rest ih =>
    have hrest : MediaFree rest := hg.of_infix (List.suffix_cons c rest).isInfix
    have hp : ¬ mediaKeyword <+: (c :: rest) ++ (mediaKeyword ++ r) := by
      intro h
      rcases List.prefix_or_prefix_of_prefix h (List.prefix_append (c :: rest) _) with hk | hk
      · exact hg hk.isInfix
      · -- the keyword would begin in `c :: rest` and go on with the `@` behind it
        obtain ⟨z, hz⟩ := hk
        have hzs : z <+: mediaKeyword ++ r := by
          have h' : (c :: rest) ++ z <+: (c :: rest) ++ (mediaKeyword ++ r) := hz ▸ h
          exact (List.prefix_append_right_inj _).mp h'
        have hne : z ≠ [] := by
          rintro rfl
          rw [List.append_nil] at hz
          exact hg (hz ▸ List.infix_rfl)
        obtain ⟨y, rfl⟩ : ∃ y, z = '@' :: y := by
          rcases List.prefix_cons_iff.mp hzs with h0 | ⟨y, hy, _⟩
          · exact absurd h0 hne
          · exact ⟨y, hy⟩
        have htail : mediaKeyword.tail = rest ++ '@' :: y := by rw [← hz]; rfl
        exact at_not_mem_tail (htail ▸ List.mem_append_right _ List.mem_cons_self)
    rw [List.cons_append, Text.breakOn, if_neg]
    · rw [ih hrest]
    · rw [List.isPrefixOf_iff_prefix]
      exact hp

/-- A text without `@media` is not cut. -/
theorem breakOn_self {s : Text} (hs : MediaFree s) : Text.breakOn mediaKeyword s = (s, []) := by
  refine (Text.breakOn_eq_iff _ _ _ _).mpr ⟨List.append_nil s, fun i _ h => ?_, .inl rfl⟩
  exact hs (h.isInfix.trans (List.drop_suffix i s).isInfix)

end MediaFree

/-- What stands before the first `@media` of a text is without it. -/
theorem mediaFree_breakOn (s : Text) : MediaFree (Text.breakOn mediaKeyword s).1 := by
  induction s with
  | nil => exact MediaFree.nil
  | cons c rest ih =>
    rw [Text.breakOn]
    split
    · exact MediaFree.nil
    · next hp =>
      intro h
      rcases List.infix_cons_iff.mp h with h | h
      · refine hp (List.isPrefixOf_iff_prefix.mpr (h.trans ?_))
        exact (List.cons_prefix_cons).mpr ⟨rfl, ⟨_, Text.breakOn_append mediaKeyword rest⟩⟩
      · exact ih h

end MediaCascade
