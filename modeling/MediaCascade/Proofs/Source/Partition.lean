import MediaCascade.Proofs.Source.Blocks
import MediaCascade.Proofs.Text.Trimming

/-!
# The parts of a source, and no other parts

A source text is cut into its base text, its media blocks and the texts that are skipped.
`Source.IsPartition` says what such a cut has to be, not how it is found:

* the parts make up the text, and the base text ends where `@media` begins for the first time;
* the blocks are well formed;
* no skipped text hides a block: at none of its positions a well formed block begins, not even one
  that runs on into what stands behind the skipped text.

Main statement: `Source.read_isPartition`, every text is cut in this way, there is only one way to
do so, and each skipped text that is not blank has its own warning.
-/

namespace MediaCascade

/-! ## 1. Positions at which no block begins -/

/-- A text begins with a well formed media block. What stands behind the block does not matter. -/
def BeginsBlock (s : Text) : Prop :=
  ∃ (b : MediaBlock) (rest : Text), b.WellFormed ∧ s = b.text ++ rest

/-- **Where no block begins, none is read**, and nowhere else. -/
theorem mediaBlock?_eq_none_iff (s : Text) : mediaBlock? s = none ↔ ¬ BeginsBlock s := by
  constructor
  · rintro hnone ⟨b, rest, hb, rfl⟩
    rw [mediaBlock?_text_append hb] at hnone
    cases hnone
  · intro hbegins
    cases h : mediaBlock? s with
    | none => rfl
    | some read =>
      obtain ⟨hb, hs⟩ := (mediaBlock?_eq_some_iff s read.2 read.1).mp h
      exact absurd ⟨read.1, read.2, hb, hs⟩ hbegins

/-- At no position of `gap` a block begins, with `behind` standing behind the gap. -/
def HidesNoBlock (gap behind : Text) : Prop :=
  ∀ before after, gap = before ++ after → after ≠ [] → ¬ BeginsBlock (after ++ behind)

namespace HidesNoBlock

theorem nil (behind : Text) : HidesNoBlock [] behind := by
  intro before after h hne
  exact absurd (List.append_eq_nil_iff.mp h.symm).2 hne

/-- The positions of a text are its first one and those of the rest. -/
theorem cons_iff {c : Char} {gap behind : Text} :
    HidesNoBlock (c :: gap) behind ↔
      ¬ BeginsBlock (c :: (gap ++ behind)) ∧ HidesNoBlock gap behind := by
  constructor
  · intro h
    refine ⟨h [] (c :: gap) rfl (List.cons_ne_nil c gap), fun before after hsplit => ?_⟩
    exact h (c :: before) after (congrArg (c :: ·) hsplit)
  · rintro ⟨hfirst, hrest⟩ before after hsplit hne
    rcases List.cons_eq_append_iff.mp hsplit with ⟨rfl, rfl⟩ | ⟨before', rfl, hsplit'⟩
    · exact hfirst
    · exact hrest before' after hsplit' hne

end HidesNoBlock

/-- **No block is found in a text exactly if none begins in it.** -/
theorem firstMediaBlock?_eq_none_iff (s : Text) :
    firstMediaBlock? s = none ↔ HidesNoBlock s [] := by
  induction s with
  | nil => exact ⟨fun _ => .nil [], fun _ => rfl⟩
  | cons c rest ih =>
    rw [HidesNoBlock.cons_iff, ← ih, List.append_nil, ← mediaBlock?_eq_none_iff, firstMediaBlock?]
    cases mediaBlock? (c :: rest) with
    | none => simp
    | some read => simp

/-- **A gap that hides no block is passed over.** -/
theorem firstMediaBlock?_append_of_hidden {gap s : Text} (hgap : HidesNoBlock gap s) :
    firstMediaBlock? (gap ++ s) =
      (firstMediaBlock? s).map fun found => (gap ++ found.1, found.2) := by
  induction gap with
  | nil => simp
  | cons c gap ih =>
    obtain ⟨hfirst, hlater⟩ := HidesNoBlock.cons_iff.mp hgap
    rw [List.cons_append, firstMediaBlock?, (mediaBlock?_eq_none_iff _).mpr hfirst]
    simp only
    rw [ih hlater, Option.map_map]
    rfl

/-- A gap that hides no block is passed over up to the block behind it. -/
theorem firstMediaBlock?_hidden_append {gap rest : Text} {b : MediaBlock} (hb : b.WellFormed)
    (hgap : HidesNoBlock gap (b.text ++ rest)) :
    firstMediaBlock? (gap ++ (b.text ++ rest)) = some (gap, b, rest) := by
  rw [firstMediaBlock?_append_of_hidden hgap, firstMediaBlock?_text_append hb, Option.map_some,
    List.append_nil]

/-- What is passed over before the first block hides no block. -/
theorem hidesNoBlock_of_firstMediaBlock? {s gap rest : Text} {b : MediaBlock}
    (h : firstMediaBlock? s = some (gap, b, rest)) : HidesNoBlock gap (b.text ++ rest) := by
  induction s generalizing gap with
  | nil => cases h
  | cons c r ih =>
    have happend := firstMediaBlock?_append h
    rw [firstMediaBlock?] at h
    split at h
    · cases h
      exact .nil _
    · next hnone =>
      obtain ⟨⟨g, found⟩, hf, he⟩ := Option.map_eq_some_iff.mp h
      cases he
      rw [← happend, List.append_assoc] at hnone
      exact HidesNoBlock.cons_iff.mpr ⟨(mediaBlock?_eq_none_iff _).mp hnone, ih hf⟩

/-- **The first block is the one before which no block begins.** -/
theorem firstMediaBlock?_eq_some_iff (s gap rest : Text) (b : MediaBlock) :
    firstMediaBlock? s = some (gap, b, rest) ↔
      b.WellFormed ∧ HidesNoBlock gap (b.text ++ rest) ∧ s = gap ++ (b.text ++ rest) := by
  constructor
  · intro h
    refine ⟨wellFormed_of_firstMediaBlock? h, hidesNoBlock_of_firstMediaBlock? h, ?_⟩
    rw [← List.append_assoc]
    exact (firstMediaBlock?_append h).symm
  · rintro ⟨hb, hgap, rfl⟩
    exact firstMediaBlock?_hidden_append hb hgap

namespace Source

/-! ## 2. Skipped texts and blocks in turn -/

/-- Skipped texts and blocks in turn, with `rest` behind the last block. -/
def sectionsText (sections : List (Text × MediaBlock)) (rest : Text) : Text :=
  sections.flatMap (fun part => part.1 ++ part.2.text) ++ rest

theorem sectionsText_cons (gap : Text) (b : MediaBlock) (sections : List (Text × MediaBlock))
    (rest : Text) :
    sectionsText ((gap, b) :: sections) rest = gap ++ (b.text ++ sectionsText sections rest) := by
  simp [sectionsText]

theorem text_eq (source : Source) :
    source.text = source.base ++ sectionsText source.sections source.rest :=
  List.append_assoc _ _ _

/-- The blocks are well formed, and no skipped text hides a block. -/
structure AreSections (sections : List (Text × MediaBlock)) (rest : Text) : Prop where
  blocks : ∀ part ∈ sections, part.2.WellFormed
  gaps : ∀ front gap b back, sections = front ++ (gap, b) :: back →
    HidesNoBlock gap (b.text ++ sectionsText back rest)
  last : HidesNoBlock rest []

namespace AreSections

variable {gap rest : Text} {b : MediaBlock} {sections : List (Text × MediaBlock)}

theorem nil_iff : AreSections [] rest ↔ HidesNoBlock rest [] := by
  refine ⟨fun h => h.last, fun h => ⟨fun _ hm => absurd hm List.not_mem_nil, ?_, h⟩⟩
  intro front gap b back hsplit
  exact absurd hsplit.symm (List.append_ne_nil_of_right_ne_nil front (List.cons_ne_nil _ _))

theorem cons_iff :
    AreSections ((gap, b) :: sections) rest ↔
      b.WellFormed ∧ HidesNoBlock gap (b.text ++ sectionsText sections rest) ∧
        AreSections sections rest := by
  constructor
  · intro h
    refine ⟨h.blocks _ List.mem_cons_self, h.gaps [] gap b sections rfl, ?_, ?_, h.last⟩
    · exact fun part hpart => h.blocks part (List.mem_cons_of_mem _ hpart)
    · exact fun front g b' back hsplit => h.gaps ((gap, b) :: front) g b' back (by rw [hsplit]; rfl)
  · rintro ⟨hb, hgap, hlater⟩
    refine ⟨?_, ?_, hlater.last⟩
    · intro part hpart
      rcases List.mem_cons.mp hpart with rfl | hpart
      · exact hb
      · exact hlater.blocks part hpart
    · intro front g b' back hsplit
      rcases List.cons_eq_append_iff.mp hsplit with ⟨rfl, he⟩ | ⟨front', rfl, he⟩
      · cases he
        exact hgap
      · exact hlater.gaps front' g b' back he

end AreSections

/-- **Blocks are found wherever they can be**: what is skipped hides none. -/
theorem areSections_cut (s : Text) : AreSections (cut s).1 (cut s).2 := by
  induction hn : s.length using Nat.strongRecOn generalizing s with
  | ind n ih =>
    cases h : firstMediaBlock? s with
    | none =>
      rw [cut_of_none h]
      exact AreSections.nil_iff.mpr ((firstMediaBlock?_eq_none_iff s).mp h)
    | some found =>
      obtain ⟨gap, b, rest⟩ := found
      have hlater := ih rest.length (hn ▸ length_lt_of_firstMediaBlock? h) rest rfl
      have hrest : sectionsText (cut rest).1 (cut rest).2 = rest := flatMap_cut_append rest
      obtain ⟨hb, hgap, _⟩ := (firstMediaBlock?_eq_some_iff s gap rest b).mp h
      rw [cut_of_some h]
      rw [← hrest] at hgap
      exact AreSections.cons_iff.mpr ⟨hb, hgap, hlater⟩

/-- **There is no second way to cut a text at its blocks.** -/
theorem AreSections.cut_eq {sections : List (Text × MediaBlock)} {rest : Text}
    (h : AreSections sections rest) : cut (sectionsText sections rest) = (sections, rest) := by
  induction sections with
  | nil => exact cut_of_none ((firstMediaBlock?_eq_none_iff rest).mpr (nil_iff.mp h))
  | cons part sections ih =>
    obtain ⟨gap, b⟩ := part
    obtain ⟨hb, hgap, hlater⟩ := cons_iff.mp h
    rw [sectionsText_cons, cut_of_some (firstMediaBlock?_hidden_append hb hgap), ih hlater]

/-! ## 3. The parts of a text -/

/-- The parts of a text, whatever found them. -/
structure IsPartition (css : Text) (source : Source) : Prop where
  /-- The parts make up the text. -/
  text : source.text = css
  /-- `@media` does not begin before the end of the base text. -/
  base_before : ∀ i < source.base.length, ¬ mediaKeyword <+: css.drop i
  /-- The base text goes on up to an `@media`, or to the end. -/
  base_up_to : source.base = css ∨ mediaKeyword <+: css.drop source.base.length
  /-- The rest is well formed blocks, and skipped texts that hide no block. -/
  sections : AreSections source.sections source.rest

/-- **A partition is what cutting a text gives.** -/
theorem IsPartition.eq_ofText {css : Text} {source : Source} (h : source.IsPartition css) :
    source = ofText css := by
  have htext := h.text
  rw [text_eq] at htext
  have hbreak : Text.breakOn mediaKeyword css =
      (source.base, sectionsText source.sections source.rest) := by
    refine (Text.breakOn_eq_iff _ _ _ _).mpr ⟨htext, h.base_before, ?_⟩
    rcases h.base_up_to with hall | hmedia
    · exact .inl (List.append_right_eq_self.mp (htext.trans hall.symm))
    · exact .inr (by rwa [← htext, List.drop_left] at hmedia)
  rw [ofText, hbreak, h.sections.cut_eq]

/-- **Cutting a text gives a partition.** -/
theorem isPartition_ofText (css : Text) : (ofText css).IsPartition css := by
  obtain ⟨happend, hbefore, hbehind⟩ :=
    (Text.breakOn_eq_iff mediaKeyword css _ _).mp (rfl : Text.breakOn mediaKeyword css = (_, _))
  refine ⟨text_ofText css, hbefore, ?_, areSections_cut _⟩
  rcases hbehind with hnil | hmedia
  · left
    rw [hnil, List.append_nil] at happend
    exact happend
  · right
    have hdrop := congrArg (List.drop (Text.breakOn mediaKeyword css).1.length) happend
    rw [List.drop_left] at hdrop
    exact hdrop ▸ hmedia

/-! ## 4. What is skipped -/

/-- The warning about a skipped text as its code and its fragment, the skipped text trimmed. -/
def gapReport (gap : Text) : Text × Option Text :=
  (if mediaKeyword <:+: gap then "unmatched-media".toList else "ignored-text".toList,
    some (Text.trim gap))

/-- **Each skipped text that is not blank has one warning**, in order, and no other has one. -/
theorem map_warnings (source : Source) :
    source.warnings.map (fun w => (w.code, w.fragment?)) =
      (source.gaps.filter fun gap => !(Text.trim gap).isEmpty).map gapReport := by
  rw [warnings]
  induction source.gaps with
  | nil => rfl
  | cons gap rest ih =>
    have hword := Text.infix_trim_iff isBlank_of_mem_mediaKeyword gap
    cases hempty : (Text.trim gap).isEmpty with
    | true =>
      have hnone : gapWarning? gap = none := by rw [gapWarning?, hempty, if_pos rfl]
      rw [List.filterMap_cons_none hnone, ih, List.filter_cons_of_neg (by simp [hempty])]
    | false =>
      rw [List.filter_cons_of_pos (by simp [hempty]), List.map_cons, ← ih]
      by_cases hmedia : mediaKeyword <:+: gap
      · have hsome : gapWarning? gap = some (.unmatchedMedia (Text.trim gap)) := by
          rw [gapWarning?, hempty, if_neg Bool.false_ne_true, if_pos (hword.mpr hmedia)]
        rw [List.filterMap_cons_some hsome, List.map_cons, gapReport, if_pos hmedia]
        rfl
      · have hsome : gapWarning? gap = some (.ignoredText (Text.trim gap)) := by
          rw [gapWarning?, hempty, if_neg Bool.false_ne_true, if_neg fun h => hmedia (hword.mp h)]
        rw [List.filterMap_cons_some hsome, List.map_cons, gapReport, if_neg hmedia]
        rfl

/-- **Every text is cut into its parts, in the only way there is.** Reading does not fail; the parts
    are a partition of the text and no others are; and the texts that are skipped without being
    blank are what the warnings report, one after the other. -/
theorem read_isPartition (css : Text) :
    ∃ source, read .beforeMedia css = .ok source ∧ source.IsPartition css ∧
      (∀ other : Source, other.IsPartition css → other = source) ∧
      source.warnings.map (fun w => (w.code, w.fragment?)) =
        (source.gaps.filter fun gap => !(Text.trim gap).isEmpty).map gapReport :=
  ⟨ofText css, rfl, isPartition_ofText css, fun _ h => h.eq_ofText, map_warnings _⟩

end Source

end MediaCascade
