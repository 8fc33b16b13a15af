import MediaCascade.Proofs.Source.Partition

/-!
# Two texts one after the other

A text that begins with `@media` stands behind another one. Then the two are cut as each is on its
own, if the first leaves no `@media` over.

* `MediaFree.hidesNoBlock`: between a text without `@media` and one that begins with it no block
  begins. This is the one place where the characters of the keyword matter.
* `Source.cut_sectionsText_append`: the blocks of the first text are found again, whatever stands
  behind them.
* `Source.read_append`: the base text is that of the first text, and the blocks are those of both.

An `@media` that the first text leaves over may go on in the second: `@media a` has no block,
`@media b {}` has one, and together they have the one block `@media a@media b {}`.
-/

namespace MediaCascade

/-! ## 1. Gaps without `@media` -/

/-- **No block begins in a text without `@media`**, not even one that runs on into a text that
    begins with it. -/
theorem MediaFree.hidesNoBlock {gap behind : Text} (hgap : MediaFree gap)
    (hbehind : mediaKeyword <+: behind) : HidesNoBlock gap behind := by
  rintro before after rfl hne ⟨b, rest, hb, hbegins⟩
  obtain ⟨_, hbefore, _⟩ := (Text.breakOn_eq_iff _ _ _ _).mp (hgap.breakOn_append hbehind)
  have hinside : before.length < (before ++ after).length := by
    have hpos : 0 < after.length := List.length_pos_iff.mpr hne
    rw [List.length_append]
    omega
  -- the block would be an `@media` before the place where the text is cut
  refine hbefore before.length hinside ?_
  rw [List.append_assoc, List.drop_left, hbegins]
  exact hb.keyword_prefix.trans (List.prefix_append _ _)

namespace Source

/-- What is skipped without being reported as an unmatched `@media` has no `@media`. -/
theorem mediaFree_of_mem_gaps {source : Source}
    (hnone : ∀ w ∈ source.warnings, w.code ≠ "unmatched-media".toList) :
    ∀ gap ∈ source.gaps, MediaFree gap := by
  intro gap hgap hmedia
  have htrim : mediaKeyword <:+: Text.trim gap :=
    (Text.infix_trim_iff isBlank_of_mem_mediaKeyword gap).mpr hmedia
  have hblank : (!(Text.trim gap).isEmpty) = true := by
    cases h : Text.trim gap with
    | nil => exact absurd (h ▸ htrim) MediaFree.nil
    | cons c rest => rfl
  have hreport : gapReport gap ∈ source.warnings.map fun w => (w.code, w.fragment?) := by
    rw [map_warnings]
    exact List.mem_map_of_mem (List.mem_filter.mpr ⟨hgap, hblank⟩)
  obtain ⟨w, hw, he⟩ := List.mem_map.mp hreport
  refine hnone w hw ?_
  rw [gapReport, if_pos hmedia] at he
  exact congrArg Prod.fst he

/-! ## 2. Blocks behind a gap, and behind other blocks -/

/-- **A gap that hides no block has none**, and leaves those behind it as they are. -/
theorem blocks_cut_append {gap s : Text} (hgap : HidesNoBlock gap s) :
    (cut (gap ++ s)).1.map Prod.snd = (cut s).1.map Prod.snd := by
  have hfirst := firstMediaBlock?_append_of_hidden hgap
  cases h : firstMediaBlock? s with
  | none =>
    rw [h] at hfirst
    rw [cut_of_none hfirst, cut_of_none h]
  | some found =>
    obtain ⟨g, b, rest⟩ := found
    rw [h] at hfirst
    rw [cut_of_some hfirst, cut_of_some h]
    rfl

/-- **Blocks with gaps without `@media` are found again**, whatever stands behind them. -/
theorem cut_sectionsText_append {sections : List (Text × MediaBlock)}
    (hblocks : ∀ part ∈ sections, part.2.WellFormed)
    (hgaps : ∀ part ∈ sections, MediaFree part.1) (s : Text) :
    cut (sectionsText sections s) = (sections ++ (cut s).1, (cut s).2) := by
  induction sections with
  | nil => rfl
  | cons part sections ih =>
    obtain ⟨gap, b⟩ := part
    have hb : b.WellFormed := hblocks (gap, b) List.mem_cons_self
    have hgap : MediaFree gap := hgaps (gap, b) List.mem_cons_self
    have hlater := ih (fun part hpart => hblocks part (List.mem_cons_of_mem _ hpart))
      (fun part hpart => hgaps part (List.mem_cons_of_mem _ hpart))
    rw [sectionsText_cons, cut_of_some (firstMediaBlock?_hidden_append hb
      (hgap.hidesNoBlock (hb.keyword_prefix.trans (List.prefix_append _ _)))), hlater]
    rfl

/-! ## 3. Two texts -/

/-- A text without `@media` is all base text. -/
theorem ofText_of_mediaFree {s : Text} (hs : MediaFree s) : ofText s = ⟨s, [], []⟩ := by
  have hnil : '@' ∉ ([] : Text) := List.not_mem_nil
  rw [ofText, hs.breakOn_self, cut_gap hnil]

section Append

variable {first second : Text} (hsecond : mediaKeyword <+: second)
include hsecond

/-- The first `@media` is that of the first text, or stands where the second begins. -/
theorem breakOn_append_keyword :
    Text.breakOn mediaKeyword (first ++ second) =
      ((ofText first).base, (Text.breakOn mediaKeyword first).2 ++ second) := by
  have hbehind : mediaKeyword <+: (Text.breakOn mediaKeyword first).2 ++ second := by
    rcases Text.breakOn_snd mediaKeyword first with hnil | hmedia
    · rw [hnil]
      exact hsecond
    · exact hmedia.trans (List.prefix_append _ _)
  have hbreak := (mediaFree_breakOn first).breakOn_append hbehind
  rw [← List.append_assoc, Text.breakOn_append] at hbreak
  exact hbreak

theorem base_ofText_append : (ofText (first ++ second)).base = (ofText first).base := by
  rw [ofText, breakOn_append_keyword hsecond]

/-- A text that begins with `@media` is all blocks and gaps. -/
theorem blocks_ofText_of_keyword : (ofText second).blocks = (cut second).1.map Prod.snd := by
  have hbreak : Text.breakOn mediaKeyword second = ([], second) :=
    MediaFree.nil.breakOn_append hsecond
  rw [blocks, ofText, hbreak]

theorem blocks_ofText_append (hgaps : ∀ gap ∈ (ofText first).gaps, MediaFree gap) :
    (ofText (first ++ second)).blocks = (ofText first).blocks ++ (ofText second).blocks := by
  have hrest : MediaFree (ofText first).rest :=
    hgaps _ (List.mem_append_right _ (List.mem_singleton_self _))
  have hbefore : ∀ part ∈ (ofText first).sections, MediaFree part.1 := fun part hpart =>
    hgaps _ (List.mem_append_left _ (List.mem_map_of_mem hpart))
  have hblocks : ∀ part ∈ (ofText first).sections, part.2.WellFormed := wellFormed_of_mem_cut _
  have htext : (Text.breakOn mediaKeyword first).2 ++ second =
      sectionsText (ofText first).sections ((ofText first).rest ++ second) := by
    rw [sectionsText, ← List.append_assoc]
    exact congrArg (· ++ second) (flatMap_cut_append _).symm
  have hcut := cut_sectionsText_append hblocks hbefore ((ofText first).rest ++ second)
  calc (ofText (first ++ second)).blocks
    _ = (cut ((Text.breakOn mediaKeyword first).2 ++ second)).1.map Prod.snd := by
      rw [blocks, ofText, breakOn_append_keyword hsecond]
    _ = (ofText first).blocks ++ (cut ((ofText first).rest ++ second)).1.map Prod.snd := by
      rw [htext, hcut, List.map_append, blocks]
    _ = (ofText first).blocks ++ (ofText second).blocks := by
      rw [blocks_cut_append (hrest.hidesNoBlock hsecond), blocks_ofText_of_keyword hsecond]

end Append

/-- **Cutting is compositional.** If no `@media` of the first text is reported as unmatched, and the
    second begins with `@media`, the two together have the base text of the first, and the blocks
    of the first and then those of the second. A first text without `@media` is the base text, and
    adds no block. -/
theorem read_append {first second : Text} {source : Source}
    (hread : read .beforeMedia first = .ok source)
    (hnone : ∀ w ∈ source.warnings, w.code ≠ "unmatched-media".toList)
    (hsecond : mediaKeyword <+: second) :
    ∃ behind whole, read .beforeMedia second = .ok behind ∧
      read .beforeMedia (first ++ second) = .ok whole ∧
      whole.base = source.base ∧ whole.blocks = source.blocks ++ behind.blocks ∧
      (MediaFree first → whole.base = first ∧ whole.blocks = behind.blocks) := by
  cases hread
  have hbase : (ofText (first ++ second)).base = (ofText first).base :=
    base_ofText_append hsecond
  have hblocks := blocks_ofText_append hsecond (mediaFree_of_mem_gaps hnone)
  refine ⟨_, _, rfl, rfl, hbase, hblocks, fun hfree => ?_⟩
  rw [ofText_of_mediaFree hfree] at hbase hblocks
  exact ⟨hbase, hblocks⟩

/-- The block `@media p`, with an empty group in its body. -/
def printed : MediaBlock := ⟨mediaKeyword ++ [' ', 'p'], ['{', '}']⟩

theorem wellFormed_printed : printed.WellFormed :=
  ⟨⟨[' ', 'p'], by decide, by decide, rfl⟩, ⟨[⟨[], [], .nil, .nil⟩], [], .nil⟩, rfl⟩

/-- A text before this block, and a brace behind it, which is reported but has no `@media`. -/
def surrounded : Text := ['x'] ++ (printed.text ++ ['}'])

theorem ofText_surrounded : ofText surrounded = ⟨['x'], [([], printed)], ['}']⟩ := by
  have hbreak : Text.breakOn mediaKeyword surrounded = (['x'], printed.text ++ ['}']) :=
    MediaFree.breakOn_append (by decide)
      (wellFormed_printed.keyword_prefix.trans (List.prefix_append _ _))
  have hcut : cut (printed.text ++ ['}']) = ([([], printed)], ['}']) := by
    have hbrace : '@' ∉ ['}'] := by decide
    have hgap := cut_gap_append List.not_mem_nil wellFormed_printed ['}']
    rwa [cut_gap hbrace] at hgap
  rw [ofText, hbreak]
  simp only [hcut]

theorem read_append_surrounded :
    read .beforeMedia surrounded = .ok ⟨['x'], [([], printed)], ['}']⟩ ∧
      (∀ w ∈ (⟨['x'], [([], printed)], ['}']⟩ : Source).warnings,
        w.code ≠ "unmatched-media".toList) ∧
      mediaKeyword <+: printed.text ∧
      ∃ behind whole, read .beforeMedia printed.text = .ok behind ∧
        read .beforeMedia (surrounded ++ printed.text) = .ok whole ∧
        whole.base = ['x'] ∧ whole.blocks = [printed] ++ behind.blocks ∧
        (MediaFree surrounded → whole.base = surrounded ∧ whole.blocks = behind.blocks) := by
  have hread : read .beforeMedia surrounded = .ok ⟨['x'], [([], printed)], ['}']⟩ :=
    congrArg Except.ok ofText_surrounded
  have hnone : ∀ w ∈ (⟨['x'], [([], printed)], ['}']⟩ : Source).warnings,
      w.code ≠ "unmatched-media".toList := by decide
  have hsecond : mediaKeyword <+: printed.text := wellFormed_printed.keyword_prefix
  exact ⟨hread, hnone, hsecond, read_append hread hnone hsecond⟩

end Source

end MediaCascade
