import MediaCascade.Proofs.Stylesheet.WrittenForm

/-!
# The layout of a text does not matter

A text writes a style sheet if it writes its base rules and then its media contexts, in their order,
with whatever blanks and blank segments (`Stylesheet.WrittenAs`). The printer is one way to do so.

* `Stylesheet.WellFormed` says what has to hold of the parts of a style sheet.
* `Stylesheet.WrittenAs.ofText_eq`: a text that writes a well formed style sheet is read as that
  style sheet, without a warning.

Blanks have no `@`, so that the first `@media` of such a text is that of the first header; what is
before it belongs to the base rules, and what is between two blocks is skipped without a word.
-/

namespace MediaCascade

/-! ## 1. Media contexts -/

/-- A media context that can be written and read back: its header is longer than the keyword, and
    its rules are complete and distinct. -/
structure CompleteContext (c : Text × Block) : Prop where
  header : IsHeader c.1
  longer : c.1 ≠ mediaKeyword
  rules : ∀ rule ∈ c.2.entries, CompleteRule rule
  distinct : c.2.keys.Nodup

/-- **A written media context is a block behind blanks**, and the rules of the block are read as
    those of the context. -/
theorem WritesContext.exists_block {c : Text × Block} {s : Text} (h : WritesContext c s)
    (hc : CompleteContext c) :
    ∃ lead, ∃ b : MediaBlock, Text.Blank lead ∧ s = lead ++ b.text ∧ b.WellFormed ∧
      b.context = c.1 ∧ Block.addRules c.1 .empty (innerRules b.body) = (c.2, []) := by
  obtain ⟨header, body, ⟨lead, behind, hlead, hbehind, rfl⟩, hbody, rfl⟩ := h
  obtain ⟨query, hquery⟩ := hc.header.keyword
  obtain ⟨f, hf, _⟩ := hbody.exists_flatBody hc.rules
  have hne : query ≠ [] := by
    rintro rfl
    exact hc.longer (by rw [← hquery, List.append_nil])
  have hopening : '{' ∉ query ++ behind := by
    have hq : '{' ∉ query := fun hm => hc.header.no_opening (hquery ▸ List.mem_append_right _ hm)
    simp [hq, hbehind.not_mem (c := '{') (by decide)]
  refine ⟨lead, ⟨c.1 ++ behind, body⟩, hlead, by simp [MediaBlock.text], ⟨?_, f, hf⟩, ?_,
    hbody.addRules_innerRules hc.rules hc.distinct c.1⟩
  · exact ⟨query ++ behind, List.append_ne_nil_of_left_ne_nil hne _, hopening, by
      rw [← List.append_assoc, hquery]⟩
  · exact (Text.trimEnd_append_of_blank hbehind c.1).trans
      (Text.trimEnd_of_getLast hc.header.trimmed)

namespace Listing

variable {media : List (Text × Block)} {s : Text} (h : Listing WritesContext media s)
include h

/-- The blanks before the first header can be cut off. -/
theorem exists_lead (hheaders : ∀ c ∈ media, IsHeader c.1) :
    ∃ lead t, Text.Blank lead ∧ s = lead ++ t ∧ Listing WritesContext media t ∧
      (t = [] ∨ mediaKeyword <+: t) := by
  cases h with
  | nil hs => exact ⟨s, [], hs, (List.append_nil s).symm, .nil Text.blank_nil, .inl rfl⟩
  | @cons c rest s t hc hrest =>
    obtain ⟨header, body, ⟨lead, behind, hlead, hbehind, rfl⟩, hbody, rfl⟩ := hc
    have hpadded : Text.Padded c.1 (c.1 ++ behind) :=
      ⟨[], behind, Text.blank_nil, hbehind, rfl⟩
    refine ⟨lead, _, hlead, ?_, .cons ⟨c.1 ++ behind, body, hpadded, hbody, rfl⟩ hrest, .inr ?_⟩
    · simp
    · simp only [List.append_assoc]
      exact (hheaders c List.mem_cons_self).keyword.trans (List.prefix_append _ _)

/-- **Written media contexts are found one after the other**, with blanks between them, and stored
    behind those that are there. -/
theorem exists_cut (hmedia : ∀ c ∈ media, CompleteContext c) :
    ∃ sections rest, Source.cut s = (sections, rest) ∧ (∀ part ∈ sections, Text.Blank part.1) ∧
      Text.Blank rest ∧ ∀ front, ((front ++ media).map Prod.fst).Nodup →
        walk Stylesheet.addMediaBlock ⟨⟨front⟩⟩ (sections.map Prod.snd) =
          (⟨⟨front ++ media⟩⟩, []) := by
  induction h with
  | @nil s hs =>
    refine ⟨[], s, Source.cut_gap (hs.not_mem (by decide)), fun _ hp => ?_, hs, fun front _ => ?_⟩
    · exact absurd hp List.not_mem_nil
    · rw [List.append_nil]
      rfl
  | @cons c more s t hc _ ih =>
    have hcomplete := hmedia c List.mem_cons_self
    obtain ⟨lead, b, hlead, rfl, hb, hcontext, hread⟩ := hc.exists_block hcomplete
    obtain ⟨sections, rest, hcut, hblank, hrest, hlater⟩ := ih fun d hd =>
      hmedia d (List.mem_cons_of_mem _ hd)
    refine ⟨(lead, b) :: sections, rest, ?_, List.forall_mem_cons.mpr ⟨hlead, hblank⟩, hrest,
      fun front hn => ?_⟩
    · rw [List.append_assoc, Source.cut_gap_append (hlead.not_mem (by decide)) hb, hcut]
    · have hnew : c.1 ∉ front.map Prod.fst := (OrderedMap.not_mem_of_nodup hn).1
      have hinsert : OrderedMap.insert ⟨front⟩ c.1 c.2 = ⟨front ++ [c]⟩ :=
        OrderedMap.insert_of_not_mem hnew c.2
      have hnone : (⟨⟨front⟩⟩ : Stylesheet).hasContext c.1 = false := by
        rw [Bool.eq_false_iff]
        exact fun hm => hnew ((OrderedMap.contains_iff ⟨front⟩ c.1).mp hm)
      have hhere : Stylesheet.addMediaBlock ⟨⟨front⟩⟩ b = (⟨⟨front ++ [c]⟩⟩, []) := by
        rw [Stylesheet.addMediaBlock, hcontext, hread, hnone]
        simp only [hinsert]
        rfl
      have hlast := hlater (front ++ [c]) (by simpa using hn)
      rw [List.map_cons, walk_cons, hhere]
      simp only
      rw [hlast, List.append_assoc]
      rfl

end Listing

namespace Stylesheet

/-! ## 2. Style sheets -/

/-- The text writes the style sheet: the rules of the base context, and behind them the media
    contexts. -/
def WrittenAs (s : Stylesheet) (text : Text) : Prop :=
  ∃ base media rules contexts, s = ⟨⟨(baseKey, base) :: media⟩⟩ ∧
    Listing WritesRule base.entries rules ∧ Listing WritesContext media contexts ∧
    text = rules ++ contexts

/-- What a style sheet needs to be read back from its text: it is tidy, no rule is empty, and each
    header is longer than `@media`. -/
structure WellFormed (s : Stylesheet) : Prop extends Tidy s where
  full : ∀ context ∈ s.contexts.entries, context.2.Full
  longer : ∀ context ∈ s.mediaKeys, mediaKeyword.length < context.length

instance (s : Stylesheet) : Decidable s.WellFormed :=
  decidable_of_iff (s.Tidy ∧ (∀ context ∈ s.contexts.entries, context.2.Full) ∧
      ∀ context ∈ s.mediaKeys, mediaKeyword.length < context.length)
    ⟨fun ⟨ht, hf, hl⟩ => ⟨ht, hf, hl⟩, fun h => ⟨h.toTidy, h.full, h.longer⟩⟩

/-- The rules of a tidy style sheet without empty rules are complete. -/
theorem Tidy.completeRule {s : Stylesheet} (h : s.Tidy)
    (hfull : ∀ c ∈ s.contexts.entries, c.2.Full) :
    ∀ c ∈ s.contexts.entries, ∀ rule ∈ c.2.entries, CompleteRule rule := by
  intro c hc rule hrule
  refine ⟨h.rules c hc rule hrule, ?_, h.valid.properties_nodup c hc rule hrule⟩
  intro hnil
  have hempty := (OrderedMap.isEmpty_iff rule.2).mpr hnil
  rw [hfull c hc rule hrule] at hempty
  cases hempty

/-- Blanks before and behind the blocks of a source are skipped without a warning. -/
theorem warnings_of_blank (base : Text) {rest : Text} {sections : List (Text × MediaBlock)}
    (hsections : ∀ part ∈ sections, Text.Blank part.1) (hrest : Text.Blank rest) :
    (⟨base, sections, rest⟩ : Source).warnings = [] := by
  rw [Source.warnings, List.filterMap_eq_nil_iff]
  intro gap hgap
  rw [Source.gapWarning?_eq_none_iff]
  rcases List.mem_append.mp hgap with hgap | hgap
  · obtain ⟨part, hpart, rfl⟩ := List.mem_map.mp hgap
    exact hsections part hpart
  · rw [List.mem_singleton.mp hgap]
    exact hrest

/-- The media contexts of a well formed style sheet can be written and read back. -/
theorem WellFormed.completeContext {base : Block} {media : List (Text × Block)}
    (h : (⟨⟨(baseKey, base) :: media⟩⟩ : Stylesheet).WellFormed) :
    ∀ c ∈ media, CompleteContext c := by
  intro c hc
  have hmem : c ∈ (baseKey, base) :: media := List.mem_cons_of_mem _ hc
  have hkey : c.1 ∈ (⟨⟨(baseKey, base) :: media⟩⟩ : Stylesheet).mediaKeys :=
    List.mem_map_of_mem hc
  refine ⟨h.headers _ hkey, fun hbare => ?_, h.toTidy.completeRule h.full c hmem,
    h.valid.selectors_nodup c hmem⟩
  have hlonger := h.longer _ hkey
  rw [hbare] at hlonger
  exact Nat.lt_irrefl _ hlonger

/-- **A text is read as the style sheet that it writes**, without a warning. -/
theorem WrittenAs.ofText_eq {s : Stylesheet} {text : Text} (h : s.WrittenAs text)
    (hs : s.WellFormed) : ofText text = (s, []) := by
  obtain ⟨base, media, rules, contexts, rfl, hrules, hcontexts, rfl⟩ := h
  have hcomplete := hs.completeContext
  have hbaseRules : ∀ rule ∈ base.entries, CompleteRule rule :=
    hs.toTidy.completeRule hs.full _ List.mem_cons_self
  have hfree : ∀ rule ∈ base.entries, MediaFreeRule rule := baseBlock_mk base media ▸ hs.base_free
  obtain ⟨lead, t, hlead, rfl, ht, hstart⟩ := hcontexts.exists_lead fun c hc =>
    (hcomplete c hc).header
  obtain ⟨sections, rest, hcut, hblank, hrest, hwalk⟩ := ht.exists_cut hcomplete
  -- the blanks before the first header belong to the base text
  have hbase := hrules.append_blank hlead
  have hbreak : Text.breakOn mediaKeyword (rules ++ (lead ++ t)) = (rules ++ lead, t) := by
    rw [← List.append_assoc]
    rcases hstart with rfl | hstart
    · rw [List.append_nil, (hbase.mediaFree hfree).breakOn_self]
    · exact (hbase.mediaFree hfree).breakOn_append hstart
  have hread := hbase.addRules_baseRules hbaseRules (hs.valid.selectors_nodup _ List.mem_cons_self)
    baseKey
  have hmedia := hwalk [(baseKey, base)] hs.valid.contexts_nodup
  have hwarnings := warnings_of_blank (rules ++ lead) hblank hrest
  rw [ofText, Source.ofText, hbreak, hcut, ofSource, hwarnings, hread]
  simp only [Source.blocks, hmedia]
  rfl

end Stylesheet

end MediaCascade
