import MediaCascade.Proofs.Counting
import MediaCascade.Proofs.Stylesheet.Layout
import MediaCascade.Proofs.Stylesheet.Regions

/-!
# How often `@media` stands in a style sheet

The occurrences of `@media` in the parts of a style sheet: its headers, selectors, properties and
values (`sheetCount`). They come from the source, and go to the text that is written:

* `Stylesheet.sheetCount_ofText_le`: what is read has no more than its source, less those in the
  texts that are skipped. Parts come from places of the source that do not overlap.
* `Stylesheet.sheetCount_simplify_le`: the transforms add none.
* `Stylesheet.mediaCount_render_le`: writing adds none, since what is written between two parts has
  no character of `@media`.
-/

namespace MediaCascade

/-! ## 1. The parts of a style sheet -/

/-- The occurrences in a declaration. -/
def declarationCount (d : Text × Text) : Nat := mediaCount d.1 + mediaCount d.2

/-- The occurrences in a rule. -/
def ruleCount (rule : Text × Declarations) : Nat :=
  mediaCount rule.1 + total declarationCount rule.2.entries

/-- The occurrences in a context. -/
def contextCount (c : Text × Block) : Nat := mediaCount c.1 + total ruleCount c.2.entries

/-- The occurrences in a style sheet. -/
def sheetCount (s : Stylesheet) : Nat := total contextCount s.contexts.entries

theorem declarationCount_mk (property value : Text) :
    declarationCount (property, value) = mediaCount property + mediaCount value := rfl

theorem ruleCount_mk (selector : Text) (declarations : Declarations) :
    ruleCount (selector, declarations) =
      mediaCount selector + total declarationCount declarations.entries := rfl

theorem contextCount_mk (context : Text) (b : Block) :
    contextCount (context, b) = mediaCount context + total ruleCount b.entries := rfl

theorem MediaFreeRule.ruleCount_eq {rule : Text × Declarations} (h : MediaFreeRule rule) :
    ruleCount rule = 0 := by
  have hselector := (mediaCount_eq_zero_iff rule.1).mpr h.selector
  have hdeclarations : total declarationCount rule.2.entries = 0 := by
    refine total_eq_zero fun d hd => ?_
    rw [declarationCount, (mediaCount_eq_zero_iff _).mpr (h.properties d hd),
      (mediaCount_eq_zero_iff _).mpr (h.values d hd)]
  rw [ruleCount, hselector, hdeclarations]

/-! ## 2. Reading -/

theorem declarationCount_le_of_segment {s property value : Text}
    (h : Segment.ofText s = .declaration property value) :
    declarationCount (property, value) ≤ mediaCount s := by
  obtain ⟨x, y, _, rfl, rfl, rfl, _⟩ := (Segment.ofText_eq_declaration_iff _ _ _).mp h
  have hx := mediaCount_trim_le x
  have hy := mediaCount_trim_le y
  rw [mediaCount_append_cons (by decide), declarationCount_mk]
  omega

/-- **The declarations of a body have no more than the body.** -/
theorem Declarations.total_ofText_le (body : Text) :
    total declarationCount (Declarations.ofText body).entries ≤ mediaCount body := by
  have hpieces : total declarationCount ((segments body).filterMap Segment.declaration?) ≤
      total mediaCount (body.splitOn ';') := by
    rw [segments, List.filterMap_map]
    refine total_filterMap_le fun text _ d hd => ?_
    exact declarationCount_le_of_segment (Segment.eq_of_declaration? hd)
  calc total declarationCount (Declarations.ofText body).entries
    _ ≤ total declarationCount ((segments body).filterMap Segment.declaration?) :=
      OrderedMap.total_ofList_le declarationCount _
    _ ≤ total mediaCount (body.splitOn ';') := hpieces
    _ = mediaCount body := total_mediaCount_splitOn (by decide) body

/-- **A rule has no more than the group it is read from.** -/
theorem ruleCount_le_of_group {g : Group} {rule : Text × Declarations}
    (h : (RawRule.ofText g.text).binding? = some rule) : ruleCount rule ≤ mediaCount g.text := by
  obtain ⟨body, hread, hbody⟩ := RawRule.exists_of_binding? h
  obtain ⟨_, hselector, htrim⟩ := (RawRule.ofText_group_eq_rule_iff g _ _).mp hread
  have hbefore : mediaCount rule.1 ≤ mediaCount g.before := hselector ▸ mediaCount_trim_le _
  have hinside : mediaCount body ≤ mediaCount g.inside := htrim ▸ mediaCount_trim_le _
  have hdeclarations : total declarationCount rule.2.entries ≤ mediaCount body :=
    hbody ▸ Declarations.total_ofText_le body
  have htext : mediaCount g.text = mediaCount g.before + mediaCount g.inside := by
    rw [Group.text, List.append_assoc, List.cons_append, mediaCount_append_cons (by decide),
      mediaCount_append_cons (by decide), mediaCount_nil, Nat.add_zero]
  rw [ruleCount]
  omega

/-- The rules of a flat body have no more than the body. -/
theorem Block.total_innerRules_le (f : FlatBody) :
    total ruleCount (ofRules (innerRules f.text)).entries ≤ mediaCount f.text := by
  have hgroups : total mediaCount (f.groups.map Group.text) ≤ mediaCount f.text := by
    have hflat := total_mediaCount_le_flatMap Group.text f.groups
    have happend := mediaCount_append_le (f.groups.flatMap Group.text) f.tail
    rw [total_map, FlatBody.text]
    omega
  have hrules : total ruleCount ((f.groups.map Group.text).filterMap
      fun raw => (RawRule.ofText raw).binding?) ≤ total mediaCount (f.groups.map Group.text) := by
    refine total_filterMap_le fun raw hraw rule hrule => ?_
    obtain ⟨g, _, rfl⟩ := List.mem_map.mp hraw
    exact ruleCount_le_of_group hrule
  rw [ofRules_innerRules, ofRules]
  exact Nat.le_trans (OrderedMap.total_ofList_le ruleCount _) (Nat.le_trans hrules hgroups)

/-- **A context has no more than the media block it is read from.** -/
theorem contextCount_le_of_block {b : MediaBlock} (hb : b.WellFormed) :
    contextCount (b.context, Block.ofRules (innerRules b.body)) ≤ mediaCount b.text := by
  obtain ⟨f, hf⟩ := hb.body
  have hheader : mediaCount b.context ≤ mediaCount b.header :=
    mediaCount_le_of_infix (Text.trimEnd_prefix_self b.header).isInfix
  have hbody : total ruleCount (Block.ofRules (innerRules b.body)).entries ≤ mediaCount b.body :=
    hf ▸ Block.total_innerRules_le f
  have htext : mediaCount b.text = mediaCount b.header + mediaCount b.body := by
    rw [MediaBlock.text, List.append_assoc, List.cons_append, mediaCount_append_cons (by decide),
      mediaCount_append_cons (by decide), mediaCount_nil, Nat.add_zero]
  rw [contextCount_mk]
  omega

namespace Source

/-- The parts of a source have no more than its text. -/
theorem total_gaps_le (source : Source) :
    total mediaCount source.gaps + total (fun b => mediaCount b.text) source.blocks ≤
      mediaCount source.text := by
  have hsections : total mediaCount (source.sections.map Prod.fst) +
      total (fun b => mediaCount b.text) source.blocks ≤
        mediaCount (source.sections.flatMap fun part => part.1 ++ part.2.text) := by
    rw [blocks]
    induction source.sections with
    | nil => exact Nat.le_refl 0
    | cons part rest ih =>
      have hpart := mediaCount_append_le part.1 part.2.text
      have happend := mediaCount_append_le (part.1 ++ part.2.text)
        (rest.flatMap fun part => part.1 ++ part.2.text)
      rw [List.map_cons, List.map_cons, total_cons, total_cons, List.flatMap_cons]
      omega
  have hbase := mediaCount_append_le source.base
    (source.sections.flatMap fun part => part.1 ++ part.2.text)
  have hrest := mediaCount_append_le
    (source.base ++ source.sections.flatMap fun part => part.1 ++ part.2.text) source.rest
  rw [gaps, total_append, total_cons, total_nil, text]
  omega

end Source

namespace Stylesheet

/-- The base context has none. -/
theorem contextCount_base {base : Text} (h : MediaFree base) :
    contextCount (baseKey, Block.ofRules (baseRules base)) = 0 := by
  have hrules : total ruleCount (Block.ofRules (baseRules base)).entries = 0 :=
    total_eq_zero fun rule hrule =>
      ((tidyRule_of_mem_baseRules hrule).2.mediaFreeRule h).ruleCount_eq
  have hname : mediaCount baseKey = 0 := by decide
  rw [contextCount_mk, hname, hrules]

/-- **What is read has no more than its source**, less those in the texts that are skipped. -/
theorem sheetCount_ofText_le (css : Text) :
    sheetCount (ofText css).1 + total mediaCount (Source.ofText css).gaps ≤ mediaCount css := by
  have hblocks : total contextCount ((Source.ofText css).blocks.map
      fun b => (b.context, Block.ofRules (innerRules b.body))) ≤
        total (fun b => mediaCount b.text) (Source.ofText css).blocks := by
    rw [total_map]
    exact total_le_total fun b hb => contextCount_le_of_block (Source.wellFormed_of_mem_blocks hb)
  have hbase : contextCount (baseKey, Block.ofRules (baseRules (Source.ofText css).base)) = 0 :=
    contextCount_base (mediaFree_breakOn css)
  have hinsert := OrderedMap.total_insertAll_le contextCount
    ⟨[(baseKey, Block.ofRules (baseRules (Source.ofText css).base))]⟩
    ((Source.ofText css).blocks.map fun b => (b.context, Block.ofRules (innerRules b.body)))
  have hsource := (Source.ofText css).total_gaps_le
  rw [Source.text_ofText] at hsource
  rw [← contexts_ofSource, total_cons, total_nil, hbase] at hinsert
  rw [ofText, sheetCount]
  omega

/-! ## 3. The transforms -/

theorem total_without_le (b given : Block) :
    total ruleCount (b.without given).entries ≤ total ruleCount b.entries := by
  rw [Block.without, total_map]
  refine total_le_total fun rule _ => ?_
  rw [ruleCount_mk, ruleCount, Block.keepNew]
  exact Nat.add_le_add_left (total_filter_le declarationCount _ rule.2.entries) _

theorem total_dedupeAfter_le (origin : Origin) (given : Block) (media : List (Text × Block)) :
    total contextCount (dedupeAfter origin given media).1 ≤ total contextCount media := by
  induction media generalizing origin given with
  | nil => exact Nat.le_refl 0
  | cons c rest ih =>
    have hhere := total_without_le c.2 given
    have hlater := ih .previous (c.2.without given)
    rw [dedupeAfter, total_cons, total_cons, contextCount_mk, contextCount]
    omega

/-- **The transforms add none.** -/
theorem sheetCount_simplify_le {s : Stylesheet} (hs : s.Valid) :
    sheetCount s.simplify.1 ≤ sheetCount s := by
  obtain ⟨base, media, rfl⟩ := hs.exists_eq
  have hdedupe := total_dedupeAfter_le .base base media
  rw [simplify_eq hs, sheetCount, sheetCount]
  calc total contextCount (((baseKey, base) :: (dedupeAfter .base base media).1).map
        fun c => (c.1, c.2.pruned))
    _ ≤ total contextCount ((baseKey, base) :: (dedupeAfter .base base media).1) := by
      rw [total_map]
      refine total_le_total fun c _ => ?_
      rw [contextCount_mk, contextCount, Block.pruned]
      exact Nat.add_le_add_left (total_filter_le ruleCount _ c.2.entries) _
    _ ≤ total contextCount ((baseKey, base) :: media) := by
      rw [total_cons, total_cons]
      exact Nat.add_le_add_left hdedupe _

end Stylesheet

/-! ## 4. Writing -/

/-- Between the parts of a declaration stands no character of `@media`. -/
theorem mediaCount_linesOf (entries : List (Text × Text)) :
    mediaCount (linesOf entries) = total declarationCount entries := by
  induction entries with
  | nil => rfl
  | cons d rest ih =>
    rw [linesOf_cons, mediaCount_append_cons (by decide), mediaCount_append_cons (by decide),
      mediaCount_blank_append blank_lineLead, mediaCount_cons_of_not_mem (by decide), ih,
      total_cons, declarationCount]

/-- Nor between the parts of a rule. -/
theorem mediaCount_renderRule {indent : Text} (hindent : Text.Blank indent)
    (rule : Text × Declarations) :
    mediaCount (renderRule indent rule.1 rule.2) = ruleCount rule := by
  have hinner : mediaCount rule.2.innerText = total declarationCount rule.2.entries := by
    have hend : mediaCount indentation = 0 := by decide
    rw [Declarations.innerText, lineLead, mediaCount_append_cons (by decide), mediaCount_linesOf,
      hend, Nat.add_zero]
  have htext : renderRule indent rule.1 rule.2 =
      indent ++ (rule.1 ++ ' ' :: '{' :: (rule.2.innerText ++ '}' :: [])) := by
    rw [renderRule_eq]
    simp
  rw [htext, mediaCount_blank_append hindent, mediaCount_append_cons (by decide),
    mediaCount_cons_of_not_mem (by decide), mediaCount_append_cons (by decide), hinner,
    mediaCount_nil, Nat.add_zero, ruleCount]

/-- Nor between parts with an empty line between them. -/
theorem mediaCount_joinWith (parts : List Text) :
    mediaCount (Text.joinWith ['\n', '\n'] parts) = total mediaCount parts := by
  induction parts with
  | nil => rfl
  | cons p rest ih =>
    cases rest with
    | nil => rw [Text.joinWith_singleton, total_cons, total_nil, Nat.add_zero]
    | cons q more =>
      rw [Text.joinWith_cons_cons, List.append_assoc, List.cons_append, List.cons_append,
        mediaCount_append_cons (by decide), mediaCount_cons_of_not_mem (by decide),
        List.nil_append, ih, total_cons mediaCount p]

theorem mediaCount_renderBlock {indent : Text} (hindent : Text.Blank indent) (b : Block) :
    mediaCount (renderBlock indent b) = total ruleCount b.entries := by
  have hrules : (fun rule : Text × Declarations =>
      mediaCount (renderRule indent rule.1 rule.2)) = ruleCount :=
    funext fun rule => mediaCount_renderRule hindent rule
  rw [renderBlock, mediaCount_joinWith, total_map, hrules]

theorem mediaCount_renderContext_le (context : Text) (b : Block) :
    mediaCount (renderContext context b) ≤ contextCount (context, b) := by
  rw [renderContext, contextCount_mk]
  split
  · rw [mediaCount_renderBlock Text.blank_nil]
    omega
  · have hname := mediaCount_trim_le context
    have htext : Text.trim context ++ ['{', '\n'] ++ renderBlock indentation b ++ ['\n', '}'] =
        Text.trim context ++ '{' :: '\n' :: (renderBlock indentation b ++ '\n' :: '}' :: []) := by
      simp
    rw [htext, mediaCount_append_cons (by decide), mediaCount_cons_of_not_mem (by decide),
      mediaCount_append_cons (by decide), mediaCount_renderBlock blank_indentation,
      mediaCount_cons_of_not_mem (by decide), mediaCount_nil]
    omega

/-- **Writing adds none.** -/
theorem Stylesheet.mediaCount_render_le (s : Stylesheet) : mediaCount s.render ≤ sheetCount s := by
  have hcontexts : total mediaCount (s.contexts.entries.map fun c => renderContext c.1 c.2) ≤
      sheetCount s := by
    rw [total_map, sheetCount]
    exact total_le_total fun c _ => mediaCount_renderContext_le c.1 c.2
  have hsections : total mediaCount s.sections =
      total mediaCount (s.contexts.entries.map fun c => renderContext c.1 c.2) := by
    rw [sections]
    split
    · next media h => rw [h, total_cons, mediaCount_nil, Nat.zero_add]
    · rfl
  have hrender : mediaCount s.render = total mediaCount s.sections := by
    rw [render, mediaCount_append_cons (by decide), mediaCount_joinWith, mediaCount_nil,
      Nat.add_zero]
  omega

end MediaCascade
