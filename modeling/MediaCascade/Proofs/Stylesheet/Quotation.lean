import MediaCascade.Cleaning
import MediaCascade.Proofs.Stylesheet.Tidy

/-!
# What a style sheet quotes from its source

Everything that is stored in a style sheet that is read stands in the source, character by
character; only the name of the base context is not taken from there.

* `Stylesheet.quotes_ofText`, `Stylesheet.Quotes.simplify`: reading stores quotations, and the
  transforms put nothing in their place.
* `Stylesheet.faithful_read_clean`: every text is read as a tidy style sheet of quotations, and
  cleaned to one in which no rule is empty.

The way from the source to a part of a style sheet is one of cutting and trimming only, so that each
step of it gives a part of what it is given.
-/

namespace MediaCascade

/-! ## 1. The parts of a source -/

namespace Source

/-- The base text stands in the source. -/
theorem base_infix (css : Text) : (ofText css).base <:+: css :=
  ⟨[], (Text.breakOn mediaKeyword css).2, Text.breakOn_append mediaKeyword css⟩

/-- A media block stands in the source. -/
theorem text_infix_of_mem_blocks {source : Source} {b : MediaBlock} (hb : b ∈ source.blocks) :
    b.text <:+: source.text := by
  obtain ⟨part, hpart, rfl⟩ := List.mem_map.mp hb
  obtain ⟨front, back, hsplit⟩ := List.append_of_mem hpart
  refine ⟨source.base ++ front.flatMap (fun part => part.1 ++ part.2.text) ++ part.1,
    back.flatMap (fun part => part.1 ++ part.2.text) ++ source.rest, ?_⟩
  rw [text, hsplit, List.flatMap_append, List.flatMap_cons]
  simp

/-- What is skipped stands in the source, too. -/
theorem infix_of_mem_gaps {source : Source} {gap : Text} (h : gap ∈ source.gaps) :
    gap <:+: source.text := by
  rcases List.mem_append.mp h with h | h
  · obtain ⟨part, hpart, rfl⟩ := List.mem_map.mp h
    obtain ⟨front, back, hsplit⟩ := List.append_of_mem hpart
    refine ⟨source.base ++ front.flatMap (fun part => part.1 ++ part.2.text),
      part.2.text ++ back.flatMap (fun part => part.1 ++ part.2.text) ++ source.rest, ?_⟩
    rw [text, hsplit, List.flatMap_append, List.flatMap_cons]
    simp
  · rw [List.mem_singleton.mp h]
    exact (List.suffix_append _ _).isInfix

end Source

/-- The name of its context stands in a media block. -/
theorem MediaBlock.context_infix (b : MediaBlock) : b.context <:+: b.text := by
  have hheader : b.header <+: b.text := by
    rw [text, List.append_assoc]
    exact List.prefix_append _ _
  exact ((Text.trimEnd_prefix_self b.header).trans hheader).isInfix

theorem MediaBlock.body_infix (b : MediaBlock) : b.body <:+: b.text :=
  ⟨b.header ++ ['{'], ['}'], by simp [text]⟩

namespace Stylesheet

/-! ## 2. Style sheets of quotations -/

/-- The names of the media contexts, and the parts of all rules, stand in `css`. -/
structure Quotes (css : Text) (s : Stylesheet) : Prop where
  names_quoted : ∀ context ∈ s.mediaKeys, context <:+: css
  rules_quoted : ∀ context ∈ s.contexts.entries, ∀ rule ∈ context.2.entries, QuotedRule css rule

/-- **What is read is quoted.** -/
theorem quotes_ofText (css : Text) : (ofText css).1.Quotes css := by
  have hblock : ∀ b ∈ (Source.ofText css).blocks, b.text <:+: css := by
    intro b hb
    have hin := Source.text_infix_of_mem_blocks hb
    rwa [Source.text_ofText] at hin
  constructor
  · intro context hcontext
    obtain ⟨b, hb, rfl⟩ := (mem_mediaKeys_ofText_iff css context).mp hcontext
    exact b.context_infix.trans (hblock b hb)
  · intro c hc rule hrule
    rcases of_mem_ofSource (.ofText css) hc with rfl | ⟨b, hb, rfl⟩
    · exact (tidyRule_of_mem_baseRules hrule).2.mono (Source.base_infix css)
    · have hquoted := (tidyRule_of_mem_innerRules (Source.wellFormed_of_mem_blocks hb) hrule).2
      exact hquoted.mono (b.body_infix.trans (hblock b hb))

/-- **What the transforms leave is quoted** if what they are given is. -/
theorem Quotes.simplify {css : Text} {s : Stylesheet} (h : s.Quotes css) (hs : s.Valid) :
    s.simplify.1.Quotes css := by
  constructor
  · rw [mediaKeys_simplify]
    exact h.names_quoted
  · intro c hc rule hrule
    obtain ⟨old, hold, _, declarations, hdeclared, hsub⟩ := exists_rule_of_mem_simplify hs hc hrule
    exact (h.rules_quoted old hold _ hdeclared).of_subset hsub

/-! ## 3. Every text -/

/-- A tidy style sheet of quotations. Its media contexts are written under the names they have, so
    that no two of them are written alike. -/
structure Faithful (css : Text) (s : Stylesheet) : Prop extends Tidy s, Quotes css s where
  names_written : s.mediaKeys.map Text.trim = s.mediaKeys

theorem Tidy.faithful {css : Text} {s : Stylesheet} (h : s.Tidy) (hq : s.Quotes css) :
    s.Faithful css := by
  refine ⟨h, hq, ?_⟩
  rw [List.map_congr_left (g := id), List.map_id]
  exact fun context hcontext => (h.headers context hcontext).trim_eq

/-- **Every text is read as a faithful style sheet, and cleaned to one without empty rules.**
    Neither fails. The only name that need not stand in the text is that of the base context, which
    is there before anything is read. -/
theorem faithful_read_clean (css : Text) :
    (∃ sheet warnings, read .beforeMedia css = .ok (sheet, warnings) ∧ sheet.Faithful css) ∧
      ∃ cleaned, Cleaned.read .beforeMedia css = .ok cleaned ∧ cleaned.sheet.Faithful css ∧
        ∀ context ∈ cleaned.sheet.contexts.entries, context.2.Full := by
  have htidy := tidy_ofText css
  have hquotes := quotes_ofText css
  refine ⟨⟨_, _, rfl, htidy.faithful hquotes⟩, clean css, rfl, ?_, ?_⟩
  · exact htidy.simplify.faithful (hquotes.simplify htidy.valid)
  · exact htidy.valid.settled_simplify.full

end Stylesheet

end MediaCascade
