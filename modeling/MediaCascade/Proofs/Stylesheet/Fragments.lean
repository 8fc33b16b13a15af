import MediaCascade.Proofs.Source.StoredRules
import MediaCascade.Proofs.Stylesheet.Quotation

/-!
# What warnings quote

A warning may quote a text (`Warning.fragment?`). What it quotes stands in the source, with one
exception: of the text behind the last closing brace of the base text, the raw rule has a closing
brace that is not in the source, and if this raw rule is refused, it is quoted with the brace.

* `Block.quotedFrom_or_of_mem_addRule`: what the warnings about a raw rule quote.
* `Stylesheet.fragments_read`: what all warnings about a text quote, and for which texts all of it
  stands there.
-/

namespace MediaCascade

/-- What a warning quotes stands in `css`. -/
def Warning.QuotedFrom (css : Text) (w : Warning) : Prop :=
  ∀ fragment ∈ w.fragment?, fragment <:+: css

theorem Warning.QuotedFrom.mono {source css : Text} {w : Warning} (h : w.QuotedFrom source)
    (hin : source <:+: css) : w.QuotedFrom css :=
  fun fragment hfragment => (h fragment hfragment).trans hin

/-- A warning without a fragment quotes nothing. -/
theorem Warning.QuotedFrom.of_none {css : Text} {w : Warning} (h : w.fragment? = none) :
    w.QuotedFrom css := by
  intro fragment hfragment
  rw [h] at hfragment
  cases hfragment

/-- The warning that the raw rule `piece` with a brace behind it is neither residue nor a rule. It
    quotes the raw rule, brace included. -/
structure Warning.Refuses (context piece : Text) (w : Warning) : Prop where
  code : w.code = "malformed-rule".toList
  context : w.context? = some context
  fragment : w.fragment? = some (Text.trimStart piece ++ ['}'])
  not_blank : ¬ Text.Blank piece
  not_rule : ¬ WellFormedRule (piece ++ ['}'])

/-! ## 1. Declarations -/

/-- A malformed segment is reported as it is. -/
theorem Segment.eq_of_malformed {s text : Text} (h : ofText s = .malformed text) : text = s := by
  rw [ofText] at h
  split at h
  · cases h
  · split at h
    · cases h
      rfl
    · simp only at h
      split at h
      · cases h
        rfl
      · cases h

/-- **Malformed declarations are quoted from their body.** -/
theorem quotedFrom_of_mem_declarationWarnings {context selector : Option Text} {body : Text}
    {w : Warning} (h : w ∈ declarationWarnings context selector body) : w.QuotedFrom body := by
  obtain ⟨segment, hsegment, hw⟩ := List.mem_filterMap.mp h
  obtain ⟨s, hs, rfl⟩ := List.mem_map.mp hsegment
  cases hread : Segment.ofText s with
  | blank =>
    rw [hread] at hw
    cases hw
  | malformed text =>
    rw [hread] at hw
    cases hw
    intro fragment hfragment
    cases hfragment
    rw [Segment.eq_of_malformed hread]
    exact (of_mem_splitOn hs).2
  | declaration property value =>
    rw [hread] at hw
    cases hw

/-! ## 2. Raw rules -/

/-- A text with a closing brace behind it is residue if and only if it is blank. -/
theorem isResidue_append_closing_iff (piece : Text) :
    IsResidue (piece ++ ['}']) ↔ Text.Blank piece := by
  rw [IsResidue, Text.trim_append_singleton (by decide)]
  refine Iff.trans ?_ (Text.trimStart_eq_nil_iff piece)
  simp

/-- The body of a well formed raw rule stands before its closing brace. -/
theorem ruleBody_isInfix {piece : Text} (hp : '}' ∉ piece) (h : WellFormedRule (piece ++ ['}'])) :
    ruleBody (piece ++ ['}']) <:+: piece := by
  have hread := RawRule.ofText_of_wellFormed h
  obtain ⟨g, hg⟩ := RawRule.exists_group_of_rule hp hread
  have hparts : g.before ++ '{' :: g.inside = piece := List.append_cancel_right hg
  have hinside : g.inside <:+: piece :=
    hparts ▸ ((List.suffix_cons _ _).trans (List.suffix_append _ _)).isInfix
  rw [← hg] at hread ⊢
  obtain ⟨_, _, hbody⟩ := (RawRule.ofText_group_eq_rule_iff g _ _).mp hread
  rw [hbody]
  exact (Text.trim_isInfix _).trans hinside

namespace Block

section AddRule

variable {context piece : Text} {b : Block} {w : Warning}

/-- A raw rule that is neither residue nor a rule is refused. -/
theorem exists_addRule_refuses (context : Text) (b : Block) (hblank : ¬ Text.Blank piece)
    (hrule : ¬ WellFormedRule (piece ++ ['}'])) :
    ∃ w : Warning, addRule context b (piece ++ ['}']) = (b, [w]) ∧ w.Refuses context piece := by
  have hresidue := mt (isResidue_append_closing_iff piece).mp hblank
  obtain ⟨w, hadd, hcode, hcontext, hfragment⟩ :=
    exists_addRule_of_malformed context b hresidue hrule
  rw [Text.trim_append_singleton (by decide)] at hfragment
  exact ⟨w, hadd, hcode, hcontext, hfragment, hblank, hrule⟩

/-- **What the warnings about a raw rule quote** stands before its closing brace, unless the raw
    rule is refused as a whole. -/
theorem quotedFrom_or_of_mem_addRule (hp : '}' ∉ piece)
    (hw : w ∈ (addRule context b (piece ++ ['}'])).2) :
    w.QuotedFrom piece ∨ w.Refuses context piece := by
  rcases addRule_cases context b (piece ++ ['}']) with
    ⟨h, hadd⟩ | ⟨_, hadd⟩ | ⟨h, hresidue, _⟩
  · left
    rw [hadd] at hw
    rcases List.mem_append.mp hw with hw | hw
    · exact (quotedFrom_of_mem_declarationWarnings hw).mono (ruleBody_isInfix hp h)
    · split at hw
      · rw [List.mem_singleton.mp hw]
        exact .of_none rfl
      · cases hw
  · rw [hadd] at hw
    cases hw
  · have hblank := mt (isResidue_append_closing_iff piece).mpr hresidue
    obtain ⟨refusal, hadd, hrefuses⟩ := exists_addRule_refuses context b hblank h
    rw [hadd] at hw
    exact .inr (List.mem_singleton.mp hw ▸ hrefuses)

/-- A raw rule that stands in the source with its closing brace is quoted from there. -/
theorem quotedFrom_of_mem_addRule {css : Text} (hp : '}' ∉ piece) (hraw : piece ++ ['}'] <:+: css)
    (hw : w ∈ (addRule context b (piece ++ ['}'])).2) : w.QuotedFrom css := by
  rcases quotedFrom_or_of_mem_addRule hp hw with h | h
  · exact h.mono ((List.prefix_append _ _).isInfix.trans hraw)
  · intro fragment hfragment
    rw [h.fragment] at hfragment
    cases hfragment
    have hsuffix : Text.trimStart piece ++ ['}'] <:+ piece ++ ['}'] :=
      (List.suffix_append_inj_of_length_eq rfl).mpr ⟨Text.trimStart_suffix_self piece, rfl⟩
    exact hsuffix.isInfix.trans hraw

end AddRule

end Block

/-- **What the warnings about a media block quote stands in its body.** -/
theorem Stylesheet.quotedFrom_of_mem_addMediaBlock {s : Stylesheet} {b : MediaBlock}
    (hb : b.WellFormed) {w : Warning} (hw : w ∈ (s.addMediaBlock b).2) : w.QuotedFrom b.body := by
  obtain ⟨f, hf⟩ := hb.body
  rcases List.mem_append.mp hw with hw | hw
  · split at hw
    · rw [List.mem_singleton.mp hw]
      exact .of_none rfl
    · cases hw
  · obtain ⟨block, raw, hraw, hadd⟩ := mem_walk hw
    rw [← hf, innerRules_text] at hraw
    obtain ⟨g, hg, rfl⟩ := List.mem_map.mp hraw
    have hin : g.text <:+: b.body := hf ▸ f.text_infix_of_mem (List.mem_filter.mp hg).1
    have hclosing : '}' ∉ g.before ++ '{' :: g.inside := by
      simpa using ⟨g.before_free.closing_not_mem, g.inside_free.closing_not_mem⟩
    exact Block.quotedFrom_of_mem_addRule hclosing hin hadd

/-! ## 3. The base text -/

/-- What stands behind the last closing brace of a base text: all of it if there is none. -/
def behindLastRule (base : Text) : Text := (base.splitOn '}').getLastD []

/-- Apart from the last, the pieces of a list that is cut have a separator behind them there. -/
theorem of_mem_dropLast_splitOn {α : Type} [DecidableEq α] {sep : α} {s piece : List α}
    (h : piece ∈ (s.splitOn sep).dropLast) : piece ++ [sep] <:+: s := by
  induction hn : s.length using Nat.strongRecOn generalizing s with
  | ind n ih =>
    by_cases hs : sep ∈ s
    · obtain ⟨x, y, rfl, hx⟩ := List.eq_append_cons_of_mem hs
      have hassoc : x ++ sep :: y = (x ++ [sep]) ++ y := by simp
      have hne : y.splitOn sep ≠ [] := List.splitOnP_ne_nil _ _
      rw [List.splitOn_append_cons_self_of_not_mem hx, List.dropLast_cons_of_ne_nil hne] at h
      rw [hassoc]
      rcases List.mem_cons.mp h with rfl | h
      · exact (List.prefix_append _ _).isInfix
      · have hlt : y.length < n := by rw [← hn]; simp; omega
        exact (ih y.length hlt h rfl).trans (List.suffix_append _ _).isInfix
    · rw [List.splitOn_eq_singleton hs] at h
      cases h

/-- The pieces of a base text, the last one set apart. -/
theorem splitOn_eq_concat (base : Text) :
    base.splitOn '}' = (base.splitOn '}').dropLast ++ [behindLastRule base] := by
  have hne : base.splitOn '}' ≠ [] := List.splitOnP_ne_nil _ _
  rw [behindLastRule, List.getLastD_eq_getLast?, List.getLast?_eq_some_getLast hne,
    Option.getD_some, List.dropLast_concat_getLast]

theorem of_behindLastRule (base : Text) :
    '}' ∉ behindLastRule base ∧ behindLastRule base <:+: base := by
  refine of_mem_splitOn ?_
  rw [splitOn_eq_concat]
  exact List.mem_append_right _ (List.mem_singleton_self _)

namespace Block

/-- **What the warnings about the base rules quote** stands in the base text, unless what stands
    behind the last closing brace is refused. -/
theorem quotedFrom_or_of_mem_baseRules {base : Text} {w : Warning}
    (hw : w ∈ (addRules baseKey .empty (baseRules base)).2) :
    w.QuotedFrom base ∨ w.Refuses baseKey (behindLastRule base) := by
  obtain ⟨b, raw, hraw, hadd⟩ := mem_walk hw
  obtain ⟨piece, hpiece, rfl⟩ := List.mem_map.mp hraw
  have hclosing := (of_mem_splitOn hpiece).1
  rw [splitOn_eq_concat] at hpiece
  rcases List.mem_append.mp hpiece with hpiece | hpiece
  · exact .inl (quotedFrom_of_mem_addRule hclosing (of_mem_dropLast_splitOn hpiece) hadd)
  · rw [List.mem_singleton.mp hpiece] at hclosing hadd
    exact (quotedFrom_or_of_mem_addRule hclosing hadd).imp_left
      fun h => h.mono (of_behindLastRule base).2

/-- What stands behind the last closing brace is refused if it is neither blank nor a rule. -/
theorem exists_mem_baseRules {base : Text} (hblank : ¬ Text.Blank (behindLastRule base))
    (hrule : ¬ WellFormedRule (behindLastRule base ++ ['}'])) :
    ∃ w ∈ (addRules baseKey .empty (baseRules base)).2,
      w.Refuses baseKey (behindLastRule base) := by
  rw [addRules, baseRules, splitOn_eq_concat, List.map_append, List.map_singleton, walk_append]
  obtain ⟨w, hadd, hrefuses⟩ := exists_addRule_refuses baseKey
    (walk (addRule baseKey) .empty
      ((base.splitOn '}').dropLast.map fun piece => piece ++ ['}'])).1 hblank hrule
  refine ⟨w, List.mem_append_right _ ?_, hrefuses⟩
  rw [walk_cons, hadd]
  exact List.mem_singleton_self _

end Block

/-! ## 4. Every text -/

namespace Source

/-- **Skipped text is quoted from the source.** -/
theorem quotedFrom_of_mem_warnings {source : Source} {w : Warning} (hw : w ∈ source.warnings) :
    w.QuotedFrom source.text := by
  obtain ⟨gap, hgap, hwarning⟩ := List.mem_filterMap.mp hw
  have hin : Text.trim gap <:+: source.text :=
    (Text.trim_isInfix gap).trans (infix_of_mem_gaps hgap)
  intro fragment hfragment
  rw [gapWarning?] at hwarning
  split at hwarning
  · cases hwarning
  · split at hwarning
    · cases hwarning
      cases hfragment
      exact hin
    · cases hwarning
      cases hfragment
      exact hin

end Source

namespace Stylesheet

/-- What a warning quotes stands in the text, unless what stands behind the last closing brace of
    the base text is refused. -/
theorem quotedFrom_or_of_mem_ofText {css : Text} {w : Warning} (hw : w ∈ (ofText css).2) :
    w.QuotedFrom css ∨ w.Refuses baseKey (behindLastRule (Source.ofText css).base) := by
  rcases List.mem_append.mp hw with hw | hw
  · rcases List.mem_append.mp hw with hw | hw
    · have hquoted := Source.quotedFrom_of_mem_warnings hw
      rw [Source.text_ofText] at hquoted
      exact .inl hquoted
    · exact (Block.quotedFrom_or_of_mem_baseRules hw).imp_left
        fun h => h.mono (Source.base_infix css)
  · obtain ⟨s, b, hb, hadd⟩ := mem_walk hw
    have hblock := Source.text_infix_of_mem_blocks hb
    rw [Source.text_ofText] at hblock
    have hquoted := quotedFrom_of_mem_addMediaBlock (Source.wellFormed_of_mem_blocks hb) hadd
    exact .inl (hquoted.mono (b.body_infix.trans hblock))

/-- **What warnings quote stands in the text, with one exception.** Every text is read. What a warning
    about it quotes stands in the text, unless the warning is the one that what stands behind the
    last closing brace of the base text is refused, which quotes it with a brace behind it. So all
    that is quoted stands in the text exactly if this last piece is blank, or a rule but for its
    closing brace, or stands somewhere in the text with a brace behind it. -/
theorem fragments_read (css : Text) :
    ∃ sheet warnings, read .beforeMedia css = .ok (sheet, warnings) ∧
      let last := behindLastRule (Source.ofText css).base
      (∀ w ∈ warnings, (∀ fragment ∈ w.fragment?, fragment <:+: css) ∨ w.Refuses baseKey last) ∧
      ((∀ w ∈ warnings, ∀ fragment ∈ w.fragment?, fragment <:+: css) ↔
        Text.Blank last ∨ WellFormedRule (last ++ ['}']) ∨
          Text.trimStart last ++ ['}'] <:+: css) := by
  refine ⟨_, _, rfl, fun w hw => quotedFrom_or_of_mem_ofText hw, ?_⟩
  constructor
  · intro hall
    refine Classical.byContradiction fun hnone => ?_
    obtain ⟨hblank, hlater⟩ := not_or.mp hnone
    obtain ⟨hrule, habsent⟩ := not_or.mp hlater
    obtain ⟨w, hw, hrefuses⟩ := Block.exists_mem_baseRules hblank hrule
    have hmem : w ∈ (ofText css).2 := List.mem_append_left _ (List.mem_append_right _ hw)
    exact habsent (hall w hmem _ hrefuses.fragment)
  · intro hlast w hw
    rcases quotedFrom_or_of_mem_ofText hw with h | hrefuses
    · exact h
    · rcases hlast with hblank | hrule | hin
      · exact absurd hblank hrefuses.not_blank
      · exact absurd hrule hrefuses.not_rule
      · intro fragment hfragment
        rw [hrefuses.fragment] at hfragment
        cases hfragment
        exact hin

/-- Of the text `f`, a brace is quoted that does not stand there. -/
example : let last := behindLastRule ['f']
    ¬ (Text.Blank last ∨ WellFormedRule (last ++ ['}']) ∨
      Text.trimStart last ++ ['}'] <:+: ['f']) := by decide

end Stylesheet

end MediaCascade
