import MediaCascade.Proofs.Stylesheet.Tidy

/-!
# What a context holds

The base context holds the rules of the base text, the context of a media block those of its body.
The two regions are cut into raw rules in different ways: a base text behind every closing brace, a
body at its groups with something before the brace. On a flat text this makes no difference:

* `Block.ofRules_baseRules`, `Block.ofRules_innerRules`: either way the rules that are stored are
  those of the groups. What one of the two ways hands to the reader and the other does not is never
  a rule.
* `Stylesheet.block?_media_eq_base`: the body of a media block is stored as it would be stored if it
  stood outside.
-/

namespace MediaCascade

/-! ## 1. Raw rules that are rules -/

/-- A group with nothing before its brace is no rule. -/
theorem RawRule.binding?_group_of_before {g : Group} (h : g.before = []) :
    (ofText g.text).binding? = none := by
  have hbefore : (Text.trim g.before).isEmpty = true := by rw [h]; rfl
  rw [ofText_group, hbefore, Bool.true_or, if_pos rfl]
  rfl

/-- What stands behind the last group is no rule. -/
theorem RawRule.binding?_tail {t : Text} (ht : BraceFree t) :
    (ofText (t ++ ['}'])).binding? = none := by
  rw [ofText_tail ht]
  split <;> rfl

namespace Block

/-- **A flat base text is stored as the rules of its groups.** -/
theorem ofRules_baseRules (f : FlatBody) :
    ofRules (baseRules f.text) = ofRules (f.groups.map Group.text) := by
  have hnone := RawRule.binding?_tail f.tail_free
  rw [ofRules, ofRules, baseRules_text, List.filterMap_append, List.filterMap_cons, hnone]
  exact congrArg OrderedMap.ofList (List.append_nil _)

/-- **A flat body is stored as the rules of its groups.** -/
theorem ofRules_innerRules (f : FlatBody) :
    ofRules (innerRules f.text) = ofRules (f.groups.map Group.text) := by
  rw [ofRules, ofRules, innerRules_text, FlatBody.rules]
  congr 1
  induction f.groups with
  | nil => rfl
  | cons g rest ih =>
    cases hg : g.before.isEmpty with
    | false =>
      rw [List.filter_cons_of_pos (by simp [hg]), List.map_cons, List.map_cons,
        List.filterMap_cons, List.filterMap_cons, ih]
    | true =>
      have hnone := RawRule.binding?_group_of_before (List.isEmpty_iff.mp hg)
      rw [List.filter_cons_of_neg (by simp [hg]), List.map_cons, List.filterMap_cons, hnone]
      exact ih

end Block

namespace Stylesheet

/-! ## 2. The two kinds of contexts -/

/-- **The base context holds the rules of the base text.** -/
theorem block?_baseKey_ofText (css : Text) :
    (ofText css).1.block? baseKey =
      some (Block.ofRules (baseRules (Source.ofText css).base)) := by
  rw [ofText, block?, contexts_ofSource, OrderedMap.get?_insertAll_of_not_mem]
  · exact OrderedMap.get?_cons _ _ _
  · intro h
    rw [List.map_map] at h
    obtain ⟨b, hb, hname⟩ := List.mem_map.mp h
    exact (Source.wellFormed_of_mem_blocks hb).isHeader.ne_baseKey hname

/-- **The context of a text that is one media block holds the rules of its body.** -/
theorem block?_context_ofText {b : MediaBlock} (hb : b.WellFormed) :
    (ofText b.text).1.block? b.context = some (Block.ofRules (innerRules b.body)) := by
  rw [ofText, Source.ofText_text hb, block?, contexts_ofSource]
  show (OrderedMap.insert _ b.context _).get? b.context = _
  rw [OrderedMap.get?_insert, if_pos rfl]

/-- **A body without `@media` is stored alike within a media block and outside**: the context of the
    block has the same selectors, properties and values, in the same order, as the base context of
    the body read on its own. -/
theorem block?_media_eq_base {b : MediaBlock} (hb : b.WellFormed) (hfree : MediaFree b.body) :
    ∃ block, (ofText b.body).1.block? baseKey = some block ∧
      (ofText b.text).1.block? b.context = some block := by
  obtain ⟨f, hf⟩ := hb.body
  have hbase : (Source.ofText b.body).base = b.body := by
    rw [Source.ofText, hfree.breakOn_self]
  refine ⟨Block.ofRules (f.groups.map Group.text), ?_, ?_⟩
  · rw [block?_baseKey_ofText, hbase, ← hf, Block.ofRules_baseRules]
  · rw [block?_context_ofText hb, ← hf, Block.ofRules_innerRules]

/-- A body with a group without a selector, a selector that comes twice, a rule without a body, and
    text behind the last group. -/
def mixedBody : FlatBody where
  groups := [⟨[], ['h', ':', 'i'], .nil, by decide⟩,
    ⟨[' ', 'p'], ['c', ':', 'd', ';', ';', 'e'], by decide, by decide⟩,
    ⟨['q'], [' '], by decide, by decide⟩,
    ⟨['p', ' '], ['f', ':', 'g'], by decide, by decide⟩]
  tail := ['t', ':', 'u']
  tail_free := by decide

/-- The media block `@media (x)` with this body. -/
def mixedBlock : MediaBlock := ⟨mediaKeyword ++ [' ', '(', 'x', ')'], mixedBody.text⟩

theorem block?_media_eq_base_mixed :
    mixedBlock.WellFormed ∧ MediaFree mixedBlock.body ∧
      ∃ block, (ofText mixedBlock.body).1.block? baseKey = some block ∧
        (ofText mixedBlock.text).1.block? mixedBlock.context = some block := by
  have hb : mixedBlock.WellFormed :=
    ⟨⟨[' ', '(', 'x', ')'], by decide, by decide, rfl⟩, mixedBody, rfl⟩
  have hfree : MediaFree mixedBlock.body := by decide
  exact ⟨hb, hfree, block?_media_eq_base hb hfree⟩

end Stylesheet

end MediaCascade
