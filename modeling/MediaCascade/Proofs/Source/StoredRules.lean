import MediaCascade.Proofs.Entries
import MediaCascade.Proofs.Source.Blocks
import MediaCascade.Proofs.Source.Rules

/-!
# Which raw rules are stored, and under which name

A raw rule is well formed if it has one opening brace and no other, and something that is not blank
on both its sides; a closing brace at the end does not count. This is said of the text, and not of
the way it is read.

* `RawRule.ofText_eq_rule_iff`: exactly the well formed raw rules are read as rules.
* `Block.addRule_cases`: all that adding a raw rule to a block can do. It is stored, skipped without a
  word, or dropped with one warning.
* `Block.holdsLast_ofRules`: a block of raw rules has a rule for the name of each that is well
  formed, where the name stands first, with the declarations of the one that stands last.
-/

namespace MediaCascade

/-! ## 1. Well formed raw rules -/

/-- What stands before the first opening brace of a raw rule, trimmed. -/
def ruleName (raw : Text) : Text := Text.trim (raw.takeWhile fun c => !decide (c = '{'))

/-- What stands behind it, trimmed, without a closing brace at the end. -/
def ruleBody (raw : Text) : Text :=
  Text.trim (dropClosingBrace (Text.trim (raw.dropWhile fun c => !decide (c = '{')).tail))

/-- One opening brace, with something that is not blank before it and behind it. -/
structure WellFormedRule (raw : Text) : Prop where
  one_opening : raw.count '{' = 1
  name : ruleName raw ≠ []
  body : ruleBody raw ≠ []

instance (raw : Text) : Decidable (WellFormedRule raw) :=
  decidable_of_iff (raw.count '{' = 1 ∧ ruleName raw ≠ [] ∧ ruleBody raw ≠ [])
    ⟨fun ⟨ho, hn, hb⟩ => ⟨ho, hn, hb⟩, fun h => ⟨h.one_opening, h.name, h.body⟩⟩

/-- A text with one opening brace has two sides. -/
theorem count_opening_eq_one_iff (raw : Text) :
    raw.count '{' = 1 ↔ ∃ x y, raw = x ++ '{' :: y ∧ '{' ∉ x ∧ '{' ∉ y := by
  constructor
  · intro h
    have hmem : '{' ∈ raw := List.count_pos_iff.mp (by omega)
    obtain ⟨x, y, rfl, hx⟩ := List.eq_append_cons_of_mem hmem
    rw [List.count_append, List.count_eq_zero_of_not_mem hx, List.count_cons_self] at h
    exact ⟨x, y, rfl, hx, List.count_eq_zero.mp (by omega)⟩
  · rintro ⟨x, y, rfl, hx, hy⟩
    rw [List.count_append, List.count_cons_self, List.count_eq_zero_of_not_mem hx,
      List.count_eq_zero_of_not_mem hy]

section Split

variable {x : Text} (hx : '{' ∉ x) (y : Text)
include hx

theorem ruleName_split : ruleName (x ++ '{' :: y) = Text.trim x := by
  rw [ruleName, takeWhile_opening hx]

theorem ruleBody_split :
    ruleBody (x ++ '{' :: y) = Text.trim (dropClosingBrace (Text.trim y)) := by
  rw [ruleBody, dropWhile_opening hx, List.tail_cons]

end Split

/-- Nothing, or the brace that was put behind it. -/
def IsResidue (raw : Text) : Prop := Text.trim raw = [] ∨ Text.trim raw = ['}']

namespace RawRule

/-- What is no residue is refused as a whole, or is a rule. -/
theorem ofText_cases {raw : Text} (h : ¬ IsResidue raw) :
    ofText raw = .notFlat (Text.trim raw) ∨
      (∃ selector, ofText raw = .incomplete selector (Text.trim raw)) ∨
      ∃ selector body, ofText raw = .rule selector body := by
  have hfragment : ¬ (Text.trim raw = [] ∨ Text.trim raw = ['}']) := h
  rw [ofText, if_neg hfragment]
  split
  · simp only
    split
    · exact .inr (.inl ⟨_, rfl⟩)
    · exact .inr (.inr ⟨_, _, rfl⟩)
  · exact .inl rfl

/-- **Exactly the well formed raw rules are read as rules**, by their name and their body. -/
theorem ofText_eq_rule_iff (raw name body : Text) :
    ofText raw = .rule name body ↔ WellFormedRule raw ∧ name = ruleName raw ∧ body = ruleBody raw := by
  constructor
  · intro h
    obtain ⟨x, y, rfl, hx, hy⟩ := exists_split_of_rule h
    rw [ofText_split hx hy] at h
    split at h
    · cases h
    · next hne =>
      cases h
      obtain ⟨hname, hbody⟩ := not_or.mp (mt Bool.or_eq_true_iff.mpr hne)
      rw [List.isEmpty_iff] at hname hbody
      refine ⟨⟨(count_opening_eq_one_iff _).mpr ⟨x, y, rfl, hx, hy⟩, ?_, ?_⟩, ?_, ?_⟩
      · rwa [ruleName_split hx]
      · rwa [ruleBody_split hx]
      · exact (ruleName_split hx y).symm
      · exact (ruleBody_split hx y).symm
  · rintro ⟨hraw, rfl, rfl⟩
    obtain ⟨x, y, rfl, hx, hy⟩ := (count_opening_eq_one_iff raw).mp hraw.one_opening
    have hname := hraw.name
    have hbody := hraw.body
    rw [ruleName_split hx] at hname ⊢
    rw [ruleBody_split hx] at hbody ⊢
    rw [ofText_split hx hy, if_neg (by simp [hname, hbody])]

theorem ofText_of_wellFormed {raw : Text} (h : WellFormedRule raw) :
    ofText raw = .rule (ruleName raw) (ruleBody raw) :=
  (ofText_eq_rule_iff raw _ _).mpr ⟨h, rfl, rfl⟩

/-- What is stored of a raw rule. -/
theorem binding?_ofText (raw : Text) :
    (ofText raw).binding? =
      if WellFormedRule raw then some (ruleName raw, .ofText (ruleBody raw)) else none := by
  by_cases h : WellFormedRule raw
  · rw [if_pos h, ofText_of_wellFormed h]
    rfl
  · rw [if_neg h, Option.eq_none_iff_forall_ne_some]
    intro rule hrule
    obtain ⟨body, hread, _⟩ := exists_of_binding? hrule
    exact h ((ofText_eq_rule_iff raw _ _).mp hread).1

end RawRule

/-! ## 2. Blocks of raw rules -/

/-- The names of the well formed ones among some raw rules. -/
def ruleNames (raws : List Text) : List Text :=
  (raws.filter fun raw => decide (WellFormedRule raw)).map ruleName

namespace Block

/-- What is stored of some raw rules, before repeated names are brought together. -/
theorem filterMap_binding? (raws : List Text) :
    (raws.filterMap fun raw => (RawRule.ofText raw).binding?) =
      (raws.filter fun raw => decide (WellFormedRule raw)).map fun raw =>
        (ruleName raw, Declarations.ofText (ruleBody raw)) := by
  induction raws with
  | nil => rfl
  | cons raw rest ih =>
    rw [List.filterMap_cons, RawRule.binding?_ofText, ih, List.filter_cons]
    by_cases h : WellFormedRule raw
    · rw [if_pos h, if_pos (decide_eq_true h), List.map_cons]
    · rw [if_neg h, if_neg (by simpa using h)]

/-- The selectors of a block are the names of the well formed ones among some raw rules, each in the
    place where it stands first. Its declarations are those of the raw rule that has the name
    last. -/
structure HoldsLast (raws : List Text) (b : Block) : Prop where
  selectors : b.keys = (ruleNames raws).eraseDups
  declarations : ∀ front raw back, raws = front ++ raw :: back → WellFormedRule raw →
    (∀ later ∈ back, WellFormedRule later → ruleName later ≠ ruleName raw) →
    b.get? (ruleName raw) = some (.ofText (ruleBody raw))

/-- **A repeated name keeps its first place and takes its last declarations.** -/
theorem holdsLast_ofRules (raws : List Text) : (ofRules raws).HoldsLast raws := by
  constructor
  · rw [ofRules, filterMap_binding?, OrderedMap.keys_ofList, List.map_map]
    rfl
  · intro front raw back hsplit hraw hlast
    have hback : ruleName raw ∉ ((back.filter fun raw => decide (WellFormedRule raw)).map fun raw =>
        (ruleName raw, Declarations.ofText (ruleBody raw))).map Prod.fst := by
      rw [List.map_map]
      intro hmem
      obtain ⟨later, hlater, hname⟩ := List.mem_map.mp hmem
      obtain ⟨hin, hwell⟩ := List.mem_filter.mp hlater
      exact hlast later hin (of_decide_eq_true hwell) hname
    rw [ofRules, filterMap_binding?, hsplit, List.filter_append, List.filter_cons,
      if_pos (decide_eq_true hraw), List.map_append, List.map_cons]
    exact OrderedMap.get?_insertAll_of_last hback

/-! ## 3. One raw rule more -/

section AddRule

variable (context : Text) (b : Block) {raw : Text}

/-- **A well formed raw rule is stored**, with a warning for each malformed declaration and one if
    its name is there already. -/
theorem addRule_of_wellFormed (h : WellFormedRule raw) :
    addRule context b raw =
      (b.insert (ruleName raw) (.ofText (ruleBody raw)),
        declarationWarnings (some context) (some (ruleName raw)) (ruleBody raw) ++
          if b.contains (ruleName raw) then [.duplicateSelector context (ruleName raw)] else []) := by
  rw [addRule, RawRule.ofText_of_wellFormed h]

/-- Nothing but the end of the text before is skipped without a word. -/
theorem addRule_of_isResidue (h : IsResidue raw) : addRule context b raw = (b, []) := by
  have hread : RawRule.ofText raw = .residue := if_pos h
  rw [addRule, hread]

/-- **Any other raw rule is dropped with one warning**, which quotes it trimmed. -/
theorem exists_addRule_of_malformed (hr : ¬ IsResidue raw) (h : ¬ WellFormedRule raw) :
    ∃ w : Warning, addRule context b raw = (b, [w]) ∧ w.code = "malformed-rule".toList ∧
      w.context? = some context ∧ w.fragment? = some (Text.trim raw) := by
  rcases RawRule.ofText_cases hr with hread | ⟨selector, hread⟩ | ⟨selector, body, hread⟩
  · exact ⟨_, by rw [addRule, hread], rfl, rfl, rfl⟩
  · exact ⟨_, by rw [addRule, hread], rfl, rfl, rfl⟩
  · exact absurd ((RawRule.ofText_eq_rule_iff raw _ _).mp hread).1 h

/-- **All that one raw rule more can do.** -/
theorem addRule_cases (raw : Text) :
    (WellFormedRule raw ∧ addRule context b raw =
      (b.insert (ruleName raw) (.ofText (ruleBody raw)),
        declarationWarnings (some context) (some (ruleName raw)) (ruleBody raw) ++
          if b.contains (ruleName raw) then [.duplicateSelector context (ruleName raw)] else [])) ∨
      (¬ WellFormedRule raw ∧ addRule context b raw = (b, [])) ∨
      (¬ WellFormedRule raw ∧ ¬ IsResidue raw ∧ ∃ w : Warning, addRule context b raw = (b, [w]) ∧
        w.code = "malformed-rule".toList ∧ w.context? = some context ∧
        w.fragment? = some (Text.trim raw)) := by
  by_cases h : WellFormedRule raw
  · exact .inl ⟨h, addRule_of_wellFormed context b h⟩
  · by_cases hr : IsResidue raw
    · exact .inr (.inl ⟨h, addRule_of_isResidue context b hr⟩)
    · exact .inr (.inr ⟨h, hr, exists_addRule_of_malformed context b hr h⟩)

end AddRule

end Block

end MediaCascade
