import MediaCascade.Proofs.Counting
import MediaCascade.Proofs.Source.StoredRules
import MediaCascade.Proofs.Stylesheet.Regions

/-!
# What comes twice

A name that comes again keeps its first place and takes its last content. This happens on two
levels, the contexts of a style sheet and the rules of a context, and each repetition is reported
once.

* `Block.countCode_addRules`: the repeated names in a region, counted by the warnings.
* `Stylesheet.mediaKeys_ofText`, `Stylesheet.block?_ofText_of_last`: the media contexts are those of
  the blocks without later repeats, each with what the last of its blocks has on its own.
* `Stylesheet.read_redefinition`: all of it, for every text.

The counts go by one equation for each step (`countCode_walk_add`): a step that stores something
either makes the map larger or reports a repetition.
-/

namespace MediaCascade

/-! ## 1. Counting repetitions -/

/-- The number of warnings with a code. -/
def countCode (code : String) (warnings : List Warning) : Nat :=
  warnings.countP fun w => decide (w.code = code.toList)

/-- How many of some names are repetitions: their number less that of the distinct ones. -/
def repeats (names : List Text) : Nat := names.length - names.eraseDups.length

theorem countCode_append (code : String) (ws ws' : List Warning) :
    countCode code (ws ++ ws') = countCode code ws + countCode code ws' := List.countP_append

theorem countCode_eq_zero {code : String} {ws : List Warning}
    (h : ∀ w ∈ ws, w.code ≠ code.toList) : countCode code ws = 0 := by
  rw [countCode, List.countP_eq_zero]
  intro w hw
  simpa using h w hw

/-- A warning that stands under a condition is counted under it. -/
theorem countCode_if {code : String} {w : Warning} (c : Prop) [Decidable c]
    (h : w.code = code.toList) : countCode code (if c then [w] else []) = if c then 1 else 0 := by
  split
  · simp [countCode, h]
  · rfl

/-- **What a walk reports and what it adds is what its steps report and add.** -/
theorem countCode_walk_add {σ α : Type} {step : σ → α → σ × List Warning} {code : String}
    (size : σ → Nat) (weight : α → Nat)
    (hstep : ∀ s x, countCode code (step s x).2 + size (step s x).1 = size s + weight x) (s : σ)
    (xs : List α) :
    countCode code (walk step s xs).2 + size (walk step s xs).1 = size s + total weight xs := by
  induction xs generalizing s with
  | nil => exact Nat.zero_add _
  | cons x rest ih =>
    have hhere := hstep s x
    have hlater := ih (step s x).1
    rw [walk_cons, countCode_append, total_cons]
    simp only
    omega

/-- An insertion adds a key or finds it there. -/
theorem length_keys_insert {κ α : Type} [DecidableEq κ] (m : OrderedMap κ α) (k : κ) (v : α) :
    (if m.contains k then 1 else 0) + (m.insert k v).keys.length = m.keys.length + 1 := by
  rw [OrderedMap.keys_insert]
  by_cases h : k ∈ m.keys
  · rw [if_pos ((OrderedMap.contains_iff m k).mpr h), if_pos h, Nat.add_comm]
  · have hnone : ¬ m.contains k = true := fun hc => h ((OrderedMap.contains_iff m k).mp hc)
    rw [if_neg hnone, if_neg h, List.length_append, List.length_singleton, Nat.zero_add]

/-! ## 2. Names that are repeated in a region -/

/-- Malformed declarations are reported as such. -/
theorem code_of_mem_declarationWarnings {context selector : Option Text} {body : Text} {w : Warning}
    (h : w ∈ declarationWarnings context selector body) : w.code = "malformed-declaration".toList := by
  obtain ⟨segment, _, hw⟩ := List.mem_filterMap.mp h
  cases segment with
  | blank => cases hw
  | malformed text => cases hw; rfl
  | declaration property value => cases hw

/-- The names are counted by their raw rules. -/
theorem length_ruleNames (raws : List Text) :
    (ruleNames raws).length = total (fun raw => if WellFormedRule raw then 1 else 0) raws := by
  rw [ruleNames, List.length_map]
  induction raws with
  | nil => rfl
  | cons raw rest ih =>
    rw [List.filter_cons, total_cons, ← ih]
    by_cases h : WellFormedRule raw
    · rw [if_pos (decide_eq_true h), if_pos h, List.length_cons, Nat.add_comm]
    · rw [if_neg (by simpa using h), if_neg h, Nat.zero_add]

namespace Block

/-- A raw rule that is well formed adds a name to the block or is reported as a repetition. -/
theorem countCode_addRule (context : Text) (b : Block) (raw : Text) :
    countCode "duplicate-selector" (addRule context b raw).2 +
        (addRule context b raw).1.keys.length =
      b.keys.length + if WellFormedRule raw then 1 else 0 := by
  rcases addRule_cases context b raw with ⟨h, hadd⟩ | ⟨h, hadd⟩ | ⟨h, _, w, hadd, hcode, _⟩
  · have hdeclarations : countCode "duplicate-selector"
        (declarationWarnings (some context) (some (ruleName raw)) (ruleBody raw)) = 0 := by
      refine countCode_eq_zero fun w hw => ?_
      rw [code_of_mem_declarationWarnings hw]
      decide
    rw [hadd, countCode_append, hdeclarations, countCode_if _ rfl, Nat.zero_add, if_pos h]
    exact length_keys_insert b _ _
  · rw [hadd, if_neg h, Nat.add_zero]
    exact Nat.zero_add _
  · have hnone : countCode "duplicate-selector" [w] = 0 := by
      refine countCode_eq_zero fun w' hw' => ?_
      rw [List.mem_singleton.mp hw', hcode]
      decide
    rw [hadd, hnone, if_neg h, Nat.add_zero, Nat.zero_add]

/-- No raw rule is reported as a repeated context. -/
theorem code_ne_of_mem_addRule {context : Text} {b : Block} {raw : Text} {w : Warning}
    (hw : w ∈ (addRule context b raw).2) : w.code ≠ "repeated-context".toList := by
  rcases addRule_cases context b raw with ⟨_, hadd⟩ | ⟨_, hadd⟩ | ⟨_, _, refusal, hadd, hcode, _⟩
  · rw [hadd] at hw
    rcases List.mem_append.mp hw with hw | hw
    · rw [code_of_mem_declarationWarnings hw]
      decide
    · split at hw
      · rw [List.mem_singleton.mp hw]
        exact show "duplicate-selector".toList ≠ _ by decide
      · cases hw
  · rw [hadd] at hw
    cases hw
  · rw [hadd] at hw
    rw [List.mem_singleton.mp hw, hcode]
    decide

/-- **Each repeated name in a region has its warning.** -/
theorem countCode_addRules (context : Text) (raws : List Text) :
    countCode "duplicate-selector" (addRules context .empty raws).2 = repeats (ruleNames raws) := by
  have hcount := countCode_walk_add (fun b : Block => b.keys.length) _ (countCode_addRule context)
    .empty raws
  have hkeys : (walk (addRule context) .empty raws).1.keys = (ruleNames raws).eraseDups := by
    rw [← addRules, addRules_empty_fst]
    exact (holdsLast_ofRules raws).selectors
  simp only [hkeys, ← length_ruleNames, OrderedMap.keys_empty, List.length_nil] at hcount
  rw [repeats, addRules]
  omega

theorem countCode_header_addRules (context : Text) (raws : List Text) :
    countCode "repeated-context" (addRules context .empty raws).2 = 0 := by
  refine countCode_eq_zero fun w hw => ?_
  obtain ⟨b, raw, _, hadd⟩ := mem_walk hw
  exact code_ne_of_mem_addRule hadd

end Block

namespace Stylesheet

/-! ## 3. Contexts that are repeated -/

/-- A media block adds a context or is reported as a repetition. -/
theorem countCode_addMediaBlock (s : Stylesheet) (b : MediaBlock) :
    countCode "repeated-context" (s.addMediaBlock b).2 + (s.addMediaBlock b).1.contextKeys.length =
      s.contextKeys.length + 1 := by
  rw [addMediaBlock, countCode_append, countCode_if _ rfl, Block.countCode_header_addRules,
    Nat.add_zero]
  exact length_keys_insert s.contexts _ _

/-- **Of some media blocks, each adds a context or is reported.** -/
theorem countCode_addMediaBlocks (s : Stylesheet) (blocks : List MediaBlock) :
    countCode "repeated-context" (walk addMediaBlock s blocks).2 +
        (walk addMediaBlock s blocks).1.contextKeys.length =
      s.contextKeys.length + blocks.length := by
  rw [countCode_walk_add (fun s : Stylesheet => s.contextKeys.length) (fun _ => 1)
    countCode_addMediaBlock, total_one]

/-- The repeated names of a media block do not hang on the blocks before it. -/
theorem countCode_name_addMediaBlock (s : Stylesheet) (b : MediaBlock) :
    countCode "duplicate-selector" (s.addMediaBlock b).2 =
      repeats (ruleNames (innerRules b.body)) := by
  have hnone : countCode "duplicate-selector"
      (if s.hasContext b.context then [.repeatedContext b.context] else []) = 0 := by
    split
    · rfl
    · rfl
  rw [addMediaBlock, countCode_append, hnone, Block.countCode_addRules, Nat.zero_add]

/-- Skipped text is reported under other codes. -/
theorem code_of_mem_warnings {source : Source} {w : Warning} (h : w ∈ source.warnings) :
    w.code = "unmatched-media".toList ∨ w.code = "ignored-text".toList := by
  obtain ⟨gap, _, hw⟩ := List.mem_filterMap.mp h
  rw [Source.gapWarning?] at hw
  split at hw
  · cases hw
  · split at hw
    · cases hw
      exact .inl rfl
    · cases hw
      exact .inr rfl

/-- The contexts of a text are `base` and those of its blocks, each in the place where it stands
    first. -/
theorem contextKeys_ofText (css : Text) :
    (ofText css).1.contextKeys =
      baseKey :: ((Source.ofText css).blocks.map MediaBlock.context).eraseDups := by
  have hbase : ∀ name ∈ (Source.ofText css).blocks.map MediaBlock.context, name ≠ baseKey := by
    intro name hname
    obtain ⟨b, hb, rfl⟩ := List.mem_map.mp hname
    exact (Source.wellFormed_of_mem_blocks hb).isHeader.ne_baseKey
  have hother : ((Source.ofText css).blocks.map MediaBlock.context).filter
      (fun name => !name == baseKey) = (Source.ofText css).blocks.map MediaBlock.context := by
    rw [List.filter_eq_self]
    intro name hname
    simpa using hbase name hname
  rw [ofText, contextKeys, contexts_ofSource, OrderedMap.keys_insertAll (by simp [OrderedMap.keys]),
    List.map_map, OrderedMap.keys_mk, List.map_singleton, List.singleton_append,
    List.eraseDups_cons]
  exact congrArg (fun names => baseKey :: names.eraseDups) hother

/-- **The media contexts are those of the blocks, without later repeats.** -/
theorem mediaKeys_ofText (css : Text) :
    (ofText css).1.mediaKeys = ((Source.ofText css).blocks.map MediaBlock.context).eraseDups := by
  rw [mediaKeys, contextKeys_ofText, List.tail_cons]

/-- **A media context has the rules of the last block with its name.** -/
theorem block?_ofText_of_last {css : Text} {front back : List MediaBlock} {b : MediaBlock}
    (hsplit : (Source.ofText css).blocks = front ++ b :: back)
    (hlast : ∀ later ∈ back, later.context ≠ b.context) :
    (ofText css).1.block? b.context = some (Block.ofRules (innerRules b.body)) := by
  have hback : b.context ∉ (back.map fun b =>
      (b.context, Block.ofRules (innerRules b.body))).map Prod.fst := by
    rw [List.map_map]
    intro hmem
    obtain ⟨later, hlater, hname⟩ := List.mem_map.mp hmem
    exact hlast later hlater hname
  rw [ofText, block?, contexts_ofSource, hsplit, List.map_append, List.map_cons]
  exact OrderedMap.get?_insertAll_of_last hback

/-! ## 4. Every text -/

/-- Skipped text is not reported as a repetition. -/
theorem countCode_warnings (code : String) (hmedia : "unmatched-media".toList ≠ code.toList)
    (hignored : "ignored-text".toList ≠ code.toList) (source : Source) :
    countCode code source.warnings = 0 := by
  refine countCode_eq_zero fun w hw => ?_
  rcases code_of_mem_warnings hw with h | h
  · exact h ▸ hmedia
  · exact h ▸ hignored

section Text

variable (css : Text)

/-- **Each repeated context has its warning.** -/
theorem countCode_context_ofText :
    countCode "repeated-context" (ofText css).2 =
      repeats ((Source.ofText css).blocks.map MediaBlock.context) := by
  have hgaps := countCode_warnings "repeated-context" (by decide) (by decide) (Source.ofText css)
  have hbase := Block.countCode_header_addRules baseKey (baseRules (Source.ofText css).base)
  have hmedia := countCode_addMediaBlocks
    ⟨⟨[(baseKey, (Block.addRules baseKey .empty (baseRules (Source.ofText css).base)).1)]⟩⟩
    (Source.ofText css).blocks
  have hkeys := congrArg List.length (contextKeys_ofText css)
  rw [List.length_cons] at hkeys
  rw [ofText, ofSource] at hkeys ⊢
  rw [countCode_append, countCode_append, hgaps, hbase, repeats, List.length_map]
  dsimp only at hkeys
  -- the one context that is there before the first block is `base`
  change _ = 1 + _ at hmedia
  omega

/-- **Each repeated name has its warning**, in the base text and in every block. -/
theorem countCode_name_ofText :
    countCode "duplicate-selector" (ofText css).2 =
      total (fun raws => repeats (ruleNames raws)) (baseRules (Source.ofText css).base ::
        (Source.ofText css).blocks.map fun b => innerRules b.body) := by
  have hgaps := countCode_warnings "duplicate-selector" (by decide) (by decide) (Source.ofText css)
  have hstep : ∀ s b, countCode "duplicate-selector" (addMediaBlock s b).2 + 0 =
      0 + repeats (ruleNames (innerRules b.body)) := by
    intro s b
    rw [countCode_name_addMediaBlock, Nat.add_zero, Nat.zero_add]
  have hmedia := fun s => countCode_walk_add (fun _ => 0) _ hstep s (Source.ofText css).blocks
  simp only [Nat.add_zero, Nat.zero_add] at hmedia
  rw [ofText, ofSource, countCode_append, countCode_append, hgaps, Block.countCode_addRules, hmedia,
    Nat.zero_add, total_cons, total_map]

end Text

/-- **What comes twice keeps its first place and takes its last content.** Every text is read. The
    media contexts are the headers of its blocks without blanks at the end, later repeats left out;
    each has what the last block with its name has on its own. The body of a block is flat, and its
    rules are the groups with something before their brace. The base context, and each media
    context, has the names of the well formed rules of its region, in the order in which they come
    first, with the declarations of the one that comes last. A warning stands for each block whose
    context is there already, and for each well formed rule, those of replaced blocks too, whose
    name is there already in its region. -/
theorem read_redefinition (css : Text) :
    ∃ sheet warnings, read .beforeMedia css = .ok (sheet, warnings) ∧
      let source := Source.ofText css
      sheet.mediaKeys = (source.blocks.map fun b => Text.trimEnd b.header).eraseDups ∧
      (∀ b ∈ source.blocks, ∃ f : FlatBody, f.text = b.body ∧
        innerRules b.body = f.rules.map Group.text) ∧
      (∃ base, sheet.block? baseKey = some base ∧ base.HoldsLast (baseRules source.base)) ∧
      (∀ front b back, source.blocks = front ++ b :: back →
        (∀ later ∈ back, Text.trimEnd later.header ≠ Text.trimEnd b.header) →
        ∃ block, sheet.block? (Text.trimEnd b.header) = some block ∧
          (ofText b.text).1.block? (Text.trimEnd b.header) = some block ∧
          block.HoldsLast (innerRules b.body)) ∧
      countCode "repeated-context" warnings =
        repeats (source.blocks.map fun b => Text.trimEnd b.header) ∧
      countCode "duplicate-selector" warnings =
        total (fun raws => repeats (ruleNames raws))
          (baseRules source.base :: source.blocks.map fun b => innerRules b.body) := by
  refine ⟨_, _, rfl, mediaKeys_ofText css, fun b hb => ?_, ?_, ?_, countCode_context_ofText css,
    countCode_name_ofText css⟩
  · obtain ⟨f, hf⟩ := (Source.wellFormed_of_mem_blocks hb).body
    exact ⟨f, hf, hf ▸ innerRules_text f⟩
  · exact ⟨_, block?_baseKey_ofText css, Block.holdsLast_ofRules _⟩
  · intro front b back hsplit hlast
    have hb : b ∈ (Source.ofText css).blocks := hsplit ▸ by simp
    exact ⟨_, block?_ofText_of_last hsplit hlast,
      block?_context_ofText (Source.wellFormed_of_mem_blocks hb), Block.holdsLast_ofRules _⟩

end Stylesheet

end MediaCascade
