import MediaCascade.Proofs.Cascade.Chain
import MediaCascade.Proofs.Failing

/-!
# What later transforms cannot reopen

A settled style sheet stays settled whatever transforms run on it: the built-in ones find nothing
to do, and a rule that is dropped only takes values away. That suffices, as a declaration is held
against the context right before it: it is redundant because of a value that is there, and never
because of one that is not.

* `Block.Within`: a block with fewer rules. What is fresh over a block is fresh over fewer rules.
* `Stylesheet.Settled.of_run`: one transform; `Stylesheet.Settled.runTransforms`: any number.
* `Stylesheet.applyAll_normal_form`: the built-in transforms and any others behind them.
-/

namespace MediaCascade

/-! ## 1. Fewer rules -/

namespace Block

/-- The block has no rule and gives no value that the other one does not. -/
structure Within (fewer b : Block) : Prop where
  rules : ∀ rule ∈ fewer.entries, rule ∈ b.entries
  values : ∀ selector property value, fewer.value? selector property = some value →
    b.value? selector property = some value

theorem Within.refl (b : Block) : b.Within b := ⟨fun _ h => h, fun _ _ _ h => h⟩

theorem within_erase (b : Block) (selector : Text) : Block.Within (b.erase selector) b := by
  refine ⟨fun rule h => (List.mem_filter.mp h).1, fun selector' property value h => ?_⟩
  rw [value?, OrderedMap.get?_erase] at h
  split at h
  · cases h
  · exact h

/-- Fewer rules restate nothing of fewer rules if they restate nothing of more. -/
theorem FreshOver.within {b fewer given fewerGiven : Block} (h : b.FreshOver given)
    (hb : fewer.Within b) (hg : fewerGiven.Within given) : fewer.FreshOver fewerGiven := by
  intro rule hrule declaration hd
  have hfresh := h rule (hb.rules rule hrule) declaration hd
  rw [restates, decide_eq_false_iff_not] at hfresh ⊢
  exact mt (hg.values rule.1 declaration.1 declaration.2) hfresh

/-- A value that is fresh is another one than that of the block before. -/
theorem FreshOver.value?_ne {b given : Block} (h : b.FreshOver given)
    {selector property value : Text} (hvalue : b.value? selector property = some value) :
    given.value? selector property ≠ some value := by
  obtain ⟨rule, hrule, hproperty⟩ := Option.bind_eq_some_iff.mp hvalue
  have hfresh := h (selector, rule) (OrderedMap.mem_entries_of_get? hrule) (property, value)
    (OrderedMap.mem_entries_of_get? hproperty)
  rwa [restates, decide_eq_false_iff_not] at hfresh

end Block

theorem FreshAfter.map_within {f : Text × Block → Block} (hf : ∀ c, (f c).Within c.2)
    {given fewer : Block} (hg : fewer.Within given) {media : List (Text × Block)}
    (h : FreshAfter given media) : FreshAfter fewer (media.map fun c => (c.1, f c)) := by
  induction media generalizing given fewer with
  | nil => trivial
  | cons c rest ih =>
    obtain ⟨hhere, hlater⟩ := h
    exact ⟨hhere.within (hf c) hg, ih (hf c) hlater⟩

/-- Of two neighbours, the second is fresh over the first. -/
theorem FreshAfter.isChain (first : Text × Block) {media : List (Text × Block)}
    (h : FreshAfter first.2 media) :
    (first :: media).IsChain fun before behind => behind.2.FreshOver before.2 := by
  induction media generalizing first with
  | nil => exact .singleton first
  | cons c rest ih =>
    obtain ⟨hhere, hlater⟩ := h
    exact .cons_cons hhere (ih c hlater)

/-- What a transform reports of a settled style sheet. -/
def Transform.record? : Transform → Option Removal
  | .dedupe => none
  | .prune => none
  | .drop context selector => some ⟨context, selector, .dropped⟩

namespace Stylesheet

variable {s reached : Stylesheet} {removals : List Removal}

/-! ## 2. One transform -/

/-- The block of a context, with one rule left out in one of the contexts. -/
def blockWithout (context selector : Text) (c : Text × Block) : Block :=
  if c.1 = context then c.2.erase selector else c.2

theorem blockWithout_within (context selector : Text) (c : Text × Block) :
    (blockWithout context selector c).Within c.2 := by
  unfold blockWithout
  split
  · exact c.2.within_erase selector
  · exact .refl c.2

theorem eraseSelector_eq (s : Stylesheet) (context selector : Text) :
    s.eraseSelector context selector =
      ⟨⟨s.contexts.entries.map fun c => (c.1, blockWithout context selector c)⟩⟩ := by
  unfold eraseSelector modifyBlock OrderedMap.modify
  congr 2
  apply List.map_congr_left
  intro c _
  unfold blockWithout
  split <;> rfl

theorem Valid.eraseSelector (hs : s.Valid) (context selector : Text) :
    (s.eraseSelector context selector).Valid := by
  have hkeys : (s.eraseSelector context selector).contextKeys = s.contextKeys :=
    contextKeys_modifyBlock s context _
  have hblock : ∀ c ∈ s.contexts.entries, (blockWithout context selector c).keys.Nodup := by
    intro c hc
    unfold blockWithout
    split
    · exact OrderedMap.nodup_keys_erase (hs.selectors_nodup c hc) selector
    · exact hs.selectors_nodup c hc
  refine ⟨hkeys ▸ hs.base_first, hkeys ▸ hs.contexts_nodup, ?_, ?_⟩
  · rw [eraseSelector_eq]
    intro c' hc'
    obtain ⟨c, hc, rfl⟩ := List.mem_map.mp hc'
    exact hblock c hc
  · rw [eraseSelector_eq]
    intro c' hc' rule hrule
    obtain ⟨c, hc, rfl⟩ := List.mem_map.mp hc'
    exact hs.properties_nodup c hc rule ((blockWithout_within context selector c).rules rule hrule)

/-- **A rule that is dropped opens nothing.** -/
theorem Settled.eraseSelector (h : s.Settled) (context selector : Text) :
    (s.eraseSelector context selector).Settled := by
  refine ⟨h.valid.eraseSelector context selector, ?_, ?_⟩
  · have hfresh := h.fresh
    obtain ⟨base, media, rfl⟩ := h.valid.exists_eq
    rw [baseBlock_mk] at hfresh
    rw [eraseSelector_eq, List.map_cons, baseBlock_mk]
    exact hfresh.map_within (blockWithout_within context selector)
      (blockWithout_within context selector (baseKey, base))
  · rw [eraseSelector_eq]
    intro c' hc'
    obtain ⟨c, hc, rfl⟩ := List.mem_map.mp hc'
    intro rule hrule
    exact h.full c hc rule ((blockWithout_within context selector c).rules rule hrule)

/-- **One transform** leaves a settled style sheet settled, and reports no more than the rule it was
    told to drop. -/
theorem Settled.of_run (h : s.Settled) {transform : Transform}
    (hrun : transform.run s = .ok (reached, removals)) :
    reached.Settled ∧ removals = transform.record?.toList := by
  cases transform with
  | dedupe =>
    rw [Transform.run, h.dedupe_eq_self] at hrun
    cases hrun
    exact ⟨h, rfl⟩
  | prune =>
    rw [Transform.run, h.prune_eq_self] at hrun
    cases hrun
    exact ⟨h, rfl⟩
  | drop context selector =>
    obtain ⟨dropped, hdropped, hreached⟩ := (map_eq_ok_iff _ _ _).mp hrun
    obtain ⟨_, _, rfl⟩ := (map_eq_ok_iff _ _ _).mp hdropped
    cases hreached
    exact ⟨h.eraseSelector context selector, rfl⟩

/-! ## 3. Any number of transforms -/

/-- A settled style sheet stays settled, also if the run stops at a missing rule. -/
theorem Settled.runTransforms (h : s.Settled) (transforms : List Transform) :
    (s.runTransforms transforms).1.Settled := by
  induction transforms generalizing s with
  | nil => exact h
  | cons transform rest ih =>
    rw [Stylesheet.runTransforms]
    cases hrun : transform.run s with
    | error missing => exact h
    | ok result => exact ih (h.of_run hrun).1

/-- The removals of a run that does not stop are the rules it was told to drop. -/
theorem Settled.removals_runTransforms (h : s.Settled) {transforms : List Transform}
    (hrun : (s.runTransforms transforms).2 = .ok removals) :
    removals = transforms.filterMap Transform.record? := by
  induction transforms generalizing s removals with
  | nil =>
    cases hrun
    rfl
  | cons transform rest ih =>
    rw [Stylesheet.runTransforms] at hrun
    cases hhere : transform.run s with
    | error missing =>
      rw [hhere] at hrun
      cases hrun
    | ok result =>
      obtain ⟨next, reported⟩ := result
      obtain ⟨hnext, hreported⟩ := h.of_run hhere
      rw [hhere] at hrun
      obtain ⟨others, hothers, happend⟩ := (map_eq_ok_iff _ _ _).mp hrun
      rw [← happend, hreported, ih hnext hothers]
      cases hrecord : transform.record? <;> simp [hrecord]

/-- Transforms that come behind the built-in ones run on what these leave. -/
theorem applyAll_eq (s : Stylesheet) (custom : List Transform) :
    s.applyAll custom =
      ((s.simplify.1.runTransforms custom).1,
        (s.simplify.1.runTransforms custom).2.map fun others => s.simplify.2 ++ others) := by
  simp only [applyAll, Transform.builtin, List.cons_append, List.nil_append,
    Stylesheet.runTransforms, Transform.run, simplify]
  cases (s.dedupe.1.prune.1.runTransforms custom).2 <;> simp [Except.map]

/-! ## 4. The normal form -/

/-- No rule is empty. -/
theorem Settled.isEmpty_eq_false (h : s.Settled) {context selector : Text} {rule : Declarations}
    (hrule : s.declarations? context selector = some rule) : rule.isEmpty = false := by
  obtain ⟨b, hb, hget⟩ := Option.bind_eq_some_iff.mp hrule
  exact h.full _ (OrderedMap.mem_entries_of_get? hb) _ (OrderedMap.mem_entries_of_get? hget)

/-- No value is that of the context before. -/
theorem Settled.value?_ne (h : s.Settled) {previous context : Text}
    (hpair : [previous, context] <:+: s.contextKeys) {selector property value : Text}
    (hvalue : s.value? context selector property = some value) :
    s.value? previous selector property ≠ some value := by
  have hfresh := h.fresh
  obtain ⟨given, b, hneighbours, hgiven, hb⟩ := exists_neighbours h.valid.contexts_nodup hpair
  obtain ⟨base, media, rfl⟩ := h.valid.exists_eq
  rw [baseBlock_mk] at hfresh
  rw [value?_of_block? hgiven]
  rw [value?_of_block? hb] at hvalue
  have hfreshOver := rel_of_neighbours (hfresh.isChain (baseKey, base)) hneighbours
  exact hfreshOver.value?_ne hvalue

/-- **One run of the built-in transforms reaches a normal form, and no transform behind them leads
    out of it.** If the run does not stop at a missing rule, no rule of the style sheet that is
    reached is empty, and no media context gives a selector and a property the value that the
    context right before gives them. Wherever removal of duplicates or of empty rules is asked for
    once more, it changes nothing and reports nothing; so that the removals are the built-in ones,
    and behind them the rules that were to be dropped, in order. -/
theorem applyAll_normal_form (hs : s.Valid) {custom : List Transform}
    (h : s.applyAll custom = (reached, .ok removals)) :
    (∀ context selector rule, reached.declarations? context selector = some rule →
      rule.isEmpty = false) ∧
    (∀ previous context, [previous, context] <:+: reached.contextKeys →
      ∀ selector property value, reached.value? context selector property = some value →
        reached.value? previous selector property ≠ some value) ∧
    (∀ before transform after, custom = before ++ transform :: after →
      transform = .dedupe ∨ transform = .prune →
        transform.run (s.applyAll before).1 = .ok ((s.applyAll before).1, [])) ∧
    removals = s.simplify.2 ++ custom.filterMap Transform.record? := by
  have hsimplified := hs.settled_simplify
  have hat : ∀ transforms, (s.applyAll transforms).1.Settled := fun transforms => by
    rw [applyAll_eq]
    exact hsimplified.runTransforms transforms
  have hreached : reached.Settled := by
    have hall := hat custom
    rwa [h] at hall
  rw [applyAll_eq] at h
  obtain ⟨others, hothers, happend⟩ := (map_eq_ok_iff _ _ _).mp (Prod.mk.inj h).2
  refine ⟨fun _ _ _ => hreached.isEmpty_eq_false, fun _ _ hpair _ _ _ => hreached.value?_ne hpair,
    ?_, ?_⟩
  · rintro before transform _ - (rfl | rfl)
    · rw [Transform.run, (hat before).dedupe_eq_self]
    · rw [Transform.run, (hat before).prune_eq_self]
  · rw [← happend, hsimplified.removals_runTransforms hothers]

/-- The base rule goes, for which the second context had lost its own. -/
theorem applyAll_normal_form_threefold :
    ∃ reached removals,
      threefold.applyAll [.dedupe, .drop baseKey ['a'], .dedupe, .prune] =
        (reached, .ok removals) ∧
      removals = threefold.simplify.2 ++ [⟨baseKey, ['a'], .dropped⟩] ∧
      reached.value? ['@', 'm'] ['a'] ['c'] ≠ some ['r'] := by
  have hvalid : threefold.Valid := by decide
  have hrun : threefold.applyAll [.dedupe, .drop baseKey ['a'], .dedupe, .prune] = (_, .ok _) := rfl
  obtain ⟨_, hvalues, _, hremovals⟩ := applyAll_normal_form hvalid hrun
  refine ⟨_, _, hrun, hremovals, ?_⟩
  exact hvalues ['@', 'm'] ['@', 'n'] ⟨[baseKey], [], rfl⟩ ['a'] ['c'] ['r'] rfl

end Stylesheet

end MediaCascade
