import MediaCascade.Proofs.Cascade.Effective
import Mathlib.Data.List.Basic
import Mathlib.Data.List.Chain

/-!
# Each context against what is left of the one before

What a media context loses is decided by what is LEFT of the context right before it. Said by
look-up this is one equation for every two neighbouring contexts, and as each context but `base`
has one right before it, the equations leave no choice: they are the removal of duplicates
(`Stylesheet.dedupe_chain`).

* `Stylesheet.value?`, `Stylesheet.gives`: what a context gives a selector.
* `isChain_dedupeAfter`: each two neighbours in what `dedupeAfter` leaves.
* `removals_dedupeAfter`: its removals as one list over the neighbours, those in the first media
  context with `base` as their origin.

NOT here: that the walk over the style sheet and its changes under way come down to `dedupeAfter`
(`MediaCascade.Proofs.Cascade.Reference`).
-/

namespace MediaCascade

/-! ## 1. Neighbours in what is left -/

/-- What holds all along a list holds of any two neighbours in it. -/
theorem rel_of_neighbours {α : Type} {R : α → α → Prop} {l : List α} (h : l.IsChain R) {a b : α}
    (hpair : [a, b] <:+: l) : R a b := by
  obtain ⟨front, back, rfl⟩ := hpair
  rw [List.append_assoc] at h
  exact (List.isChain_append_cons_cons.mp h).2.1

/-- **A context is left without what restates the context left before it.** -/
theorem isChain_dedupeAfter (origin : Origin) (first : Text × Block) (media : List (Text × Block)) :
    (first :: (dedupeAfter origin first.2 media).1).IsChain fun before behind =>
      ∃ b, (behind.1, b) ∈ media ∧ behind.2 = b.without before.2 := by
  induction media generalizing origin first with
  | nil => exact .singleton first
  | cons c rest ih =>
    have hlater := ih .previous (c.1, c.2.without first.2)
    refine .cons_cons ⟨c.2, List.mem_cons_self, rfl⟩ (hlater.imp ?_)
    rintro before behind ⟨b, hb, hwithout⟩
    exact ⟨b, List.mem_cons_of_mem _ hb, hwithout⟩

/-- What a context loses against the one left before it, as removals. -/
def lostBehind (before behind : Text × Block) : List Removal :=
  behind.2.entries.flatMap (Block.restatements (Stylesheet.originOf before.1) behind.1 before.2)

/-- **The removals, neighbours by neighbours**: each context as it was, behind what is left of the
    one before. -/
theorem removals_dedupeAfter (first : Text × Block) {media : List (Text × Block)}
    (hbase : baseKey ∉ media.map Prod.fst) :
    let left := dedupeAfter (Stylesheet.originOf first.1) first.2 media
    left.2 = ((first :: left.1).zip media).flatMap fun c => lostBehind c.1 c.2 := by
  induction media generalizing first with
  | nil => rfl
  | cons c rest ih =>
    rw [List.map_cons, List.mem_cons, not_or] at hbase
    have hlater := ih (c.1, c.2.without first.2) hbase.2
    -- no context but the first of all is held against `base`
    have horigin : Stylesheet.originOf c.1 = .previous := if_neg fun e => hbase.1 e.symm
    simp only [horigin] at hlater
    simp only [dedupeAfter, List.zip_cons_cons, List.flatMap_cons]
    rw [hlater]
    rfl

namespace Stylesheet

/-! ## 2. Looking up -/

/-- The value that a context gives a property of a selector. -/
def value? (s : Stylesheet) (context selector property : Text) : Option Text :=
  (s.declarations? context selector).bind fun rule => rule.get? property

/-- Whether a context gives a selector a declaration. -/
def gives (s : Stylesheet) (context selector : Text) (declaration : Text × Text) : Bool :=
  decide (s.value? context selector declaration.1 = some declaration.2)

section LookUp

variable {s : Stylesheet} {context : Text} {b : Block} (hb : s.block? context = some b)
include hb

theorem declarations?_of_block? (selector : Text) :
    s.declarations? context selector = b.get? selector := by
  rw [declarations?, hb, Option.bind_some]

theorem value?_of_block? (selector property : Text) :
    s.value? context selector property = b.value? selector property := by
  rw [value?, declarations?_of_block? hb, Block.value?]

theorem gives_of_block? (selector : Text) (declaration : Text × Text) :
    s.gives context selector declaration = b.restates selector declaration := by
  rw [gives, value?_of_block? hb, Block.restates]

end LookUp

/-- Neighbouring names are those of neighbouring contexts. -/
theorem exists_neighbours {s : Stylesheet} (hn : s.contextKeys.Nodup) {previous context : Text}
    (h : [previous, context] <:+: s.contextKeys) :
    ∃ given b, [(previous, given), (context, b)] <:+: s.contexts.entries ∧
      s.block? previous = some given ∧ s.block? context = some b := by
  obtain ⟨pair, hpair, hkeys⟩ := List.infix_map_iff.mp h
  match pair, hkeys with
  | [before, behind], hkeys =>
    obtain ⟨rfl, rfl⟩ : before.1 = previous ∧ behind.1 = context := by simpa using hkeys.symm
    refine ⟨before.2, behind.2, hpair, ?_, ?_⟩
    · exact OrderedMap.get?_of_mem_entries hn (hpair.subset List.mem_cons_self)
    · exact OrderedMap.get?_of_mem_entries hn
        (hpair.subset (List.mem_cons_of_mem _ List.mem_cons_self))

/-! ## 3. Style sheets -/

section Dedupe

variable {s : Stylesheet} (hs : s.Valid)
include hs

/-- The base block stays as it is. -/
theorem Valid.block?_base_dedupe : s.dedupe.1.block? baseKey = s.block? baseKey := by
  obtain ⟨base, media, rfl⟩ := hs.exists_eq
  rw [dedupe_eq hs, block?, block?, OrderedMap.get?_cons, OrderedMap.get?_cons, if_pos rfl,
    if_pos rfl]

theorem Valid.baseBlock_dedupe : s.dedupe.1.baseBlock = s.baseBlock := by
  rw [baseBlock, hs.block?_base_dedupe, baseBlock]

omit hs in
/-- A context that is not there has no block, before and after. -/
theorem block?_dedupe_eq_none {context : Text} (h : context ∉ s.contextKeys) :
    s.block? context = none ∧ s.dedupe.1.block? context = none :=
  ⟨(OrderedMap.get?_eq_none_iff _ _).mpr h, (OrderedMap.get?_eq_none_iff _ _).mpr
    (show context ∉ s.dedupe.1.contextKeys by rwa [contextKeys_dedupe])⟩

/-- **A media context is left without what restates the context left before it.** -/
theorem Valid.block?_dedupe {previous context : Text}
    (h : [previous, context] <:+: s.contextKeys) :
    ∃ given b, s.dedupe.1.block? previous = some given ∧ s.block? context = some b ∧
      s.dedupe.1.block? context = some (b.without given) := by
  have hleft : [previous, context] <:+: s.dedupe.1.contextKeys := by
    rwa [contextKeys_dedupe]
  obtain ⟨given, kept, hpair, hgiven, hkept⟩ := exists_neighbours hs.dedupe.contexts_nodup hleft
  obtain ⟨base, media, rfl⟩ := hs.exists_eq
  rw [dedupe_eq hs] at hpair hgiven hkept ⊢
  obtain ⟨b, hb, hwithout⟩ :=
    rel_of_neighbours (isChain_dedupeAfter .base (baseKey, base) media) hpair
  refine ⟨given, b, hgiven, ?_, hwithout ▸ hkept⟩
  exact OrderedMap.get?_of_mem_entries hs.contexts_nodup (List.mem_cons_of_mem _ hb)

/-- A context that has none right before it is `base`. -/
theorem Valid.eq_base_or_neighbours {context : Text} (h : context ∈ s.contextKeys) :
    context = baseKey ∨ ∃ previous, [previous, context] <:+: s.contextKeys := by
  obtain ⟨front, back, hkeys⟩ := List.append_of_mem h
  rcases List.eq_nil_or_concat front with rfl | ⟨rest, previous, rfl⟩
  · have hfirst := hs.base_first
    rw [hkeys] at hfirst
    exact .inl (Option.some.inj hfirst)
  · exact .inr ⟨previous, rest, back, by rw [hkeys]; simp⟩

/-- No rule goes and none moves. -/
theorem Valid.selectors?_dedupe (context : Text) :
    s.dedupe.1.selectors? context = s.selectors? context := by
  by_cases hmem : context ∈ s.contextKeys
  · rcases hs.eq_base_or_neighbours hmem with rfl | ⟨previous, h⟩
    · rw [selectors?, selectors?, hs.block?_base_dedupe]
    · obtain ⟨given, b, _, hb, hleft⟩ := hs.block?_dedupe h
      rw [selectors?, selectors?, hleft, hb, Option.map_some, Option.map_some,
        Block.keys_without]
  · obtain ⟨hnone, hleft⟩ := block?_dedupe_eq_none hmem
    rw [selectors?, selectors?, hnone, hleft]

/-- A rule is left with the declarations that the context before does not give. -/
theorem Valid.declarations?_dedupe {previous context : Text}
    (h : [previous, context] <:+: s.contextKeys) (selector : Text) :
    s.dedupe.1.declarations? context selector = (s.declarations? context selector).map fun rule =>
      ⟨rule.entries.filter fun d => !s.dedupe.1.gives previous selector d⟩ := by
  obtain ⟨given, b, hgiven, hb, hleft⟩ := hs.block?_dedupe h
  rw [declarations?_of_block? hleft, declarations?_of_block? hb]
  refine (OrderedMap.get?_map given.keepNew b selector).trans ?_
  simp only [gives_of_block? hgiven]
  rfl

/-- **The removals**, context by context, selector by selector and property by property: the
    declarations that what is left of the context before gives, too. -/
theorem Valid.removals_dedupe :
    s.dedupe.2 = (s.contextKeys.zip s.contexts.entries.tail).flatMap fun c =>
      c.2.2.entries.flatMap fun rule =>
        (rule.2.entries.filter (s.dedupe.1.gives c.1 rule.1)).map fun d =>
          ⟨c.2.1, rule.1, .restated (originOf c.1) d.1 d.2⟩ := by
  have hn := hs.dedupe.contexts_nodup
  obtain ⟨base, media, rfl⟩ := hs.exists_eq
  have hbase : baseKey ∉ media.map Prod.fst := (List.nodup_cons.mp hs.contexts_nodup).1
  have hlist := removals_dedupeAfter (baseKey, base) hbase
  rw [show originOf (baseKey, base).1 = .base from if_pos rfl] at hlist
  have hkeys : (⟨⟨(baseKey, base) :: media⟩⟩ : Stylesheet).contextKeys =
      ((baseKey, base) :: (dedupeAfter .base base media).1).map Prod.fst := by
    rw [List.map_cons, keys_dedupeAfter]
    rfl
  rw [dedupe_eq hs] at hn ⊢
  rw [hkeys, List.zip_map_left, List.flatMap_map]
  refine hlist.trans (List.flatMap_congr fun c hc => ?_)
  have hblock : (⟨⟨(baseKey, base) :: (dedupeAfter .base base media).1⟩⟩ : Stylesheet).block?
      c.1.1 = some c.1.2 := OrderedMap.get?_of_mem_entries hn (List.of_mem_zip hc).1
  refine List.flatMap_congr fun rule _ => ?_
  have hgives : Stylesheet.gives _ c.1.1 rule.1 = c.1.2.restates rule.1 :=
    funext (gives_of_block? hblock rule.1)
  rw [Block.restatements, ← hgives]
  rfl

/-- The context before is `base` for the first media context, and for no other. -/
theorem Valid.eq_base_iff {c : Text × Text × Block}
    (h : c ∈ s.contextKeys.zip s.contexts.entries.tail) :
    c.1 = baseKey ↔ s.mediaKeys.head? = some c.2.1 := by
  have hn := hs.contexts_nodup
  obtain ⟨base, media, rfl⟩ := hs.exists_eq
  change c ∈ (baseKey :: media.map Prod.fst).zip media at h
  change (baseKey :: media.map Prod.fst).Nodup at hn
  show c.1 = baseKey ↔ (media.map Prod.fst).head? = some c.2.1
  cases media with
  | nil => cases h
  | cons first rest =>
    obtain ⟨hbase, hrest⟩ := List.nodup_cons.mp hn
    rw [List.zip_cons_cons, List.mem_cons] at h
    rcases h with rfl | hlater
    · exact iff_of_true rfl rfl
    · obtain ⟨hkey, hblock⟩ := List.of_mem_zip hlater
      refine iff_of_false (fun e => hbase (e ▸ hkey)) fun e => ?_
      have hfirst : first.1 = c.2.1 := Option.some.inj e
      exact (List.nodup_cons.mp hrest).1 (hfirst ▸ List.mem_map_of_mem hblock)

/-- A removal is that of a declaration of a context, for the sake of the one before. -/
theorem Valid.exists_restated {r : Removal} (h : r ∈ s.dedupe.2) :
    ∃ c ∈ s.contextKeys.zip s.contexts.entries.tail, ∃ selector property value,
      r = ⟨c.2.1, selector, .restated (originOf c.1) property value⟩ := by
  rw [hs.removals_dedupe] at h
  obtain ⟨c, hc, hrules⟩ := List.mem_flatMap.mp h
  obtain ⟨rule, _, hdeclarations⟩ := List.mem_flatMap.mp hrules
  obtain ⟨d, _, hr⟩ := List.mem_map.mp hdeclarations
  exact ⟨c, hc, rule.1, d.1, d.2, hr.symm⟩

/-- The base rules are the reason for all removals in the first media context, and for no other. -/
theorem Valid.reason_removals_dedupe {r : Removal} (h : r ∈ s.dedupe.2) :
    r.reason = if s.mediaKeys.head? = some r.context then "base".toList
      else "previous".toList := by
  obtain ⟨c, hc, selector, property, value, rfl⟩ := hs.exists_restated h
  have hfirst := hs.eq_base_iff hc
  by_cases hbase : c.1 = baseKey
  · have horigin : originOf c.1 = .base := if_pos hbase
    rw [horigin]
    exact (if_pos (hfirst.mp hbase)).symm
  · have horigin : originOf c.1 = .previous := if_neg hbase
    rw [horigin]
    exact (if_neg (mt hfirst.mpr hbase)).symm

end Dedupe

/-- **Duplicate removal is a recursion down the contexts.** The base block stays, and so do all
    contexts and all rules, in their order. A rule of a media context is left with exactly those
    declarations, in their order, that the context left before it does not give its selector. The
    removals are the other ones, in the order of contexts, selectors and properties. Their reason
    is `base` in the first media context and `previous` in every later one. -/
theorem dedupe_chain {s : Stylesheet} (hs : s.Valid) :
    let left := s.dedupe.1
    left.baseBlock = s.baseBlock ∧ left.contextKeys = s.contextKeys ∧
    (∀ context, left.selectors? context = s.selectors? context) ∧
    (∀ previous context, [previous, context] <:+: s.contextKeys → ∀ selector,
      left.declarations? context selector = (s.declarations? context selector).map fun rule =>
        ⟨rule.entries.filter fun d => !left.gives previous selector d⟩) ∧
    (s.dedupe.2 = (s.contextKeys.zip s.contexts.entries.tail).flatMap fun c =>
      c.2.2.entries.flatMap fun rule =>
        (rule.2.entries.filter (left.gives c.1 rule.1)).map fun d =>
          ⟨c.2.1, rule.1, .restated (originOf c.1) d.1 d.2⟩) ∧
    ∀ r ∈ s.dedupe.2, r.reason =
      if s.mediaKeys.head? = some r.context then "base".toList else "previous".toList := by
  intro left
  refine ⟨hs.baseBlock_dedupe, contextKeys_dedupe s, hs.selectors?_dedupe, ?_,
    hs.removals_dedupe, fun r => hs.reason_removals_dedupe⟩
  exact fun previous context h selector => hs.declarations?_dedupe h selector

/-- The second context loses what `base` says, and is then no reason for the third to lose it. -/
theorem dedupe_chain_threefold :
    threefold.dedupe.1.declarations? ['@', 'm'] ['a'] = some ⟨[]⟩ ∧
      threefold.dedupe.1.declarations? ['@', 'n'] ['a'] = some ⟨[(['c'], ['r'])]⟩ ∧
      threefold.dedupe.2 = [⟨['@', 'm'], ['a'], .restated .base ['c'] ['r']⟩] := by
  have hvalid : threefold.Valid := by decide
  obtain ⟨_, _, _, hrules, hremovals, _⟩ := dedupe_chain hvalid
  have hsecond : [baseKey, ['@', 'm']] <:+: threefold.contextKeys := ⟨[], [['@', 'n']], rfl⟩
  have hthird : [['@', 'm'], ['@', 'n']] <:+: threefold.contextKeys := ⟨[baseKey], [], rfl⟩
  refine ⟨(hrules _ _ hsecond _).trans ?_, (hrules _ _ hthird _).trans ?_, hremovals.trans ?_⟩
  · rfl
  · rfl
  · rfl

end Stylesheet

end MediaCascade
