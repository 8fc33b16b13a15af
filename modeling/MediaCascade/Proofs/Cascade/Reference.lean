import MediaCascade.Cascade.Transform
import MediaCascade.Proofs.Cascade.Blocks

/-!
# The transforms as recursions over the contexts

The transforms walk the style sheet and change it under way. What they leave can be said without a
state: each context loses what the context before it still gives (`dedupeAfter`), and each block
loses its empty rules (`Block.pruned`).

* `Stylesheet.dedupe_eq`, `Stylesheet.prune_eq`: the walks compute just that, removals included. The
  second comparison of the first media context, with the same base rules, finds nothing.
* `Stylesheet.Valid.dedupe`, `Stylesheet.Valid.prune`: a valid style sheet stays valid.

A step of a walk is shown on a block that is split at the rule at hand; `OrderedMap.walk_entries`
puts the steps together.
-/

namespace MediaCascade

namespace Stylesheet

/-! ## 1. Valid style sheets -/

instance (s : Stylesheet) : Decidable s.Valid :=
  decidable_of_iff (s.contextKeys.head? = some baseKey ∧ s.contextKeys.Nodup ∧
      (∀ c ∈ s.contexts.entries, c.2.keys.Nodup) ∧
      ∀ c ∈ s.contexts.entries, ∀ rule ∈ c.2.entries, rule.2.keys.Nodup)
    ⟨fun ⟨hfirst, hn, hs, hp⟩ => ⟨hfirst, hn, hs, hp⟩,
      fun h => ⟨h.base_first, h.contexts_nodup, h.selectors_nodup, h.properties_nodup⟩⟩

/-- The first context of a valid style sheet is `base`. -/
theorem Valid.exists_eq {s : Stylesheet} (hs : s.Valid) :
    ∃ base media, s = ⟨⟨(baseKey, base) :: media⟩⟩ := by
  have hfirst := hs.base_first
  obtain ⟨⟨entries⟩⟩ := s
  cases entries with
  | nil => cases hfirst
  | cons c media =>
    obtain ⟨key, base⟩ := c
    have hkey : key = baseKey := Option.some.inj hfirst
    exact ⟨base, media, by rw [hkey]⟩

section Parts

variable {base : Block} {media : List (Text × Block)}

/-- The contexts of a valid style sheet are distinct, and so are the rules and declarations of
    each. -/
theorem valid_mk_iff :
    (⟨⟨(baseKey, base) :: media⟩⟩ : Stylesheet).Valid ↔
      (((baseKey, base) :: media).map Prod.fst).Nodup ∧
        ∀ c ∈ (baseKey, base) :: media, c.2.Distinct := by
  constructor
  · intro h
    exact ⟨h.contexts_nodup, fun c hc => ⟨h.selectors_nodup c hc, h.properties_nodup c hc⟩⟩
  · rintro ⟨hn, hd⟩
    exact ⟨rfl, hn, fun c hc => (hd c hc).selectors, fun c hc => (hd c hc).properties⟩

theorem baseBlock_mk (base : Block) (media : List (Text × Block)) :
    (⟨⟨(baseKey, base) :: media⟩⟩ : Stylesheet).baseBlock = base := by
  rw [baseBlock, block?, OrderedMap.get?_cons, if_pos rfl, Option.getD_some]

end Parts

/-! ## 2. A style sheet with another block -/

/-- The style sheet with another block in one of its contexts. -/
def putBlock (s : Stylesheet) (context : Text) (b : Block) : Stylesheet :=
  s.modifyBlock context fun _ => b

section Put

variable {s : Stylesheet} {context other : Text} {b₀ given : Block}

theorem modifyBlock_putBlock (s : Stylesheet) (context : Text) (b : Block) (f : Block → Block) :
    (s.putBlock context b).modifyBlock context f = s.putBlock context (f b) := by
  simp [putBlock, modifyBlock, OrderedMap.modify_modify]

theorem block?_putBlock (h : s.block? context = some b₀) (b : Block) :
    (s.putBlock context b).block? context = some b := by
  simp [putBlock, h]

theorem block?_putBlock_of_ne (hne : other ≠ context) (b : Block) :
    (s.putBlock context b).block? other = s.block? other := by
  simp [putBlock, hne]

/-- A block that is put back changes nothing. -/
theorem putBlock_self (h : s.contextKeys.Nodup) (hb : s.block? context = some b₀) :
    s.putBlock context b₀ = s := by
  have hsame : ∀ b, (context, b) ∈ s.contexts.entries → b₀ = b := fun b hm =>
    Option.some.inj (hb.symm.trans (OrderedMap.get?_of_mem_entries h hm))
  rw [putBlock, modifyBlock, OrderedMap.modify_congr hsame, OrderedMap.modify_id]

/-! ## 3. One rule -/

section Rule

variable {front back : List (Text × Declarations)} {selector : Text} {rule : Declarations}
  (hn : ((front ++ (selector, rule) :: back).map Prod.fst).Nodup)
include hn

theorem eraseDeclaration_putBlock (property : Text) :
    (s.putBlock context ⟨front ++ (selector, rule) :: back⟩).eraseDeclaration context selector
        property =
      s.putBlock context ⟨front ++ (selector, rule.erase property) :: back⟩ := by
  rw [eraseDeclaration, modifyBlock_putBlock, OrderedMap.modify_split hn]

theorem eraseSelector_putBlock :
    (s.putBlock context ⟨front ++ (selector, rule) :: back⟩).eraseSelector context selector =
      s.putBlock context ⟨front ++ back⟩ := by
  rw [eraseSelector, modifyBlock_putBlock, OrderedMap.erase_split hn]

theorem declarations?_putBlock (hc : s.block? context = some b₀) :
    (s.putBlock context ⟨front ++ (selector, rule) :: back⟩).declarations? context selector =
      some rule := by
  rw [declarations?, block?_putBlock hc, Option.bind_some, OrderedMap.get?_split hn]

end Rule

/-- One declaration goes or stays, the others are not touched. -/
theorem removeIfRestated_putBlock {givenRule : Declarations} {selector : Text}
    (hg : given.get? selector = some givenRule) (origin : Origin)
    {front back : List (Text × Declarations)} {before behind : List (Text × Text)}
    {d : Text × Text} (hd : ((before ++ d :: behind).map Prod.fst).Nodup)
    (hn : ((front ++ (selector, (⟨before ++ d :: behind⟩ : Declarations)) :: back).map
      Prod.fst).Nodup) :
    removeIfRestated origin context selector givenRule
        (s.putBlock context ⟨front ++ (selector, ⟨before ++ d :: behind⟩) :: back⟩) d =
      (s.putBlock context
          ⟨front ++ (selector,
            ⟨before ++ OrderedMap.replaced (OrderedMap.dropIf (given.restates selector)) d ++
              behind⟩) :: back⟩,
        if given.restates selector d then [⟨context, selector, .restated origin d.1 d.2⟩]
        else []) := by
  have hrestates : given.restates selector d = decide (givenRule.get? d.1 = some d.2) := by
    simp [Block.restates, Block.value?, hg]
  rw [removeIfRestated]
  by_cases h : givenRule.get? d.1 = some d.2
  · have hr : given.restates selector d = true := by rw [hrestates]; exact decide_eq_true h
    rw [if_pos h, if_pos hr, eraseDeclaration_putBlock hn, OrderedMap.erase_split hd]
    simp [OrderedMap.replaced_dropIf, hr]
  · have hr : given.restates selector d = false := by rw [hrestates]; exact decide_eq_false h
    rw [if_neg h, hr]
    simp [OrderedMap.replaced_dropIf, hr]

/-- **A rule is left without what the other context gives its selector.** -/
theorem removeRestated_putBlock (hc : s.block? context = some b₀) (hne : other ≠ context)
    (ho : s.block? other = some given) (origin : Origin)
    {front back : List (Text × Declarations)} {selector : Text} {rule : Declarations}
    (hn : ((front ++ (selector, rule) :: back).map Prod.fst).Nodup) (hr : rule.keys.Nodup) :
    removeRestated origin other context selector
        (s.putBlock context ⟨front ++ (selector, rule) :: back⟩) =
      (s.putBlock context ⟨front ++ (selector, given.keepNew (selector, rule)) :: back⟩,
        given.restatements origin context (selector, rule)) := by
  have hother : (s.putBlock context ⟨front ++ (selector, rule) :: back⟩).declarations? other
      selector = given.get? selector := by
    rw [declarations?, block?_putBlock_of_ne hne, ho, Option.bind_some]
  rw [removeRestated, hother]
  cases hg : given.get? selector with
  | none =>
    -- nothing is given, so that nothing is restated
    have hkeep : given.keepNew (selector, rule) = rule := by
      apply OrderedMap.ext_entries
      simp [Block.keepNew, Block.restates_of_get?_none hg]
    simp [hkeep, Block.restatements, Block.restates_of_get?_none hg]
  | some givenRule =>
    have hn' : ∀ d : Declarations, ((front ++ (selector, d) :: back).map Prod.fst).Nodup := by
      intro d
      simpa using hn
    have hwalk := OrderedMap.walk_entries _ (P := fun _ => True)
      (fun d => s.putBlock context ⟨front ++ (selector, d) :: back⟩) id
      (OrderedMap.dropIf (given.restates selector)) _
      (fun before d behind _ hd =>
        removeIfRestated_putBlock hg origin hd (hn' _))
      (fun _ _ => trivial) hr
    rw [List.map_id, OrderedMap.flatMap_replaced_dropIf, OrderedMap.flatMap_singleton_if] at hwalk
    simp only [declarations?_putBlock hn hc, Option.getD_some]
    exact hwalk

/-- The origin that removals of a context name. -/
def originOf (previous : Text) : Origin := if previous = baseKey then .base else .previous

/-- **One rule against the context before.** A first media context is compared twice with the base
    rules; the second comparison finds nothing. -/
theorem dedupeRule_putBlock (hc : s.block? context = some b₀) (hne : other ≠ context)
    (ho : s.block? other = some given) {front back : List (Text × Declarations)} {selector : Text}
    {rule : Declarations} (hn : ((front ++ (selector, rule) :: back).map Prod.fst).Nodup)
    (hr : rule.keys.Nodup) :
    dedupeRule other context (s.putBlock context ⟨front ++ (selector, rule) :: back⟩) selector =
      (s.putBlock context ⟨front ++ (selector, given.keepNew (selector, rule)) :: back⟩,
        given.restatements (originOf other) context (selector, rule)) := by
  have hfirst := fun origin => removeRestated_putBlock hc hne ho origin hn hr
  rw [dedupeRule, originOf]
  by_cases hbase : other = baseKey
  · have hn' : ((front ++ (selector, given.keepNew (selector, rule)) :: back).map
        Prod.fst).Nodup := by simpa using hn
    have hsecond := removeRestated_putBlock hc hne ho .previous hn'
      (hr.sublist (Block.keys_keepNew_sublist given (selector, rule)))
    rw [Block.keepNew_keepNew, Block.restatements_keepNew] at hsecond
    rw [if_pos hbase, if_pos hbase, ← hbase]
    simp only [hfirst, hsecond, List.append_nil]
  · rw [if_neg hbase, if_neg hbase]
    simp only [hfirst, List.nil_append]

/-! ## 4. One context -/

/-- **One context against the one before.** -/
theorem dedupeContext_eq (hs : s.contextKeys.Nodup) (hc : s.block? context = some b₀)
    (hb : b₀.Distinct) (hne : other ≠ context) (ho : s.block? other = some given) :
    s.dedupeContext (other, context) =
      (s.putBlock context (b₀.without given),
        b₀.entries.flatMap (Block.restatements (originOf other) context given)) := by
  have hwalk := OrderedMap.walk_entries _ (P := fun rule => rule.2.keys.Nodup)
    (fun b => s.putBlock context b) Prod.fst (fun rule => some (given.keepNew rule)) _
    (fun front rule back hr hn => by
      simpa [OrderedMap.replaced] using dedupeRule_putBlock hc hne ho hn hr)
    hb.properties hb.selectors
  rw [OrderedMap.flatMap_replaced_some] at hwalk
  have hself : s.putBlock context ⟨b₀.entries⟩ = s := putBlock_self hs hc
  rw [dedupeContext, selectors?, hc]
  simp only [Option.map_some, Option.getD_some]
  rw [hself] at hwalk
  exact hwalk

/-- One rule goes or stays. -/
theorem pruneRule_putBlock (hc : s.block? context = some b₀)
    {front back : List (Text × Declarations)} {rule : Text × Declarations}
    (hn : ((front ++ rule :: back).map Prod.fst).Nodup) :
    pruneRule context (s.putBlock context ⟨front ++ rule :: back⟩) rule.1 =
      (s.putBlock context
          ⟨front ++ OrderedMap.replaced (OrderedMap.dropIf fun rule => rule.2.isEmpty) rule ++
            back⟩,
        if rule.2.isEmpty then [⟨context, rule.1, .emptied⟩] else []) := by
  obtain ⟨selector, declarations⟩ := rule
  rw [pruneRule, declarations?_putBlock hn hc, OrderedMap.replaced_dropIf]
  simp only [Option.getD_some]
  by_cases h : declarations.isEmpty = true
  · rw [if_pos h, if_pos h, if_pos h, eraseSelector_putBlock hn, List.append_nil]
  · rw [if_neg h, if_neg h, if_neg h, List.append_assoc]
    rfl

/-- **One context without its empty rules.** -/
theorem pruneContext_eq (hs : s.contextKeys.Nodup) (hc : s.block? context = some b₀)
    (hb : b₀.keys.Nodup) :
    s.pruneContext context = (s.putBlock context b₀.pruned, b₀.emptied context) := by
  have hwalk := OrderedMap.walk_entries _ (P := fun _ => True)
    (fun b => s.putBlock context b) Prod.fst (OrderedMap.dropIf fun rule => rule.2.isEmpty) _
    (fun front rule back _ hn => pruneRule_putBlock hc hn) (fun _ _ => trivial) hb
  rw [OrderedMap.flatMap_replaced_dropIf, OrderedMap.flatMap_singleton_if] at hwalk
  have hself : s.putBlock context ⟨b₀.entries⟩ = s := putBlock_self hs hc
  rw [hself] at hwalk
  rw [pruneContext, selectors?, hc]
  exact hwalk

end Put

/-! ## 5. All contexts -/

section All

variable {front back : List (Text × Block)} {context : Text} {b : Block}
  (hn : ((front ++ (context, b) :: back).map Prod.fst).Nodup)
include hn

theorem block?_split : (⟨⟨front ++ (context, b) :: back⟩⟩ : Stylesheet).block? context = some b :=
  OrderedMap.get?_split hn

theorem putBlock_split (b' : Block) :
    (⟨⟨front ++ (context, b) :: back⟩⟩ : Stylesheet).putBlock context b' =
      ⟨⟨front ++ (context, b') :: back⟩⟩ := by
  rw [putBlock, modifyBlock, OrderedMap.modify_split hn]

end All

theorem walk_dedupeContext (previous : Text) (given : Block) {media : List (Text × Block)}
    (hd : ∀ c ∈ media, c.2.Distinct) (hbase : baseKey ∉ media.map Prod.fst)
    (front : List (Text × Block))
    (hn : ((front ++ (previous, given) :: media).map Prod.fst).Nodup) :
    walk dedupeContext ⟨⟨front ++ (previous, given) :: media⟩⟩
        ((previous :: media.map Prod.fst).zip (media.map Prod.fst)) =
      (⟨⟨front ++ (previous, given) :: (dedupeAfter (originOf previous) given media).1⟩⟩,
        (dedupeAfter (originOf previous) given media).2) := by
  induction media generalizing previous given front with
  | nil => rfl
  | cons c rest ih =>
    obtain ⟨context, b⟩ := c
    have hsplit : front ++ (previous, given) :: (context, b) :: rest =
        (front ++ [(previous, given)]) ++ (context, b) :: rest := by simp
    have hn' := hsplit ▸ hn
    have hne : previous ≠ context := by
      have hnot := (OrderedMap.not_mem_of_nodup hn).2
      exact fun e => hnot (e ▸ List.mem_cons_self)
    have hhere := dedupeContext_eq (s := ⟨⟨front ++ (previous, given) :: (context, b) :: rest⟩⟩)
      hn (hsplit ▸ block?_split hn') (hd _ List.mem_cons_self) hne (block?_split hn)
    rw [hsplit, putBlock_split hn', ← hsplit] at hhere
    -- what is left of the context is what the next one is held against
    have hlater := ih context (b.without given)
      (fun c hc => hd c (List.mem_cons_of_mem _ hc))
      (fun h => hbase (List.mem_cons_of_mem _ h)) (front ++ [(previous, given)])
      (by simpa using hn')
    have horigin : originOf context = .previous := by
      rw [originOf, if_neg]
      intro e
      exact hbase (e ▸ List.mem_cons_self)
    rw [horigin] at hlater
    rw [List.map_cons, List.zip_cons_cons, walk_cons, hhere]
    simp only
    rw [hlater, dedupeAfter]
    simp

/-- **Duplicate removal is the recursion over the media contexts.** -/
theorem dedupe_eq {base : Block} {media : List (Text × Block)}
    (hs : (⟨⟨(baseKey, base) :: media⟩⟩ : Stylesheet).Valid) :
    dedupe ⟨⟨(baseKey, base) :: media⟩⟩ =
      (⟨⟨(baseKey, base) :: (dedupeAfter .base base media).1⟩⟩,
        (dedupeAfter .base base media).2) := by
  have hn : (((baseKey, base) :: media).map Prod.fst).Nodup := hs.contexts_nodup
  have hd : ∀ c ∈ media, c.2.Distinct := fun c hc =>
    ⟨hs.selectors_nodup c (List.mem_cons_of_mem _ hc),
      hs.properties_nodup c (List.mem_cons_of_mem _ hc)⟩
  have hbase : baseKey ∉ media.map Prod.fst := (List.nodup_cons.mp hn).1
  have hwalk := walk_dedupeContext baseKey base hd hbase [] hn
  rw [show originOf baseKey = .base from if_pos rfl] at hwalk
  exact hwalk

/-- **Pruning drops the empty rules of each context.** -/
theorem prune_eq {s : Stylesheet} (hs : s.Valid) :
    s.prune =
      (⟨⟨s.contexts.entries.map fun c => (c.1, c.2.pruned)⟩⟩,
        s.contexts.entries.flatMap fun c => c.2.emptied c.1) := by
  have hwalk := OrderedMap.walk_entries pruneContext (P := fun c => c.2.keys.Nodup)
    Stylesheet.mk Prod.fst (fun c => some c.2.pruned) (fun c => c.2.emptied c.1)
    (fun front c back hc hn => by
      have hhere := pruneContext_eq (s := ⟨⟨front ++ c :: back⟩⟩) hn (block?_split hn) hc
      rw [putBlock_split hn] at hhere
      simpa [OrderedMap.replaced] using hhere)
    hs.selectors_nodup hs.contexts_nodup
  rw [OrderedMap.flatMap_replaced_some] at hwalk
  exact hwalk

/-! ## 6. What stays valid -/

/-- **Duplicate removal keeps a style sheet valid.** -/
theorem Valid.dedupe {s : Stylesheet} (hs : s.Valid) : s.dedupe.1.Valid := by
  obtain ⟨base, media, rfl⟩ := hs.exists_eq
  obtain ⟨hn, hd⟩ := valid_mk_iff.mp hs
  rw [dedupe_eq hs]
  refine valid_mk_iff.mpr ⟨?_, ?_⟩
  · rw [List.map_cons, keys_dedupeAfter]
    exact hn
  · intro c hc
    rcases List.mem_cons.mp hc with rfl | hc
    · exact hd _ List.mem_cons_self
    · exact distinct_dedupeAfter (fun c hc => hd c (List.mem_cons_of_mem _ hc)) c hc

/-- **Pruning keeps a style sheet valid.** -/
theorem Valid.prune {s : Stylesheet} (hs : s.Valid) : s.prune.1.Valid := by
  obtain ⟨base, media, rfl⟩ := hs.exists_eq
  obtain ⟨hn, hd⟩ := valid_mk_iff.mp hs
  have hpruned : ∀ c ∈ ((baseKey, base) :: media).map (fun c => (c.1, c.2.pruned)),
      c.2.Distinct := by
    intro c hc
    obtain ⟨old, hold, rfl⟩ := List.mem_map.mp hc
    exact (hd old hold).pruned
  rw [prune_eq hs]
  refine valid_mk_iff.mpr ⟨?_, hpruned⟩
  rw [List.map_cons, List.map_map] at *
  exact hn

theorem Valid.simplify {s : Stylesheet} (hs : s.Valid) : s.simplify.1.Valid := hs.dedupe.prune

/-- **Both transforms at once**: each media context loses what is left of the context before it, and
    then the empty rules go. -/
theorem simplify_eq {base : Block} {media : List (Text × Block)}
    (hs : (⟨⟨(baseKey, base) :: media⟩⟩ : Stylesheet).Valid) :
    simplify ⟨⟨(baseKey, base) :: media⟩⟩ =
      (⟨⟨((baseKey, base) :: (dedupeAfter .base base media).1).map fun c => (c.1, c.2.pruned)⟩⟩,
        (dedupeAfter .base base media).2 ++
          ((baseKey, base) :: (dedupeAfter .base base media).1).flatMap fun c =>
            c.2.emptied c.1) := by
  have hd := dedupe_eq hs
  have hp := prune_eq hs.dedupe
  rw [hd] at hp
  rw [Stylesheet.simplify, hd, hp]

end Stylesheet

end MediaCascade
