import MediaCascade.Cleaning
import MediaCascade.Proofs.Cascade.Chain
import Mathlib.Data.List.Nodup
import Mathlib.Data.List.Perm.Basic

/-!
# The removals account for every change

What a style sheet holds, listed with the place where it stands, is what is left of it after the
transforms together with what the removals name: nothing goes without a removal, no removal stands
twice, and none names what is still there (`Stylesheet.removals_account`).

* `OrderedMap.pairs`: what the values of a map hold, each with its key. The declarations and the
  rules of a style sheet are such lists, and have no element twice. They are what is found by
  look-up (`Stylesheet.Valid.mem_declarationList_iff`, `Stylesheet.Valid.mem_ruleList_iff`).
* `Removal.declaration?`, `Removal.rule?`: what a removal names. It is one of the two.
* `perm_dedupeAfter`, `perm_pruned`: the accounts of the two transforms, each by one partition of a
  list into what a test holds of and the rest.

The order in which things go is not said here but in `Stylesheet.dedupe_chain`.
-/

namespace MediaCascade

/-! ## 1. What the values of a map hold -/

namespace OrderedMap

variable {κ α β : Type}

/-- What the values of a map hold, each with its key. -/
def pairs (f : α → List β) (m : OrderedMap κ α) : List (κ × β) :=
  m.entries.flatMap fun entry => (f entry.2).map (Prod.mk entry.1)

/-- **Distinct keys keep apart what the values hold.** -/
theorem nodup_pairs {f : α → List β} {m : OrderedMap κ α} (hm : m.keys.Nodup)
    (hf : ∀ entry ∈ m.entries, (f entry.2).Nodup) : (m.pairs f).Nodup := by
  rw [pairs, List.nodup_flatMap]
  constructor
  · intro entry hentry
    exact (hf entry hentry).map fun _ _ h => (Prod.mk.inj h).2
  · refine (List.pairwise_map.mp hm).imp fun {first second} hne => ?_
    rintro ⟨k, x⟩ hfirst hsecond
    obtain ⟨_, _, hk⟩ := List.mem_map.mp hfirst
    obtain ⟨_, _, hk'⟩ := List.mem_map.mp hsecond
    exact hne ((Prod.mk.inj hk).1.trans (Prod.mk.inj hk').1.symm)

theorem mem_pairs_iff [DecidableEq κ] {f : α → List β} {m : OrderedMap κ α} (hm : m.keys.Nodup)
    {k : κ} {x : β} : (k, x) ∈ m.pairs f ↔ ∃ v, m.get? k = some v ∧ x ∈ f v := by
  rw [pairs, List.mem_flatMap]
  constructor
  · rintro ⟨entry, hentry, hpair⟩
    obtain ⟨y, hy, hk⟩ := List.mem_map.mp hpair
    cases hk
    exact ⟨entry.2, get?_of_mem_entries hm hentry, hy⟩
  · rintro ⟨v, hv, hx⟩
    exact ⟨(k, v), mem_entries_of_get? hv, List.mem_map_of_mem hx⟩

end OrderedMap

/-! ## 2. What there is, and what a removal names -/

/-- The declarations of a block: selector, property and value. -/
def Block.declarationList (b : Block) : List (Text × Text × Text) := b.pairs OrderedMap.entries

/-- The declarations of a style sheet: context, selector, property and value. -/
def Stylesheet.declarationList (s : Stylesheet) : List (Text × Text × Text × Text) :=
  s.contexts.pairs Block.declarationList

/-- The rules of a style sheet: context and selector. -/
def Stylesheet.ruleList (s : Stylesheet) : List (Text × Text) := s.contexts.pairs OrderedMap.keys

namespace Removal

/-- The declaration that a removal names, if it has a property. -/
def declaration? (r : Removal) : Option (Text × Text × Text × Text) :=
  r.property?.bind fun property => r.value?.map fun value =>
    (r.context, r.selector, property, value)

/-- The rule that a removal names, if it has no property. -/
def rule? (r : Removal) : Option (Text × Text) :=
  if r.property?.isNone then some (r.context, r.selector) else none

theorem isSome_declaration? (r : Removal) : r.declaration?.isSome = r.isDeclaration := by
  obtain ⟨context, selector, cause⟩ := r
  cases cause <;> rfl

theorem isSome_rule? (r : Removal) : r.rule?.isSome = !r.isDeclaration := by
  obtain ⟨context, selector, cause⟩ := r
  cases cause <;> rfl

end Removal

/-- **What there was is what was kept and what is gone**, each of it once. -/
structure Accounted {α : Type} (there kept gone : List α) : Prop where
  perm : there.Perm (kept ++ gone)
  nodup : (kept ++ gone).Nodup

theorem Accounted.length_eq {α : Type} {there kept gone : List α}
    (h : Accounted there kept gone) : gone.length + kept.length = there.length := by
  rw [h.perm.length_eq, List.length_append, Nat.add_comm]

theorem Accounted.of_perm {α : Type} {there kept gone : List α} (hn : there.Nodup)
    (hp : there.Perm (kept ++ gone)) : Accounted there kept gone := ⟨hp, hp.nodup_iff.mp hn⟩

/-! ## 3. Blocks -/

section Lists

variable {α β : Type}

/-- A list is what a test does not hold of, and what it holds of. -/
theorem map_perm_filter (p : α → Bool) (f : α → β) (l : List α) :
    (l.map f).Perm ((l.filter fun x => !p x).map f ++ (l.filter p).map f) := by
  rw [← List.map_append]
  exact ((List.filter_append_perm p l).symm.trans List.perm_append_comm).map f

/-- Partitions of the parts are a partition of the whole. -/
theorem flatMap_perm_append {l : List α} {f g h : α → List β}
    (hpart : ∀ x ∈ l, (f x).Perm (g x ++ h x)) :
    (l.flatMap f).Perm (l.flatMap g ++ l.flatMap h) :=
  (List.Perm.flatMap_left l hpart).trans (List.flatMap_append_perm l g h).symm

/-- Elements that contribute nothing may go. -/
theorem flatMap_filter_eq {p : α → Bool} {f : α → List β} {l : List α}
    (h : ∀ x ∈ l, p x = false → f x = []) : (l.filter p).flatMap f = l.flatMap f := by
  induction l with
  | nil => rfl
  | cons x rest ih =>
    have hrest := ih fun y hy => h y (List.mem_cons_of_mem _ hy)
    rw [List.filter_cons, List.flatMap_cons]
    cases hx : p x with
    | true => rw [if_pos rfl, List.flatMap_cons, hrest]
    | false =>
      rw [if_neg Bool.false_ne_true, h x List.mem_cons_self hx, hrest, List.nil_append]

end Lists

namespace Block

theorem Distinct.nodup_declarationList {b : Block} (h : b.Distinct) : b.declarationList.Nodup :=
  OrderedMap.nodup_pairs h.selectors fun rule hrule => (h.properties rule hrule).of_map Prod.fst

/-- The declarations of a block with the context in front, rule by rule. -/
theorem map_declarationList (context : Text) (b : Block) :
    b.declarationList.map (Prod.mk context) =
      b.entries.flatMap fun rule => rule.2.entries.map fun d => (context, rule.1, d) := by
  rw [declarationList, OrderedMap.pairs, List.map_flatMap]
  refine List.flatMap_congr fun rule _ => ?_
  rw [List.map_map]
  rfl

theorem filterMap_declaration?_restatements (origin : Origin) (context : Text) (given : Block)
    (rule : Text × Declarations) :
    (restatements origin context given rule).filterMap Removal.declaration? =
      (rule.2.entries.filter (given.restates rule.1)).map fun d => (context, rule.1, d) := by
  rw [restatements, List.filterMap_map]
  exact congrFun List.filterMap_eq_map _

/-- **The declarations of a block are those that stay and those whose removals are reported.** -/
theorem perm_without (origin : Origin) (context : Text) (given b : Block) :
    (b.declarationList.map (Prod.mk context)).Perm
      ((b.without given).declarationList.map (Prod.mk context) ++
        (b.entries.flatMap (restatements origin context given)).filterMap
          Removal.declaration?) := by
  rw [map_declarationList, map_declarationList, without, List.flatMap_map, List.filterMap_flatMap]
  refine flatMap_perm_append fun rule _ => ?_
  rw [filterMap_declaration?_restatements]
  exact map_perm_filter (given.restates rule.1) _ rule.2.entries

/-- An empty rule takes no declaration along. -/
theorem declarationList_pruned (b : Block) : b.pruned.declarationList = b.declarationList := by
  refine flatMap_filter_eq fun rule _ hempty => ?_
  have hnone : rule.2.entries = [] := by
    rw [← OrderedMap.isEmpty_iff]
    simpa using hempty
  rw [hnone, List.map_nil]

theorem filterMap_rule?_emptied (context : Text) (b : Block) :
    (b.emptied context).filterMap Removal.rule? =
      (b.entries.filter fun rule => rule.2.isEmpty).map fun rule => (context, rule.1) := by
  rw [emptied, List.filterMap_map]
  exact congrFun List.filterMap_eq_map _

/-- **The rules of a block are those that stay and those whose removals are reported.** -/
theorem perm_pruned (context : Text) (b : Block) :
    (b.keys.map (Prod.mk context)).Perm
      (b.pruned.keys.map (Prod.mk context) ++
        (b.emptied context).filterMap Removal.rule?) := by
  rw [filterMap_rule?_emptied, OrderedMap.keys, OrderedMap.keys, List.map_map, List.map_map]
  exact map_perm_filter (fun rule => rule.2.isEmpty) _ b.entries

end Block

/-! ## 4. One context after the other -/

/-- **The declarations of all media contexts.** -/
theorem perm_dedupeAfter (origin : Origin) (given : Block) (media : List (Text × Block)) :
    ((⟨media⟩ : OrderedMap Text Block).pairs Block.declarationList).Perm
      ((⟨(dedupeAfter origin given media).1⟩ : OrderedMap Text Block).pairs Block.declarationList ++
        (dedupeAfter origin given media).2.filterMap Removal.declaration?) := by
  induction media generalizing origin given with
  | nil => exact .refl []
  | cons c rest ih =>
    have hhere := Block.perm_without origin c.1 given c.2
    have hlater := ih .previous (c.2.without given)
    simp only [OrderedMap.pairs, dedupeAfter, List.flatMap_cons, List.filterMap_append] at hlater ⊢
    refine (hhere.append hlater).trans ?_
    -- what this context lost changes places with what is left of the later ones
    simp only [List.append_assoc]
    refine List.Perm.append_left _ ?_
    simp only [← List.append_assoc]
    exact List.perm_append_comm.append_right _

/-- The rules of all media contexts stay. -/
theorem rules_dedupeAfter (origin : Origin) (given : Block) (media : List (Text × Block)) :
    (⟨(dedupeAfter origin given media).1⟩ : OrderedMap Text Block).pairs OrderedMap.keys =
      (⟨media⟩ : OrderedMap Text Block).pairs OrderedMap.keys := by
  induction media generalizing origin given with
  | nil => rfl
  | cons c rest ih =>
    have hlater := ih .previous (c.2.without given)
    simp only [OrderedMap.pairs, dedupeAfter, List.flatMap_cons] at hlater ⊢
    rw [hlater, Block.keys_without]

namespace Stylesheet

/-! ## 5. Style sheets -/

section Account

variable {s : Stylesheet} (hs : s.Valid)
include hs

theorem Valid.distinct {c : Text × Block} (hc : c ∈ s.contexts.entries) : c.2.Distinct :=
  ⟨hs.selectors_nodup c hc, hs.properties_nodup c hc⟩

/-- No declaration stands twice in a style sheet. -/
theorem Valid.nodup_declarationList : s.declarationList.Nodup :=
  OrderedMap.nodup_pairs hs.contexts_nodup fun _ hc => (hs.distinct hc).nodup_declarationList

/-- No rule stands twice in a style sheet. -/
theorem Valid.nodup_ruleList : s.ruleList.Nodup :=
  OrderedMap.nodup_pairs hs.contexts_nodup hs.selectors_nodup

/-- **The declarations are the values that are looked up.** -/
theorem Valid.mem_declarationList_iff (context selector property value : Text) :
    (context, selector, property, value) ∈ s.declarationList ↔
      s.value? context selector property = some value := by
  rw [declarationList, OrderedMap.mem_pairs_iff hs.contexts_nodup, value?,
    Option.bind_eq_some_iff]
  constructor
  · rintro ⟨b, hb, hdeclaration⟩
    have hmem := OrderedMap.mem_entries_of_get? hb
    obtain ⟨rule, hrule, hd⟩ :=
      (OrderedMap.mem_pairs_iff (hs.selectors_nodup _ hmem)).mp hdeclaration
    have hn := hs.properties_nodup _ hmem _ (OrderedMap.mem_entries_of_get? hrule)
    exact ⟨rule, by rw [declarations?_of_block? hb, hrule], OrderedMap.get?_of_mem_entries hn hd⟩
  · rintro ⟨rule, hrule, hvalue⟩
    obtain ⟨b, hb, hget⟩ := Option.bind_eq_some_iff.mp hrule
    have hn := hs.selectors_nodup _ (OrderedMap.mem_entries_of_get? hb)
    have hd := OrderedMap.mem_entries_of_get? hvalue
    exact ⟨b, hb, (OrderedMap.mem_pairs_iff hn).mpr ⟨rule, hget, hd⟩⟩

/-- **The rules are those that are there.** -/
theorem Valid.mem_ruleList_iff (context selector : Text) :
    (context, selector) ∈ s.ruleList ↔ s.hasSelector context selector = true := by
  rw [ruleList, OrderedMap.mem_pairs_iff hs.contexts_nodup, hasSelector, declarations?,
    Option.isSome_bind]
  change (∃ b, s.block? context = some b ∧ selector ∈ b.keys) ↔ _
  cases s.block? context with
  | none => simp
  | some b => simp [← OrderedMap.contains_iff, OrderedMap.contains]

theorem Valid.perm_dedupe :
    s.declarationList.Perm
      (s.dedupe.1.declarationList ++ s.dedupe.2.filterMap Removal.declaration?) := by
  obtain ⟨base, media, rfl⟩ := hs.exists_eq
  rw [dedupe_eq hs]
  have hmedia := perm_dedupeAfter .base base media
  simp only [declarationList, OrderedMap.pairs, List.flatMap_cons, List.append_assoc] at hmedia ⊢
  exact hmedia.append_left _

theorem Valid.ruleList_dedupe : s.dedupe.1.ruleList = s.ruleList := by
  obtain ⟨base, media, rfl⟩ := hs.exists_eq
  rw [dedupe_eq hs]
  have hmedia := rules_dedupeAfter .base base media
  simp only [ruleList, OrderedMap.pairs, List.flatMap_cons] at hmedia ⊢
  rw [hmedia]

/-- Duplicate removal reports declarations. -/
theorem Valid.filterMap_rule?_dedupe : s.dedupe.2.filterMap Removal.rule? = [] := by
  rw [List.filterMap_eq_nil_iff]
  intro r hr
  obtain ⟨c, _, selector, property, value, rfl⟩ := hs.exists_restated hr
  rfl

theorem Valid.declarationList_prune : s.prune.1.declarationList = s.declarationList := by
  rw [prune_eq hs, declarationList, declarationList, OrderedMap.pairs, OrderedMap.pairs,
    List.flatMap_map]
  refine List.flatMap_congr fun c _ => ?_
  rw [Block.declarationList_pruned]

theorem Valid.perm_prune :
    s.ruleList.Perm (s.prune.1.ruleList ++ s.prune.2.filterMap Removal.rule?) := by
  rw [prune_eq hs, ruleList, ruleList, OrderedMap.pairs, OrderedMap.pairs, List.flatMap_map,
    List.filterMap_flatMap]
  exact flatMap_perm_append fun c _ => Block.perm_pruned c.1 c.2

/-- The removal of empty rules reports rules. -/
theorem Valid.filterMap_declaration?_prune : s.prune.2.filterMap Removal.declaration? = [] := by
  rw [prune_eq hs, List.filterMap_eq_nil_iff]
  intro r hr
  obtain ⟨c, _, hrules⟩ := List.mem_flatMap.mp hr
  obtain ⟨rule, _, rfl⟩ := List.mem_map.mp hrules
  rfl

/-- **The rules that go are those without declarations.** -/
theorem Valid.mem_rule?_prune_iff (context selector : Text) :
    (context, selector) ∈ s.prune.2.filterMap Removal.rule? ↔
      s.declarations? context selector = some .empty := by
  rw [prune_eq hs, List.filterMap_flatMap, List.mem_flatMap]
  constructor
  · rintro ⟨c, hc, hrule⟩
    rw [Block.filterMap_rule?_emptied] at hrule
    obtain ⟨rule, hfilter, hplace⟩ := List.mem_map.mp hrule
    obtain ⟨hmem, hempty⟩ := List.mem_filter.mp hfilter
    obtain ⟨rfl, rfl⟩ := Prod.mk.inj hplace
    rw [declarations?_of_block? (OrderedMap.get?_of_mem_entries hs.contexts_nodup hc),
      OrderedMap.get?_of_mem_entries (hs.selectors_nodup c hc) hmem,
      OrderedMap.ext_entries ((OrderedMap.isEmpty_iff rule.2).mp hempty)]
    rfl
  · intro h
    obtain ⟨b, hb, hrule⟩ := Option.bind_eq_some_iff.mp h
    refine ⟨(context, b), OrderedMap.mem_entries_of_get? hb, ?_⟩
    rw [Block.filterMap_rule?_emptied]
    exact List.mem_map.mpr ⟨(selector, .empty),
      List.mem_filter.mpr ⟨OrderedMap.mem_entries_of_get? hrule, rfl⟩, rfl⟩

/-! ## 6. What is left, in its order -/

theorem Valid.block?_prune (context : Text) :
    s.prune.1.block? context = (s.block? context).map Block.pruned := by
  rw [prune_eq hs]
  exact OrderedMap.get?_map (fun c => c.2.pruned) s.contexts context

theorem Valid.declarations?_prune (context selector : Text) :
    s.prune.1.declarations? context selector =
      (s.declarations? context selector).filter fun rule => !rule.isEmpty := by
  rw [declarations?, declarations?, hs.block?_prune]
  cases hb : s.block? context with
  | none => rfl
  | some b =>
    have hn := hs.selectors_nodup _ (OrderedMap.mem_entries_of_get? hb)
    exact OrderedMap.get?_filter hn (fun rule => !rule.2.isEmpty) selector

/-- Duplicate removal leaves a rule with some of its declarations, in their order. -/
theorem Valid.exists_dedupe_map (context selector : Text) :
    ∃ f : Declarations → Declarations, (∀ rule, (f rule).entries.Sublist rule.entries) ∧
      s.dedupe.1.declarations? context selector = (s.declarations? context selector).map f := by
  by_cases hmem : context ∈ s.contextKeys
  · rcases hs.eq_base_or_neighbours hmem with rfl | ⟨previous, h⟩
    · refine ⟨id, fun rule => .refl _, ?_⟩
      rw [declarations?, declarations?, hs.block?_base_dedupe, Option.map_id, id]
    · exact ⟨_, fun rule => List.filter_sublist, hs.declarations?_dedupe h selector⟩
  · obtain ⟨hnone, hleft⟩ := block?_dedupe_eq_none hmem
    refine ⟨id, fun rule => .refl _, ?_⟩
    rw [declarations?, declarations?, hnone, hleft, Option.map_id, id]

/-- A rule without declarations is one after duplicate removal. -/
theorem Valid.empty_dedupe {context selector : Text}
    (h : s.declarations? context selector = some .empty) :
    s.dedupe.1.declarations? context selector = some .empty := by
  obtain ⟨f, hsublist, hmap⟩ := hs.exists_dedupe_map context selector
  rw [hmap, h, Option.map_some, OrderedMap.ext_entries (List.sublist_nil.mp (hsublist .empty))]
  rfl

/-- The rules of a context that are left are in their order. -/
theorem Valid.selectors_sublist {context : Text} {left : List Text}
    (h : s.simplify.1.selectors? context = some left) :
    ∃ selectors, s.selectors? context = some selectors ∧ left.Sublist selectors := by
  rw [← hs.selectors?_dedupe context]
  obtain ⟨pruned, hpruned, rfl⟩ := Option.map_eq_some_iff.mp h
  rw [Stylesheet.simplify, hs.dedupe.block?_prune] at hpruned
  obtain ⟨b, hb, rfl⟩ := Option.map_eq_some_iff.mp hpruned
  exact ⟨b.keys, by rw [selectors?, hb, Option.map_some], b.keys_pruned_sublist⟩

/-- The declarations of a rule that are left are in their order. -/
theorem Valid.declarations_sublist {context selector : Text} {left : Declarations}
    (h : s.simplify.1.declarations? context selector = some left) :
    ∃ rule, s.declarations? context selector = some rule ∧ left.entries.Sublist rule.entries := by
  obtain ⟨f, hsublist, hmap⟩ := hs.exists_dedupe_map context selector
  rw [Stylesheet.simplify, hs.dedupe.declarations?_prune, hmap] at h
  obtain ⟨hleft, _⟩ := Option.filter_eq_some_iff.mp h
  obtain ⟨rule, hrule, rfl⟩ := Option.map_eq_some_iff.mp hleft
  exact ⟨rule, hrule, hsublist rule⟩

/-! ## 7. Both transforms -/

theorem Valid.accounted_declarations :
    Accounted s.declarationList s.simplify.1.declarationList
      (s.simplify.2.filterMap Removal.declaration?) := by
  refine .of_perm hs.nodup_declarationList ?_
  rw [Stylesheet.simplify, List.filterMap_append, hs.dedupe.filterMap_declaration?_prune,
    List.append_nil, hs.dedupe.declarationList_prune]
  exact hs.perm_dedupe

theorem Valid.accounted_rules :
    Accounted s.ruleList s.simplify.1.ruleList (s.simplify.2.filterMap Removal.rule?) := by
  refine .of_perm hs.nodup_ruleList ?_
  rw [Stylesheet.simplify, List.filterMap_append, hs.filterMap_rule?_dedupe, List.nil_append,
    ← hs.ruleList_dedupe]
  exact hs.dedupe.perm_prune

theorem Valid.mem_rule?_simplify_iff (context selector : Text) :
    (context, selector) ∈ s.simplify.2.filterMap Removal.rule? ↔
      s.dedupe.1.declarations? context selector = some .empty := by
  rw [Stylesheet.simplify, List.filterMap_append, hs.filterMap_rule?_dedupe, List.nil_append]
  exact hs.dedupe.mem_rule?_prune_iff context selector

end Account

/-- **The removals account for every change.** The declarations of a style sheet are those that are
    left and those that the removals with a property name; the rules are those that are left and
    those that the removals without a property name. Nothing stands twice. The rules that go are
    those that have no declaration once the duplicates are gone, or had none before. What is left of
    the selectors and of the declarations is in its order, and all contexts are. The two counts of a
    cleaned style sheet are the numbers of declarations and of rules that it is short of. -/
theorem removals_account {s : Stylesheet} (hs : s.Valid) :
    ∃ reached removals, s.applyAll [] = (reached, .ok removals) ∧
      Accounted s.declarationList reached.declarationList
        (removals.filterMap Removal.declaration?) ∧
      Accounted s.ruleList reached.ruleList (removals.filterMap Removal.rule?) ∧
      (∀ context selector, (context, selector) ∈ removals.filterMap Removal.rule? ↔
        s.dedupe.1.declarations? context selector = some .empty) ∧
      (∀ context selector, s.declarations? context selector = some .empty →
        (context, selector) ∈ removals.filterMap Removal.rule?) ∧
      reached.contextKeys = s.contextKeys ∧
      (∀ context left, reached.selectors? context = some left →
        ∃ selectors, s.selectors? context = some selectors ∧ left.Sublist selectors) ∧
      (∀ context selector left, reached.declarations? context selector = some left →
        ∃ rule, s.declarations? context selector = some rule ∧
          left.entries.Sublist rule.entries) ∧
      ∀ warnings, let cleaned := Cleaned.ofRead (s, warnings)
        cleaned.sheet = reached ∧ cleaned.removals = removals ∧
        cleaned.duplicateCount + reached.declarationList.length = s.declarationList.length ∧
        cleaned.prunedCount + reached.ruleList.length = s.ruleList.length := by
  refine ⟨s.simplify.1, s.simplify.2, applyAll_nil s, hs.accounted_declarations, hs.accounted_rules,
    hs.mem_rule?_simplify_iff, fun context selector h => ?_, contextKeys_simplify s,
    fun _ _ => hs.selectors_sublist, fun _ _ _ => hs.declarations_sublist, fun warnings => ?_⟩
  · exact (hs.mem_rule?_simplify_iff context selector).mpr (hs.empty_dedupe h)
  · refine ⟨rfl, rfl, ?_, ?_⟩
    · rw [← hs.accounted_declarations.length_eq, List.length_filterMap_eq_countP]
      simp only [Removal.isSome_declaration?]
      rfl
    · rw [← hs.accounted_rules.length_eq, List.length_filterMap_eq_countP]
      simp only [Removal.isSome_rule?]
      rfl

/-- One of three declarations goes, and with it one of three rules. -/
theorem removals_account_threefold :
    ∃ reached removals, threefold.applyAll [] = (reached, .ok removals) ∧
      removals.filterMap Removal.declaration? = [(['@', 'm'], ['a'], ['c'], ['r'])] ∧
      (['@', 'm'], ['a']) ∈ removals.filterMap Removal.rule? ∧
      reached.declarationList.length + 1 = threefold.declarationList.length := by
  have hvalid : threefold.Valid := by decide
  obtain ⟨reached, removals, hrun, hdeclarations, _, hrules, _⟩ := removals_account hvalid
  have hgone : removals.filterMap Removal.declaration? = [(['@', 'm'], ['a'], ['c'], ['r'])] := by
    rw [← Except.ok.inj (congrArg Prod.snd hrun)]
    rfl
  refine ⟨reached, removals, hrun, hgone, (hrules _ _).mpr rfl, ?_⟩
  rw [← hdeclarations.length_eq, hgone, Nat.add_comm]
  rfl

end Stylesheet

end MediaCascade
