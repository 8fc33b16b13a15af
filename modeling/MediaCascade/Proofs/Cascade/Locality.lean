import MediaCascade.Proofs.Cascade.Effective
import Mathlib.Data.List.Basic

/-!
# Duplicate removal is local

Whether a declaration goes is decided by what stands for the same selector and the same property in
the contexts before. So a style sheet can be cut down, to some selectors and properties and to its
first contexts, before or after duplicates are removed.

* `Block.without_restrict`, `Block.restatements_restrict`: two neighbouring contexts, cut down to
  some declarations.
* `dedupeAfter_restrict`: all contexts, cut down to some declarations.
* `dedupeAfter_take`: the first contexts, as if there were no others.
* `Stylesheet.dedupe_restrict`: style sheets, cut down both ways, and the removals with them.
-/

namespace MediaCascade

/-! ## 1. Some of the declarations -/

/-- Whether what was removed is a declaration that `P` picks, by its selector and property. -/
def Removal.concerns (P : Text → Text → Bool) (r : Removal) : Bool :=
  r.property?.any (P r.selector)

namespace Block

/-- The block with only the declarations that `P` picks, by selector and property. No rule goes. -/
def restrict (P : Text → Text → Bool) (b : Block) : Block :=
  ⟨b.entries.map fun rule => (rule.1, rule.2.filterKeys (P rule.1))⟩

theorem entries_restrict (P : Text → Text → Bool) (b : Block) :
    (restrict P b).entries = b.entries.map fun rule => (rule.1, rule.2.filterKeys (P rule.1)) := rfl

theorem keys_restrict (P : Text → Text → Bool) (b : Block) : (restrict P b).keys = b.keys := by
  rw [restrict, OrderedMap.keys_mk, List.map_map]
  rfl

theorem Distinct.restrict {b : Block} (h : b.Distinct) (P : Text → Text → Bool) :
    (restrict P b).Distinct := by
  refine ⟨by rw [keys_restrict]; exact h.selectors, ?_⟩
  intro rule hrule
  obtain ⟨old, hold, rfl⟩ := List.mem_map.mp hrule
  exact (h.properties old hold).sublist (OrderedMap.keys_filterKeys_sublist _ _)

section Given

variable (P : Text → Text → Bool) (given : Block)

/-- A value that is picked stays. -/
theorem value?_restrict (selector property : Text) :
    (restrict P given).value? selector property =
      if P selector property then given.value? selector property else none := by
  have hget : (restrict P given).get? selector =
      (given.get? selector).map fun rule => rule.filterKeys (P selector) :=
    OrderedMap.get?_map (fun rule => rule.2.filterKeys (P rule.1)) given selector
  rw [value?, value?, hget]
  cases given.get? selector with
  | none => exact (ite_self _).symm
  | some rule => exact OrderedMap.get?_filterKeys _ _ _

/-- A declaration that is picked is restated by the same blocks. -/
theorem restates_restrict {selector : Text} {declaration : Text × Text}
    (h : P selector declaration.1 = true) :
    (restrict P given).restates selector declaration = given.restates selector declaration := by
  rw [restates, value?_restrict, if_pos h, restates]

theorem keepNew_restrict (rule : Text × Declarations) :
    (restrict P given).keepNew (rule.1, rule.2.filterKeys (P rule.1)) =
      (given.keepNew rule).filterKeys (P rule.1) := by
  apply OrderedMap.ext_entries
  rw [keepNew, OrderedMap.filterKeys, OrderedMap.filterKeys, keepNew, List.filter_filter,
    List.filter_filter]
  refine List.filter_congr fun d _ => ?_
  cases hp : P rule.1 d.1 with
  | true => rw [restates_restrict P given hp, Bool.and_comm]
  | false => rw [Bool.and_false, Bool.false_and]

/-- **What one context loses of the picked declarations is decided by the picked ones before.** -/
theorem without_restrict (b : Block) :
    (restrict P b).without (restrict P given) = restrict P (b.without given) := by
  apply OrderedMap.ext_entries
  rw [without, entries_restrict, entries_restrict, without, List.map_map, List.map_map]
  refine List.map_congr_left fun rule _ => ?_
  exact congrArg (Prod.mk rule.1) (keepNew_restrict P given rule)

theorem restatements_restrict (origin : Origin) (context : Text) (rule : Text × Declarations) :
    restatements origin context (restrict P given) (rule.1, rule.2.filterKeys (P rule.1)) =
      (restatements origin context given rule).filter (Removal.concerns P) := by
  rw [restatements, restatements, List.filter_map, OrderedMap.filterKeys, List.filter_filter,
    List.filter_filter]
  refine congrArg (List.map _) (List.filter_congr fun d _ => ?_)
  cases hp : P rule.1 d.1 with
  | true =>
    rw [restates_restrict P given hp]
    simp [Removal.concerns, Removal.property?, hp]
  | false => simp [Removal.concerns, Removal.property?, hp]

theorem flatMap_restatements_restrict (origin : Origin) (context : Text) (b : Block) :
    (restrict P b).entries.flatMap (restatements origin context (restrict P given)) =
      (b.entries.flatMap (restatements origin context given)).filter (Removal.concerns P) := by
  rw [entries_restrict, List.flatMap_map, List.filter_flatMap]
  exact List.flatMap_congr fun rule _ => restatements_restrict P given origin context rule

end Given

end Block

/-- **All contexts, cut down to the picked declarations.** -/
theorem dedupeAfter_restrict (P : Text → Text → Bool) (origin : Origin) (given : Block)
    (media : List (Text × Block)) :
    dedupeAfter origin (given.restrict P) (media.map fun c => (c.1, c.2.restrict P)) =
      ((dedupeAfter origin given media).1.map fun c => (c.1, c.2.restrict P),
        (dedupeAfter origin given media).2.filter (Removal.concerns P)) := by
  induction media generalizing origin given with
  | nil => rfl
  | cons c rest ih =>
    rw [List.map_cons, dedupeAfter, dedupeAfter]
    simp only
    rw [Block.without_restrict, Block.flatMap_restatements_restrict, ih, List.map_cons,
      List.filter_append]

/-! ## 2. The first contexts -/

/-- What is removed is removed from one of the contexts. -/
theorem context_of_mem_dedupeAfter {origin : Origin} {given : Block} {media : List (Text × Block)}
    {r : Removal} (hr : r ∈ (dedupeAfter origin given media).2) :
    r.context ∈ media.map Prod.fst := by
  induction media generalizing origin given with
  | nil => cases hr
  | cons c rest ih =>
    rcases List.mem_append.mp hr with hhere | hlater
    · rw [(Stylesheet.mem_restatements hhere).2]
      exact List.mem_cons_self
    · exact List.mem_cons_of_mem _ (ih hlater)

/-- **The first contexts lose the same, whatever stands behind them.** -/
theorem dedupeAfter_take (origin : Origin) (given : Block) {media : List (Text × Block)}
    (hn : (media.map Prod.fst).Nodup) (n : Nat) :
    dedupeAfter origin given (media.take n) =
      ((dedupeAfter origin given media).1.take n,
        (dedupeAfter origin given media).2.filter fun r =>
          decide (r.context ∈ (media.take n).map Prod.fst)) := by
  induction media generalizing origin given n with
  | nil => simp [dedupeAfter]
  | cons c rest ih =>
    cases n with
    | zero => simp [dedupeAfter]
    | succ n =>
      obtain ⟨hnew, hrest⟩ := List.nodup_cons.mp hn
      have hhere : (c.2.entries.flatMap (Block.restatements origin c.1 given)).filter
          (fun r => decide (r.context ∈ c.1 :: (rest.take n).map Prod.fst)) =
          c.2.entries.flatMap (Block.restatements origin c.1 given) := by
        rw [List.filter_eq_self]
        intro r hr
        rw [(Stylesheet.mem_restatements hr).2]
        exact decide_eq_true List.mem_cons_self
      -- the removals behind name other contexts than the one at hand
      have hlater : (dedupeAfter .previous (c.2.without given) rest).2.filter
          (fun r => decide (r.context ∈ c.1 :: (rest.take n).map Prod.fst)) =
          (dedupeAfter .previous (c.2.without given) rest).2.filter
            (fun r => decide (r.context ∈ (rest.take n).map Prod.fst)) := by
        refine List.filter_congr fun r hr => ?_
        have hne : r.context ≠ c.1 := fun e => hnew (e ▸ context_of_mem_dedupeAfter hr)
        exact decide_eq_decide.mpr (List.mem_cons.trans (or_iff_right hne))
      rw [List.take_succ_cons, dedupeAfter, dedupeAfter, ih _ _ hrest, List.map_cons]
      simp only
      rw [List.take_succ_cons, List.filter_append, hhere, hlater]

/-! ## 3. Style sheets -/

namespace Stylesheet

/-- The first `k` contexts of a style sheet, with only the declarations that `P` picks. -/
def restrict (P : Text → Text → Bool) (k : Nat) (s : Stylesheet) : Stylesheet :=
  ⟨⟨(s.contexts.entries.take k).map fun c => (c.1, c.2.restrict P)⟩⟩

theorem contextKeys_restrict (P : Text → Text → Bool) (k : Nat) (s : Stylesheet) :
    (s.restrict P k).contextKeys = s.contextKeys.take k := by
  rw [contextKeys, restrict, OrderedMap.keys_mk, List.map_map, contextKeys, OrderedMap.keys,
    ← List.map_take]
  rfl

theorem restrict_succ (P : Text → Text → Bool) (n : Nat) (base : Block)
    (media : List (Text × Block)) :
    restrict P (n + 1) ⟨⟨(baseKey, base) :: media⟩⟩ =
      ⟨⟨(baseKey, base.restrict P) :: (media.take n).map fun c => (c.1, c.2.restrict P)⟩⟩ := rfl

/-- **Cut down, a style sheet stays valid**, unless not even `base` is left. -/
theorem Valid.restrict {s : Stylesheet} (hs : s.Valid) (P : Text → Text → Bool) {k : Nat}
    (hk : 1 ≤ k) : (s.restrict P k).Valid := by
  obtain ⟨n, rfl⟩ := Nat.exists_eq_add_of_le' hk
  obtain ⟨base, media, rfl⟩ := hs.exists_eq
  obtain ⟨hn, hd⟩ := valid_mk_iff.mp hs
  refine valid_mk_iff.mpr ⟨?_, ?_⟩
  · have hkeys := contextKeys_restrict P (n + 1) ⟨⟨(baseKey, base) :: media⟩⟩
    exact (hkeys ▸ hn.sublist (List.take_sublist _ _) :)
  · intro c hc
    obtain ⟨old, hold, rfl⟩ := List.mem_map.mp
      (show c ∈ (((baseKey, base) :: media).take (n + 1)).map fun c => (c.1, c.2.restrict P) from hc)
    exact (hd old (List.mem_of_mem_take hold)).restrict P

/-- **Duplicate removal is local.** A style sheet that is cut down to some selectors and properties,
    and to its first contexts, loses what it would lose as a whole: the same style sheet is left as
    if it were cut down afterwards, and the removals are those of the whole that name a declaration
    picked in a context kept, in the same order. -/
theorem dedupe_restrict {s : Stylesheet} (hs : s.Valid) (P : Text → Text → Bool) {k : Nat}
    (hk : 1 ≤ k) :
    (s.restrict P k).dedupe.1 = s.dedupe.1.restrict P k ∧
      (s.restrict P k).dedupe.2 = s.dedupe.2.filter fun r =>
        r.concerns P && decide (r.context ∈ s.contextKeys.take k) := by
  have hcut := hs.restrict P hk
  obtain ⟨n, rfl⟩ := Nat.exists_eq_add_of_le' hk
  obtain ⟨base, media, rfl⟩ := hs.exists_eq
  obtain ⟨hbase, hmedia⟩ := List.nodup_cons.mp hs.contexts_nodup
  rw [restrict_succ] at hcut ⊢
  rw [dedupe_eq hcut, dedupe_eq hs, restrict_succ, dedupeAfter_restrict, dedupeAfter_take _ _ hmedia]
  refine ⟨rfl, ?_⟩
  rw [List.filter_filter]
  refine List.filter_congr fun r hr => ?_
  -- nothing is removed from `base`
  have hne : r.context ≠ baseKey := fun e => hbase (e ▸ context_of_mem_dedupeAfter hr)
  have hkept : r.context ∈ (media.take n).map Prod.fst ↔
      r.context ∈ baseKey :: (media.map Prod.fst).take n := by
    rw [List.mem_cons, or_iff_right hne, List.map_take]
  exact congrArg (r.concerns P && ·) (decide_eq_decide.mpr hkept)

/-- Without its third context, and for the property `c` alone, the second context loses what it
    loses as a whole. -/
theorem dedupe_restrict_threefold :
    let P : Text → Text → Bool := fun _ property => decide (property = ['c'])
    (threefold.restrict P 2).dedupe.1 = threefold.dedupe.1.restrict P 2 ∧
      (threefold.restrict P 2).dedupe.2 = [⟨['@', 'm'], ['a'], .restated .base ['c'] ['r']⟩] := by
  intro P
  have hvalid : threefold.Valid := by decide
  have hkept : 1 ≤ 2 := by decide
  obtain ⟨hleft, hremovals⟩ := dedupe_restrict hvalid P hkept
  refine ⟨hleft, hremovals.trans ?_⟩
  rfl

end Stylesheet

end MediaCascade
