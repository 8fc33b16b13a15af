import MediaCascade.Diagnostic
import MediaCascade.Proofs.Entries

/-!
# Blocks of rules, and what a context leaves of the next

A block loses the declarations that restate the block before it (`Block.without`), and its empty
rules (`Block.pruned`). `dedupeAfter` does the former for one context after the other: each is held
against what is LEFT of the one before.

* `Block.value?_without`: the values that go are those that the block before gives too.
* `Block.value?_pruned`: no value goes with an empty rule.
-/

namespace MediaCascade

/-! ## 1. Blocks -/

namespace Block

/-- The value that a block gives a property of a selector. -/
def value? (b : Block) (selector property : Text) : Option Text :=
  (b.get? selector).bind fun rule => rule.get? property

/-- Whether a declaration for a selector has the value that the block gives. -/
def restates (given : Block) (selector : Text) (declaration : Text × Text) : Bool :=
  decide (given.value? selector declaration.1 = some declaration.2)

/-- The declarations of a rule that do not restate `given`. -/
def keepNew (given : Block) (rule : Text × Declarations) : Declarations :=
  ⟨rule.2.entries.filter fun declaration => !given.restates rule.1 declaration⟩

/-- The block without the declarations that restate `given`. No rule goes. -/
def without (b given : Block) : Block :=
  ⟨b.entries.map fun rule => (rule.1, given.keepNew rule)⟩

/-- The removals of the declarations of a rule that restate `given`. -/
def restatements (origin : Origin) (context : Text) (given : Block) (rule : Text × Declarations) :
    List Removal :=
  (rule.2.entries.filter fun declaration => given.restates rule.1 declaration).map
    fun declaration => ⟨context, rule.1, .restated origin declaration.1 declaration.2⟩

/-- The block without its empty rules. -/
def pruned (b : Block) : Block := ⟨b.entries.filter fun rule => !rule.2.isEmpty⟩

/-- The removals of the empty rules of a block. -/
def emptied (context : Text) (b : Block) : List Removal :=
  (b.entries.filter fun rule => rule.2.isEmpty).map fun rule => ⟨context, rule.1, .emptied⟩

/-- No selector has two rules, and no rule gives a property twice. -/
structure Distinct (b : Block) : Prop where
  selectors : b.keys.Nodup
  properties : ∀ rule ∈ b.entries, rule.2.keys.Nodup

theorem keepNew_keepNew (given : Block) (selector : Text) (rule : Declarations) :
    given.keepNew (selector, given.keepNew (selector, rule)) = given.keepNew (selector, rule) := by
  simp [keepNew, List.filter_filter]

/-- What is kept restates nothing. -/
theorem restatements_keepNew (origin : Origin) (context : Text) (given : Block) (selector : Text)
    (rule : Declarations) :
    restatements origin context given (selector, given.keepNew (selector, rule)) = [] := by
  rw [restatements, List.map_eq_nil_iff, List.filter_eq_nil_iff]
  intro declaration h
  have hkept := (List.mem_filter.mp h).2
  simpa using hkept

/-- A block without a rule for the selector is restated by nothing. -/
theorem restates_of_get?_none {given : Block} {selector : Text} (h : given.get? selector = none)
    (declaration : Text × Text) : given.restates selector declaration = false := by
  simp [restates, value?, h]

theorem keys_without (b given : Block) : (b.without given).keys = b.keys := by
  rw [without, OrderedMap.keys_mk, List.map_map]
  rfl

theorem keys_pruned_sublist (b : Block) : b.pruned.keys.Sublist b.keys :=
  List.filter_sublist.map _

theorem keys_keepNew_sublist (given : Block) (rule : Text × Declarations) :
    (given.keepNew rule).keys.Sublist rule.2.keys := List.filter_sublist.map _

theorem Distinct.without {b : Block} (h : b.Distinct) (given : Block) :
    (b.without given).Distinct := by
  refine ⟨by rw [keys_without]; exact h.selectors, ?_⟩
  intro rule hrule
  obtain ⟨old, hold, rfl⟩ := List.mem_map.mp hrule
  exact (h.properties old hold).sublist (keys_keepNew_sublist given old)

theorem Distinct.pruned {b : Block} (h : b.Distinct) : b.pruned.Distinct :=
  ⟨h.selectors.sublist b.keys_pruned_sublist,
    fun rule hrule => h.properties rule (List.mem_filter.mp hrule).1⟩

/-! ## 2. What is left of a value -/

theorem value?_eq_none_of_get? {b : Block} {selector : Text} (h : b.get? selector = none)
    (property : Text) : b.value? selector property = none := by
  rw [value?, h, Option.bind_none]

/-- **A value goes exactly if the other block gives it too.** -/
theorem value?_without {b : Block} (h : b.Distinct) (given : Block) (selector property : Text) :
    (b.without given).value? selector property =
      if given.value? selector property = b.value? selector property then none
      else b.value? selector property := by
  have hget : (b.without given).get? selector =
      (b.get? selector).map fun rule => given.keepNew (selector, rule) :=
    OrderedMap.get?_map given.keepNew b selector
  cases hb : b.get? selector with
  | none =>
    rw [hb, Option.map_none] at hget
    rw [value?_eq_none_of_get? hget, value?_eq_none_of_get? hb, ite_self]
  | some rule =>
    have hrule : rule.keys.Nodup := h.properties _ (OrderedMap.mem_entries_of_get? hb)
    have hkept : (given.keepNew (selector, rule)).get? property =
        (rule.get? property).filter fun v => !given.restates selector (property, v) :=
      OrderedMap.get?_filter hrule _ property
    have hvalue : b.value? selector property = rule.get? property := by
      rw [value?, hb, Option.bind_some]
    rw [value?, hget, hb, Option.map_some, Option.bind_some, hkept, hvalue]
    cases rule.get? property with
    | none => rw [Option.filter_none, ite_self]
    | some v =>
      by_cases hv : given.value? selector property = some v
      · rw [if_pos hv]
        simp [restates, hv]
      · rw [if_neg hv]
        simp [restates, hv]

/-- **An empty rule gives no value.** -/
theorem value?_pruned {b : Block} (h : b.Distinct) (selector property : Text) :
    b.pruned.value? selector property = b.value? selector property := by
  have hget : b.pruned.get? selector = (b.get? selector).filter fun rule => !rule.isEmpty :=
    OrderedMap.get?_filter h.selectors _ selector
  rw [value?, value?, hget]
  cases b.get? selector with
  | none => rfl
  | some rule =>
    cases he : rule.isEmpty with
    | false => simp [Option.filter, he]
    | true =>
      have hnone : rule.get? property = none := by
        rw [OrderedMap.get?_eq_none_iff, OrderedMap.keys, (OrderedMap.isEmpty_iff rule).mp he]
        exact List.not_mem_nil
      simp [Option.filter, he, hnone]

end Block

/-! ## 3. One context after the other -/

/-- The media contexts without what restates the context before, `given` being what is left of the
    context before the first of them; and the removals, those of the first with their `origin`. -/
def dedupeAfter (origin : Origin) (given : Block) :
    List (Text × Block) → List (Text × Block) × List Removal
  | [] => ([], [])
  | (context, b) :: rest =>
    let kept := b.without given
    let later := dedupeAfter .previous kept rest
    ((context, kept) :: later.1,
      b.entries.flatMap (Block.restatements origin context given) ++ later.2)

theorem keys_dedupeAfter (origin : Origin) (given : Block) (media : List (Text × Block)) :
    (dedupeAfter origin given media).1.map Prod.fst = media.map Prod.fst := by
  induction media generalizing origin given with
  | nil => rfl
  | cons c rest ih => rw [dedupeAfter, List.map_cons, ih, List.map_cons]

theorem distinct_dedupeAfter {origin : Origin} {given : Block} {media : List (Text × Block)}
    (h : ∀ c ∈ media, c.2.Distinct) : ∀ c ∈ (dedupeAfter origin given media).1, c.2.Distinct := by
  induction media generalizing origin given with
  | nil => exact h
  | cons c rest ih =>
    intro c' hc'
    rcases List.mem_cons.mp hc' with rfl | hc'
    · exact (h c List.mem_cons_self).without given
    · exact ih (fun d hd => h d (List.mem_cons_of_mem _ hd)) c' hc'

end MediaCascade
