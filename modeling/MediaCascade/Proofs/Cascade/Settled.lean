import MediaCascade.Proofs.Cascade.Reference

/-!
# Style sheets with nothing left to remove

A style sheet is settled if no media context restates the one before it and no rule is empty.

* `Stylesheet.Valid.settled_simplify`: the transforms leave a settled style sheet.
* `Stylesheet.simplify_of_settled`: they change nothing in a settled one and remove nothing.

That empty rules go after the redundant declarations does no harm to the first half: a rule that
goes gave no value, so that the next context still restates nothing.
-/

namespace MediaCascade

/-! ## 1. Blocks -/

namespace Block

/-- No declaration of the block restates one of `given`. -/
def FreshOver (b given : Block) : Prop :=
  ∀ rule ∈ b.entries, ∀ declaration ∈ rule.2.entries, given.restates rule.1 declaration = false

theorem freshOver_without (b given : Block) : (b.without given).FreshOver given := by
  intro rule hrule declaration hd
  obtain ⟨old, _, rfl⟩ := List.mem_map.mp hrule
  have hkept := (List.mem_filter.mp hd).2
  simpa using hkept

theorem FreshOver.pruned {b given : Block} (h : b.FreshOver given) (hg : given.Distinct) :
    b.pruned.FreshOver given.pruned := by
  intro rule hrule declaration hd
  rw [restates, value?_pruned hg]
  exact h rule (List.mem_filter.mp hrule).1 declaration hd

theorem FreshOver.without_eq {b given : Block} (h : b.FreshOver given) : b.without given = b := by
  apply OrderedMap.ext_entries
  rw [without, List.map_congr_left (g := id), List.map_id]
  intro rule hrule
  have hall : rule.2.entries.filter (fun declaration => !given.restates rule.1 declaration) =
      rule.2.entries := by
    rw [List.filter_eq_self]
    intro declaration hd
    rw [h rule hrule declaration hd]
    rfl
  rw [keepNew, hall]
  rfl

/-- What restates nothing is what loses nothing. -/
theorem restatements_eq_nil_iff {b given : Block} (origin : Origin) (context : Text) :
    b.entries.flatMap (restatements origin context given) = [] ↔ b.FreshOver given := by
  rw [List.flatMap_eq_nil_iff]
  constructor
  · intro h rule hrule declaration hd
    have hnone := h rule hrule
    rw [restatements, List.map_eq_nil_iff, List.filter_eq_nil_iff] at hnone
    exact Bool.eq_false_iff.mpr (hnone declaration hd)
  · intro h rule hrule
    rw [restatements, List.map_eq_nil_iff, List.filter_eq_nil_iff]
    intro declaration hd
    rw [h rule hrule declaration hd]
    exact Bool.false_ne_true

/-- No rule of the block is empty. -/
def Full (b : Block) : Prop := ∀ rule ∈ b.entries, rule.2.isEmpty = false

instance (b : Block) : Decidable b.Full :=
  inferInstanceAs (Decidable (∀ rule ∈ b.entries, rule.2.isEmpty = false))

theorem full_pruned (b : Block) : b.pruned.Full := by
  intro rule hrule
  have hkept := (List.mem_filter.mp hrule).2
  simpa using hkept

theorem Full.pruned_eq {b : Block} (h : b.Full) : b.pruned = b := by
  apply OrderedMap.ext_entries
  rw [pruned, List.filter_eq_self]
  intro rule hrule
  rw [h rule hrule]
  rfl

theorem Full.emptied_eq {b : Block} (h : b.Full) (context : Text) : b.emptied context = [] := by
  rw [emptied, List.map_eq_nil_iff, List.filter_eq_nil_iff]
  intro rule hrule
  rw [h rule hrule]
  exact Bool.false_ne_true

end Block

/-! ## 2. All contexts -/

/-- Each of the contexts restates nothing of the one before it, the first nothing of `given`. -/
def FreshAfter (given : Block) : List (Text × Block) → Prop
  | [] => True
  | c :: rest => c.2.FreshOver given ∧ FreshAfter c.2 rest

theorem freshAfter_dedupeAfter (origin : Origin) (given : Block) (media : List (Text × Block)) :
    FreshAfter given (dedupeAfter origin given media).1 := by
  induction media generalizing origin given with
  | nil => trivial
  | cons c rest ih => exact ⟨c.2.freshOver_without given, ih _ _⟩

theorem FreshAfter.pruned {given : Block} {media : List (Text × Block)}
    (h : FreshAfter given media) (hg : given.Distinct) (hd : ∀ c ∈ media, c.2.Distinct) :
    FreshAfter given.pruned (media.map fun c => (c.1, c.2.pruned)) := by
  induction media generalizing given with
  | nil => trivial
  | cons c rest ih =>
    obtain ⟨hhere, hlater⟩ := h
    refine ⟨hhere.pruned hg, ih hlater (hd c List.mem_cons_self) ?_⟩
    exact fun c' hc' => hd c' (List.mem_cons_of_mem _ hc')

theorem FreshAfter.dedupeAfter_eq {origin : Origin} {given : Block} {media : List (Text × Block)}
    (h : FreshAfter given media) : dedupeAfter origin given media = (media, []) := by
  induction media generalizing origin given with
  | nil => rfl
  | cons c rest ih =>
    obtain ⟨hhere, hlater⟩ := h
    have hnone := (Block.restatements_eq_nil_iff origin c.1).mpr hhere
    rw [dedupeAfter]
    simp only [hhere.without_eq, ih hlater, hnone, List.append_nil]

namespace Stylesheet

/-- Nothing is left to remove. -/
structure Settled (s : Stylesheet) : Prop where
  valid : s.Valid
  fresh : FreshAfter s.baseBlock s.contexts.entries.tail
  full : ∀ context ∈ s.contexts.entries, context.2.Full

/-- **The transforms leave a settled style sheet.** -/
theorem Valid.settled_simplify {s : Stylesheet} (hs : s.Valid) : s.simplify.1.Settled := by
  have hvalid := hs.simplify
  obtain ⟨base, media, rfl⟩ := hs.exists_eq
  obtain ⟨hn, hd⟩ := valid_mk_iff.mp hs
  rw [simplify_eq hs] at hvalid ⊢
  have hmedia : ∀ c ∈ media, c.2.Distinct := fun c hc => hd c (List.mem_cons_of_mem _ hc)
  have hbase : base.Distinct := hd _ List.mem_cons_self
  refine ⟨hvalid, ?_, ?_⟩
  · rw [List.map_cons, baseBlock_mk]
    exact (freshAfter_dedupeAfter .base base media).pruned hbase (distinct_dedupeAfter hmedia)
  · intro c hc
    obtain ⟨old, _, rfl⟩ := List.mem_map.mp hc
    exact old.2.full_pruned

/-- No declaration is left to go. -/
theorem Settled.dedupe_eq_self {s : Stylesheet} (h : s.Settled) : s.dedupe = (s, []) := by
  obtain ⟨hs, hfresh, _⟩ := h
  obtain ⟨base, media, rfl⟩ := hs.exists_eq
  rw [baseBlock_mk] at hfresh
  have hdedupe : dedupeAfter .base base media = (media, []) := FreshAfter.dedupeAfter_eq hfresh
  rw [dedupe_eq hs, hdedupe]

/-- No rule is left to go. -/
theorem Settled.prune_eq_self {s : Stylesheet} (h : s.Settled) : s.prune = (s, []) := by
  have hpruned : s.contexts.entries.map (fun c => (c.1, c.2.pruned)) = s.contexts.entries := by
    rw [List.map_congr_left (g := id), List.map_id]
    intro c hc
    rw [(h.full c hc).pruned_eq]
    rfl
  have hemptied : s.contexts.entries.flatMap (fun c => c.2.emptied c.1) = [] := by
    rw [List.flatMap_eq_nil_iff]
    exact fun c hc => (h.full c hc).emptied_eq c.1
  rw [prune_eq h.valid, hpruned, hemptied]

/-- **Nothing changes in a settled style sheet.** -/
theorem simplify_of_settled {s : Stylesheet} (h : s.Settled) : s.simplify = (s, []) := by
  rw [simplify, h.dedupe_eq_self, h.prune_eq_self, List.append_nil]

/-- **Running the transforms twice is running them once.** -/
theorem Valid.simplify_simplify {s : Stylesheet} (hs : s.Valid) :
    s.simplify.1.simplify = (s.simplify.1, []) := simplify_of_settled hs.settled_simplify

end Stylesheet

end MediaCascade
