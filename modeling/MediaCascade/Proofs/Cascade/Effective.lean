import MediaCascade.Proofs.Cascade.Settled

/-!
# The value that takes effect

Where some of the contexts apply, the value of a property of a selector is the one that the last of
them gives (`Stylesheet.effective`). The transforms keep it, for every choice of contexts in which
the predecessor of a context that lost a declaration applies too.

What carries the proof is that a declaration goes only where the context before STILL gives its
value, after its own losses: seen from behind, the value of a context and what is left of it agree
as long as the context before is looked at next (`effectiveFrom_dedupeAfter`). The argument goes
from the first context on, with what is left of the context before at hand.
-/

namespace MediaCascade.Stylesheet

section Effective

variable (A : Nat → Prop) [DecidablePred A] (selector property : Text)

/-! ## 1. The last value -/

/-- The value that the last of some contexts gives, those in `A`; the first of the list has the
    index `i`. -/
def effectiveFrom (i : Nat) (contexts : List (Text × Block)) : Option Text :=
  ((contexts.zipIdx i).filter fun c => A c.2).reverse.findSome? fun c =>
    c.1.2.value? selector property

/-- The value that a property of a selector has where the contexts with index in `A` apply: the one
    that the last of these contexts gives. -/
def effective (s : Stylesheet) : Option Text :=
  effectiveFrom A selector property 0 s.contexts.entries

/-- The value of a block, if its context applies. -/
def applied (i : Nat) (b : Block) : Option Text :=
  if A i then b.value? selector property else none

/-- The first context counts where no later one gives a value. -/
theorem effectiveFrom_cons (i : Nat) (c : Text × Block) (rest : List (Text × Block)) :
    effectiveFrom A selector property i (c :: rest) =
      (effectiveFrom A selector property (i + 1) rest).or (applied A selector property i c.2) := by
  rw [effectiveFrom, List.zipIdx_cons, applied]
  by_cases h : A i
  · rw [List.filter_cons_of_pos (by simpa using h), List.reverse_cons, List.findSome?_append,
      if_pos h, effectiveFrom]
    congr 1
    cases hv : c.2.value? selector property <;> simp [List.findSome?, hv]
  · rw [List.filter_cons_of_neg (by simpa using h), if_neg h, Option.or_none, effectiveFrom]

/-! ## 2. What the transforms leave of it -/

/-- Empty rules give no value. -/
theorem effectiveFrom_pruned (i : Nat) {contexts : List (Text × Block)}
    (h : ∀ c ∈ contexts, c.2.Distinct) :
    effectiveFrom A selector property i (contexts.map fun c => (c.1, c.2.pruned)) =
      effectiveFrom A selector property i contexts := by
  induction contexts generalizing i with
  | nil => rfl
  | cons c rest ih =>
    have hhere : applied A selector property i c.2.pruned = applied A selector property i c.2 := by
      rw [applied, applied, Block.value?_pruned (h c List.mem_cons_self)]
    have hlater := ih (i + 1) fun c' hc' => h c' (List.mem_cons_of_mem _ hc')
    rw [List.map_cons, effectiveFrom_cons, effectiveFrom_cons, hlater, hhere]

variable {A}

/-- **One context**: its value and what is left of it agree, with the context before behind it. -/
theorem applied_without {i : Nat} {b given : Block} (hb : b.Distinct)
    (hA : A (i + 1) → ¬b.FreshOver given → A i) :
    (applied A selector property (i + 1) (b.without given)).or
        (applied A selector property i given) =
      (applied A selector property (i + 1) b).or (applied A selector property i given) := by
  by_cases hhere : A (i + 1)
  · by_cases hfresh : b.FreshOver given
    · -- no declaration goes
      rw [hfresh.without_eq]
    · -- a declaration that goes is given by the context before, which applies
      have hbefore : A i := hA hhere hfresh
      rw [applied, applied, applied, if_pos hhere, if_pos hhere, if_pos hbefore,
        Block.value?_without hb]
      split
      · next hsame =>
        rw [hsame, Option.none_or, Option.or_self]
      · rfl
  · have hnone : ∀ b', applied A selector property (i + 1) b' = none := fun _ => if_neg hhere
    rw [hnone, hnone]

/-- A removal of duplicates is that of a declaration of the context. -/
theorem mem_restatements {origin : Origin} {context : Text} {given b : Block} {r : Removal}
    (h : r ∈ b.entries.flatMap (Block.restatements origin context given)) :
    r.isDeclaration = true ∧ r.context = context := by
  obtain ⟨rule, _, hr⟩ := List.mem_flatMap.mp h
  obtain ⟨declaration, _, rfl⟩ := List.mem_map.mp hr
  exact ⟨rfl, rfl⟩

/-- A context that restates the one before it loses a declaration. -/
theorem exists_restatement (origin : Origin) (context : Text) {given b : Block}
    (h : ¬b.FreshOver given) :
    ∃ r ∈ b.entries.flatMap (Block.restatements origin context given),
      r.isDeclaration = true ∧ r.context = context := by
  have hsome : b.entries.flatMap (Block.restatements origin context given) ≠ [] := fun hnone =>
    h ((Block.restatements_eq_nil_iff origin context).mp hnone)
  obtain ⟨r, hr⟩ := List.exists_mem_of_ne_nil _ hsome
  exact ⟨r, hr, mem_restatements hr⟩

/-- **All media contexts**, `given` being what is left of the context before the first of them. -/
theorem effectiveFrom_dedupeAfter (origin : Origin) (given : Block)
    {media : List (Text × Block)} (hd : ∀ c ∈ media, c.2.Distinct) {i : Nat}
    (hA : ∀ (j : Nat) (context : Text), (media.map Prod.fst)[j]? = some context → A (i + j + 1) →
      (∃ r ∈ (dedupeAfter origin given media).2, r.isDeclaration = true ∧ r.context = context) →
      A (i + j)) :
    (effectiveFrom A selector property (i + 1) (dedupeAfter origin given media).1).or
        (applied A selector property i given) =
      (effectiveFrom A selector property (i + 1) media).or
        (applied A selector property i given) := by
  induction media generalizing origin given i with
  | nil => rfl
  | cons c rest ih =>
    have hhere : A (i + 1) → ¬c.2.FreshOver given → A i := by
      intro happlies hlost
      obtain ⟨r, hr, hof⟩ := exists_restatement origin c.1 hlost
      exact hA 0 c.1 rfl happlies ⟨r, List.mem_append_left _ hr, hof⟩
    have hlater := ih .previous (c.2.without given) (i := i + 1)
      (fun c' hc' => hd c' (List.mem_cons_of_mem _ hc')) (by
        intro j context hj happlies hremoved
        obtain ⟨r, hr, hof⟩ := hremoved
        have hindex : i + 1 + j = i + (j + 1) := by omega
        rw [hindex] at happlies ⊢
        exact hA (j + 1) context hj happlies ⟨r, List.mem_append_right _ hr, hof⟩)
    calc (effectiveFrom A selector property (i + 1) (dedupeAfter origin given (c :: rest)).1).or
          (applied A selector property i given)
        = ((effectiveFrom A selector property (i + 1 + 1)
              (dedupeAfter .previous (c.2.without given) rest).1).or
            (applied A selector property (i + 1) (c.2.without given))).or
            (applied A selector property i given) := by
          rw [dedupeAfter, effectiveFrom_cons]
      _ = (effectiveFrom A selector property (i + 1 + 1) rest).or
            ((applied A selector property (i + 1) (c.2.without given)).or
              (applied A selector property i given)) := by
          rw [hlater, Option.or_assoc]
      _ = (effectiveFrom A selector property (i + 1) (c :: rest)).or
            (applied A selector property i given) := by
          rw [applied_without selector property (hd c List.mem_cons_self) hhere, ← Option.or_assoc,
            effectiveFrom_cons]

end Effective

/-! ## 3. Style sheets -/

/-- **The transforms preserve the cascade.** `A` is the set of the contexts that apply. Whenever a
    context in it lost a declaration, the one before has to be in it; the sets of the first contexts
    up to any one are such. -/
theorem effective_applyAll {s : Stylesheet} (hs : s.Valid) :
    ∃ reached removals, s.applyAll [] = (reached, .ok removals) ∧
      reached.contextKeys = s.contextKeys ∧
      ∀ (A : Nat → Prop) [DecidablePred A],
        (∀ (i : Nat) (context : Text), s.contextKeys[i + 1]? = some context → A (i + 1) →
          (∃ r ∈ removals, r.isDeclaration = true ∧ r.context = context) → A i) →
        ∀ selector property : Text,
          reached.effective A selector property = s.effective A selector property := by
  refine ⟨s.simplify.1, s.simplify.2, applyAll_nil s, contextKeys_simplify s, ?_⟩
  obtain ⟨base, media, rfl⟩ := hs.exists_eq
  obtain ⟨hn, hd⟩ := valid_mk_iff.mp hs
  intro A _ hA selector property
  have hmedia : ∀ c ∈ media, c.2.Distinct := fun c hc => hd c (List.mem_cons_of_mem _ hc)
  rw [simplify_eq hs] at hA ⊢
  have hdeduped := effectiveFrom_dedupeAfter selector property .base base hmedia
    (i := 0) (A := A) (by
      intro j context hj happlies hremoved
      obtain ⟨r, hr, hof⟩ := hremoved
      rw [Nat.zero_add] at happlies ⊢
      exact hA j context hj happlies ⟨r, List.mem_append_left _ hr, hof⟩)
  have hdistinct : ∀ c ∈ (baseKey, base) :: (dedupeAfter .base base media).1, c.2.Distinct := by
    intro c hc
    rcases List.mem_cons.mp hc with rfl | hc
    · exact hd _ List.mem_cons_self
    · exact distinct_dedupeAfter hmedia c hc
  rw [effective, effective, effectiveFrom_pruned A selector property 0 hdistinct,
    effectiveFrom_cons, effectiveFrom_cons]
  exact hdeduped

/-- Three contexts with one declaration. The second loses it and the third, which is then behind a
    context without it, keeps it. -/
def threefold : Stylesheet :=
  let block : Block := ⟨[(['a'], ⟨[(['c'], ['r'])]⟩)]⟩
  ⟨⟨[(baseKey, block), (['@', 'm'], block), (['@', 'n'], block)]⟩⟩

/-- The first and the third context apply: the third lost nothing, so that the second may stay
    out. -/
theorem effective_applyAll_threefold :
    ∃ reached removals, threefold.applyAll [] = (reached, .ok removals) ∧
      removals = [⟨['@', 'm'], ['a'], .restated .base ['c'] ['r']⟩, ⟨['@', 'm'], ['a'], .emptied⟩] ∧
      reached.effective (fun i => i ≠ 1) ['a'] ['c'] = some ['r'] := by
  have hvalid : threefold.Valid := by decide
  obtain ⟨reached, removals, hrun, _, heffective⟩ := effective_applyAll hvalid
  have hremovals : removals =
      [⟨['@', 'm'], ['a'], .restated .base ['c'] ['r']⟩, ⟨['@', 'm'], ['a'], .emptied⟩] :=
    Except.ok.inj (congrArg Prod.snd hrun.symm)
  have hsecond : ∀ r ∈ removals, r.context = ['@', 'm'] := by
    rw [hremovals]
    decide
  refine ⟨reached, removals, hrun, hremovals, ?_⟩
  rw [heffective (fun i => i ≠ 1)]
  · rfl
  · rintro i context hi - ⟨r, hr, -, hof⟩ hone
    subst hone
    cases hi
    rw [hsecond r hr] at hof
    exact absurd hof (by decide)

end MediaCascade.Stylesheet
