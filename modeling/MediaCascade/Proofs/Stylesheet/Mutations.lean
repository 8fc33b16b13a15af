import MediaCascade.Proofs.Entries
import MediaCascade.Proofs.Failing
import MediaCascade.Stylesheet.Edit

/-!
# Edits as sequences of elementary changes

A style sheet is changed by four operations: starting a context, storing a rule, discarding a
declaration and removing a rule (`Mutation`). All other edits come down to these.

* `Edit.leadsTo`: whatever an edit does, and however far it gets, is a sequence of mutations.
* `Indexed`: the names of the contexts in a list of their own, beside a table of the blocks. A
  mutation has to keep the two in step (`Mutation.runIndexed`).
* `Mutation.runIndexed_indexed`: the mutations do keep them in step, so that nothing is lost where
  the order of the contexts is that of the table.

What mutations need is that no key comes twice (`Stylesheet.Keyed`); the properties of a rule do
not matter, as they are stored together.
-/

namespace MediaCascade

/-! ## 1. Mutations -/

/-- An elementary change of a style sheet. -/
inductive Mutation where
  | addContext (context : Text)
  | setRule (context selector : Text) (declarations : Declarations)
  | discard (context selector property : Text)
  | removeSelector (context selector : Text)
  deriving DecidableEq, Repr

namespace Mutation

/-- Carries out a mutation. -/
def run (s : Stylesheet) : Mutation → Except Missing Stylesheet
  | .addContext context => .ok (s.addContext context)
  | .setRule context selector declarations => s.setRule context selector declarations
  | .discard context selector property => s.discard context selector property
  | .removeSelector context selector => s.removeSelector context selector

/-- The style sheet after a mutation. One that fails changes nothing. -/
def after (s : Stylesheet) (m : Mutation) : Stylesheet :=
  match m.run s with
  | .ok changed => changed
  | .error _ => s

/-- The style sheet after a sequence of mutations. -/
def afterAll (s : Stylesheet) (mutations : List Mutation) : Stylesheet := mutations.foldl after s

end Mutation

namespace Stylesheet

/-- `base` is the first context, and neither a context nor a selector comes twice. -/
structure Keyed (s : Stylesheet) : Prop where
  base_first : s.contextKeys.head? = some baseKey
  contexts_nodup : s.contextKeys.Nodup
  selectors_nodup : ∀ context block, s.block? context = some block → block.keys.Nodup

theorem keyed_empty : empty.Keyed where
  base_first := rfl
  contexts_nodup := by decide
  selectors_nodup context block h := by
    rw [block?, empty, OrderedMap.get?_cons] at h
    split at h
    · cases h
      exact List.nodup_nil
    · cases h

variable {s t : Stylesheet}

/-- A new context goes to the end; one that is there keeps its place. -/
theorem contextKeys_addContext (s : Stylesheet) (context : Text) :
    (s.addContext context).contextKeys =
      if s.hasContext context then s.contextKeys else s.contextKeys ++ [context] := by
  refine (OrderedMap.keys_insert s.contexts context .empty).trans ?_
  by_cases hcontext : s.hasContext context = true
  · rw [if_pos hcontext, if_pos ((OrderedMap.contains_iff _ _).mp hcontext)]
    rfl
  · rw [if_neg hcontext, if_neg (mt (OrderedMap.contains_iff _ _).mpr hcontext)]
    rfl

theorem Keyed.addContext (h : s.Keyed) (context : Text) : (s.addContext context).Keyed := by
  refine ⟨?_, OrderedMap.nodup_keys_insert h.contexts_nodup _ _, fun name block hb => ?_⟩
  · rw [contextKeys_addContext]
    split
    · exact h.base_first
    · rw [List.head?_append, h.base_first, Option.some_or]
  · rw [block?_addContext] at hb
    split at hb
    · cases hb
      exact List.nodup_nil
    · exact h.selectors_nodup name block hb

theorem Keyed.modifyBlock (h : s.Keyed) (context : Text) {f : Block → Block}
    (hf : ∀ block, block.keys.Nodup → (f block).keys.Nodup) : (s.modifyBlock context f).Keyed := by
  refine ⟨?_, ?_, fun name block hb => ?_⟩
  · rw [contextKeys_modifyBlock]
    exact h.base_first
  · rw [contextKeys_modifyBlock]
    exact h.contexts_nodup
  · rw [block?_modifyBlock] at hb
    split at hb
    · obtain ⟨old, hold, rfl⟩ := Option.map_eq_some_iff.mp hb
      exact hf old (h.selectors_nodup name old hold)
    · exact h.selectors_nodup name block hb

/-- A block that is not changed leaves the style sheet as it is. -/
theorem Keyed.modifyBlock_eq_self (h : s.Keyed) {context : Text} {f : Block → Block}
    (hf : ∀ block, s.block? context = some block → f block = block) :
    s.modifyBlock context f = s := by
  have hsame : s.contexts.modify context f = s.contexts.modify context fun block => block :=
    OrderedMap.modify_congr fun block hb =>
      hf block (OrderedMap.get?_of_mem_entries h.contexts_nodup hb)
  rw [Stylesheet.modifyBlock, hsame, OrderedMap.modify_id]

section Requirements

variable {context selector : Text} {block : Block}

theorem requireContext_of_none (h : s.block? context = none) :
    s.requireContext context = .error (.context context) := by
  have hcontext : s.hasContext context = false := congrArg Option.isSome h
  rw [requireContext, hcontext]
  rfl

theorem requireContext_of_some (h : s.block? context = some block) :
    s.requireContext context = .ok () := by
  have hcontext : s.hasContext context = true := congrArg Option.isSome h
  rw [requireContext, hcontext]
  rfl

theorem requireSelector_of_none (h : s.block? context = none) :
    s.requireSelector context selector = .error (.context context) := by
  have hcontext : s.hasContext context = false := congrArg Option.isSome h
  rw [requireSelector, hcontext]
  rfl

theorem hasSelector_eq (h : s.block? context = some block) :
    s.hasSelector context selector = block.contains selector := by
  rw [hasSelector, declarations?, h, Option.bind_some, OrderedMap.contains]

theorem requireSelector_of_some (h : s.block? context = some block) :
    s.requireSelector context selector =
      if block.contains selector then .ok () else .error (.selector selector) := by
  have hcontext : s.hasContext context = true := congrArg Option.isSome h
  rw [requireSelector, hcontext, hasSelector_eq h]
  rfl

end Requirements

/-- A context that is missing has no block. -/
theorem block?_of_requireContext {context : Text} {missing : Missing}
    (h : s.requireContext context = .error missing) : s.block? context = none := by
  cases hb : s.block? context with
  | none => rfl
  | some block =>
    rw [requireContext_of_some hb] at h
    cases h

/-- If a rule is missing from a context that is there, its selector is not one of the context. -/
theorem not_mem_keys_of_requireSelector {context selector : Text} {missing : Missing}
    {block : Block} (h : s.requireSelector context selector = .error missing)
    (hb : s.block? context = some block) : selector ∉ block.keys := by
  rw [requireSelector_of_some hb] at h
  split at h
  · cases h
  · next hselector => exact mt (OrderedMap.contains_iff block selector).mpr hselector

end Stylesheet

/-! ## 2. Mutations as changes of a block -/

namespace Mutation

section Keyed

variable {s : Stylesheet} (h : s.Keyed)
include h

/-- A change of a block that requires something does nothing if that is missing. -/
theorem after_eq_modifyBlock {m : Mutation} {context : Text} {f : Block → Block}
    {required : Except Missing Unit}
    (hrun : m.run s = required.map fun _ => s.modifyBlock context f)
    (hmissing : ∀ missing block, required = .error missing → s.block? context = some block →
      f block = block) : after s m = s.modifyBlock context f := by
  rw [after, hrun]
  cases hrequired : required with
  | ok _ => rfl
  | error missing =>
    exact (h.modifyBlock_eq_self fun block hb => hmissing missing block hrequired hb).symm

theorem after_setRule (context selector : Text) (declarations : Declarations) :
    after s (.setRule context selector declarations) =
      s.modifyBlock context fun block => block.insert selector declarations := by
  refine after_eq_modifyBlock h rfl fun missing block hr hb => ?_
  cases (Stylesheet.block?_of_requireContext hr).symm.trans hb

theorem after_discard (context selector property : Text) :
    after s (.discard context selector property) =
      s.eraseDeclaration context selector property :=
  after_eq_modifyBlock h rfl fun _ _ hr hb =>
    OrderedMap.modify_of_not_mem (Stylesheet.not_mem_keys_of_requireSelector hr hb) _

theorem after_removeSelector (context selector : Text) :
    after s (.removeSelector context selector) = s.eraseSelector context selector :=
  after_eq_modifyBlock h rfl fun _ _ hr hb =>
    OrderedMap.erase_of_not_mem (Stylesheet.not_mem_keys_of_requireSelector hr hb)

/-- **What a mutation does**: it starts a context or changes one block, which keeps the selectors of
    the block distinct. -/
theorem after_cases (m : Mutation) :
    (∃ context, after s m = s.addContext context) ∨
    ∃ context f, (∀ block : Block, block.keys.Nodup → (f block).keys.Nodup) ∧
      after s m = s.modifyBlock context f := by
  cases m with
  | addContext context => exact .inl ⟨context, rfl⟩
  | setRule context selector declarations =>
    exact .inr ⟨context, _, fun block hb => OrderedMap.nodup_keys_insert hb _ _,
      after_setRule h context selector declarations⟩
  | discard context selector property =>
    refine .inr ⟨context, _, fun block hb => ?_, after_discard h context selector property⟩
    rw [OrderedMap.keys_modify]
    exact hb
  | removeSelector context selector =>
    exact .inr ⟨context, _, fun block hb => OrderedMap.nodup_keys_erase hb _,
      after_removeSelector h context selector⟩

/-- **A mutation keeps the keys distinct**, and `base` in front. -/
theorem keyed_after (m : Mutation) : (after s m).Keyed := by
  rcases after_cases h m with ⟨context, hm⟩ | ⟨context, f, hf, hm⟩
  · exact hm ▸ h.addContext context
  · exact hm ▸ h.modifyBlock context hf

/-- **A mutation drops no context and moves none.** -/
theorem contextKeys_isPrefix_after (m : Mutation) : s.contextKeys <+: (after s m).contextKeys := by
  rcases after_cases h m with ⟨context, hm⟩ | ⟨context, f, _, hm⟩
  · rw [hm, Stylesheet.contextKeys_addContext]
    split
    · exact List.prefix_refl _
    · exact List.prefix_append _ _
  · have hkeys : (after s m).contextKeys = s.contextKeys := by
      rw [hm, Stylesheet.contextKeys_modifyBlock]
    exact hkeys.symm ▸ List.prefix_refl _

theorem keyed_afterAll (mutations : List Mutation) : (afterAll s mutations).Keyed := by
  induction mutations generalizing s with
  | nil => exact h
  | cons m rest ih => exact ih (keyed_after h m)

end Keyed

end Mutation

/-! ## 3. Edits -/

namespace Stylesheet

/-- Some sequence of mutations leads from one style sheet to the other. -/
def LeadsTo (s t : Stylesheet) : Prop := ∃ mutations, Mutation.afterAll s mutations = t

namespace LeadsTo

variable {s t u : Stylesheet}

theorem refl (s : Stylesheet) : s.LeadsTo s := ⟨[], rfl⟩

theorem single (s : Stylesheet) (m : Mutation) : s.LeadsTo (Mutation.after s m) := ⟨[m], rfl⟩

theorem of_run {m : Mutation} (h : m.run s = .ok t) : s.LeadsTo t := by
  have hafter : Mutation.after s m = t := by rw [Mutation.after, h]
  exact hafter ▸ .single s m

theorem trans (h : s.LeadsTo t) (h' : t.LeadsTo u) : s.LeadsTo u := by
  obtain ⟨first, rfl⟩ := h
  obtain ⟨second, rfl⟩ := h'
  exact ⟨first ++ second, List.foldl_append⟩

theorem keyed (h : s.LeadsTo t) (hs : s.Keyed) : t.Keyed := by
  obtain ⟨mutations, rfl⟩ := h
  exact Mutation.keyed_afterAll hs mutations

theorem contextKeys_isPrefix (h : s.LeadsTo t) (hs : s.Keyed) :
    s.contextKeys <+: t.contextKeys := by
  obtain ⟨mutations, rfl⟩ := h
  induction mutations generalizing s with
  | nil => exact List.prefix_refl _
  | cons m rest ih =>
    exact (Mutation.contextKeys_isPrefix_after hs m).trans (ih (Mutation.keyed_after hs m))

/-- A walk leads to where its steps lead. -/
theorem walk {α β : Type} {step : Stylesheet → α → Stylesheet × List β}
    (hstep : ∀ (s : Stylesheet) x, s.Keyed → s.LeadsTo (step s x).1) (hs : s.Keyed) (xs : List α) :
    s.LeadsTo (MediaCascade.walk step s xs).1 :=
  walk_invariant (P := s.LeadsTo) (fun t x h => h.trans (hstep t x (h.keyed hs))) (.refl s) xs

end LeadsTo

section Transforms

variable {s : Stylesheet} (hs : s.Keyed)
include hs

theorem Keyed.leadsTo_removeRestated (origin : Origin) (other context selector : Text) :
    s.LeadsTo (removeRestated origin other context selector s).1 := by
  unfold removeRestated
  split
  · exact .refl s
  · refine LeadsTo.walk (fun t d ht => ?_) hs _
    unfold removeIfRestated
    split
    · exact Mutation.after_discard ht context selector d.1 ▸ LeadsTo.single t _
    · exact .refl t

theorem Keyed.leadsTo_dedupeRule (previous context selector : Text) :
    s.LeadsTo (dedupeRule previous context s selector).1 := by
  have hfirst : s.LeadsTo (if previous = baseKey
      then removeRestated .base baseKey context selector s else (s, [])).1 := by
    split
    · exact hs.leadsTo_removeRestated _ _ _ _
    · exact .refl s
  exact hfirst.trans ((hfirst.keyed hs).leadsTo_removeRestated _ _ _ _)

theorem Keyed.leadsTo_dedupe : s.LeadsTo s.dedupe.1 :=
  LeadsTo.walk (fun _ pair ht =>
    LeadsTo.walk (fun _ selector hu => hu.leadsTo_dedupeRule pair.1 pair.2 selector) ht _) hs _

theorem Keyed.leadsTo_prune : s.LeadsTo s.prune.1 := by
  refine LeadsTo.walk (fun t context ht => LeadsTo.walk (fun u selector hu => ?_) ht _) hs _
  unfold pruneRule
  split
  · exact Mutation.after_removeSelector hu context selector ▸ LeadsTo.single u _
  · exact .refl u

theorem Keyed.leadsTo_transform {transform : Transform} {reached : Stylesheet × List Removal}
    (h : transform.run s = .ok reached) : s.LeadsTo reached.1 := by
  cases transform with
  | dedupe =>
    cases h
    exact hs.leadsTo_dedupe
  | prune =>
    cases h
    exact hs.leadsTo_prune
  | drop context selector =>
    obtain ⟨changed, hr, rfl⟩ := (map_eq_ok_iff _ _ _).mp h
    exact LeadsTo.of_run (m := .removeSelector context selector) hr

/-- However far a run of transforms gets. -/
theorem Keyed.leadsTo_runTransforms (transforms : List Transform) :
    s.LeadsTo (s.runTransforms transforms).1 := by
  induction transforms generalizing s with
  | nil => exact .refl s
  | cons transform rest ih =>
    rw [runTransforms]
    cases hr : transform.run s with
    | error missing => exact .refl s
    | ok reached =>
      have hreached := hs.leadsTo_transform hr
      exact hreached.trans (ih (hreached.keyed hs))

/-- A raw rule is read by storing it, or fails with that. -/
theorem Keyed.addRule_of_binding (context : Text) {raw : Text} {rule : Text × Declarations}
    (h : (RawRule.ofText raw).binding? = some rule) :
    ∃ warnings, s.addRule context raw =
      (s.setRule context rule.1 rule.2).map fun changed => (changed, warnings) := by
  cases hraw : RawRule.ofText raw with
  | residue | notFlat | incomplete =>
    rw [hraw] at h
    cases h
  | rule selector body =>
    rw [hraw] at h
    cases h
    unfold addRule setRule
    cases hb : s.block? context with
    | none =>
      refine ⟨[], ?_⟩
      rw [requireContext_of_none hb, hraw]
      rfl
    | some block =>
      have hsame : s.modifyBlock context (fun _ => block.insert selector (.ofText body)) =
          s.modifyBlock context fun old => old.insert selector (.ofText body) := by
        rw [Stylesheet.modifyBlock, Stylesheet.modifyBlock, OrderedMap.modify_congr]
        intro old hold
        cases hb.symm.trans (OrderedMap.get?_of_mem_entries hs.contexts_nodup hold)
        rfl
      have hread : (Block.addRule context block raw).1 = block.insert selector (.ofText body) := by
        rw [Block.addRule, hraw]
      refine ⟨(Block.addRule context block raw).2, ?_⟩
      rw [requireContext_of_some hb, ← hsame, ← hread]
      rfl

/-- Text that is no rule changes nothing and does not fail. -/
theorem Keyed.addRule_of_no_binding (context : Text) {raw : Text}
    (h : (RawRule.ofText raw).binding? = none) :
    ∃ warnings, s.addRule context raw = .ok (s, warnings) := by
  unfold addRule
  cases hb : s.block? context with
  | none =>
    simp only
    split
    · next hraw =>
      rw [hraw] at h
      cases h
    · exact ⟨_, rfl⟩
  | some block =>
    have hread : (Block.addRule context block raw).1 = block := by
      unfold Block.addRule
      cases hraw : RawRule.ofText raw with
      | residue | notFlat | incomplete => rfl
      | rule selector body =>
        rw [hraw] at h
        cases h
    have hself : s.modifyBlock context (fun _ => (Block.addRule context block raw).1) = s := by
      refine hs.modifyBlock_eq_self fun old hold => ?_
      cases hb.symm.trans hold
      exact hread
    simp only [hself]
    exact ⟨_, rfl⟩

theorem Keyed.leadsTo_addRule {context raw : Text} {read : Stylesheet × List Warning}
    (h : s.addRule context raw = .ok read) : s.LeadsTo read.1 := by
  cases hbinding : (RawRule.ofText raw).binding? with
  | none =>
    obtain ⟨warnings, hread⟩ := hs.addRule_of_no_binding context hbinding
    cases h.symm.trans hread
    exact .refl s
  | some rule =>
    obtain ⟨warnings, hread⟩ := hs.addRule_of_binding context hbinding
    rw [hread] at h
    obtain ⟨changed, hr, rfl⟩ := (map_eq_ok_iff _ _ _).mp h
    exact LeadsTo.of_run (m := .setRule context rule.1 rule.2) hr

end Transforms

end Stylesheet

/-- **Every edit is a sequence of mutations**, also one that stops half-way. -/
theorem Edit.leadsTo {s : Stylesheet} (hs : s.Keyed) (edit : Edit) : s.LeadsTo (edit.run s).1 := by
  cases edit with
  | addContext context => exact .single s (.addContext context)
  | setRule context selector declarations =>
    rw [run]
    split
    · next hr => exact .of_run (m := .setRule context selector declarations) hr
    · exact .refl s
  | discard context selector property =>
    rw [run]
    split
    · next hr => exact .of_run (m := .discard context selector property) hr
    · exact .refl s
  | removeSelector context selector =>
    rw [run]
    split
    · next hr => exact .of_run (m := .removeSelector context selector) hr
    · exact .refl s
  | addRule context raw =>
    rw [run]
    split
    · next hr => exact hs.leadsTo_addRule hr
    · exact .refl s
  | dedupe => exact hs.leadsTo_dedupe
  | prune => exact hs.leadsTo_prune
  | applyAll custom => exact hs.leadsTo_runTransforms _

theorem Edit.leadsTo_runAll {s : Stylesheet} (hs : s.Keyed) (edits : List Edit) :
    s.LeadsTo (runAll s edits) := by
  induction edits generalizing s with
  | nil => exact .refl s
  | cons edit rest ih =>
    have hfirst := leadsTo hs edit
    exact hfirst.trans (ih (hfirst.keyed hs))

/-! ## 4. Names beside a table -/

/-- A style sheet as a list of the names of its contexts and a table of their blocks. -/
structure Indexed where
  order : List Text
  lookup : OrderedMap Text Block
  deriving DecidableEq, Repr

/-- The names of a style sheet, and its contexts as a table. -/
def Stylesheet.indexed (s : Stylesheet) : Indexed := ⟨s.contextKeys, s.contexts⟩

/-- The list and the table are in step: `base` is the first name, no name comes twice, and the names
    are the keys of the table. -/
structure Indexed.InStep (i : Indexed) : Prop where
  base_first : i.order.head? = some baseKey
  nodup : i.order.Nodup
  mem_iff : ∀ name, name ∈ i.order ↔ i.lookup.contains name = true

namespace Mutation

/-- Carries out a mutation on a list of names and a table. Only a new context is noted in the
    list. -/
def runIndexed (i : Indexed) : Mutation → Except Missing Indexed
  | .addContext context =>
    .ok ⟨if i.lookup.contains context then i.order else i.order ++ [context],
      i.lookup.insert context .empty⟩
  | .setRule context selector declarations =>
    match i.lookup.get? context with
    | none => .error (.context context)
    | some block => .ok ⟨i.order, i.lookup.insert context (block.insert selector declarations)⟩
  | .discard context selector property =>
    match i.lookup.get? context with
    | none => .error (.context context)
    | some block =>
      match block.get? selector with
      | none => .error (.selector selector)
      | some rule =>
        .ok ⟨i.order, i.lookup.insert context (block.insert selector (rule.erase property))⟩
  | .removeSelector context selector =>
    match i.lookup.get? context with
    | none => .error (.context context)
    | some block =>
      if block.contains selector then
        .ok ⟨i.order, i.lookup.insert context (block.erase selector)⟩
      else .error (.selector selector)

/-- The list and the table after a mutation. One that fails changes neither. -/
def afterIndexed (i : Indexed) (m : Mutation) : Indexed :=
  match m.runIndexed i with
  | .ok changed => changed
  | .error _ => i

/-- The list and the table after a sequence of mutations. -/
def afterAllIndexed (i : Indexed) (mutations : List Mutation) : Indexed :=
  mutations.foldl afterIndexed i

variable {s : Stylesheet}

theorem lookup_indexed (context : Text) : s.indexed.lookup.get? context = s.block? context := rfl

variable (h : s.Keyed)
include h

theorem indexed_modifyBlock {context : Text} {block : Block} (hb : s.block? context = some block)
    (f : Block → Block) : (s.modifyBlock context f).indexed =
      ⟨s.contextKeys, s.contexts.insert context (f block)⟩ := by
  rw [Stylesheet.indexed, Stylesheet.contextKeys_modifyBlock, Stylesheet.modifyBlock,
    OrderedMap.modify_eq_insert h.contexts_nodup hb]

theorem runIndexed_setRule (context selector : Text) (declarations : Declarations) :
    (setRule context selector declarations).runIndexed s.indexed =
      (s.setRule context selector declarations).map Stylesheet.indexed := by
  rw [runIndexed, Stylesheet.setRule, lookup_indexed]
  cases hb : s.block? context with
  | none =>
    rw [Stylesheet.requireContext_of_none hb]
    rfl
  | some block =>
    rw [Stylesheet.requireContext_of_some hb, Except.map, Except.map, indexed_modifyBlock h hb]
    rfl

theorem runIndexed_discard (context selector property : Text) :
    (discard context selector property).runIndexed s.indexed =
      (s.discard context selector property).map Stylesheet.indexed := by
  rw [runIndexed, Stylesheet.discard, lookup_indexed]
  cases hb : s.block? context with
  | none =>
    rw [Stylesheet.requireSelector_of_none hb]
    rfl
  | some block =>
    rw [Stylesheet.requireSelector_of_some hb]
    cases hr : block.get? selector with
    | none =>
      have hselector : block.contains selector = false := congrArg Option.isSome hr
      simp only [hr, hselector]
      rfl
    | some rule =>
      have hselector : block.contains selector = true := congrArg Option.isSome hr
      simp only [hr, hselector]
      rw [if_pos trivial, Except.map, Except.map, Stylesheet.eraseDeclaration,
        indexed_modifyBlock h hb,
        OrderedMap.modify_eq_insert (h.selectors_nodup context block hb) hr]
      rfl

theorem runIndexed_removeSelector (context selector : Text) :
    (removeSelector context selector).runIndexed s.indexed =
      (s.removeSelector context selector).map Stylesheet.indexed := by
  rw [runIndexed, Stylesheet.removeSelector, lookup_indexed]
  cases hb : s.block? context with
  | none =>
    rw [Stylesheet.requireSelector_of_none hb]
    rfl
  | some block =>
    rw [Stylesheet.requireSelector_of_some hb]
    simp only
    split
    · rw [Except.map, Except.map, Stylesheet.eraseSelector, indexed_modifyBlock h hb]
      rfl
    · rfl

/-- **Mutations keep the names and the table in step**, and fail alike. -/
theorem runIndexed_indexed (m : Mutation) :
    m.runIndexed s.indexed = (m.run s).map Stylesheet.indexed := by
  cases m with
  | addContext context =>
    have hindexed : (s.addContext context).indexed =
        ⟨(s.addContext context).contextKeys, s.contexts.insert context .empty⟩ := rfl
    rw [run, Except.map, hindexed, Stylesheet.contextKeys_addContext]
    rfl
  | setRule context selector declarations =>
    exact runIndexed_setRule h context selector declarations
  | discard context selector property => exact runIndexed_discard h context selector property
  | removeSelector context selector => exact runIndexed_removeSelector h context selector

/-- **What is done to the names and the table is done to the style sheet.** -/
theorem afterAllIndexed_indexed (mutations : List Mutation) :
    afterAllIndexed s.indexed mutations = (afterAll s mutations).indexed := by
  induction mutations generalizing s with
  | nil => rfl
  | cons m rest ih =>
    have hfirst : afterIndexed s.indexed m = (after s m).indexed := by
      rw [afterIndexed, runIndexed_indexed h, after]
      cases m.run s with
      | ok changed => rfl
      | error missing => rfl
    rw [afterAllIndexed, List.foldl_cons, hfirst]
    exact ih (keyed_after h m)

end Mutation

/-- The names and the table of a style sheet with distinct keys are in step. -/
theorem Stylesheet.Keyed.inStep {s : Stylesheet} (h : s.Keyed) : s.indexed.InStep :=
  ⟨h.base_first, h.contexts_nodup, fun name => (OrderedMap.contains_iff s.contexts name).symm⟩

end MediaCascade
