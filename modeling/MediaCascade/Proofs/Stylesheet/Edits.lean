import MediaCascade.Proofs.Failing
import MediaCascade.Proofs.Stylesheet.Mutations

/-!
# What edits keep

A style sheet that is reached from the empty one has its names and its table of blocks in step, and
no edit drops a context or moves one. What a single edit does is said by the laws `EditLaws`.

* `Stylesheet.SameBut`: two style sheets that differ in one rule of one context.
* `Stylesheet.Keyed.editLaws`: when an edit fails, that it then has changed nothing, and what it
  changes if it does not fail.
* `Edit.runAll_keeps`: all of this after every sequence of edits, those that fail included.
-/

namespace MediaCascade

namespace Stylesheet

/-! ## 1. One rule of one context -/

/-- The style sheet `t` is `s`, but for what the context has for the selector. -/
structure SameBut (s t : Stylesheet) (context selector : Text) : Prop where
  contextKeys_eq : t.contextKeys = s.contextKeys
  blocks : ∀ name, name ≠ context → t.block? name = s.block? name
  /-- The other rules of the context are the same, in the same order. -/
  rules : ∃ old new, s.block? context = some old ∧ t.block? context = some new ∧
    new.erase selector = old.erase selector

section ModifyBlock

variable {s : Stylesheet} {context selector : Text} {block : Block}
  (hb : s.block? context = some block) (f : Block → Block)
include hb

theorem block?_modifyBlock_self : (s.modifyBlock context f).block? context = some (f block) := by
  rw [block?_modifyBlock, if_pos rfl, hb, Option.map_some]

theorem sameBut_modifyBlock (hf : (f block).erase selector = block.erase selector) :
    s.SameBut (s.modifyBlock context f) context selector := by
  refine ⟨contextKeys_modifyBlock s context f, fun name hname => ?_, block, f block, hb,
    block?_modifyBlock_self hb f, hf⟩
  rw [block?_modifyBlock, if_neg hname]

theorem declarations?_modifyBlock :
    (s.modifyBlock context f).declarations? context selector = (f block).get? selector := by
  rw [declarations?, block?_modifyBlock_self hb, Option.bind_some]

theorem selectors?_modifyBlock :
    (s.modifyBlock context f).selectors? context = some (f block).keys := by
  rw [selectors?, block?_modifyBlock_self hb, Option.map_some]

end ModifyBlock

variable {s t : Stylesheet} {context selector : Text}

theorem setRule_eq_ok {declarations : Declarations}
    (h : s.setRule context selector declarations = .ok t) :
    ∃ block, s.block? context = some block ∧
      t = s.modifyBlock context fun block => block.insert selector declarations := by
  rw [setRule] at h
  cases hb : s.block? context with
  | none =>
    rw [requireContext_of_none hb] at h
    cases h
  | some block =>
    rw [requireContext_of_some hb] at h
    exact ⟨block, rfl, (Except.ok.inj h).symm⟩

/-- What requires a rule finds one. -/
theorem requireSelector_eq_ok (h : s.requireSelector context selector = .ok ()) :
    ∃ block rule, s.block? context = some block ∧ block.get? selector = some rule := by
  cases hb : s.block? context with
  | none =>
    rw [requireSelector_of_none hb] at h
    cases h
  | some block =>
    rw [requireSelector_of_some hb] at h
    split at h
    · next hselector =>
      obtain ⟨rule, hrule⟩ := Option.isSome_iff_exists.mp hselector
      exact ⟨block, rule, rfl, hrule⟩
    · cases h

/-- Discarding a declaration needs the named context, and then the named selector. -/
theorem discard_eq_error_iff (s : Stylesheet) (context selector property : Text)
    (missing : Missing) :
    s.discard context selector property = .error missing ↔
      (s.hasContext context = false ∧ missing = .context context) ∨
      (s.hasContext context = true ∧ s.hasSelector context selector = false ∧
        missing = .selector selector) := by
  unfold discard requireSelector
  cases s.hasContext context <;> cases s.hasSelector context selector <;>
    simp [Except.map, eq_comm]

theorem discard_eq_ok {property : Text} (h : s.discard context selector property = .ok t) :
    ∃ block rule, s.block? context = some block ∧ block.get? selector = some rule ∧
      t = s.eraseDeclaration context selector property := by
  obtain ⟨⟨⟩, hrequired, rfl⟩ := (map_eq_ok_iff _ _ _).mp h
  obtain ⟨block, rule, hb, hr⟩ := requireSelector_eq_ok hrequired
  exact ⟨block, rule, hb, hr, rfl⟩

theorem removeSelector_eq_ok (h : s.removeSelector context selector = .ok t) :
    ∃ block rule, s.block? context = some block ∧ block.get? selector = some rule ∧
      t = s.eraseSelector context selector := by
  obtain ⟨⟨⟩, hrequired, rfl⟩ := (map_eq_ok_iff _ _ _).mp h
  obtain ⟨block, rule, hb, hr⟩ := requireSelector_eq_ok hrequired
  exact ⟨block, rule, hb, hr, rfl⟩

end Stylesheet

/-! ## 2. The laws of single edits -/

/-- What single edits of a style sheet do. -/
structure EditLaws (s : Stylesheet) : Prop where
  /-- A failed edit changes nothing, unless it runs transforms, of which some may have run. -/
  unchanged : ∀ edit missing, (∀ custom, edit ≠ .applyAll custom) →
    (Edit.run s edit).2 = .error missing → (Edit.run s edit).1 = s
  /-- A new context goes to the end; one that is there keeps its place. -/
  addContext_keys : ∀ context, (Edit.run s (.addContext context)).1.contextKeys =
    if s.hasContext context then s.contextKeys else s.contextKeys ++ [context]
  /-- The block of the context is emptied, and no other block. -/
  addContext_blocks : ∀ context name, (Edit.run s (.addContext context)).1.block? name =
    if name = context then some .empty else s.block? name
  setRule_error_iff : ∀ context selector declarations missing,
    (Edit.run s (.setRule context selector declarations)).2 = .error missing ↔
      s.hasContext context = false ∧ missing = .context context
  setRule_ok : ∀ context selector declarations t reply,
    Edit.run s (.setRule context selector declarations) = (t, .ok reply) →
      s.SameBut t context selector ∧ t.declarations? context selector = some declarations
  /-- A rule that is replaced keeps its place. -/
  setRule_selectors : ∀ context selector declarations, s.hasSelector context selector = true →
    (Edit.run s (.setRule context selector declarations)).1.selectors? context =
      s.selectors? context
  discard_error_iff : ∀ context selector property missing,
    (Edit.run s (.discard context selector property)).2 = .error missing ↔
      (s.hasContext context = false ∧ missing = .context context) ∨
      (s.hasContext context = true ∧ s.hasSelector context selector = false ∧
        missing = .selector selector)
  discard_ok : ∀ context selector property t reply,
    Edit.run s (.discard context selector property) = (t, .ok reply) →
      s.SameBut t context selector ∧ t.selectors? context = s.selectors? context ∧
        t.declarations? context selector =
          (s.declarations? context selector).map fun rule => rule.erase property
  removeSelector_error_iff : ∀ context selector missing,
    (Edit.run s (.removeSelector context selector)).2 = .error missing ↔
      (s.hasContext context = false ∧ missing = .context context) ∨
      (s.hasContext context = true ∧ s.hasSelector context selector = false ∧
        missing = .selector selector)
  removeSelector_ok : ∀ context selector t reply,
    Edit.run s (.removeSelector context selector) = (t, .ok reply) →
      s.SameBut t context selector ∧ t.hasSelector context selector = false
  /-- Only a rule needs the context that it is read into. -/
  addRule_error_iff : ∀ context raw missing,
    (Edit.run s (.addRule context raw)).2 = .error missing ↔
      (RawRule.ofText raw).binding?.isSome = true ∧
        s.hasContext context = false ∧ missing = .context context
  /-- A rule is stored, also in the place of an earlier one; other text changes nothing. -/
  addRule_ok : ∀ context raw t reply, Edit.run s (.addRule context raw) = (t, .ok reply) →
    match (RawRule.ofText raw).binding? with
    | none => t = s
    | some rule => s.SameBut t context rule.1 ∧ t.declarations? context rule.1 = some rule.2 ∧
        (s.hasSelector context rule.1 = true → t.selectors? context = s.selectors? context)

namespace Edit

variable {s : Stylesheet}

/-- The answer of an edit that either changes the style sheet or fails. -/
theorem error_iff_of_run {x : Except Missing Stylesheet} {reply : Reply} {missing : Missing}
    {edit : Edit} (h : run s edit = match x with
      | .ok changed => (changed, .ok reply)
      | .error missing => (s, .error missing)) :
    (run s edit).2 = .error missing ↔ x = .error missing := by
  rw [h]
  cases x with
  | ok changed => exact iff_of_false (fun h => by cases h) (fun h => by cases h)
  | error other => exact ⟨fun h => congrArg _ (Except.error.inj h), fun h =>
      congrArg _ (Except.error.inj h)⟩

theorem eq_ok_of_run {x : Except Missing Stylesheet} {reply reply' : Reply} {t : Stylesheet}
    {edit : Edit} (h : run s edit = match x with
      | .ok changed => (changed, .ok reply)
      | .error missing => (s, .error missing)) (ht : run s edit = (t, .ok reply')) : x = .ok t := by
  rw [h] at ht
  cases x with
  | ok changed => exact congrArg _ (Prod.mk.inj ht).1
  | error missing => cases ht

/-- An edit that fails changes nothing, unless it runs transforms. -/
theorem run_eq_self_of_error {edit : Edit} {missing : Missing}
    (hedit : ∀ custom, edit ≠ .applyAll custom) (h : (run s edit).2 = .error missing) :
    (run s edit).1 = s := by
  cases edit with
  | addContext | dedupe | prune => cases h
  | applyAll custom => exact absurd rfl (hedit custom)
  | setRule | discard | removeSelector | addRule =>
    rw [run] at h ⊢
    split at h
    · cases h
    · rfl

theorem setRule_ok {context selector : Text} {declarations : Declarations} {t : Stylesheet}
    {reply : Reply} (h : run s (.setRule context selector declarations) = (t, .ok reply)) :
    s.SameBut t context selector ∧ t.declarations? context selector = some declarations := by
  obtain ⟨block, hb, rfl⟩ := Stylesheet.setRule_eq_ok (eq_ok_of_run rfl h)
  refine ⟨Stylesheet.sameBut_modifyBlock hb _ (OrderedMap.erase_insert _ _ _), ?_⟩
  rw [Stylesheet.declarations?_modifyBlock hb, OrderedMap.get?_insert, if_pos rfl]

theorem discard_ok {context selector property : Text} {t : Stylesheet} {reply : Reply}
    (h : run s (.discard context selector property) = (t, .ok reply)) :
    s.SameBut t context selector ∧ t.selectors? context = s.selectors? context ∧
      t.declarations? context selector =
        (s.declarations? context selector).map fun rule => rule.erase property := by
  obtain ⟨block, rule, hb, hr, rfl⟩ := Stylesheet.discard_eq_ok (eq_ok_of_run rfl h)
  refine ⟨Stylesheet.sameBut_modifyBlock hb _ (OrderedMap.erase_modify _ _ _), ?_, ?_⟩
  · rw [Stylesheet.eraseDeclaration, Stylesheet.selectors?_modifyBlock hb, OrderedMap.keys_modify,
      Stylesheet.selectors?, hb, Option.map_some]
  · rw [Stylesheet.eraseDeclaration, Stylesheet.declarations?_modifyBlock hb,
      OrderedMap.get?_modify, if_pos rfl, Stylesheet.declarations?, hb, Option.bind_some]

theorem removeSelector_ok {context selector : Text} {t : Stylesheet} {reply : Reply}
    (h : run s (.removeSelector context selector) = (t, .ok reply)) :
    s.SameBut t context selector ∧ t.hasSelector context selector = false := by
  obtain ⟨block, rule, hb, _, rfl⟩ := Stylesheet.removeSelector_eq_ok (eq_ok_of_run rfl h)
  refine ⟨Stylesheet.sameBut_modifyBlock hb _ (OrderedMap.erase_erase _ _), ?_⟩
  rw [Stylesheet.hasSelector, Stylesheet.eraseSelector, Stylesheet.declarations?_modifyBlock hb,
    OrderedMap.get?_erase, if_pos rfl]
  rfl

/-- A rule that is replaced keeps its place. -/
theorem selectors?_setRule {context selector : Text} (declarations : Declarations)
    (h : s.hasSelector context selector = true) :
    (run s (.setRule context selector declarations)).1.selectors? context =
      s.selectors? context := by
  cases hr : s.setRule context selector declarations with
  | error missing => rw [run, hr]
  | ok t =>
    obtain ⟨block, hb, rfl⟩ := Stylesheet.setRule_eq_ok hr
    rw [Stylesheet.hasSelector_eq hb] at h
    have hkeys : (block.insert selector declarations).keys = block.keys := by
      rw [OrderedMap.keys_insert, if_pos ((OrderedMap.contains_iff _ _).mp h)]
    rw [run, hr]
    rw [Stylesheet.selectors?_modifyBlock hb, hkeys, Stylesheet.selectors?, hb, Option.map_some]

end Edit

section AddRule

variable {s : Stylesheet} (hs : s.Keyed) (context : Text) {raw : Text} {rule : Text × Declarations}
  (hbinding : (RawRule.ofText raw).binding? = some rule)
include hs hbinding

theorem Stylesheet.Keyed.error_run_addRule_iff (missing : Missing) :
    (Edit.run s (.addRule context raw)).2 = .error missing ↔
      s.setRule context rule.1 rule.2 = .error missing := by
  obtain ⟨warnings, hread⟩ := hs.addRule_of_binding context hbinding
  rw [Edit.run, hread]
  cases s.setRule context rule.1 rule.2 with
  | ok changed => exact iff_of_false (fun h => by cases h) (fun h => by cases h)
  | error other => exact ⟨fun h => congrArg _ (Except.error.inj h), fun h =>
      congrArg _ (Except.error.inj h)⟩

/-- A rule that is read is stored. -/
theorem Stylesheet.Keyed.run_setRule_of_run_addRule {t : Stylesheet} {reply : Reply}
    (h : Edit.run s (.addRule context raw) = (t, .ok reply)) :
    Edit.run s (.setRule context rule.1 rule.2) =
      (t, .ok (.existed (s.hasSelector context rule.1))) := by
  obtain ⟨warnings, hread⟩ := hs.addRule_of_binding context hbinding
  rw [Edit.run, hread] at h
  rw [Edit.run]
  cases hr : s.setRule context rule.1 rule.2 with
  | ok changed =>
    rw [hr] at h
    rw [show changed = t from (Prod.mk.inj h).1]
  | error missing =>
    rw [hr] at h
    cases h

end AddRule

/-- **The laws of single edits** hold where no key comes twice. -/
theorem Stylesheet.Keyed.editLaws {s : Stylesheet} (hs : s.Keyed) : EditLaws s where
  unchanged _ _ hedit h := Edit.run_eq_self_of_error hedit h
  addContext_keys context := contextKeys_addContext s context
  addContext_blocks context name := block?_addContext s context name
  setRule_error_iff context selector declarations missing :=
    (Edit.error_iff_of_run rfl).trans (setRule_eq_error_iff s context selector declarations missing)
  setRule_ok _ _ _ _ _ h := Edit.setRule_ok h
  setRule_selectors _ _ declarations h := Edit.selectors?_setRule declarations h
  discard_error_iff context selector property missing :=
    (Edit.error_iff_of_run rfl).trans (discard_eq_error_iff s context selector property missing)
  discard_ok _ _ _ _ _ h := Edit.discard_ok h
  removeSelector_error_iff context selector missing :=
    (Edit.error_iff_of_run rfl).trans (removeSelector_eq_error_iff s context selector missing)
  removeSelector_ok _ _ _ _ h := Edit.removeSelector_ok h
  addRule_error_iff context raw missing := by
    cases hbinding : (RawRule.ofText raw).binding? with
    | none =>
      obtain ⟨warnings, hread⟩ := hs.addRule_of_no_binding context hbinding
      rw [Edit.run, hread]
      exact iff_of_false (fun h => by cases h) (fun h => by cases h.1)
    | some rule =>
      rw [hs.error_run_addRule_iff context hbinding, setRule_eq_error_iff]
      exact (and_iff_right rfl).symm
  addRule_ok context raw t reply h := by
    cases hbinding : (RawRule.ofText raw).binding? with
    | none =>
      obtain ⟨warnings, hread⟩ := hs.addRule_of_no_binding context hbinding
      rw [Edit.run, hread] at h
      exact (Prod.mk.inj h).1.symm
    | some rule =>
      have hset := hs.run_setRule_of_run_addRule context hbinding h
      have hselectors : s.hasSelector context rule.1 = true →
          (Edit.run s (.setRule context rule.1 rule.2)).1.selectors? context =
            s.selectors? context := Edit.selectors?_setRule rule.2
      rw [hset] at hselectors
      exact ⟨(Edit.setRule_ok hset).1, (Edit.setRule_ok hset).2, hselectors⟩

/-! ## 3. Sequences of edits -/

/-- **What every sequence of edits keeps**, those that fail included. The names of the contexts and
    the table of their blocks are in step, and stay so whatever is done to the two: every sequence of
    mutations does to them what it does to the style sheet, and edits are such sequences. Contexts
    are neither dropped nor moved by what comes later, and the next edit keeps to the laws. -/
theorem Edit.runAll_keeps (edits more : List Edit) :
    let s := runAll .empty edits
    (∃ mutations, Mutation.afterAll .empty mutations = s ∧
      Mutation.afterAllIndexed Stylesheet.empty.indexed mutations = s.indexed) ∧
    (∀ mutations, (Mutation.afterAllIndexed s.indexed mutations).InStep ∧
      Mutation.afterAllIndexed s.indexed mutations = (Mutation.afterAll s mutations).indexed) ∧
    s.indexed.InStep ∧ s.contextKeys <+: (runAll .empty (edits ++ more)).contextKeys ∧
    EditLaws s := by
  intro s
  have hreached := Edit.leadsTo_runAll Stylesheet.keyed_empty edits
  have hs : s.Keyed := hreached.keyed Stylesheet.keyed_empty
  have hmore : runAll .empty (edits ++ more) = runAll s more := List.foldl_append
  obtain ⟨mutations, hmutations⟩ := hreached
  refine ⟨⟨mutations, hmutations, ?_⟩, fun later => ?_, hs.inStep, ?_, hs.editLaws⟩
  · rw [Mutation.afterAllIndexed_indexed Stylesheet.keyed_empty, hmutations]
  · rw [Mutation.afterAllIndexed_indexed hs]
    exact ⟨(Mutation.keyed_afterAll hs later).inStep, rfl⟩
  · rw [hmore]
    exact (Edit.leadsTo_runAll hs more).contextKeys_isPrefix hs

end MediaCascade
