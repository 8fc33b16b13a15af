import MediaCascade.OrderedMap
import MediaCascade.Text.Quoted

/-!
# Style sheets

A style sheet is a list of contexts, each with a block of rules. The context `base` holds the rules
outside every media block; every other context is named by the header of its media block.

* A block maps selectors to declarations, declarations map properties to values. All three maps
  keep the order of insertion, which is the order of the cascade.
* `addContext` starts an empty block; a context that is there keeps its place.
* `setRule`, `discard` and `removeSelector` name a context, and the last two a selector, that has
  to be there: they answer `Missing` otherwise.
* `Stylesheet.Valid` is what every style sheet reached from the empty one has: `base` is the first
  context, and no map has a key twice.

What is NOT here: reading a style sheet from text (`MediaCascade.Stylesheet.Reading`), writing it
(`MediaCascade.Stylesheet.Printer`), and the removal of duplicates (`MediaCascade.Cascade`).
-/

namespace MediaCascade

/-- The declarations of a rule: properties with their values. -/
abbrev Declarations := OrderedMap Text Text

/-- The rules of a context: selectors with their declarations. -/
abbrev Block := OrderedMap Text Declarations

/-- The name of the context of the rules outside every media block. -/
def baseKey : Text := ['b', 'a', 's', 'e']

/-- Contexts in the order of the cascade, `base` first. -/
structure Stylesheet where
  contexts : OrderedMap Text Block
  deriving DecidableEq, Repr

/-- A name that an operation needs and does not find. -/
inductive Missing where
  | context (name : Text)
  | selector (name : Text)
  deriving DecidableEq, Repr

/-- The missing name, quoted. -/
def Missing.message : Missing → Text
  | .context name => Text.quoted name
  | .selector name => Text.quoted name

namespace Stylesheet

/-! ## 1. Reading -/

/-- The style sheet with an empty base block and no media block. -/
def empty : Stylesheet := ⟨⟨[(baseKey, .empty)]⟩⟩

/-- The names of all contexts, in order. -/
def contextKeys (s : Stylesheet) : List Text := s.contexts.keys

/-- The names of the media contexts, in order. -/
def mediaKeys (s : Stylesheet) : List Text := s.contextKeys.tail

/-- The block of a context. -/
def block? (s : Stylesheet) (context : Text) : Option Block := s.contexts.get? context

/-- Whether a context is there. -/
def hasContext (s : Stylesheet) (context : Text) : Bool := s.contexts.contains context

/-- The selectors of a context, in order. -/
def selectors? (s : Stylesheet) (context : Text) : Option (List Text) :=
  (s.block? context).map OrderedMap.keys

/-- The declarations that a context gives a selector. -/
def declarations? (s : Stylesheet) (context selector : Text) : Option Declarations :=
  (s.block? context).bind (·.get? selector)

/-- Whether a context has a rule for a selector. -/
def hasSelector (s : Stylesheet) (context selector : Text) : Bool :=
  (s.declarations? context selector).isSome

/-- The base block. -/
def baseBlock (s : Stylesheet) : Block := (s.block? baseKey).getD .empty

/-! ## 2. Changes that cannot fail -/

/-- Starts an empty block for a context. A context that is there loses its rules and keeps its
    place. -/
def addContext (s : Stylesheet) (context : Text) : Stylesheet :=
  ⟨s.contexts.insert context .empty⟩

/-- Changes the block of a context. -/
def modifyBlock (s : Stylesheet) (context : Text) (f : Block → Block) : Stylesheet :=
  ⟨s.contexts.modify context f⟩

/-- The style sheet without one declaration. -/
def eraseDeclaration (s : Stylesheet) (context selector property : Text) : Stylesheet :=
  s.modifyBlock context fun block => block.modify selector fun rule => rule.erase property

/-- The style sheet without one rule. -/
def eraseSelector (s : Stylesheet) (context selector : Text) : Stylesheet :=
  s.modifyBlock context fun block => block.erase selector

/-! ## 3. Changes that name what has to be there -/

/-- Answers `Missing` unless the context is there. -/
def requireContext (s : Stylesheet) (context : Text) : Except Missing Unit :=
  if s.hasContext context then .ok () else .error (.context context)

/-- Answers `Missing` unless the context is there and has a rule for the selector. -/
def requireSelector (s : Stylesheet) (context selector : Text) : Except Missing Unit :=
  if s.hasContext context then
    if s.hasSelector context selector then .ok () else .error (.selector selector)
  else .error (.context context)

/-- Stores the declarations of a selector, in the place of an earlier rule for it. -/
def setRule (s : Stylesheet) (context selector : Text) (declarations : Declarations) :
    Except Missing Stylesheet :=
  (s.requireContext context).map fun _ =>
    s.modifyBlock context fun block => block.insert selector declarations

/-- Removes a declaration; a property that the rule does not have is no fault. -/
def discard (s : Stylesheet) (context selector property : Text) : Except Missing Stylesheet :=
  (s.requireSelector context selector).map fun _ => s.eraseDeclaration context selector property

/-- Removes a rule. -/
def removeSelector (s : Stylesheet) (context selector : Text) : Except Missing Stylesheet :=
  (s.requireSelector context selector).map fun _ => s.eraseSelector context selector

/-! ## 4. Validity -/

/-- `base` is the first context, and no map has a key twice. -/
structure Valid (s : Stylesheet) : Prop where
  base_first : s.contextKeys.head? = some baseKey
  contexts_nodup : s.contextKeys.Nodup
  selectors_nodup : ∀ context ∈ s.contexts.entries, context.2.keys.Nodup
  properties_nodup : ∀ context ∈ s.contexts.entries, ∀ rule ∈ context.2.entries, rule.2.keys.Nodup

theorem valid_empty : empty.Valid where
  base_first := rfl
  contexts_nodup := by decide
  selectors_nodup := by decide
  properties_nodup := by decide

/-! ## 5. What the operations read and need -/

@[simp] theorem block?_addContext (s : Stylesheet) (context name : Text) :
    (s.addContext context).block? name = if name = context then some .empty else s.block? name := by
  simp [addContext, block?]

@[simp] theorem block?_modifyBlock (s : Stylesheet) (context : Text) (f : Block → Block)
    (name : Text) :
    (s.modifyBlock context f).block? name =
      if name = context then (s.block? name).map f else s.block? name := by
  by_cases h : name = context
  · subst h; simp [modifyBlock, block?]
  · simp [modifyBlock, block?, h]

@[simp] theorem contextKeys_modifyBlock (s : Stylesheet) (context : Text) (f : Block → Block) :
    (s.modifyBlock context f).contextKeys = s.contextKeys := by
  simp [modifyBlock, contextKeys]

/-- Only the named context has to be there for a rule to be stored. -/
theorem setRule_eq_error_iff (s : Stylesheet) (context selector : Text)
    (declarations : Declarations) (missing : Missing) :
    s.setRule context selector declarations = .error missing ↔
      s.hasContext context = false ∧ missing = .context context := by
  unfold setRule requireContext
  cases h : s.hasContext context <;> simp [Except.map, eq_comm]

/-- A removal needs the named context, and then the named selector. -/
theorem removeSelector_eq_error_iff (s : Stylesheet) (context selector : Text)
    (missing : Missing) :
    s.removeSelector context selector = .error missing ↔
      (s.hasContext context = false ∧ missing = .context context) ∨
      (s.hasContext context = true ∧ s.hasSelector context selector = false ∧
        missing = .selector selector) := by
  unfold removeSelector requireSelector
  cases h : s.hasContext context <;> cases h' : s.hasSelector context selector <;>
    simp [Except.map, eq_comm]

end Stylesheet

end MediaCascade
