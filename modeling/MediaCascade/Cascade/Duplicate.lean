import MediaCascade.Diagnostic
import MediaCascade.Walk

/-!
# Declarations that restate a value

A declaration of a media context is redundant if the context right before gives the same selector
and property the same value. `Stylesheet.dedupe` removes these declarations.

* Contexts are walked in order, each against what is LEFT of the one before it.
* The first media context is held against the base rules, and its removals name them as the origin;
  all later removals name the context before.
* Values are the same only if they are equal character by character.
* Rules that lose all declarations stay (`MediaCascade.Cascade.Empty` removes them).
-/

namespace MediaCascade.Stylesheet

/-! ## 1. One rule against another -/

/-- Removes one declaration of a rule if `other` gives its property the same value. -/
def removeIfRestated (origin : Origin) (context selector : Text) (other : Declarations)
    (s : Stylesheet) (declaration : Text × Text) : Stylesheet × List Removal :=
  if other.get? declaration.1 = some declaration.2 then
    (s.eraseDeclaration context selector declaration.1,
      [⟨context, selector, .restated origin declaration.1 declaration.2⟩])
  else (s, [])

/-- Removes every declaration of a rule that the rule of another context restates. Nothing happens
    where the other context has no rule for the selector. -/
def removeRestated (origin : Origin) (other context selector : Text) (s : Stylesheet) :
    Stylesheet × List Removal :=
  match s.declarations? other selector with
  | none => (s, [])
  | some given =>
    walk (removeIfRestated origin context selector given) s
      ((s.declarations? context selector).getD .empty).entries

/-! ## 2. One context against the one before -/

/-- Removes the redundant declarations of one rule. The first media context is held against the
    base rules as such, and then against the context before it, which is `base` again. -/
def dedupeRule (previous context : Text) (s : Stylesheet) (selector : Text) :
    Stylesheet × List Removal :=
  let first :=
    if previous = baseKey then removeRestated .base baseKey context selector s else (s, [])
  let second := removeRestated .previous previous context selector first.1
  (second.1, first.2 ++ second.2)

/-- Removes the redundant declarations of one context. -/
def dedupeContext (s : Stylesheet) (neighbours : Text × Text) : Stylesheet × List Removal :=
  walk (dedupeRule neighbours.1 neighbours.2) s ((s.selectors? neighbours.2).getD [])

/-! ## 3. All contexts -/

/-- Each media context with the context right before it, in order. -/
def neighbours (s : Stylesheet) : List (Text × Text) := s.contextKeys.zip s.mediaKeys

/-- Removes every declaration that restates the value of the context before. -/
def dedupe (s : Stylesheet) : Stylesheet × List Removal := walk dedupeContext s s.neighbours

/-! ## 4. What stays -/

theorem contextKeys_removeIfRestated (origin : Origin) (context selector : Text)
    (other : Declarations) (s : Stylesheet) (declaration : Text × Text) :
    (removeIfRestated origin context selector other s declaration).1.contextKeys =
      s.contextKeys := by
  unfold removeIfRestated
  split
  · simp [eraseDeclaration]
  · rfl

theorem contextKeys_removeRestated (origin : Origin) (other context selector : Text)
    (s : Stylesheet) :
    (removeRestated origin other context selector s).1.contextKeys = s.contextKeys := by
  unfold removeRestated
  split
  · rfl
  · exact walk_unchanged contextKeys (contextKeys_removeIfRestated origin context selector _) s _

theorem contextKeys_dedupeRule (previous context : Text) (s : Stylesheet) (selector : Text) :
    (dedupeRule previous context s selector).1.contextKeys = s.contextKeys := by
  simp only [dedupeRule, contextKeys_removeRestated]
  split
  · exact contextKeys_removeRestated _ _ _ _ _
  · rfl

theorem contextKeys_dedupeContext (s : Stylesheet) (pair : Text × Text) :
    (dedupeContext s pair).1.contextKeys = s.contextKeys := by
  unfold dedupeContext
  exact walk_unchanged contextKeys (contextKeys_dedupeRule pair.1 pair.2) s _

/-- **The contexts and their order stay.** -/
@[simp] theorem contextKeys_dedupe (s : Stylesheet) : s.dedupe.1.contextKeys = s.contextKeys := by
  unfold dedupe
  exact walk_unchanged contextKeys contextKeys_dedupeContext s _

end MediaCascade.Stylesheet
