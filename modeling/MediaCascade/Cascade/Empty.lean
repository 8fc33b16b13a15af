import MediaCascade.Diagnostic
import MediaCascade.Walk

/-!
# Rules without declarations

`Stylesheet.prune` removes every rule that has no declarations, in every context. A context that
loses all its rules stays.
-/

namespace MediaCascade.Stylesheet

/-- Removes a rule if it has no declarations. -/
def pruneRule (context : Text) (s : Stylesheet) (selector : Text) : Stylesheet × List Removal :=
  if ((s.declarations? context selector).getD .empty).isEmpty then
    (s.eraseSelector context selector, [⟨context, selector, .emptied⟩])
  else (s, [])

/-- Removes the rules of one context that have no declarations. -/
def pruneContext (s : Stylesheet) (context : Text) : Stylesheet × List Removal :=
  walk (pruneRule context) s ((s.selectors? context).getD [])

/-- Removes every rule without declarations. -/
def prune (s : Stylesheet) : Stylesheet × List Removal := walk pruneContext s s.contextKeys

theorem contextKeys_pruneRule (context : Text) (s : Stylesheet) (selector : Text) :
    (pruneRule context s selector).1.contextKeys = s.contextKeys := by
  unfold pruneRule
  split
  · simp [eraseSelector]
  · rfl

theorem contextKeys_pruneContext (s : Stylesheet) (context : Text) :
    (pruneContext s context).1.contextKeys = s.contextKeys := by
  unfold pruneContext
  exact walk_unchanged contextKeys (contextKeys_pruneRule context) s _

/-- **The contexts and their order stay.** -/
@[simp] theorem contextKeys_prune (s : Stylesheet) : s.prune.1.contextKeys = s.contextKeys := by
  unfold prune
  exact walk_unchanged contextKeys contextKeys_pruneContext s _

end MediaCascade.Stylesheet
