import MediaCascade.Cascade.Duplicate
import MediaCascade.Cascade.Empty

/-!
# Transforms

A transform changes a style sheet and reports what it removed. `Stylesheet.simplify` runs the two
built-in ones, duplicates first and then empty rules; `Stylesheet.applyAll` runs further ones behind
them and stops at the first that names something missing.
-/

namespace MediaCascade

/-- A change of a style sheet that reports its removals. -/
inductive Transform where
  /-- Removes declarations that restate a value. -/
  | dedupe
  /-- Removes rules without declarations. -/
  | prune
  /-- Removes one rule, which has to be there. -/
  | drop (context selector : Text)
  deriving DecidableEq, Repr

/-- Runs a transform. -/
def Transform.run (s : Stylesheet) : Transform → Except Missing (Stylesheet × List Removal)
  | .dedupe => .ok s.dedupe
  | .prune => .ok s.prune
  | .drop context selector =>
    (s.removeSelector context selector).map fun s' => (s', [⟨context, selector, .dropped⟩])

/-- The transforms that always run. -/
def Transform.builtin : List Transform := [.dedupe, .prune]

namespace Stylesheet

/-- Runs transforms one after the other: the style sheet that was reached, and all removals, or what
    the transform that stopped the run was missing. -/
def runTransforms (s : Stylesheet) : List Transform → Stylesheet × Except Missing (List Removal)
  | [] => (s, .ok [])
  | transform :: rest =>
    match transform.run s with
    | .error missing => (s, .error missing)
    | .ok (reached, removals) =>
      let later := reached.runTransforms rest
      (later.1, later.2.map fun others => removals ++ others)

/-- Runs the built-in transforms and then the given ones. -/
def applyAll (s : Stylesheet) (custom : List Transform) :
    Stylesheet × Except Missing (List Removal) :=
  s.runTransforms (Transform.builtin ++ custom)

/-- Removes redundant declarations, and then the rules without declarations. -/
def simplify (s : Stylesheet) : Stylesheet × List Removal :=
  let deduped := s.dedupe
  let pruned := deduped.1.prune
  (pruned.1, deduped.2 ++ pruned.2)

/-- **The built-in transforms do not fail**, and run as `simplify`. -/
@[simp] theorem applyAll_nil (s : Stylesheet) :
    s.applyAll [] = (s.simplify.1, .ok s.simplify.2) := by
  simp [applyAll, Transform.builtin, runTransforms, Transform.run, simplify, Except.map]

@[simp] theorem contextKeys_simplify (s : Stylesheet) :
    s.simplify.1.contextKeys = s.contextKeys := by
  simp [simplify]

@[simp] theorem mediaKeys_simplify (s : Stylesheet) : s.simplify.1.mediaKeys = s.mediaKeys := by
  rw [mediaKeys, contextKeys_simplify, mediaKeys]

end Stylesheet

end MediaCascade
