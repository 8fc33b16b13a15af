import MediaCascade.Cascade.Transform
import MediaCascade.Log
import MediaCascade.Stylesheet.Printer
import MediaCascade.Stylesheet.Reading

/-!
# Cleaning a style sheet text

`clean` reads a text, removes redundant declarations and then the rules without declarations, and
writes the style sheet that is left. A `Cleaned` text comes with the style sheet, the warnings of
reading it and the removals.

* `Cleaned.read` does so for a text that has to have base rules; `Cleaned.read_beforeMedia` says
  that all texts have them with the base region in use.
* `cleaningEvents` is what such a run logs.
-/

namespace MediaCascade

/-- A cleaned text, and what cleaning it dropped on the way. -/
structure Cleaned where
  css : Text
  sheet : Stylesheet
  warnings : List Warning
  removals : List Removal
  deriving DecidableEq, Repr

namespace Cleaned

/-- The number of removed declarations. -/
def duplicateCount (c : Cleaned) : Nat := c.removals.countP Removal.isDeclaration

/-- The number of removed rules. -/
def prunedCount (c : Cleaned) : Nat := c.removals.countP fun r => !r.isDeclaration

/-- Cleans a style sheet that was read. -/
def ofRead (read : Stylesheet × List Warning) : Cleaned :=
  let simplified := read.1.simplify
  ⟨simplified.1.render, simplified.1, read.2, simplified.2⟩

/-- Cleans a text that has to have base rules. -/
def read (region : BaseRegion) (css : Text) : Except NoBaseRegion Cleaned :=
  (Stylesheet.read region css).map ofRead

end Cleaned

/-- Cleans a text. -/
def clean (css : Text) : Cleaned := .ofRead (Stylesheet.ofText css)

/-- Where texts have base rules, cleaning does not fail. -/
@[simp] theorem Cleaned.read_beforeMedia (css : Text) :
    Cleaned.read .beforeMedia css = .ok (clean css) := rfl

/-- What cleaning a text logs. -/
def cleaningEvents (region : BaseRegion) (css : Text) : List Event :=
  match Stylesheet.read region css with
  | .error fault => [.noBaseRegion fault]
  | .ok read =>
    let cleaned := Cleaned.ofRead read
    cleaned.warnings.map .warned ++
      [.parsed read.1.contexts.size read.1.baseBlock.size read.1.mediaKeys.length,
        .removed cleaned.duplicateCount cleaned.prunedCount]

end MediaCascade
