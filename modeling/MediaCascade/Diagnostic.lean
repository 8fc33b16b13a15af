import MediaCascade.Stylesheet.Basic
import MediaCascade.Text.Blank

/-!
# Diagnostics

What a run reports beside the style sheet it makes.

* A `Warning` names a part of the source that reading drops or overrides, by its cause. Its code,
  its message and the place it names are read off the cause.
* A `Removal` records a declaration or a rule that a transform removed from the style sheet.

Each is shown as one line: `Warning.line` and `Removal.line`.
-/

namespace MediaCascade

/-! ## 1. Warnings -/

/-- A part of the source that is dropped or overridden. -/
inductive Warning where
  /-- Text outside the blocks in which `@media` occurs. -/
  | unmatchedMedia (fragment : Text)
  /-- Other text outside the blocks and behind the base rules. -/
  | ignoredText (fragment : Text)
  /-- A rule that does not have exactly one opening brace. -/
  | notFlat (context fragment : Text)
  /-- A rule without selector or without declarations. -/
  | emptyRule (context : Text) (selector : Option Text) (fragment : Text)
  /-- A declaration without colon, property or value. -/
  | malformedDeclaration (context selector : Option Text) (segment : Text)
  /-- A rule for a selector that has one. -/
  | duplicateSelector (context selector : Text)
  /-- A media block with the header of an earlier one. -/
  | repeatedContext (context : Text)
  deriving DecidableEq, Repr

namespace Warning

/-- The kind of problem, as one word. -/
def code : Warning → Text
  | .unmatchedMedia _ => "unmatched-media".toList
  | .ignoredText _ => "ignored-text".toList
  | .notFlat _ _ => "malformed-rule".toList
  | .emptyRule _ _ _ => "malformed-rule".toList
  | .malformedDeclaration _ _ _ => "malformed-declaration".toList
  | .duplicateSelector _ _ => "duplicate-selector".toList
  | .repeatedContext _ => "repeated-context".toList

/-- The problem in words. -/
def message : Warning → Text
  | .unmatchedMedia _ =>
    "@media block could not be isolated (nested or unbalanced braces); dropped".toList
  | .ignoredText _ =>
    "top-level text after the first @media block is not part of the base rules; dropped".toList
  | .notFlat _ _ => ("rule is not a flat 'selector \x7b declarations \x7d' block; dropped").toList
  | .emptyRule _ _ _ => "rule has an empty selector or an empty body; dropped".toList
  | .malformedDeclaration _ _ segment =>
    "declaration ".toList ++ Text.quoted (Text.trim segment) ++
      " has no 'property: value' pair; dropped".toList
  | .duplicateSelector _ selector =>
    "selector ".toList ++ Text.quoted selector ++
      " is defined again; the earlier declarations were replaced".toList
  | .repeatedContext _ =>
    "media query appears again; rules from its earlier block were discarded".toList

/-- The context in which the problem arose. -/
def context? : Warning → Option Text
  | .unmatchedMedia _ => none
  | .ignoredText _ => none
  | .notFlat context _ => some context
  | .emptyRule context _ _ => some context
  | .malformedDeclaration context _ _ => context
  | .duplicateSelector context _ => some context
  | .repeatedContext context => some context

/-- The selector of the rule in which the problem arose. -/
def selector? : Warning → Option Text
  | .unmatchedMedia _ => none
  | .ignoredText _ => none
  | .notFlat _ _ => none
  | .emptyRule _ selector _ => selector
  | .malformedDeclaration _ selector _ => selector
  | .duplicateSelector _ selector => some selector
  | .repeatedContext _ => none

/-- The part of the source that is dropped. -/
def fragment? : Warning → Option Text
  | .unmatchedMedia fragment => some fragment
  | .ignoredText fragment => some fragment
  | .notFlat _ fragment => some fragment
  | .emptyRule _ _ fragment => some fragment
  | .malformedDeclaration _ _ segment => some segment
  | .duplicateSelector _ _ => none
  | .repeatedContext _ => none

/-- The place a warning names: nothing without a context, else the trimmed context in brackets,
    with the selector behind it if there is one. A name without characters counts as none. -/
def location (context selector : Option Text) : Text :=
  match context.getD [], selector.getD [] with
  | [], _ => []
  | c :: rest, [] => " [".toList ++ Text.trim (c :: rest) ++ "]".toList
  | c :: rest, selector =>
    " [".toList ++ Text.trim (c :: rest) ++ " > ".toList ++ selector ++ "]".toList

/-- A warning as one line, from its parts. -/
def lineOf (code message : Text) (context selector : Option Text) : Text :=
  "WARNING ".toList ++ code ++ location context selector ++ ": ".toList ++ message

/-- A warning as one line. -/
def line (w : Warning) : Text := lineOf w.code w.message w.context? w.selector?

end Warning

/-! ## 2. Removals -/

/-- The context whose rule makes a declaration redundant. -/
inductive Origin where
  /-- The base rules. -/
  | base
  /-- The context right before. -/
  | previous
  deriving DecidableEq, Repr

/-- Why something was removed. -/
inductive Cause where
  /-- The declaration has the value that the rule of another context gives. -/
  | restated (origin : Origin) (property value : Text)
  /-- The rule has no declarations. -/
  | emptied
  /-- The rule was named for removal. -/
  | dropped
  deriving DecidableEq, Repr

/-- A declaration or a rule that was removed. -/
structure Removal where
  context : Text
  selector : Text
  cause : Cause
  deriving DecidableEq, Repr

namespace Removal

/-- The cause as one word. -/
def reason (r : Removal) : Text :=
  match r.cause with
  | .restated .base _ _ => "base".toList
  | .restated .previous _ _ => "previous".toList
  | .emptied => "empty".toList
  | .dropped => "custom".toList

/-- The property of a removed declaration; a removed rule has none. -/
def property? (r : Removal) : Option Text :=
  match r.cause with
  | .restated _ property _ => some property
  | .emptied => none
  | .dropped => none

/-- The value of a removed declaration; a removed rule has none. -/
def value? (r : Removal) : Option Text :=
  match r.cause with
  | .restated _ _ value => some value
  | .emptied => none
  | .dropped => none

/-- Whether a declaration was removed, and not a rule. -/
def isDeclaration (r : Removal) : Bool := r.property?.isSome

/-- A removal as one line, from its parts. A declaration without a value shows `None` for it. -/
def lineOf (context selector reason : Text) (property value : Option Text) : Text :=
  Text.trim context ++ " > ".toList ++ selector ++
    match property with
    | none => ": removed empty selector".toList
    | some property =>
      ": removed ".toList ++ property ++ ": ".toList ++ value.getD "None".toList ++
        " (same as ".toList ++ reason ++ ")".toList

/-- A removal as one line. -/
def line (r : Removal) : Text := lineOf r.context r.selector r.reason r.property? r.value?

end Removal

end MediaCascade
