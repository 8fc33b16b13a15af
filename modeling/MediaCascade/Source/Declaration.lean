import MediaCascade.Diagnostic

/-!
# The declarations of a rule

The body of a rule is cut at every `;` into segments. A segment is blank, or a declaration
`property: value`, or malformed.

* The first `:` of a segment ends the property; a value may hold further ones.
* Property and value are trimmed, and neither may be empty.
* A property that comes again keeps its first place and takes its last value.
* Blank segments are skipped; malformed ones are dropped with a warning.

Main statements: of two bodies with a `;` between them, the segments follow each other, and so do the
warnings (`segments_append`, `declarationWarnings_append`).
-/

namespace MediaCascade

/-- A segment between two semicolons. -/
inductive Segment where
  | blank
  | malformed (text : Text)
  | declaration (property value : Text)
  deriving DecidableEq, Repr

namespace Segment

/-- Reads a segment. -/
def ofText (s : Text) : Segment :=
  if (Text.trim s).isEmpty then .blank
  else
    match s.dropWhile fun c => !decide (c = ':') with
    | [] => .malformed s
    | _ :: afterColon =>
      let property := Text.trim (s.takeWhile fun c => !decide (c = ':'))
      let value := Text.trim afterColon
      if property.isEmpty || value.isEmpty then .malformed s else .declaration property value

/-- The declaration of a segment, if it is one. -/
def declaration? : Segment → Option (Text × Text)
  | .blank => none
  | .malformed _ => none
  | .declaration property value => some (property, value)

/-- The warning about a segment, if it is malformed. -/
def warning? (context selector : Option Text) : Segment → Option Warning
  | .blank => none
  | .malformed text => some (.malformedDeclaration context selector text)
  | .declaration _ _ => none

end Segment

/-- The segments of a body. -/
def segments (body : Text) : List Segment := (body.splitOn ';').map Segment.ofText

/-- The declarations of a body. -/
def Declarations.ofText (body : Text) : Declarations :=
  OrderedMap.ofList ((segments body).filterMap Segment.declaration?)

/-- The warnings about a body, in order. Each names the context and the selector it is given. -/
def declarationWarnings (context selector : Option Text) (body : Text) : List Warning :=
  (segments body).filterMap (Segment.warning? context selector)

/-! ## Two bodies one after the other -/

theorem segments_append (first second : Text) :
    segments (first ++ ';' :: second) = segments first ++ segments second := by
  rw [segments, List.splitOn_append_cons_self, List.map_append]
  rfl

theorem declarationWarnings_append (context selector : Option Text) (first second : Text) :
    declarationWarnings context selector (first ++ ';' :: second) =
      declarationWarnings context selector first ++
        declarationWarnings context selector second := by
  simp [declarationWarnings, segments_append]

end MediaCascade
