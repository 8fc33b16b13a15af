import MediaCascade.Text.Basic

/-!
# Paths

A path is a root, which is empty for a relative path, and names. Reading one drops empty names and
the name `.`; the name `..` is kept. Exactly two slashes at the start are a root of their own.
-/

namespace MediaCascade

/-- Where a path starts. -/
inductive PathRoot where
  /-- At the working directory. -/
  | relative
  | slash
  | doubleSlash
  deriving DecidableEq, Repr

/-- The root as it is written. -/
def PathRoot.text : PathRoot → Text
  | .relative => []
  | .slash => ['/']
  | .doubleSlash => ['/', '/']

/-- The root of a path. -/
def PathRoot.ofText : Text → PathRoot
  | '/' :: '/' :: '/' :: _ => .slash
  | '/' :: '/' :: _ => .doubleSlash
  | '/' :: _ => .slash
  | _ => .relative

/-- A path. -/
structure Path where
  root : PathRoot
  names : List Text
  deriving DecidableEq, Repr

namespace Path

/-- Whether a name says nothing about the place: it is empty or `.`. -/
def isIdle (name : Text) : Bool := name.isEmpty || name == ['.']

/-- Reads a path. -/
def ofText (s : Text) : Path :=
  ⟨.ofText s, (s.splitOn '/').filter fun name => !isIdle name⟩

/-- A path as it is written: `.` if it has neither root nor names. -/
def toText (p : Path) : Text :=
  match p.root, p.names with
  | .relative, [] => ['.']
  | root, names => root.text ++ Text.joinWith ['/'] names

/-- The last name; empty if there is none. -/
def name (p : Path) : Text := p.names.getLast?.getD []

example : (ofText ['a', '/', '/', '.', '/', 'b', '/']).toText = ['a', '/', 'b'] := by decide

example : (ofText []).toText = ['.'] := by decide

end Path

end MediaCascade
