import MediaCascade.Stylesheet.Basic
import MediaCascade.Text.Blank

/-!
# Writing a style sheet

The layout of a written style sheet:

* A rule is its selector and an opening brace, one line for each declaration, and a line with the
  closing brace. Declarations and the closing brace stand behind `indentation`; the selector does so
  in media contexts only.
* A blank line stands between two rules and between two contexts, and a line feed at the end.
* A media context is its header, an opening brace, its rules, and a closing brace on its own line.
* An empty base context is left out.
-/

namespace MediaCascade

/-- The indentation of declarations. -/
def indentation : Text := [' ', ' ', ' ', ' ']

/-- A declaration as one line. -/
def renderDeclaration (property value : Text) : Text :=
  indentation ++ property ++ [':', ' '] ++ value ++ [';']

/-- A rule, its selector behind `indent`. -/
def renderRule (indent selector : Text) (declarations : Declarations) : Text :=
  Text.joinWith ['\n']
    ((indent ++ selector ++ [' ', '{']) ::
      declarations.entries.map (fun d => renderDeclaration d.1 d.2) ++ [indentation ++ ['}']])

/-- The rules of a block, each behind `indent`. -/
def renderBlock (indent : Text) (block : Block) : Text :=
  Text.joinWith ['\n', '\n'] (block.entries.map fun rule => renderRule indent rule.1 rule.2)

/-- A context: the base context as its rules, any other within its header and braces. -/
def renderContext (context : Text) (block : Block) : Text :=
  if context = baseKey then renderBlock [] block
  else
    Text.trim context ++ ['{', '\n'] ++ renderBlock indentation block ++ ['\n', '}']

namespace Stylesheet

/-- The text of a context. -/
def renderContext? (s : Stylesheet) (context : Text) : Option Text :=
  (s.block? context).map (renderContext context)

/-- The texts of the contexts, without an empty one at the front. -/
def sections (s : Stylesheet) : List Text :=
  match s.contexts.entries.map fun context => renderContext context.1 context.2 with
  | [] :: media => media
  | sections => sections

/-- The text of a style sheet. -/
def render (s : Stylesheet) : Text := Text.joinWith ['\n', '\n'] s.sections ++ ['\n']

example : empty.render = ['\n'] := rfl

/-- A style sheet in one line: the names of its contexts, quoted. -/
def summary (s : Stylesheet) : Text :=
  "StylesheetModel(contexts=[".toList ++
    Text.joinWith [',', ' '] (s.contextKeys.map Text.quoted) ++ "])".toList

end Stylesheet

end MediaCascade
