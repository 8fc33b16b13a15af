import MediaCascade.Cascade.Transform
import MediaCascade.Stylesheet.Reading

/-!
# Edits

An edit is one change of a style sheet, and `Edit.run` carries it out. An edit that names something
missing answers so; the changes it made before stay, which only `applyAll` can have made.
-/

namespace MediaCascade

/-- A change of a style sheet. -/
inductive Edit where
  | addContext (context : Text)
  | setRule (context selector : Text) (declarations : Declarations)
  | discard (context selector property : Text)
  | removeSelector (context selector : Text)
  | addRule (context raw : Text)
  | dedupe
  | prune
  | applyAll (custom : List Transform)
  deriving DecidableEq, Repr

/-- What an edit answers. -/
inductive Reply where
  /-- Whether the context or the rule was there before. -/
  | existed (before : Bool)
  /-- Nothing to tell. -/
  | done
  | warnings (list : List Warning)
  | removals (list : List Removal)
  deriving DecidableEq, Repr

namespace Edit

/-- Carries out an edit: the style sheet that is reached, and the answer. -/
def run (s : Stylesheet) : Edit → Stylesheet × Except Missing Reply
  | .addContext context => (s.addContext context, .ok (.existed (s.hasContext context)))
  | .setRule context selector declarations =>
    match s.setRule context selector declarations with
    | .ok changed => (changed, .ok (.existed (s.hasSelector context selector)))
    | .error missing => (s, .error missing)
  | .discard context selector property =>
    match s.discard context selector property with
    | .ok changed => (changed, .ok .done)
    | .error missing => (s, .error missing)
  | .removeSelector context selector =>
    match s.removeSelector context selector with
    | .ok changed => (changed, .ok .done)
    | .error missing => (s, .error missing)
  | .addRule context raw =>
    match s.addRule context raw with
    | .ok (changed, warnings) => (changed, .ok (.warnings warnings))
    | .error missing => (s, .error missing)
  | .dedupe => (s.dedupe.1, .ok (.removals s.dedupe.2))
  | .prune => (s.prune.1, .ok (.removals s.prune.2))
  | .applyAll custom =>
    let reached := s.applyAll custom
    (reached.1, reached.2.map .removals)

/-- The style sheet after a sequence of edits. -/
def runAll (s : Stylesheet) (edits : List Edit) : Stylesheet :=
  edits.foldl (fun s edit => (edit.run s).1) s

end Edit

end MediaCascade
