import MediaCascade.Files.Processor

/-!
# Sessions

A session is a store and processors by name. Its steps make a processor, let one process its file,
or let one write a result: its own, or the last one of another processor.
-/

namespace MediaCascade

/-- The files, and the processors by name. -/
structure Session where
  store : Store
  processors : OrderedMap Text Processor
  deriving DecidableEq, Repr

/-- A step of a session. -/
inductive SessionStep where
  | new (name : Text) (path : Path) (settings : Settings)
  | process (name : Text)
  /-- Writes the last result of the processor `source`, if it names one that has a result, else the
      writer's own. -/
  | write (name : Text) (source : Option Text)
  deriving DecidableEq, Repr

/-- What a step answers. -/
inductive SessionReply where
  | made (processor : Processor)
  | processed (cleaned : Cleaned)
  /-- The path that was written; none on a dry run. -/
  | written (path : Option Path)
  deriving DecidableEq, Repr

namespace Session

/-- A session without processors. -/
def start (store : Store) : Session := ⟨store, .empty⟩

/-- The last result of a processor. -/
def result? (s : Session) (name : Text) : Option Cleaned :=
  (s.processors.get? name).bind Processor.result

/-- Carries out a step: the session after it, the answer, and what was logged. -/
def step (region : BaseRegion) (s : Session) : SessionStep → Session × Logged SessionReply
  | .new name path settings =>
    let processor := Processor.new path settings
    (⟨s.store, s.processors.insert name processor⟩, ⟨.ok (.made processor), []⟩)
  | .process name =>
    match s.processors.get? name with
    | none => (s, ⟨.error (.unknownProcessor name), []⟩)
    | some processor =>
      let reached := processor.process region s.store
      (⟨s.store, s.processors.insert name reached.1⟩,
        ⟨reached.2.value.map .processed, reached.2.events⟩)
  | .write name source =>
    match s.processors.get? name with
    | none => (s, ⟨.error (.unknownProcessor name), []⟩)
    | some processor =>
      let reached := processor.write s.store (source.bind s.result?)
      (⟨reached.1, s.processors⟩, ⟨reached.2.value.map .written, reached.2.events⟩)

/-- The session after a list of steps. -/
def run (region : BaseRegion) (s : Session) (steps : List SessionStep) : Session :=
  steps.foldl (fun s step => (s.step region step).1) s

end Session

end MediaCascade
