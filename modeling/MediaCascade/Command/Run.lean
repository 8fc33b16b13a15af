import MediaCascade.Command.Invocation
import MediaCascade.Files.Processor
import MediaCascade.Text.ControlSequence

/-!
# Running a command line

`run` carries out a command line on a store: what it prints on the two streams, its exit code, and
the files after it.

* Log messages go to the error stream. Without `-v` these are the warnings and errors, bare; with
  `-v` all of them, with time, level and source.
* `dedupe` prints each warning once more, and then what it did, or the cleaned text on a dry run.
* `lint` prints warnings and removals with a summary, and its exit code says whether there are any.
* What the commands print is without control sequences (`Text.plain`); log messages are printed as
  they are.
* A failure that is not about the base rules ends the run; what was printed before stays.
* Faults of the command line come first. The output is looked at before the file, and the file
  before the arguments that are too many.

The program says that the file has to be there and that neither path may be a directory. The order of
the faults, and that control sequences are left out, are up to the command-line library that it is
built on, which is not among its sources: `requireFile`, `requireOutput`, `oneFile` and `Text.plain`
follow what the library documents.
-/

namespace MediaCascade.Command

/-! ## 1. What a run leaves behind -/

/-- What a run leaves behind. -/
structure Outcome where
  exitCode : Nat
  output : Text
  errors : Text
  /-- The failure that ended the run. -/
  failure : Option Failure
  store : Store
  deriving DecidableEq, Repr

/-- The end of a command line: a run, a help text to show, or a fault of the command line. -/
inductive Ending where
  | finished (outcome : Outcome)
  | help
  | usage (fault : UsageFault)
  deriving DecidableEq, Repr

/-- A text as a line. -/
def asLine (s : Text) : Text := s ++ ['\n']

/-- A text as a line without control sequences. -/
def plainLine (s : Text) : Text := asLine (Text.plain s)

/-- The name and version of the program. -/
def versionLine : Text := "cssdedupe, version 0.1.0".toList

/-- The name under which the log is kept. -/
def logName : Text := "cssdedupe.processor".toList

/-- The lines that events print, with `time` as the time of each. -/
def logLines (verbose : Bool) (time : Text) (events : List Event) : Text :=
  if verbose then
    events.flatMap fun e =>
      asLine (time ++ ' ' :: e.level.name ++ ' ' :: logName ++ ": ".toList ++ e.message)
  else (events.filter fun e => e.level != .info).flatMap fun e => asLine e.message

/-- The line about a text without base rules. -/
def noBaseRegionLine (fault : NoBaseRegion) : Text :=
  plainLine ("Parse error: ".toList ++ fault.message)

/-! ## 2. The commands -/

/-- The end of a run whose processing failed. -/
def failed (store : Store) (errors : Text) : Failure → Outcome
  | .noBaseRegion fault => ⟨1, [], errors ++ noBaseRegionLine fault, none, store⟩
  | failure => ⟨1, [], errors, some failure, store⟩

/-- The line about what was removed, and where the result was written. -/
def dedupeSummary (cleaned : Cleaned) (written : Path) : Text :=
  "Removed ".toList ++ Text.ofNat cleaned.duplicateCount ++ " duplicate declaration(s), ".toList ++
    Text.ofNat cleaned.prunedCount ++ " empty selector(s); wrote ".toList ++ written.toText

/-- Cleans a file and writes it, or prints it on a dry run. -/
def dedupe (region : BaseRegion) (log : List Event → Text) (store : Store) (file : Text)
    (output : Option Text) (dryRun : Bool) (encoding : Text) : Outcome :=
  let target := (output.filter fun path => !path.isEmpty).map Path.ofText
  let processor := Processor.new (.ofText file) ⟨encoding, target, dryRun⟩
  let processed := processor.process region store
  let logged := log processed.2.events
  match processed.2.value with
  | .error failure => failed store logged failure
  | .ok cleaned =>
    let warned := logged ++ cleaned.warnings.flatMap fun w => plainLine w.line
    let written := processed.1.write store (some cleaned)
    let errors := warned ++ log written.2.events
    match written.2.value with
    | .error failure => ⟨1, [], errors, some failure, written.1⟩
    | .ok none => ⟨0, Text.plain cleaned.css, errors, none, written.1⟩
    | .ok (some path) => ⟨0, plainLine (dedupeSummary cleaned path), errors, none, written.1⟩

/-- The lines about what cleaning would drop. -/
def lintReport (cleaned : Cleaned) : Text :=
  (cleaned.warnings.flatMap fun w => plainLine w.line) ++
    (cleaned.removals.flatMap fun r => plainLine r.line) ++ ['\n'] ++
    plainLine ("Summary: ".toList ++ Text.ofNat cleaned.warnings.length ++ " warning(s), ".toList ++
      Text.ofNat cleaned.duplicateCount ++ " duplicate(s), ".toList ++
      Text.ofNat cleaned.prunedCount ++ " empty selector(s)".toList)

/-- The line about a file of which cleaning would drop nothing. -/
def cleanReport (path : Path) : Text :=
  "OK: ".toList ++ path.name ++ " has no redundant declarations".toList

/-- Reports what cleaning a file would drop. Nothing is written. -/
def lint (region : BaseRegion) (log : List Event → Text) (store : Store) (file encoding : Text) :
    Outcome :=
  let processor := Processor.new (.ofText file) ⟨encoding, none, true⟩
  let processed := processor.process region store
  let logged := log processed.2.events
  match processed.2.value with
  | .error failure => failed store logged failure
  | .ok cleaned =>
    if cleaned.warnings.isEmpty && cleaned.removals.isEmpty then
      ⟨0, plainLine (cleanReport processor.path), logged, none, store⟩
    else ⟨1, lintReport cleaned, logged, none, store⟩

/-! ## 3. The command line -/

/-- The end of a run for a path with the character U+0000. -/
def brokenPath (store : Store) (path : Text) : Ending :=
  .finished (failed store [] (.unusable .nullCharacter (.ofText path)))

/-- The file of a command has to be there. -/
def requireFile (store : Store) (file : Text) : Except Ending Unit :=
  match store.kindAt file with
  | .ok .file => .ok ()
  | .ok .directory => .error (.usage (.isDirectory file))
  | .error .nullCharacter => .error (brokenPath store file)
  | .error _ => .error (.usage (.noSuchFile file))

/-- The output may be missing, but it may not be a directory. -/
def requireOutput (store : Store) : Option Text → Except Ending Unit
  | none => .ok ()
  | some path =>
    match store.kindAt path with
    | .ok .directory => .error (.usage (.isDirectory path))
    | .error .nullCharacter => .error (brokenPath store path)
    | _ => .ok ()

/-- The file among the arguments of a command, which has to be the only one. -/
def oneFile (store : Store) : List Text → Except Ending Text
  | [] => .error (.usage .argumentMissing)
  | file :: others => do
    requireFile store file
    match others with
    | [] => return file
    | extra :: _ => throw (.usage (.argumentUnexpected extra))

/-- Carries out a command. -/
def runTask (region : BaseRegion) (log : List Event → Text) (store : Store) :
    Task → Except Ending Outcome
  | .dedupe files output dryRun encoding => do
    requireOutput store output
    let file ← oneFile store files
    return dedupe region log store file output dryRun encoding
  | .lint files encoding => do
    let file ← oneFile store files
    return lint region log store file encoding

/-- Carries out a command line. -/
def run (region : BaseRegion) (time : Text) (store : Store) (arguments : List Text) : Ending :=
  match Invocation.ofArguments arguments with
  | .error fault => .usage fault
  | .ok .version => .finished ⟨0, plainLine versionLine, [], none, store⟩
  | .ok .help => .help
  | .ok (.task verbose task) =>
    match runTask region (logLines verbose time) store task with
    | .error ending => ending
    | .ok outcome => .finished outcome

end MediaCascade.Command
