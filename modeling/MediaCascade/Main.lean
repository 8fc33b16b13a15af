import MediaCascade.Command.Run

/-!
# The program

Looks at the files that a command line names, carries it out on a store of just these files, prints
what it prints, and writes the file that it changed. All decisions are `Command.run`'s.
-/

namespace MediaCascade.Main

/-- What a command line may read or write: the files and the output, as given and as a path, and the
    directories that hold them. -/
def namedPaths (task : Command.Task) : List Text :=
  let around (given : Text) : List Text :=
    let path := Path.ofText given
    [given, path.toText, (Path.mk path.root path.names.dropLast).toText]
  match task with
  | .dedupe files output _ _ => files.flatMap around ++ ((output.map around).getD [])
  | .lint files _ => files.flatMap around

/-- Adds to a store what is at the end of a path. -/
def look (store : Store) (given : Text) : IO Store := do
  let name := String.ofList given
  try
    let real ← IO.FS.realPath name
    if ← real.isDir then return store.reveal given none
    let content ← IO.FS.readBinFile name
    return store.reveal given (some content.toList)
  catch _ => return store

/-- Writes the file at a path if a run changed it. -/
def writeBack (before after : Store) (given : Text) : IO Unit := do
  let place := Store.endOf given
  match after.load? place with
  | some content =>
    if before.load? place != some content then
      IO.FS.writeBinFile (String.ofList (Path.ofText given).toText) ⟨content.toArray⟩
  | none => return

/-- The words that `--help` prints. -/
def helpText : String :=
  "cssdedupe [-v|--verbose] [--version] COMMAND\n" ++
  "\n" ++
  "  dedupe [--output|-o PATH] [--dry-run] [--encoding ENC] CSSFILE\n" ++
  "      remove declarations of media queries that restate a value\n" ++
  "  lint [--encoding ENC] CSSFILE\n" ++
  "      report what dedupe would drop\n"

/-- Carries out a command line. -/
def runArguments (arguments : List Text) : IO UInt32 := do
  let time := (toString (← IO.monoMsNow)).toList
  let paths :=
    match Command.Invocation.ofArguments arguments with
    | .ok (.task _ task) => namedPaths task
    | _ => []
  let store ← paths.foldlM look Store.empty
  match Command.run .beforeMedia time store arguments with
  | .usage fault =>
    IO.eprintln ("Error: " ++ String.ofList fault.message)
    return 2
  | .help =>
    IO.print helpText
    return 0
  | .finished outcome =>
    paths.forM (writeBack store outcome.store)
    IO.eprint (String.ofList outcome.errors)
    IO.print (String.ofList outcome.output)
    if let some failure := outcome.failure then
      IO.eprintln (String.ofList failure.message)
    return UInt32.ofNat outcome.exitCode

end MediaCascade.Main

def main (arguments : List String) : IO UInt32 :=
  MediaCascade.Main.runArguments (arguments.map String.toList)
