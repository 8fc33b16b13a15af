import MediaCascade.Command.Arguments

/-!
# Invocations

What a command line asks for: the version, a help text, or one of the two commands with its
settings. `Invocation.ofArguments` reads the words; how many files they name, and whether these are
there, is not looked at here.

* The options in front are `-v` or `--verbose`, `--version` and `--help`.
* `dedupe` knows `--output` or `-o`, `--dry-run` and `--encoding`; `lint` knows `--encoding`.
* Of an option that comes again, the last value counts.
* Words that start with no command are heard once more as options in front, so that `--version` and
  `--help` count behind `--`, too.

The options are the program's own; the last two points are those of the command-line library, as in
`readWords`.
-/

namespace MediaCascade.Command

/-- A command with its settings and its arguments, which should be one file. -/
inductive Task where
  /-- Cleans a file and writes it, or prints it on a dry run. -/
  | dedupe (files : List Text) (output : Option Text) (dryRun : Bool) (encoding : Text)
  /-- Reports what cleaning a file would drop. -/
  | lint (files : List Text) (encoding : Text)
  deriving DecidableEq, Repr

/-- What a command line asks for. -/
inductive Invocation where
  | version
  | help
  | task (verbose : Bool) (task : Task)
  deriving DecidableEq, Repr

/-! ## 1. The options -/

def versionOption : Text := "version".toList
def helpOption : Text := "help".toList
def verboseOption : Text := "verbose".toList
def outputOption : Text := "output".toList
def dryRunOption : Text := "dry-run".toList
def encodingOption : Text := "encoding".toList

/-- The options in front of the command. -/
def frontOptions : List OptionSpec :=
  [⟨versionOption, none, false⟩, ⟨helpOption, none, false⟩, ⟨verboseOption, some 'v', false⟩]

/-- The options of `dedupe`. -/
def dedupeOptions : List OptionSpec :=
  [⟨outputOption, some 'o', true⟩, ⟨dryRunOption, none, false⟩, ⟨encodingOption, none, true⟩,
    ⟨helpOption, none, false⟩]

/-- The options of `lint`. -/
def lintOptions : List OptionSpec := [⟨encodingOption, none, true⟩, ⟨helpOption, none, false⟩]

/-- The encoding of a file for which none is given. -/
def defaultEncoding : Text := "utf-8".toList

/-! ## 2. Reading the words -/

/-- The options in front of a command that ask for no command: the first of them counts. -/
def frontRequest? (options : List Given) : Option Invocation :=
  options.findSome? fun given =>
    if given.long = versionOption then some .version
    else if given.long = helpOption then some .help
    else none

/-- Reads the words of a command line that start with no command: only a request that is made by
    options in front can be among them. -/
def readRequest (command : Text) (words : List Text) : Except UsageFault Invocation :=
  (readWords frontOptions false (command :: words)).bind fun w =>
    match frontRequest? w.options with
    | some request => .ok request
    | none => .error (.unknownCommand command)

/-- Reads the words of a command. -/
def readTask (verbose : Bool) (command : Text) (words : List Text) :
    Except UsageFault Invocation :=
  if command = "dedupe".toList then
    (readWords dedupeOptions true words).map fun w =>
      if w.has helpOption then .help
      else
        .task verbose (.dedupe w.arguments (w.value? outputOption) (w.has dryRunOption)
          ((w.value? encodingOption).getD defaultEncoding))
  else if command = "lint".toList then
    (readWords lintOptions true words).map fun w =>
      if w.has helpOption then .help
      else .task verbose (.lint w.arguments ((w.value? encodingOption).getD defaultEncoding))
  else readRequest command words

/-- Reads a command line. -/
def Invocation.ofArguments (arguments : List Text) : Except UsageFault Invocation :=
  (readWords frontOptions false arguments).bind fun w =>
    match frontRequest? w.options with
    | some request => .ok request
    | none =>
      match w.arguments with
      | [] => .error .commandMissing
      | command :: words => readTask (w.has verboseOption) command words

end MediaCascade.Command
