import MediaCascade.Text.Quoted

/-!
# Options and arguments of a command line

A command knows a list of options, each with a long name, perhaps a letter, and with or without a
value. Its words are read from left to right:

* `--name`, `--name=value`, and `--name value` give a long option; it is an error to give a value to
  an option without one, or none to an option with one.
* `-abc` gives the letters one after the other; the first with a value takes the rest of the word,
  or the next word if nothing is left. `-` alone is an argument.
* `--` ends the options. Where options and arguments may not mix, so does the first argument.

A value is taken as it is, also if it starts with `-`.

These rules are not written down in the program, which only lists its options. They are those of the
command-line library that it is built on; the library is not among the sources of the program, and
`readWords` follows what it documents. Which fault there is decides about the exit code alone: the
words of `UsageFault.message` are not those of the library.
-/

namespace MediaCascade.Command

/-- An option that a command knows. -/
structure OptionSpec where
  /-- The long name, without the dashes. -/
  long : Text
  letter : Option Char
  takesValue : Bool
  deriving DecidableEq, Repr

/-- An option that was given, by its long name, and its value. -/
structure Given where
  long : Text
  value : Option Text
  deriving DecidableEq, Repr

/-- What is wrong with a command line. -/
inductive UsageFault where
  | unknownOption (word : Text)
  | valueMissing (long : Text)
  | valueUnexpected (long : Text)
  | commandMissing
  | unknownCommand (name : Text)
  | argumentMissing
  | argumentUnexpected (word : Text)
  | noSuchFile (path : Text)
  | isDirectory (path : Text)
  deriving DecidableEq, Repr

/-- The fault in words. -/
def UsageFault.message : UsageFault → Text
  | .unknownOption word => "there is no option ".toList ++ Text.quoted word
  | .valueMissing long => "a value is missing for the option ".toList ++ Text.quoted long
  | .valueUnexpected long => "no value goes with the option ".toList ++ Text.quoted long
  | .commandMissing => "a command is missing".toList
  | .unknownCommand name => "there is no command ".toList ++ Text.quoted name
  | .argumentMissing => "a file is missing".toList
  | .argumentUnexpected word => "one file is enough, but here is ".toList ++ Text.quoted word
  | .noSuchFile path => "there is no file ".toList ++ Text.quoted path
  | .isDirectory path => "this is a directory: ".toList ++ Text.quoted path

/-- Options and arguments of a command line. -/
structure Words where
  options : List Given
  arguments : List Text
  deriving DecidableEq, Repr

namespace Words

/-- The last value of an option. -/
def value? (w : Words) (long : Text) : Option Text :=
  ((w.options.filter fun given => given.long = long).getLast?).bind Given.value

/-- Whether an option is given. -/
def has (w : Words) (long : Text) : Bool := w.options.any fun given => given.long = long

end Words

/-! ## 1. One word -/

/-- The options in a word: all of them, or those before one whose value is the next word. -/
inductive WordReading where
  | complete (options : List Given)
  | open (options : List Given) (long : Text)
  deriving DecidableEq, Repr

/-- Puts an option before those of a reading. -/
def WordReading.cons (given : Given) : WordReading → WordReading
  | .complete options => .complete (given :: options)
  | .open options long => .open (given :: options) long

/-- Whether a word gives options: it starts with `-` and goes on. -/
def isOptionWord : Text → Bool
  | '-' :: _ :: _ => true
  | _ => false

/-- Reads a long option, without its dashes. -/
def readLong (specs : List OptionSpec) (word : Text) : Except UsageFault WordReading :=
  let long := word.takeWhile fun c => !decide (c = '=')
  match specs.find? fun spec => spec.long = long with
  | none => .error (.unknownOption word)
  | some spec =>
    match word.dropWhile fun c => !decide (c = '=') with
    | [] =>
      if spec.takesValue then .ok (.open [] long) else .ok (.complete [⟨long, none⟩])
    | _ :: value =>
      if spec.takesValue then .ok (.complete [⟨long, some value⟩])
      else .error (.valueUnexpected long)

/-- Reads the letters of a word. -/
def readLetters (specs : List OptionSpec) : Text → Except UsageFault WordReading
  | [] => .ok (.complete [])
  | letter :: rest =>
    match specs.find? fun spec => spec.letter = some letter with
    | none => .error (.unknownOption [letter])
    | some spec =>
      if spec.takesValue then
        if rest.isEmpty then .ok (.open [] spec.long)
        else .ok (.complete [⟨spec.long, some rest⟩])
      else (readLetters specs rest).map (WordReading.cons ⟨spec.long, none⟩)

/-- Reads a word that gives options. -/
def readWord (specs : List OptionSpec) : Text → Except UsageFault WordReading
  | '-' :: '-' :: long => readLong specs long
  | word => readLetters specs word.tail

/-! ## 2. All words -/

/-- Reads the words of a command. With `mixed`, options may come behind arguments. -/
def readWords (specs : List OptionSpec) (mixed : Bool) : List Text → Except UsageFault Words
  | [] => .ok ⟨[], []⟩
  | word :: rest =>
    if word = ['-', '-'] then .ok ⟨[], rest⟩
    else if isOptionWord word then
      match readWord specs word with
      | .error fault => .error fault
      | .ok (.complete options) =>
        (readWords specs mixed rest).map fun later => ⟨options ++ later.options, later.arguments⟩
      | .ok (.open options long) =>
        match rest with
        | [] => .error (.valueMissing long)
        | value :: rest =>
          (readWords specs mixed rest).map fun later =>
            ⟨options ++ ⟨long, some value⟩ :: later.options, later.arguments⟩
    else if mixed then
      (readWords specs mixed rest).map fun later => ⟨later.options, word :: later.arguments⟩
    else .ok ⟨[], word :: rest⟩

end MediaCascade.Command
