import MediaCascade.Cleaning
import MediaCascade.Encoding.Basic
import MediaCascade.Files.Store

/-!
# Cleaning files

A `Processor` is bound to one style sheet file. It processes the file, which changes no file, and
keeps what came out; it then writes that, or the result of another processor, to its output path.

* Without an output path of its own it overwrites the file. A dry run writes nothing.
* The output file is emptied before the text is encoded: a text that cannot be encoded leaves it
  empty, and so does an unknown encoding.
* The name of an encoding may not have the character U+0000; this is looked at before any file.
* Every step answers a value or a `Failure`, and what it logs.
-/

namespace MediaCascade

/-! ## 1. Failures -/

/-- Why a step fails. -/
inductive Failure where
  | noBaseRegion (fault : NoBaseRegion)
  | unusable (fault : PathFault) (path : Path)
  | unknownEncoding (name : Text)
  /-- The name of the encoding has the character U+0000. -/
  | malformedEncodingName
  | undecodable (fault : DecodeFault)
  | unencodable (fault : Unencodable)
  /-- There is no result to write. -/
  | nothingToWrite
  /-- There is no processor of this name. -/
  | unknownProcessor (name : Text)
  deriving DecidableEq, Repr

/-- A path and why it cannot be used, in words. -/
def PathFault.message (fault : PathFault) (path : Path) : Text :=
  match fault with
  | .notFound => "[Errno 2] No such file or directory: ".toList ++ Text.quoted path.toText
  | .notDirectory => "[Errno 20] Not a directory: ".toList ++ Text.quoted path.toText
  | .isDirectory => "[Errno 21] Is a directory: ".toList ++ Text.quoted path.toText
  | .nameTooLong => "[Errno 36] File name too long: ".toList ++ Text.quoted path.toText
  | .nullCharacter => "embedded null byte".toList

/-- The failure in words. -/
def Failure.message : Failure → Text
  | .noBaseRegion fault => fault.message
  | .unusable fault path => fault.message path
  | .unknownEncoding name => "unknown encoding: ".toList ++ name
  | .malformedEncodingName => "embedded null character".toList
  | .undecodable fault => fault.message
  | .unencodable fault => fault.message
  | .nothingToWrite => "process() must be called before write()".toList
  | .unknownProcessor name => Text.quoted name

/-- What a step answers, and what it logs. -/
structure Logged (α : Type) where
  value : Except Failure α
  events : List Event

/-! ## 2. Processors -/

/-- How a file is read and written. -/
structure Settings where
  /-- The name of the encoding of the file and of the output. -/
  encoding : Text
  /-- Where to write; `none` for the file itself. -/
  output : Option Path
  dryRun : Bool
  deriving DecidableEq, Repr

/-- A file to clean, and what came out of it last. -/
structure Processor where
  path : Path
  settings : Settings
  result : Option Cleaned
  deriving DecidableEq, Repr

namespace Processor

/-- A processor that has not processed its file yet. -/
def new (path : Path) (settings : Settings) : Processor := ⟨path, settings, none⟩

/-- Where the processor writes. -/
def outputPath (p : Processor) : Path := p.settings.output.getD p.path

/-- Refuses a name that no encoding can have. -/
def requireName (name : Text) : Except Failure Unit :=
  if name.contains '\x00' then .error .malformedEncodingName else .ok ()

/-- The encoding of a name, which there has to be. -/
def encodingOf (name : Text) : Except Failure Encoding :=
  match Encoding.ofName? name with
  | some encoding => .ok encoding
  | none => .error (.unknownEncoding name)

/-- Reads the text of the file, with every line ending in a line feed. -/
def readSource (p : Processor) (store : Store) : Except Failure Text := do
  requireName p.settings.encoding
  let bytes ← (store.load p.path).mapError fun fault => .unusable fault p.path
  let encoding ← encodingOf p.settings.encoding
  let text ← (encoding.decode bytes).mapError .undecodable
  return Text.unifyLineEnds text

/-- Cleans the file and keeps the result. A failure keeps the earlier result. -/
def process (region : BaseRegion) (store : Store) (p : Processor) : Processor × Logged Cleaned :=
  match p.readSource store with
  | .error failure => (p, ⟨.error failure, []⟩)
  | .ok css =>
    let events := .loaded p.path.toText css.length :: cleaningEvents region css
    match Cleaned.read region css with
    | .error fault => (p, ⟨.error (.noBaseRegion fault), events⟩)
    | .ok cleaned => (⟨p.path, p.settings, some cleaned⟩, ⟨.ok cleaned, events⟩)

/-- The bytes of a text in the encoding of a name. -/
def encodeText (encodingName css : Text) : Except Failure Bytes :=
  (encodingOf encodingName).bind fun encoding => (encoding.encode css).mapError .unencodable

/-- The place of the output, if the name of the encoding and the path are fit for use. -/
def openTarget (store : Store) (path : Path) (encodingName : Text) : Except Failure Location :=
  (requireName encodingName).bind fun _ =>
    (store.target path).mapError fun fault => .unusable fault path

/-- Writes a text to a path: the files after that, and the failure if there is one. The file is
    emptied as soon as it is open. -/
def writeText (store : Store) (path : Path) (encodingName css : Text) :
    Store × Except Failure Unit :=
  match openTarget store path encodingName with
  | .error failure => (store, .error failure)
  | .ok target =>
    match encodeText encodingName css with
    | .error failure => (store.save target [], .error failure)
    | .ok bytes => (store.save target bytes, .ok ())

/-- Writes the given result, or the one of the processor: the files after that, and the path that
    was written, which is none on a dry run. -/
def write (store : Store) (p : Processor) (given : Option Cleaned) :
    Store × Logged (Option Path) :=
  match given.or p.result with
  | none => (store, ⟨.error .nothingToWrite, []⟩)
  | some cleaned =>
    if p.settings.dryRun then
      (store, ⟨.ok none, [.notWritten p.outputPath.toText]⟩)
    else
      let written := writeText store p.outputPath p.settings.encoding cleaned.css
      match written.2 with
      | .error failure => (written.1, ⟨.error failure, []⟩)
      | .ok _ => (written.1, ⟨.ok (some p.outputPath), [.written]⟩)

end Processor

end MediaCascade
