import MediaCascade.Encoding.Utf8
import MediaCascade.Files.Path
import MediaCascade.OrderedMap

/-!
# Files

A store holds the files and directories that a run can see, by their location. A location is an
anchor and the names that lead down from it: the anchor is the working directory, a directory above
it, or the root.

* `Store.locate` follows a path. Every name but the last has to be that of a directory, and names
  and paths have a greatest length.
* `Store.load` reads a file; `Store.target` is the place where one can be written, and `Store.save`
  writes it. The first two answer a `PathFault` where there is no such place.
* `Store.kindAt` says what is at the end of a path as it was given.

Main statement: what is saved is loaded again, and no other file changes (`Store.load?_save`).
-/

namespace MediaCascade

/-! ## 1. Locations -/

/-- Where the names of a location start. -/
inductive Anchor where
  /-- The directory that lies the given number of levels above the working directory. -/
  | above (levels : Nat)
  | root
  deriving DecidableEq, Repr

/-- A place for a file or a directory. -/
structure Location where
  anchor : Anchor
  names : List Text
  deriving DecidableEq, Repr

namespace Location

/-- The working directory. -/
def here : Location := ⟨.above 0, []⟩

/-- Where a path with the given root starts. -/
def start : PathRoot → Location
  | .relative => here
  | .slash => ⟨.root, []⟩
  | .doubleSlash => ⟨.root, []⟩

/-- The directory that holds a place. The root is in itself. -/
def parent (l : Location) : Location :=
  match l.names, l.anchor with
  | [], .above levels => ⟨.above (levels + 1), []⟩
  | [], .root => l
  | names, anchor => ⟨anchor, names.dropLast⟩

/-- The place of a name in a directory. An idle name is the directory itself. -/
def child (l : Location) (name : Text) : Location :=
  if Path.isIdle name then l
  else if name = ['.', '.'] then l.parent
  else ⟨l.anchor, l.names ++ [name]⟩

end Location

/-! ## 2. Stores -/

/-- Why a place cannot be used. -/
inductive PathFault where
  | notFound
  | notDirectory
  | isDirectory
  /-- The path, or one of its names, has more bytes than a store keeps. -/
  | nameTooLong
  /-- The path has the character U+0000, which no name has. -/
  | nullCharacter
  deriving DecidableEq, Repr

/-- The greatest number of bytes of a name. -/
def maxNameBytes : Nat := 255

/-- The greatest number of bytes of a path. -/
def maxPathBytes : Nat := 4095

/-- The number of bytes of a name or a path. -/
def byteCount (s : Text) : Nat := (Utf8.encode s).length

/-- The files and directories that a run can see. -/
structure Store where
  files : OrderedMap Location Bytes
  directories : List Location
  deriving DecidableEq, Repr

namespace Store

/-- The store without files. -/
def empty : Store := ⟨.empty, []⟩

/-- Whether a place is a directory. An anchor is one. -/
def isDirectory (s : Store) (l : Location) : Bool :=
  l.names.isEmpty || s.directories.contains l

/-- The content of the file at a place. -/
def load? (s : Store) (l : Location) : Option Bytes := s.files.get? l

/-- Goes on from a directory to the place of a name in it. -/
def enter (s : Store) (l : Location) (name : Text) : Except PathFault Location :=
  if s.isDirectory l then
    if maxNameBytes < byteCount name then .error .nameTooLong else .ok (l.child name)
  else if (s.load? l).isSome then .error .notDirectory
  else .error .notFound

/-- Follows names from a place. -/
def follow (s : Store) (l : Location) : List Text → Except PathFault Location
  | [] => .ok l
  | name :: rest => (s.enter l name).bind fun next => s.follow next rest

/-- The fault of the text of a path, whatever there is in the store. -/
def textFault? (path : Text) : Option PathFault :=
  if path.contains '\x00' then some .nullCharacter
  else if maxPathBytes < byteCount path then some .nameTooLong
  else none

/-- Follows a path. There need not be anything at the place. -/
def locate (s : Store) (p : Path) : Except PathFault Location :=
  match textFault? p.toText with
  | some fault => .error fault
  | none => s.follow (.start p.root) p.names

/-- What is at a place. -/
inductive Kind where
  | file
  | directory
  deriving DecidableEq, Repr

/-- What is at the end of a path as it was given. Unlike in a `Path`, an idle name counts: it has to
    come behind a directory. The empty path leads nowhere. -/
def kindAt (s : Store) (given : Text) : Except PathFault Kind :=
  match textFault? given with
  | some fault => .error fault
  | none =>
    if given.isEmpty then .error .notFound
    else
      (s.follow (.start (.ofText given)) (given.splitOn '/')).bind fun l =>
        if s.isDirectory l then .ok .directory
        else if (s.load? l).isSome then .ok .file
        else .error .notFound

/-- Reads the file at the end of a path. -/
def load (s : Store) (p : Path) : Except PathFault Bytes :=
  (s.locate p).bind fun l =>
    if s.isDirectory l then .error .isDirectory
    else
      match s.load? l with
      | some bytes => .ok bytes
      | none => .error .notFound

/-- The place of the file at the end of a path, which can be written whether it is there or not. -/
def target (s : Store) (p : Path) : Except PathFault Location :=
  (s.locate p).bind fun l => if s.isDirectory l then .error .isDirectory else .ok l

/-- Writes a file. -/
def save (s : Store) (l : Location) (bytes : Bytes) : Store :=
  ⟨s.files.insert l bytes, s.directories⟩

/-- **What is saved is loaded again**, and no other file changes. -/
@[simp] theorem load?_save (s : Store) (l : Location) (bytes : Bytes) (l' : Location) :
    (s.save l bytes).load? l' = if l' = l then some bytes else s.load? l' := by
  simp [save, load?]

/-- The directories that lead from the anchor of a place down to it. -/
def directoriesTo (l : Location) : List Location :=
  (List.range l.names.length).map fun count => ⟨l.anchor, l.names.take count⟩

/-- Puts a file into the store, together with the directories that lead to it. -/
def place (s : Store) (l : Location) (bytes : Bytes) : Store :=
  let reached := s.save l bytes
  ⟨reached.files, reached.directories ++ directoriesTo l⟩

/-- The places that are passed from a place on by following names, the last one left out. -/
def passed (l : Location) : List Text → List Location
  | [] => []
  | name :: rest => l :: passed (l.child name) rest

/-- The place at the end of a path as it was given, if all directories are there. -/
def endOf (given : Text) : Location :=
  (given.splitOn '/').foldl Location.child (.start (.ofText given))

/-- The store with what is known to be at the end of a path as it was given: a file with its
    content, or a directory for `none`. -/
def reveal (s : Store) (given : Text) (content : Option Bytes) : Store :=
  let seen : Store :=
    ⟨s.files, s.directories ++ passed (.start (.ofText given)) (given.splitOn '/')⟩
  match content with
  | some bytes => seen.save (endOf given) bytes
  | none => ⟨seen.files, endOf given :: seen.directories⟩

/-- The files below the working directory with their paths, in the order of the paths. -/
def listing (s : Store) : List (Text × Bytes) :=
  let below := s.files.entries.filter fun file => file.1.anchor = .above 0
  (below.map fun file => (Text.joinWith ['/'] file.1.names, file.2)).mergeSort
    fun a b => !decide (b.1 < a.1)

end Store

end MediaCascade
