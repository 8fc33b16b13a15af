import MediaCascade.Source.Basic

/-!
# The log of a run

A run logs what it does as a list of events. Each event has a level and a message.
-/

namespace MediaCascade

/-- How serious an event is. -/
inductive Level where
  | info
  | warning
  | error
  deriving DecidableEq, Repr

/-- The level in capitals. -/
def Level.name : Level → Text
  | .info => "INFO".toList
  | .warning => "WARNING".toList
  | .error => "ERROR".toList

/-- What a run logs. -/
inductive Event where
  /-- A file was read. -/
  | loaded (path : Text) (size : Nat)
  /-- A text has no base rules. -/
  | noBaseRegion (fault : NoBaseRegion)
  /-- A part of the source was dropped or overridden. -/
  | warned (warning : Warning)
  /-- A style sheet was read. -/
  | parsed (contexts baseSelectors mediaBlocks : Nat)
  /-- Redundant declarations and empty rules were removed. -/
  | removed (duplicates emptied : Nat)
  /-- A file was not written because the run is a dry one. -/
  | notWritten (path : Text)
  /-- A file was written. -/
  | written
  deriving DecidableEq, Repr

namespace Event

/-- The level of an event. -/
def level : Event → Level
  | .loaded _ _ => .info
  | .noBaseRegion _ => .error
  | .warned _ => .warning
  | .parsed _ _ _ => .info
  | .removed _ _ => .info
  | .notWritten _ => .info
  | .written => .info

/-- The event in words. -/
def message : Event → Text
  | .loaded path size =>
    "Processing ".toList ++ path ++ " (".toList ++ Text.ofNat size ++ " chars)".toList
  | .noBaseRegion fault => fault.message
  | .warned warning => warning.line
  | .parsed contexts baseSelectors mediaBlocks =>
    "Parsed ".toList ++ Text.ofNat contexts ++ " context(s): ".toList ++
      Text.ofNat baseSelectors ++ " base selector(s), ".toList ++
      Text.ofNat mediaBlocks ++ " media block(s)".toList
  | .removed duplicates emptied =>
    "Removed ".toList ++ Text.ofNat duplicates ++ " duplicate declaration(s) and ".toList ++
      Text.ofNat emptied ++ " empty selector(s)".toList
  | .notWritten path => "Dry run: not writing ".toList ++ path
  | .written => "Modified CSS has been written back to the file successfully.".toList

end Event

end MediaCascade
