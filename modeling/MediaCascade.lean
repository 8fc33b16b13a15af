import MediaCascade.Text.Basic
import MediaCascade.Text.Blank
import MediaCascade.Text.Printable
import MediaCascade.Text.Quoted
import MediaCascade.Text.ControlSequence
import MediaCascade.OrderedMap
import MediaCascade.Walk
import MediaCascade.Stylesheet.Basic
import MediaCascade.Diagnostic
import MediaCascade.Source.MediaBlock
import MediaCascade.Source.Basic
import MediaCascade.Source.Declaration
import MediaCascade.Source.Rule
import MediaCascade.Stylesheet.Reading
import MediaCascade.Stylesheet.Printer
import MediaCascade.Cascade.Duplicate
import MediaCascade.Cascade.Empty
import MediaCascade.Cascade.Transform
import MediaCascade.Stylesheet.Edit
import MediaCascade.Log
import MediaCascade.Cleaning
import MediaCascade.Encoding.Fault
import MediaCascade.Encoding.SingleByte
import MediaCascade.Encoding.Utf8
import MediaCascade.Encoding.Utf16
import MediaCascade.Encoding.Basic
import MediaCascade.Files.Path
import MediaCascade.Files.Store
import MediaCascade.Files.Processor
import MediaCascade.Files.Session
import MediaCascade.Command.Arguments
import MediaCascade.Command.Invocation
import MediaCascade.Command.Run
import MediaCascade.Main
import MediaCascade.Proofs.Text.Trimming
import MediaCascade.Proofs.Text.Joining
import MediaCascade.Proofs.Text.Occurrence
import MediaCascade.Proofs.Source.FlatBody
import MediaCascade.Proofs.Source.Blocks
import MediaCascade.Proofs.Source.Rules
import MediaCascade.Proofs.Entries
import MediaCascade.Proofs.Stylesheet.UnreadText
import MediaCascade.Proofs.Cascade.Reference
import MediaCascade.Proofs.Cascade.Settled
import MediaCascade.Proofs.Cascade.Effective
import MediaCascade.Proofs.Stylesheet.Tidy
import MediaCascade.Proofs.Stylesheet.WrittenForm
import MediaCascade.Proofs.Stylesheet.Formatting
import MediaCascade.Proofs.Stylesheet.Layout
import MediaCascade.Proofs.Stylesheet.RoundTrip
import MediaCascade.Proofs.FixedPoint
import MediaCascade.Proofs.Source.Partition
import MediaCascade.Proofs.Stylesheet.Quotation
import MediaCascade.Proofs.Stylesheet.Regions
import MediaCascade.Proofs.Counting
import MediaCascade.Proofs.Stylesheet.MediaCount
import MediaCascade.Proofs.Convergence
import MediaCascade.Proofs.Stylesheet.Characters
import MediaCascade.Proofs.Encoding.RoundTrip
import MediaCascade.Proofs.Files.Steps
import MediaCascade.Proofs.Files.Overwrite
import MediaCascade.Proofs.Files.History
import MediaCascade.Proofs.Stylesheet.Mutations
import MediaCascade.Proofs.Stylesheet.Edits
import MediaCascade.Proofs.Cascade.Chain
import MediaCascade.Proofs.Cascade.NormalForm
import MediaCascade.Proofs.Cascade.Account
import MediaCascade.Proofs.Text.ControlSequences
import MediaCascade.Proofs.Files.GivenPaths
import MediaCascade.Proofs.Command.Agreement
import MediaCascade.Proofs.Source.StoredRules
import MediaCascade.Proofs.Stylesheet.Redefinition
import MediaCascade.Proofs.Source.Composition
import MediaCascade.Proofs.Cascade.Locality
import MediaCascade.Proofs.Stylesheet.Fragments
import MediaCascade.Proofs.Source.MediaPattern
import MediaCascade.Proofs.Stylesheet.Separators
import MediaCascade.Proofs.Source.Searches
