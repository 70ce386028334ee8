import CrowdScenario.Binary64
import CrowdScenario.Binary64.Integral
import CrowdScenario.Binary64.Rounding
import CrowdScenario.Bytes
import CrowdScenario.Coercion
import CrowdScenario.Command.Arguments
import CrowdScenario.Command.Basic
import CrowdScenario.Command.Outcome
import CrowdScenario.Command.Report
import CrowdScenario.Compilation
import CrowdScenario.Decimal.Layout
import CrowdScenario.Decimal.Reader
import CrowdScenario.Decimal.Shortest
import CrowdScenario.Description
import CrowdScenario.Digest
import CrowdScenario.Directory
import CrowdScenario.Encoding
import CrowdScenario.Failure
import CrowdScenario.Json.Basic
import CrowdScenario.Json.Printer
import CrowdScenario.Json.Token
import CrowdScenario.Json.Typed
import CrowdScenario.Json.Written
import CrowdScenario.Location
import CrowdScenario.Main
import CrowdScenario.Power
import CrowdScenario.Proofs.Binary64.Finite
import CrowdScenario.Proofs.Binary64.Nearest
import CrowdScenario.Proofs.Binary64.Rounding
import CrowdScenario.Proofs.Command.Agreement
import CrowdScenario.Proofs.Compilation.Alike
import CrowdScenario.Proofs.Compilation.Arity
import CrowdScenario.Proofs.Compilation.Clamping
import CrowdScenario.Proofs.Compilation.Dangling
import CrowdScenario.Proofs.Compilation.Decoding
import CrowdScenario.Proofs.Compilation.Defaults
import CrowdScenario.Proofs.Compilation.EndTimes
import CrowdScenario.Proofs.Compilation.Faults
import CrowdScenario.Proofs.Compilation.Ingestions
import CrowdScenario.Proofs.Compilation.Kinds
import CrowdScenario.Proofs.Compilation.Layout
import CrowdScenario.Proofs.Compilation.Order
import CrowdScenario.Proofs.Compilation.Origin
import CrowdScenario.Proofs.Compilation.Outside
import CrowdScenario.Proofs.Compilation.Parts
import CrowdScenario.Proofs.Compilation.Places
import CrowdScenario.Proofs.Compilation.References
import CrowdScenario.Proofs.Compilation.Repairs
import CrowdScenario.Proofs.Compilation.Scenes
import CrowdScenario.Proofs.Compilation.Spellings
import CrowdScenario.Proofs.Compilation.Strictness
import CrowdScenario.Proofs.Decimal.ReadsBack
import CrowdScenario.Proofs.Digest
import CrowdScenario.Proofs.Directory
import CrowdScenario.Proofs.Encoding.Agreement
import CrowdScenario.Proofs.Encoding.Failures
import CrowdScenario.Proofs.Encoding.Invariants
import CrowdScenario.Proofs.Encoding.Locality
import CrowdScenario.Proofs.Encoding.Order
import CrowdScenario.Proofs.Encoding.Owners
import CrowdScenario.Proofs.Encoding.Records
import CrowdScenario.Proofs.Json.Numbers
import CrowdScenario.Proofs.Json.Ordered
import CrowdScenario.Proofs.Json.Printing
import CrowdScenario.Proofs.Json.Tokens
import CrowdScenario.Proofs.Reference.Grammar
import CrowdScenario.Proofs.Resolution.Agreement
import CrowdScenario.Proofs.Resolution.Blame
import CrowdScenario.Proofs.Resolution.Chains
import CrowdScenario.Proofs.Resolution.Cycles
import CrowdScenario.Proofs.Resolution.Dangling
import CrowdScenario.Proofs.Resolution.Findings
import CrowdScenario.Proofs.Resolution.History
import CrowdScenario.Proofs.Resolution.Ingestions
import CrowdScenario.Proofs.Resolution.Invariants
import CrowdScenario.Proofs.Resolution.Kinds
import CrowdScenario.Proofs.Resolution.Machine
import CrowdScenario.Proofs.Resolution.Moves
import CrowdScenario.Proofs.Resolution.Outside
import CrowdScenario.Proofs.Resolution.Paths
import CrowdScenario.Proofs.Resolution.Plain
import CrowdScenario.Proofs.Resolution.Questions
import CrowdScenario.Proofs.Resolution.Scenes
import CrowdScenario.Proofs.Resolution.Steps
import CrowdScenario.Proofs.Resolution.Strictness
import CrowdScenario.Proofs.Resolution.Termination
import CrowdScenario.Proofs.Resolution.Unbounded
import CrowdScenario.Proofs.Scene.Extraction
import CrowdScenario.Proofs.Scene.Numbers
import CrowdScenario.Proofs.Schema.Drafts
import CrowdScenario.Proofs.Schema.Lookup
import CrowdScenario.Proofs.Text.Digits
import CrowdScenario.Proofs.Tree.Building
import CrowdScenario.Proofs.Tree.Children
import CrowdScenario.Proofs.Tree.Edits
import CrowdScenario.Proofs.Tree.Failures
import CrowdScenario.Proofs.Tree.Outline
import CrowdScenario.Proofs.Tree.Positions
import CrowdScenario.Proofs.Tree.Visit
import CrowdScenario.Proofs.Wire.Calls
import CrowdScenario.Proofs.Wire.Canonical
import CrowdScenario.Proofs.Wire.Continuation
import CrowdScenario.Proofs.Wire.Forms
import CrowdScenario.Proofs.Wire.JsonForm
import CrowdScenario.Proofs.Wire.Listing
import CrowdScenario.Proofs.Wire.Positions
import CrowdScenario.Proofs.Wire.Progress
import CrowdScenario.Proofs.Wire.Reading
import CrowdScenario.Proofs.Wire.RoundTrip
import CrowdScenario.Proofs.Wire.Sections
import CrowdScenario.Proofs.Wire.Sequence
import CrowdScenario.Proofs.Wire.Truncation
import CrowdScenario.Proofs.Wire.Writing
import CrowdScenario.Reference
import CrowdScenario.Resolution
import CrowdScenario.Scene.Extraction
import CrowdScenario.Scene.Ingest
import CrowdScenario.Schema.Basic
import CrowdScenario.Schema.Builder
import CrowdScenario.Schema.Standard
import CrowdScenario.Settings
import CrowdScenario.Sources
import CrowdScenario.Text.Blank
import CrowdScenario.Text.Digits
import CrowdScenario.Text.Parts
import CrowdScenario.Text.Quoted
import CrowdScenario.Text.Unprintable
import CrowdScenario.Tree.Basic
import CrowdScenario.Tree.Build
import CrowdScenario.Value
import CrowdScenario.Wire.Coordinate
import CrowdScenario.Wire.Decoder
import CrowdScenario.Wire.Distribution
import CrowdScenario.Wire.Geometry
import CrowdScenario.Wire.JsonForm
import CrowdScenario.Wire.Listing
import CrowdScenario.Wire.Record
import CrowdScenario.Wire.Simulation
import CrowdScenario.Wire.Writer
import CrowdScenario.Xml.Attribute
import CrowdScenario.Xml.Reader
