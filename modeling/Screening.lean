import Screening.Rounding
import Screening.LittleEndian
import Screening.Hex
import Screening.Binary64
import Screening.Binary64.Nearest
import Screening.Decimal.Digits
import Screening.Decimal.Rounding
import Screening.Decimal.Layout
import Screening.Decimal.Shortest
import Screening.ElementType
import Screening.RecordKind
import Screening.Error
import Screening.Element
import Screening.Frame
import Screening.Journal
import Screening.Source
import Screening.Reader
import Screening.Matrix
import Screening.Dimensions
import Screening.Header
import Screening.Contents
import Screening.Contents.Decode
import Screening.Probe
import Screening.Statistics
import Screening.Summary
import Screening.Report
import Screening.Json
import Screening.Json.Printer
import Screening.Json.Parser
import Screening.Json.Number
import Screening.Json.Form
import Screening.Json.Contents
import Screening.Json.Summary
import Screening.FileName
import Screening.FileName.InBytes
import Screening.Path
import Screening.FileTree
import Screening.Workspace
import Screening.DataFile
import Screening.Batch
import Screening.CommandLine.Arguments
import Screening.CommandLine
import Screening.Main
import Screening.Proofs.Delivery
import Screening.Proofs.Framing
import Screening.Proofs.Reading
import Screening.Proofs.Bookkeeping
import Screening.Proofs.RecordSequence
import Screening.Proofs.Grammar
import Screening.Proofs.PayloadContents
import Screening.Proofs.Decoding
import Screening.Proofs.Acceptance
import Screening.Proofs.SideBySide
import Screening.Proofs.Retyping
import Screening.Proofs.Locality
import Screening.Proofs.Refusal
import Screening.Proofs.Damage
import Screening.Proofs.Probing
import Screening.Proofs.ProbeLimits
import Screening.Matrix.InWords
import Screening.Contents.InWords
import Screening.Proofs.RecordBounds
import Screening.Proofs.DecodingInWords
import Screening.Proofs.MatrixAccess
import Screening.Proofs.Consistency
import Screening.Proofs.Capacity
import Screening.Proofs.JsonRoundTrip
import Screening.Proofs.Building
import Screening.Proofs.PayloadViews
import Screening.Proofs.PathTexts
import Screening.Proofs.FileNames
import Screening.Proofs.IndexOrder
import Screening.Proofs.NamesInBytes
import Screening.Proofs.Directories
import Screening.Proofs.MakingDirectories
import Screening.Proofs.SameKinds
import Screening.Proofs.Scanning
import Screening.Proofs.Listing
import Screening.Proofs.Looking
import Screening.Proofs.Tasks
import Screening.Proofs.Progress
import Screening.Proofs.Preparation
import Screening.Proofs.Schedules
import Screening.Proofs.Independence
import Screening.Proofs.Footprint
import Screening.Proofs.Inspection
import Screening.Proofs.Opening
import Screening.Report.Rewriting
import Screening.Proofs.DecimalRounding
import Screening.Proofs.ScientificText
import Screening.Proofs.Previews
import Screening.Proofs.NumberOrder
import Screening.Proofs.FiniteStatistics
import Screening.Proofs.Repeatability
import Screening.Proofs.NearestDouble
import Screening.Proofs.ShortestDecimal
import Screening.Proofs.Rereading
import Screening.Proofs.SummaryReading
import Screening.Proofs.FloatFields
import Screening.Proofs.FloatRounding
import Screening.Proofs.FloatOperations
import Screening.Proofs.BoundedStatistics
import Screening.Proofs.FiniteSummaries
