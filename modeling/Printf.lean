import Printf.Main
import Printf.Log.Validation
import Printf.Sink.Callback
import Printf.Proofs.Calls
import Printf.Proofs.Grammar
import Printf.Proofs.Alignment
import Printf.Proofs.Counts
import Printf.Proofs.Concat
import Printf.Proofs.Digits
import Printf.Proofs.Stars
import Printf.Proofs.NumberText
import Printf.Proofs.Padding
import Printf.Proofs.Numeral
import Printf.Proofs.IntegerDigits
import Printf.Proofs.Nearest
import Printf.Proofs.DoubleValue
import Printf.Proofs.Reshaping
import Printf.Proofs.FloatText
import Printf.Proofs.FloatRounding
import Printf.Proofs.GeneralStyle
import Printf.Proofs.DistinctDoubles
import Printf.Proofs.IntegralFloats
import Printf.Proofs.HexFloat
import Printf.Proofs.FeatureSets
import Printf.Proofs.Histories
import Printf.Proofs.JsonScalars
import Printf.Proofs.JsonValues
import Printf.Proofs.JsonSpelling
import Printf.Proofs.JsonReading
import Printf.Proofs.JsonRecords
import Printf.Proofs.JsonDocuments
import Printf.Proofs.Documents
import Printf.Proofs.LogEntries
import Printf.Proofs.LogLines
import Printf.Proofs.LogRuns
import Printf.Proofs.FileTree
import Printf.Proofs.Commands
import Printf.Proofs.Verdicts
import Printf.Proofs.VerifyRuns
import Printf.Proofs.CalendarDays
import Printf.Proofs.Timestamps
import Printf.Proofs.CaseRuns
import Printf.Proofs.DigitBuffer
import Printf.Proofs.WordLayout
import Printf.Proofs.WordDecimals
import Printf.Proofs.WordHex
import Printf.Proofs.WordBounds
import Printf.Proofs.Streaming
import Printf.Proofs.IntegerSpellings
import Printf.Proofs.Pieces
import Printf.Proofs.Differences
import Printf.Proofs.PathNames
import Printf.Proofs.ReportFiles
import Printf.Proofs.ReportPages
