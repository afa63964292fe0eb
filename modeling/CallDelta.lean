import CallDelta.Batch
import CallDelta.Decimal.Shortest
import CallDelta.Exchange.Calls
import CallDelta.Exchange.Grammar
import CallDelta.Grammar.Language
import CallDelta.Json.Reader
import CallDelta.Json.Writer
import CallDelta.Main
import CallDelta.Proofs.Accounting
import CallDelta.Proofs.BatchLog
import CallDelta.Proofs.BrokenLog
import CallDelta.Proofs.CommentsAndLayout
import CallDelta.Proofs.DatasetText
import CallDelta.Proofs.EmptyScript
import CallDelta.Proofs.ExitStatus
import CallDelta.Proofs.FreeCalls
import CallDelta.Proofs.GrownTrees
import CallDelta.Proofs.IdenticalTrees
import CallDelta.Proofs.IndexByDigest
import CallDelta.Proofs.IrrelevantData
import CallDelta.Proofs.KeptSyntax
import CallDelta.Proofs.LinkAnswers
import CallDelta.Proofs.LinkRequests
import CallDelta.Proofs.LocatedNames
import CallDelta.Proofs.LongestCommon
import CallDelta.Proofs.OutlineLines
import CallDelta.Proofs.RenamedCallees
import CallDelta.Proofs.Replay
import CallDelta.Proofs.ReportHeaders
import CallDelta.Proofs.ReportReading
import CallDelta.Proofs.SharedDescendants
import CallDelta.Proofs.SubtreeRecursion
import CallDelta.Proofs.UniqueSubtrees
import CallDelta.Report.Destination
import CallDelta.Report.Script
import CallDelta.Settings
import CallDelta.Tree.Growth
import CallDelta.Tree.Outline
