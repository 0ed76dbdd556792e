import JvmCoverage.Instrumentation.Class
import JvmCoverage.Proofs.Class.Densify
import JvmCoverage.Proofs.Class.MethodStatus
import JvmCoverage.Proofs.Class.Representation
import JvmCoverage.Proofs.Class.SavedMerge
import JvmCoverage.Proofs.Class.Touch
import JvmCoverage.Proofs.Cleanup.Recognition
import JvmCoverage.Proofs.Discovery.Snapshot
import JvmCoverage.Proofs.Field.Stream
import JvmCoverage.Proofs.Filter.Chain
import JvmCoverage.Proofs.Instrumentation.Balance
import JvmCoverage.Proofs.Instrumentation.Executions
import JvmCoverage.Proofs.Instrumentation.JumpIds
import JvmCoverage.Proofs.Instrumentation.Sampling
import JvmCoverage.Proofs.Instrumentation.SharedLines
import JvmCoverage.Proofs.Line.Growth
import JvmCoverage.Proofs.Line.Lookup
import JvmCoverage.Proofs.Report.Content
import JvmCoverage.Proofs.Report.Delimited
import JvmCoverage.Proofs.Report.Interning
import JvmCoverage.Proofs.Report.MergeOrder
import JvmCoverage.Proofs.Report.PartialMerge
import JvmCoverage.Proofs.Report.Rounds
import JvmCoverage.Proofs.Report.Stable
import JvmCoverage.Report.Folder
import JvmCoverage.Settings.Value
