import TraceTypes.SlotTable
import TraceTypes.Artifact.PerKind
import TraceTypes.Modifiers
import TraceTypes.Epoch
import TraceTypes.Violation
import TraceTypes.Checkpoint.Encoding
import TraceTypes.Checkpoint.SegmentLog
import TraceTypes.Checkpoint.Flaky
import TraceTypes.Symbols
import TraceTypes.Metadata.Heap
import TraceTypes.Metadata.Overlay
import TraceTypes.Marks
import TraceTypes.Identity.Registries
import TraceTypes.Dependency.Expansion
import TraceTypes.Tally
import TraceTypes.Settings
import TraceTypes.LeakStream
import TraceTypes.UnloadCapture
import TraceTypes.Pass
import TraceTypes.TypeSet.Unloading
import TraceTypes.Checkpoint.RecordText
import TraceTypes.Settings.File
import TraceTypes.Proofs.Referential
import TraceTypes.Proofs.Atomicity
import TraceTypes.Proofs.CommittedContent
import TraceTypes.Proofs.Expandable
import TraceTypes.Proofs.LeakLedger
import TraceTypes.Proofs.Retention
import TraceTypes.Proofs.LoggedRuns
import TraceTypes.Proofs.Progress
import TraceTypes.Proofs.RetiredIds
import TraceTypes.Proofs.Unloaded
import TraceTypes.Proofs.Owners
import TraceTypes.Proofs.HeapShape
import TraceTypes.Proofs.Knowledge
import TraceTypes.Proofs.Session
import TraceTypes.Proofs.Decoding
import TraceTypes.Proofs.LeakIds
import TraceTypes.Proofs.LeakIndependence
import TraceTypes.Proofs.Renaming
import TraceTypes.Proofs.Acceptance
import TraceTypes.Proofs.Replanning
import TraceTypes.Proofs.Retry
import TraceTypes.Proofs.Generations
import TraceTypes.Proofs.TerminalRecords
import TraceTypes.Proofs.UnloadingPass
import TraceTypes.Proofs.LeakTags
import TraceTypes.Proofs.OpenSegments
import TraceTypes.Proofs.SymbolIds
import TraceTypes.Proofs.Bookkeeping
import TraceTypes.Proofs.LeakSegments
import TraceTypes.Proofs.Flushpoints
import TraceTypes.Proofs.SelfReference
import TraceTypes.Proofs.DepthBound
import TraceTypes.Proofs.Quiescence
import TraceTypes.Proofs.ExpansionViolations
import TraceTypes.Proofs.Transactions
import TraceTypes.Proofs.RegistryCalls
import TraceTypes.Proofs.WalkBounds
import TraceTypes.Proofs.MarkCalls
import TraceTypes.Proofs.StrandedIds
import TraceTypes.Proofs.NotedOwners
import TraceTypes.Proofs.ShortestNumbers
