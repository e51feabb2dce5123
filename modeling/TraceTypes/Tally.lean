import TraceTypes.Artifact.PerKind
import TraceTypes.Checkpoint.Record
/-!
# Tallies

What one pass wrote is counted in a summary, and what a type set has done since
its creation in totals. Counts have no bound.
-/

namespace TraceTypes

/-- What one serialize pass wrote. -/
structure PassSummary where
  /-- Bytes of the main segment, header included. -/
  bytes : Nat := 0
  /-- Bytes of the leak segment, header included. -/
  leakBytes : Nat := 0
  /-- Records of the main segment, by kind. -/
  records : PerKind Nat := .replicate 0
  /-- Classes that were forgotten because they are unloading. -/
  unloaded : Nat := 0
  /-- Records of the leak segment. -/
  leakClasses : Nat := 0
  flushpoint : Bool := false
  classUnload : Bool := false
  /-- The epoch generation of the pass. -/
  generation : Nat := 0
  deriving DecidableEq

namespace PassSummary

/-- Count one record of the main segment. -/
def count (s : PassSummary) (r : Record) : PassSummary :=
  { s with records := s.records.set r.kind (s.records.get r.kind + 1) }

/-- Count the records of a main segment. -/
def countAll (s : PassSummary) (l : List Record) : PassSummary := l.foldl count s

/-- The number of records of the main segment. -/
def totalRecords (s : PassSummary) : Nat := s.records.total

end PassSummary

/-- What a type set has done so far. -/
structure Totals where
  /-- Passes whose main segment was committed, empty ones included. -/
  serializations : Nat := 0
  /-- Those of them that left the tags in place. -/
  flushpoints : Nat := 0
  bytesWritten : Nat := 0
  recordsWritten : Nat := 0
  leakRecordsWritten : Nat := 0
  /-- Class-unload segments committed. -/
  unloadCaptures : Nat := 0
  /-- Records in them. -/
  classesUnloaded : Nat := 0
  /-- Calls that a sink's error ended. -/
  writerFailures : Nat := 0
  /-- Calls that reset the tags without writing. -/
  clears : Nat := 0
  /-- Epoch rotations. -/
  rotations : Nat := 0
  deriving DecidableEq

namespace Totals

/-- Add the summary of a pass. -/
def addPass (t : Totals) (s : PassSummary) : Totals :=
  { t with
    serializations := t.serializations + 1
    flushpoints := t.flushpoints + if s.flushpoint then 1 else 0
    bytesWritten := t.bytesWritten + s.bytes
    recordsWritten := t.recordsWritten + s.totalRecords
    leakRecordsWritten := t.leakRecordsWritten + s.leakClasses }

end Totals

end TraceTypes
