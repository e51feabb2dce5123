import TraceTypes.Checkpoint.Record
/-!
# Segments

A segment is what one checkpoint adds to a stream: a header and the records
behind it, with the bytes that stand for them.
-/

namespace TraceTypes

/-- What a segment holds. -/
inductive SegmentKind where
  /-- The records of a pass over the tagged artifacts. -/
  | typeSet
  /-- The last records of classes about to be reclaimed. -/
  | classUnload
  /-- The reduced class records of the leak stream. -/
  | leakProfiler
  deriving DecidableEq

namespace SegmentKind

/-- The number of a segment kind in a header. -/
def code : SegmentKind → Nat
  | typeSet => 0
  | classUnload => 1
  | leakProfiler => 2

end SegmentKind

/-- The head of a segment. -/
structure Header where
  kind : SegmentKind
  /-- The epoch generation that the segment belongs to. -/
  generation : Nat
  /-- Whether the artifacts of the segment stay tagged. -/
  flushpoint : Bool
  deriving DecidableEq

/-- A header, the records behind it, and the bytes of both. -/
structure Segment where
  header : Header
  records : List Record
  bytes : List UInt8
  deriving DecidableEq

end TraceTypes
