import TraceTypes.Checkpoint.Segment
/-!
# Sinks

A sink takes the records of a checkpoint. Between opening a segment and committing
it, records are appended; they become visible together when the segment is
committed, and discarding the segment drops them all. Every call but `discard` may
fail, and a failed call leaves a state behind all the same.
-/

namespace TraceTypes

/-- Why a sink refuses a call. -/
inductive SinkError where
  /-- The bytes do not fit. -/
  | capacityExceeded (requested remaining : Nat)
  /-- There is no open segment to append to or to commit. -/
  | noOpenSegment
  /-- The segment before has not been committed or discarded. -/
  | segmentAlreadyOpen
  /-- The store behind the sink failed. -/
  | io (text : String)
  deriving DecidableEq

namespace SinkError

/-- A sink's error in words. -/
def message : SinkError → String
  | capacityExceeded requested remaining =>
    "checkpoint buffer full: need " ++ toString requested ++ " bytes, " ++ toString remaining
      ++ " remaining"
  | noOpenSegment => "no checkpoint is open"
  | segmentAlreadyOpen => "a checkpoint is already open"
  | io text => "IO error: " ++ text

end SinkError

/-- Something that takes the segments of a stream. -/
class Sink (σ : Type) where
  /-- Open a segment. -/
  openSegment : Header → EStateM SinkError σ Unit
  /-- Append a record to the open segment and tell its size in bytes. -/
  append : Record → EStateM SinkError σ Nat
  /-- Commit the open segment and tell its size in bytes, header included. -/
  commit : EStateM SinkError σ Nat
  /-- Drop the open segment, if there is one. -/
  discard : σ → σ

namespace Sink

variable {σ : Type} [Sink σ]

/-- Append records in order, up to the first that is refused. -/
def appendAll : List Record → EStateM SinkError σ Unit
  | [] => pure ()
  | r :: rest => do
    let _ ← append r
    appendAll rest

/-- Open a segment and append the records. Without records no call is made. -/
def stage (h : Header) (records : List Record) : EStateM SinkError σ Unit :=
  if records.isEmpty then pure ()
  else do
    openSegment h
    appendAll records

/-- Commit the segment that `stage` opened for these records. -/
def finish (records : List Record) : EStateM SinkError σ Nat :=
  if records.isEmpty then pure 0 else commit

/-- Write the records as one segment. -/
def send (h : Header) (records : List Record) : EStateM SinkError σ Nat := do
  stage h records
  finish records

end Sink

end TraceTypes
