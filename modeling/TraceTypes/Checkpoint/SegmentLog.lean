import TraceTypes.Checkpoint.Encoding
import TraceTypes.Checkpoint.Sink
/-!
# The segment log

A sink in memory. It keeps the committed segments in order, with their bytes, and
the segment that is open. A limit, if set, bounds the bytes of all of them
together; it is checked when bytes are added, so lowering it drops nothing.
-/

namespace TraceTypes

/-- The segments of a stream in memory. -/
structure SegmentLog where
  /-- The committed segments, oldest first. -/
  segments : List Segment := []
  /-- The segment that records are appended to. -/
  pending : Option Segment := none
  /-- The most bytes that committed and open segments may have together. -/
  limit : Option Nat := none
  /-- The bytes of the committed segments. -/
  committedBytes : Nat := 0
  deriving DecidableEq

namespace SegmentLog

/-- All committed records, oldest first. -/
def records (w : SegmentLog) : List Record := w.segments.flatMap Segment.records

/-- Whether a segment is open. -/
def isOpen (w : SegmentLog) : Bool := w.pending.isSome

/-- The bytes of the open segment. -/
def openBytes (w : SegmentLog) : Nat := (w.pending.map fun s => s.bytes.length).getD 0

/-- Drop the committed segments. -/
def clear (w : SegmentLog) : SegmentLog := { w with segments := [], committedBytes := 0 }

/-- Bound the bytes from now on. -/
def setLimit (limit : Option Nat) (w : SegmentLog) : SegmentLog := { w with limit := limit }

/-- The error for adding so many bytes, if they do not fit. -/
def refusal? (w : SegmentLog) (requested : Nat) : Option SinkError :=
  match w.limit with
  | none => none
  | some limit =>
    let remaining := limit - (w.committedBytes + w.openBytes)
    if remaining < requested then some (.capacityExceeded requested remaining) else none

/-- Open a segment with the bytes of its header. -/
def openSegment (h : Header) : EStateM SinkError SegmentLog Unit := fun w =>
  if w.isOpen then .error .segmentAlreadyOpen w
  else
    let bytes := Checkpoint.encodeHeader h
    match w.refusal? bytes.length with
    | some e => .error e w
    | none => .ok () { w with pending := some ⟨h, [], bytes⟩ }

/-- Append a record and its bytes to the open segment. -/
def append (r : Record) : EStateM SinkError SegmentLog Nat := fun w =>
  match w.pending with
  | none => .error .noOpenSegment w
  | some s =>
    let bytes := Checkpoint.encodeRecord r
    match w.refusal? bytes.length with
    | some e => .error e w
    | none =>
      .ok bytes.length
        { w with pending := some { s with records := s.records ++ [r], bytes := s.bytes ++ bytes } }

/-- Move the open segment behind the committed ones. -/
def commit : EStateM SinkError SegmentLog Nat := fun w =>
  match w.pending with
  | none => .error .noOpenSegment w
  | some s =>
    .ok s.bytes.length
      { w with
        segments := w.segments ++ [s]
        pending := none
        committedBytes := w.committedBytes + s.bytes.length }

/-- Drop the open segment. -/
def discard (w : SegmentLog) : SegmentLog := { w with pending := none }

instance : Sink SegmentLog where
  openSegment := openSegment
  append := append
  commit := commit
  discard := discard

/-! ## When a call succeeds, and what it does then

A call that fails leaves the log alone. -/

variable {w w' : SegmentLog}

theorem openSegment_ok_iff {h : Header} : openSegment h w = .ok () w' ↔
    w.pending = none ∧ w.refusal? (Checkpoint.encodeHeader h).length = none ∧
      w' = { w with pending := some ⟨h, [], Checkpoint.encodeHeader h⟩ } := by
  unfold openSegment isOpen
  cases hpending : w.pending with
  | some s => simp
  | none =>
      rw [Option.isSome_none, if_neg Bool.false_ne_true]
      dsimp only
      cases w.refusal? (Checkpoint.encodeHeader h).length with
      | some e => simp
      | none => simp [eq_comm]

theorem append_ok_iff {r : Record} {n : Nat} : append r w = .ok n w' ↔
    ∃ s, w.pending = some s ∧ w.refusal? (Checkpoint.encodeRecord r).length = none ∧
      n = (Checkpoint.encodeRecord r).length ∧
      w' = { w with pending := some { s with
        records := s.records ++ [r], bytes := s.bytes ++ Checkpoint.encodeRecord r } } := by
  unfold append
  cases hpending : w.pending with
  | none => simp
  | some s =>
      dsimp only
      cases w.refusal? (Checkpoint.encodeRecord r).length with
      | some e => simp
      | none => simp [eq_comm]

theorem commit_ok_iff {n : Nat} : commit w = .ok n w' ↔
    ∃ s, w.pending = some s ∧ n = s.bytes.length ∧
      w' = { w with
        segments := w.segments ++ [s]
        pending := none
        committedBytes := w.committedBytes + s.bytes.length } := by
  unfold commit
  cases hpending : w.pending with
  | none => simp
  | some s => simp [eq_comm]

theorem eq_of_openSegment_error {h : Header} {e : SinkError}
    (herr : openSegment h w = .error e w') : w' = w := by
  unfold openSegment at herr
  split at herr
  · cases herr
    rfl
  · dsimp only at herr
    split at herr <;> cases herr
    rfl

theorem eq_of_append_error {r : Record} {e : SinkError} (herr : append r w = .error e w') :
    w' = w := by
  unfold append at herr
  split at herr
  · cases herr
    rfl
  · dsimp only at herr
    split at herr <;> cases herr
    rfl

theorem eq_of_commit_error {e : SinkError} (herr : commit w = .error e w') : w' = w := by
  unfold commit at herr
  split at herr <;> cases herr
  rfl

end SegmentLog

end TraceTypes
