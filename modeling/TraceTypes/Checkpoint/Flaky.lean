import TraceTypes.Checkpoint.Sink
/-!
# Sinks that fail on schedule

A flaky sink stands in front of another one and fails some of its calls. Which
ones is fixed beforehand by a schedule: for each sort of call, and each number
of such a call counted from one, the text of the failure or nothing. A call
that fails by schedule does not reach the sink behind.
-/

namespace TraceTypes

/-- The calls of a sink that may fail. -/
inductive SinkCall where
  | openSegment
  | append
  | commit
  deriving DecidableEq

/-- For each sort of call, which of them fail and with what text; calls count from one. -/
abbrev FaultSchedule := SinkCall → Nat → Option String

namespace FaultSchedule

/-- No call fails. -/
def never : FaultSchedule := fun _ _ => none

/-- Only one call fails: the `nth` of its sort. -/
def once (call : SinkCall) (nth : Nat) (text : String) : FaultSchedule := fun c n =>
  if c = call ∧ n = nth then some text else none

end FaultSchedule

/-- How many calls of each sort were made. -/
structure CallCount where
  opened : Nat := 0
  appended : Nat := 0
  committed : Nat := 0
  deriving DecidableEq

namespace CallCount

/-- The number of calls of one sort. -/
def get (c : CallCount) : SinkCall → Nat
  | .openSegment => c.opened
  | .append => c.appended
  | .commit => c.committed

/-- Count one more call. -/
def tick (c : CallCount) : SinkCall → CallCount
  | .openSegment => { c with opened := c.opened + 1 }
  | .append => { c with appended := c.appended + 1 }
  | .commit => { c with committed := c.committed + 1 }

end CallCount

/-- A sink whose calls fail as a schedule says. -/
structure Flaky (σ : Type) where
  /-- The sink behind. -/
  inner : σ
  schedule : FaultSchedule := .never
  /-- The calls made since the schedule was set. -/
  calls : CallCount := {}

namespace Flaky

variable {σ : Type}

/-- Set a new schedule and start counting again. -/
def arm (w : Flaky σ) (schedule : FaultSchedule) : Flaky σ :=
  { w with schedule := schedule, calls := {} }

/-- Make a call on the sink behind, unless it is one that fails. -/
def attempt {α : Type} (call : SinkCall) (act : EStateM SinkError σ α) :
    EStateM SinkError (Flaky σ) α := fun w =>
  let calls := w.calls.tick call
  match w.schedule call (calls.get call) with
  | some text => .error (.io text) { w with calls := calls }
  | none =>
    match act w.inner with
    | .ok v inner => .ok v { w with inner := inner, calls := calls }
    | .error e inner => .error e { w with inner := inner, calls := calls }

instance [Sink σ] : Sink (Flaky σ) where
  openSegment h := attempt .openSegment (Sink.openSegment h)
  append r := attempt .append (Sink.append r)
  commit := attempt .commit Sink.commit
  discard w := { w with inner := Sink.discard w.inner }

end Flaky

end TraceTypes
