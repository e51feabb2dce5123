import TraceTypes.Checkpoint.Sink
import TraceTypes.Epoch
import TraceTypes.LeakStream
import TraceTypes.Marks
import TraceTypes.Settings
import TraceTypes.Symbols
import TraceTypes.Tally
/-!
# The type set

A type set decides which artifacts a trace has to describe, and when. Events
tag the artifacts they refer to, and at a checkpoint the tagged artifacts are
written with everything they depend on, under ids that stay the same from chunk
to chunk. At a rotation of the trace the next chunk has to stand on its own, so
everything counts as unwritten again.

This module has the state and what is done with it without a sink: tagging,
look-ups and rotation.
-/

namespace TraceTypes

/-- The state of the library beside the runtime's artifacts. -/
structure TypeSet where
  settings : Settings
  marks : MarkTable := {}
  registries : Registries := {}
  symbols : SymbolTable := {}
  epochs : EpochCounter := {}
  leak : LeakStream
  /-- Whether the bootstrap loader was written in this epoch. -/
  bootstrapWritten : Bool := false
  /-- The violation that was met, after which nothing is written any more. -/
  poisoned : Option Violation := none
  totals : Totals := {}
  /-- The summary of the last pass that committed its main segment. -/
  lastSummary : Option PassSummary := none
  deriving DecidableEq

/-- Why an operation on a type set failed. -/
inductive TypeSetError where
  /-- A sink refused a call; a later attempt may succeed. -/
  | sink (e : SinkError)
  /-- A violation was met; the type set is poisoned from now on. -/
  | violation (v : Violation)
  /-- The type set was poisoned before. -/
  | poisoned
  /-- The settings could not be loaded. -/
  | settings (e : SettingsError)
  deriving DecidableEq

namespace TypeSetError

/-- Whether the same call may succeed later. -/
def isRecoverable : TypeSetError → Bool
  | sink _ => true
  | violation _ | poisoned | settings _ => false

/-- An error in words. What is wrong with a malformed settings text is left to the reader of the
text. -/
def message : TypeSetError → String
  | sink e => "checkpoint writer failed: " ++ e.message
  | violation v => "invariant violation: " ++ v.message
  | poisoned => "type set poisoned by an earlier invariant violation"
  | settings (.unreadable path cause) => "failed to read config '" ++ path ++ "': " ++ cause
  | settings .malformed => "failed to parse config"

end TypeSetError

namespace TypeSet

/-- A type set that has seen nothing. -/
def create (settings : Settings) : TypeSet where
  settings := settings
  leak := { retain := settings.retainLeakRecords }

/-- Whether a violation was met. -/
def isPoisoned (t : TypeSet) : Bool := t.poisoned.isSome

/-- Refuse to write from now on. -/
def poison (t : TypeSet) (v : Violation) : TypeSet := { t with poisoned := some v }

/-- The epoch now. -/
def epoch (t : TypeSet) : Epoch := t.epochs.current

/-- Mark an artifact as referenced by an event; tells whether it was not marked before. -/
def tag (t : TypeSet) (a : Artifact) : Bool × TypeSet :=
  let p := t.marks.raise .referenced a
  (p.1, { t with marks := p.2 })

/-- Mark a class as referenced by the leak profiler; tells whether it was not marked before. -/
def tagLeak (t : TypeSet) (h : Handle) : Bool × TypeSet :=
  let p := t.marks.raise .leak (.cls h)
  (p.1, { t with marks := p.2 })

/-- The id of an artifact. -/
def id? (t : TypeSet) (a : Artifact) : Option TraceId := t.registries.id? a

/-- The artifact that owns an id. To ask for the id of a forgotten artifact is a violation until
the next rotation, but does not poison. -/
def resolve (t : TypeSet) (id : TraceId) : Except TypeSetError (Option Artifact) :=
  (t.registries.resolve id).mapError .violation

/-- The id of a class on the leak stream. -/
def leakId? (t : TypeSet) (h : Handle) : Option TraceId := t.leak.id? h

/-- Reset the tags of the main stream without writing anything. -/
def clear (t : TypeSet) : TypeSet :=
  { t with
    marks := t.marks.lowerAll .referenced
    totals := { t.totals with clears := t.totals.clears + 1 } }

/-- Advance to the next epoch. Everything counts as unwritten, ids are kept, and retired ids may be
asked for again. -/
def rotate (t : TypeSet) : TypeSet :=
  { t with
    epochs := t.epochs.rotate
    marks := t.marks.lowerAll .serialized
    registries := t.registries.purge.2
    bootstrapWritten := false
    totals := { t.totals with rotations := t.totals.rotations + 1 } }

/-- Count a call that a sink's error ended. -/
def countFailure (t : TypeSet) : TypeSet :=
  { t with totals := { t.totals with writerFailures := t.totals.writerFailures + 1 } }

/-- Forget artifacts: their ids are retired and their marks dropped. -/
def forgetAll (t : TypeSet) (l : List Artifact) : TypeSet :=
  l.foldl (fun t a =>
    { t with registries := (t.registries.forget a).2, marks := t.marks.forget a }) t

/-- Forget a class together with these methods of it. -/
def forgetClass (t : TypeSet) (methods : List Handle) (h : Handle) : TypeSet :=
  let t := t.forgetAll (methods.map Artifact.method ++ [.cls h])
  { t with leak := (t.leak.forget h).2 }

/-- Forget classes one after the other, each with the methods that are found for it then. -/
def forgetClasses (methods : TypeSet → Handle → List Handle) (t : TypeSet) (l : List Handle) :
    TypeSet :=
  l.foldl (fun t h => t.forgetClass (methods t h) h) t

/-- The methods registered as those of a class. -/
def registeredMethods (t : TypeSet) (h : Handle) : List Handle := t.registries.ownedBy .method h

end TypeSet

end TraceTypes
