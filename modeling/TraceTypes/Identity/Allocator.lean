import TraceTypes.SlotTable
import TraceTypes.Violation
/-!
# Trace ids

One allocator hands out the ids of all kinds, in ascending order from one, and
never the same id twice. An id is live while an artifact owns it. When the
artifact is forgotten its id is retired: it cannot be asked for until the
retired ids are purged. An id that was never written is released instead, and
leaves nothing behind.
-/

namespace TraceTypes

/-- The source of trace ids, with the owners of the live ones. -/
structure IdAllocator where
  /-- The id handed out next. A counter of 64 bits in its place is equal to it for fewer than
  `2 ^ 64 - 1` registrations; the next one after these would make the counter wrap. -/
  next : TraceId := 1
  /-- The owner of each live id. -/
  owners : SlotTable TraceId Artifact := .empty
  /-- The ids retired since the last purge. -/
  retired : List TraceId := []
  deriving DecidableEq

namespace IdAllocator

/-- Hand out the next id. That it has an owner already is a violation. -/
def allocate (ids : IdAllocator) (a : Artifact) : Except Violation (TraceId × IdAllocator) :=
  match ids.owners.get? ids.next with
  | some owner => .error (.idCollision ids.next owner a)
  | none => .ok (ids.next, { ids with
      next := ids.next + 1, owners := ids.owners.insert ids.next a })

/-- The owner of an id. To ask for a retired id is a violation. -/
def owner (ids : IdAllocator) (id : TraceId) : Except Violation (Option Artifact) :=
  if id ∈ ids.retired then .error (.forgottenId id) else .ok (ids.owners.get? id)

/-- Take an id out of use and remember it as retired. -/
def retire (ids : IdAllocator) (id : TraceId) : IdAllocator :=
  { ids with owners := ids.owners.erase id, retired := ids.retired.insert id }

/-- Take an id out of use that was never written. -/
def release (ids : IdAllocator) (id : TraceId) : IdAllocator :=
  { ids with owners := ids.owners.erase id }

/-- Drop the memory of retired ids; tells how many there were. -/
def purge (ids : IdAllocator) : Nat × IdAllocator :=
  (ids.retired.length, { ids with retired := [] })

/-- The number of live ids. -/
def liveCount (ids : IdAllocator) : Nat := ids.owners.size

end IdAllocator

end TraceTypes
