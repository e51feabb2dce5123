import TraceTypes.Artifact.PerKind
import TraceTypes.Identity.Allocator
/-!
# Registries

Each kind has a registry of the artifacts that have an id. An entry also names
the artifact's owner, which is used for methods: theirs is the declaring class.
The registries share one allocator, so an id names one artifact of any kind.
-/

namespace TraceTypes

/-- What is registered for an artifact. -/
structure RegistryEntry where
  id : TraceId
  /-- The handle of the owning artifact. -/
  owner : Option Handle := none
  deriving DecidableEq

/-- The registered artifacts of every kind, and the allocator of their ids. -/
structure Registries where
  entries : PerKind (SlotTable Handle RegistryEntry) := .replicate .empty
  ids : IdAllocator := {}
  deriving DecidableEq

namespace Registries

/-- The entry of an artifact. -/
def entry? (r : Registries) (a : Artifact) : Option RegistryEntry :=
  (r.entries.get a.kind).get? a.handle

/-- The id of an artifact. -/
def id? (r : Registries) (a : Artifact) : Option TraceId := (r.entry? a).map RegistryEntry.id

/-- The artifact that owns an id. -/
def resolve (r : Registries) (id : TraceId) : Except Violation (Option Artifact) := r.ids.owner id

/-- The number of registered artifacts of a kind. -/
def size (r : Registries) (k : Kind) : Nat := (r.entries.get k).size

/-- Find the id of an artifact or hand one out; tells also whether it is fresh. -/
def register (r : Registries) (a : Artifact) :
    Except Violation ((TraceId × Bool) × Registries) :=
  match r.entry? a with
  | some e => .ok ((e.id, false), r)
  | none =>
    match r.ids.allocate a with
    | .error v => .error v
    | .ok (id, ids) => .ok ((id, true), {
        entries := r.entries.set a.kind ((r.entries.get a.kind).insert a.handle ⟨id, none⟩)
        ids := ids })

/-- Name the owner of a registered artifact. -/
def setOwner (r : Registries) (a : Artifact) (owner : Handle) : Registries :=
  { r with
    entries := r.entries.set a.kind
      ((r.entries.get a.kind).modify a.handle fun e => { e with owner := some owner }) }

/-- The handles of a kind that have this owner, in ascending order. -/
def ownedBy (r : Registries) (k : Kind) (owner : Handle) : List Handle :=
  (((r.entries.get k).slots.filter fun e => e.2.owner = some owner).map Prod.fst).mergeSort

/-- Drop the entry of an artifact, the ids left alone. -/
def dropEntry (r : Registries) (a : Artifact) : PerKind (SlotTable Handle RegistryEntry) :=
  r.entries.set a.kind ((r.entries.get a.kind).erase a.handle)

/-- Forget an artifact and retire its id; tells the id. -/
def forget (r : Registries) (a : Artifact) : Option TraceId × Registries :=
  match r.entry? a with
  | none => (none, r)
  | some e => (some e.id, ⟨r.dropEntry a, r.ids.retire e.id⟩)

/-- Undo a registration that was never written. -/
def unregister (r : Registries) (a : Artifact) : Registries :=
  match r.entry? a with
  | none => r
  | some e => ⟨r.dropEntry a, r.ids.release e.id⟩

/-- Undo registrations in the order given. -/
def unregisterAll (r : Registries) (l : List Artifact) : Registries := l.foldl unregister r

/-- Drop the memory of retired ids; tells how many there were. -/
def purge (r : Registries) : Nat × Registries :=
  let p := r.ids.purge
  (p.1, { r with ids := p.2 })

end Registries

end TraceTypes
