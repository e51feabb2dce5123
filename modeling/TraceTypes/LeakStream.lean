import TraceTypes.Checkpoint.Record
import TraceTypes.Identity.Registries
import TraceTypes.Metadata
/-!
# The leak stream

The leak profiler names the classes of sampled objects long after the main
stream has dropped its tags, or the runtime has reclaimed the class. So its
stream has ids of its own and, if asked to, keeps what it wrote about a class
for look-up by id. It shares nothing with the main stream.

A write has two halves. `prepare` hands out ids and says what to write. When
the write is done, `commit` makes it known to look-ups; when it failed,
`rollback` takes back the ids that `prepare` handed out.
-/

namespace TraceTypes

/-- A class as the leak stream last described it. -/
structure LeakEntry where
  id : TraceId
  name : String
  loaderName : String
  /-- The epoch generation of the segment that carried it. -/
  generation : Nat
  deriving DecidableEq

namespace LeakEntry

/-- The record that describes the class on the stream. -/
def record (e : LeakEntry) : Record := .leakClass e.id e.name e.loaderName

end LeakEntry

/-- The retained classes by their id. -/
abbrev LeakTable := SlotTable TraceId LeakEntry

/-- A write to the leak stream that is neither committed nor rolled back. -/
structure PendingLeak where
  /-- What is written, in order. -/
  entries : List LeakEntry := []
  /-- The classes that got their id for this write. -/
  fresh : List Artifact := []
  deriving DecidableEq

namespace PendingLeak

/-- The records to write. -/
def records (p : PendingLeak) : List Record := p.entries.map LeakEntry.record

end PendingLeak

/-- The state behind the leak stream. -/
structure LeakStream where
  /-- Whether written classes are retained. -/
  retain : Bool := true
  ids : Registries := {}
  retained : LeakTable := .empty
  deriving DecidableEq

namespace LeakStream

/-- The id of a class on the leak stream. -/
def id? (s : LeakStream) (h : Handle) : Option TraceId := s.ids.id? (.cls h)

/-- Forget a reclaimed class, so that its handle can be used anew; tells the id. What was
retained under the id stays. -/
def forget (s : LeakStream) (h : Handle) : Option TraceId × LeakStream :=
  let p := s.ids.forget (.cls h)
  (p.1, { s with ids := p.2 })

/-- The name of a class's loader. -/
def loaderName (g : MetadataGraph) (bootstrapName : String) (c : ClassInfo) :
    Except Violation String :=
  match c.loader with
  | none => .ok bootstrapName
  | some l =>
    match g.classLoader l with
    | none => .error (.danglingArtifact (.classLoader l))
    | some i => .ok i.displayName

/-- Give each class an id and add it to a pending write. A violation leaves the ids handed out
before it in place. -/
def prepareOnto (g : MetadataGraph) (bootstrapName : String) (generation : Nat) :
    List (Handle × ClassInfo) → PendingLeak → EStateM Violation LeakStream PendingLeak
  | [], p => fun s => .ok p s
  | (h, c) :: rest, p => fun s =>
    match s.ids.register (.cls h) with
    | .error v => .error v s
    | .ok ((id, fresh), ids) =>
      match loaderName g bootstrapName c with
      | .error v => .error v { s with ids := ids }
      | .ok name =>
        prepareOnto g bootstrapName generation rest
          { entries := p.entries ++ [⟨id, c.name, name, generation⟩]
            fresh := if fresh then p.fresh ++ [.cls h] else p.fresh }
          { s with ids := ids }

/-- Prepare a write of classes with their fields. -/
def prepare (g : MetadataGraph) (bootstrapName : String) (generation : Nat)
    (classes : List (Handle × ClassInfo)) : EStateM Violation LeakStream PendingLeak :=
  prepareOnto g bootstrapName generation classes {}

/-- Make what was written known to look-ups. -/
def commit (s : LeakStream) (p : PendingLeak) : LeakStream :=
  if s.retain then
    { s with retained := p.entries.foldl (fun t e => t.insert e.id e) s.retained }
  else s

/-- A write changes what is retained, if anything is. -/
theorem commit_eq (s : LeakStream) (p : PendingLeak) : s.commit p = { s with
    retained := if s.retain then p.entries.foldl (fun u e => u.insert e.id e) s.retained
      else s.retained } := by
  unfold commit
  split <;> rfl

@[simp] theorem ids_commit (s : LeakStream) (p : PendingLeak) : (s.commit p).ids = s.ids := by
  rw [commit_eq]

@[simp] theorem retain_commit (s : LeakStream) (p : PendingLeak) :
    (s.commit p).retain = s.retain := by
  rw [commit_eq]

/-- Take back the ids of a write that was not made. -/
def rollback (s : LeakStream) (p : PendingLeak) : LeakStream :=
  { s with ids := s.ids.unregisterAll p.fresh }

end LeakStream

/-- A look-up that was handed out. It reads the table of the stream that it was taken from, as
that table is now, also when the stream is no longer in use. -/
inductive LeakLookup where
  /-- The stream is in use. -/
  | live
  /-- The stream is gone and this is what it retained. -/
  | final (table : LeakTable)

namespace LeakLookup

/-- What the look-up reads, given the stream in use. -/
def table (l : LeakLookup) (s : LeakStream) : LeakTable :=
  match l with
  | live => s.retained
  | final t => t

/-- The look-up after the stream in use was replaced. -/
def afterReplacing (l : LeakLookup) (s : LeakStream) : LeakLookup := final (l.table s)

end LeakLookup

end TraceTypes
