import TraceTypes.Artifact
import TraceTypes.Modifiers
/-!
# Records

What a checkpoint says about one artifact. A record defines one trace id and
refers to others: names are ids of symbol records, and the other references
are ids of the records of a loader, module, package or class. Two kinds of
record carry their names as text, since they outlive the symbols: the last
record of an unloaded class, and the reduced class record of the leak stream.
-/

namespace TraceTypes

/-- One typed record of a checkpoint segment. -/
inductive Record where
  /-- An interned name. -/
  | symbol (id : TraceId) (text : String)
  /-- A class loader; only some loaders are named. -/
  | classLoader (id : TraceId) (name : Option TraceId) (typeName : TraceId)
  /-- A module. -/
  | module (id name : TraceId) (version location : Option TraceId)
  /-- A package, possibly of no module. -/
  | package (id name : TraceId) (owner : Option TraceId) (exported : Bool)
  /-- A class. An array class has an element class and no package. -/
  | cls (id name loader : TraceId) (package superclass element : Option TraceId)
    (modifiers : Modifiers) (hidden unloading : Bool)
  /-- A method of a class. -/
  | method (id holder name descriptor : TraceId) (modifiers : Modifiers) (hidden : Bool)
  /-- A thread, with the runtime's own number for it while it is attached. -/
  | thread (id name : TraceId) (osThreadId : Nat) (managedThreadId : Option Nat)
  /-- The last record of a class that is being reclaimed. -/
  | unloadedClass (id : TraceId) (name : String) (loader : Option TraceId)
    (loaderName : Option String)
  /-- A class on the leak stream. -/
  | leakClass (id : TraceId) (name loaderName : String)
  deriving DecidableEq

namespace Record

/-- The id that a record defines. -/
def id : Record → TraceId
  | symbol id .. | classLoader id .. | module id .. | package id .. | cls id .. | method id ..
  | thread id .. | unloadedClass id .. | leakClass id .. => id

/-- The kind of the artifact that a record describes. -/
def kind : Record → Kind
  | symbol .. => .symbol
  | classLoader .. => .classLoader
  | module .. => .module
  | package .. => .package
  | cls .. | unloadedClass .. | leakClass .. => .cls
  | method .. => .method
  | thread .. => .thread

/-- The number of a record's type, which is its first byte. -/
def tag : Record → Nat
  | symbol .. => 1
  | classLoader .. => 2
  | module .. => 3
  | package .. => 4
  | cls .. => 5
  | method .. => 6
  | thread .. => 7
  | unloadedClass .. => 8
  | leakClass .. => 9

/-- The ids that a record refers to, in field order. -/
def references : Record → List TraceId
  | symbol .. | leakClass .. => []
  | classLoader _ name typeName => name.toList ++ [typeName]
  | module _ name version location => name :: (version.toList ++ location.toList)
  | package _ name owner _ => name :: owner.toList
  | cls _ name loader pkg superclass element _ _ _ =>
    name :: loader :: (pkg.toList ++ superclass.toList ++ element.toList)
  | method _ holder name descriptor _ _ => [holder, name, descriptor]
  | thread _ name _ _ => [name]
  | unloadedClass _ _ loader _ => loader.toList

end Record

/-- A record with the artifact that it is written for. The record of the bootstrap loader has
none. -/
structure Entry where
  subject : Option Artifact
  record : Record
  deriving DecidableEq

namespace Entry

/-- The artifacts of a row of entries. -/
def subjects (l : List Entry) : List Artifact := l.filterMap subject

theorem subjects_append (l l' : List Entry) : subjects (l ++ l') = subjects l ++ subjects l' :=
  List.filterMap_append

theorem mem_subjects {l : List Entry} {a : Artifact} :
    a ∈ subjects l ↔ ∃ e ∈ l, e.subject = some a := List.mem_filterMap

theorem subjects_subset {l l' : List Entry} (h : l <+: l') : subjects l ⊆ subjects l' := by
  intro a ha
  obtain ⟨e, he, hsub⟩ := mem_subjects.mp ha
  exact mem_subjects.mpr ⟨e, h.subset he, hsub⟩

end Entry

end TraceTypes
