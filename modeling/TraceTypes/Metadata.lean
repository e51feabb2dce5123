import TraceTypes.Artifact
import TraceTypes.Modifiers
/-!
# The metadata graph

The runtime owns the artifacts. What a trace needs of them is read from a
metadata graph, by value: the fields of each artifact, where a field that
points at another artifact holds its handle, and the classes that are about to
be reclaimed. A look-up fails for a handle that the runtime does not know.
-/

namespace TraceTypes

/-- The fields of a class. -/
structure ClassInfo where
  /-- The binary name. -/
  name : String
  /-- The defining loader; none is the bootstrap loader. -/
  loader : Option Handle := none
  /-- The package; arrays and primitive types have none. -/
  package : Option Handle := none
  superclass : Option Handle := none
  /-- The element class of an array class. -/
  element : Option Handle := none
  modifiers : Modifiers := Modifiers.publicFlag
  hidden : Bool := false
  deriving DecidableEq

/-- The fields of a method. -/
structure MethodInfo where
  /-- The class that declares the method. -/
  holder : Handle
  name : String
  descriptor : String
  modifiers : Modifiers := Modifiers.publicFlag
  hidden : Bool := false
  deriving DecidableEq

/-- The fields of a package. -/
structure PackageInfo where
  name : String
  /-- The module that the package is in. -/
  module : Option Handle := none
  exported : Bool := true
  deriving DecidableEq

/-- The fields of a module. -/
structure ModuleInfo where
  name : String
  version : Option String := none
  location : Option String := none
  deriving DecidableEq

/-- The fields of a class loader. -/
structure LoaderInfo where
  /-- The loader's own name, if it was given one. -/
  name : Option String := none
  /-- The name of the loader's type. -/
  typeName : String
  deriving DecidableEq

namespace LoaderInfo

/-- What a loader is called: its own name, else that of its type. -/
def displayName (i : LoaderInfo) : String := i.name.getD i.typeName

end LoaderInfo

/-- The fields of a thread. -/
structure ThreadInfo where
  name : String
  osThreadId : Nat
  /-- The runtime's own number for the thread, while it is attached. -/
  managedThreadId : Option Nat := none
  deriving DecidableEq

/-- The fields of an artifact of any kind that the runtime owns. -/
inductive ArtifactInfo where
  | classLoader (info : LoaderInfo)
  | module (info : ModuleInfo)
  | package (info : PackageInfo)
  | cls (info : ClassInfo)
  | method (info : MethodInfo)
  | thread (info : ThreadInfo)
  deriving DecidableEq

namespace ArtifactInfo

/-- The kind of artifact that has such fields. -/
def kind : ArtifactInfo → Kind
  | classLoader _ => .classLoader
  | module _ => .module
  | package _ => .package
  | cls _ => .cls
  | method _ => .method
  | thread _ => .thread

end ArtifactInfo

/-- Read access to the runtime's artifacts. -/
structure MetadataGraph where
  classLoader : Handle → Option LoaderInfo
  module : Handle → Option ModuleInfo
  package : Handle → Option PackageInfo
  cls : Handle → Option ClassInfo
  method : Handle → Option MethodInfo
  thread : Handle → Option ThreadInfo
  /-- The classes about to be reclaimed, in the order of their announcement. -/
  unloading : List Handle

namespace MetadataGraph

/-- The fields of an artifact. Symbols are not the runtime's. -/
def describe? (g : MetadataGraph) (a : Artifact) : Option ArtifactInfo :=
  match a.kind with
  | .symbol => none
  | .classLoader => (g.classLoader a.handle).map .classLoader
  | .module => (g.module a.handle).map .module
  | .package => (g.package a.handle).map .package
  | .cls => (g.cls a.handle).map .cls
  | .method => (g.method a.handle).map .method
  | .thread => (g.thread a.handle).map .thread

/-- The fields that the graph has for an artifact are those of its kind. -/
theorem kind_of_describe? {g : MetadataGraph} {a : Artifact} {i : ArtifactInfo}
    (h : g.describe? a = some i) : a.kind = i.kind := by
  unfold describe? at h
  split at h
  case h_1 => cases h
  all_goals
    rename_i hk
    obtain ⟨_, -, rfl⟩ := Option.map_eq_some_iff.mp h
    exact hk

theorem cls_of_describe? {g : MetadataGraph} {a : Artifact} {i : ClassInfo}
    (h : g.describe? a = some (.cls i)) : ∃ n, a = .cls n ∧ g.cls n = some i := by
  obtain ⟨k, n⟩ := a
  have hk := kind_of_describe? h
  dsimp only [ArtifactInfo.kind] at hk
  subst hk
  obtain ⟨j, hj, heq⟩ := Option.map_eq_some_iff.mp h
  cases heq
  exact ⟨n, rfl, hj⟩

/-- Whether a class is about to be reclaimed. -/
def isUnloading (g : MetadataGraph) (h : Handle) : Bool := g.unloading.contains h

end MetadataGraph

end TraceTypes
