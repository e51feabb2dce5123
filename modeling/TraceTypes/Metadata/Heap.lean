import TraceTypes.Metadata
import TraceTypes.SlotTable
/-!
# A metadata graph in memory

The heap holds the fields of every artifact in tables. Handles are handed out
like aligned addresses and never twice; only a class can be placed at a chosen
handle, as when the runtime reuses the memory of a reclaimed class.
-/

namespace TraceTypes

/-- The runtime's artifacts in tables. -/
structure Heap where
  /-- How many handles were handed out. -/
  allocated : Nat := 0
  classLoaders : SlotTable Handle LoaderInfo := .empty
  modules : SlotTable Handle ModuleInfo := .empty
  packages : SlotTable Handle PackageInfo := .empty
  classes : SlotTable Handle ClassInfo := .empty
  methods : SlotTable Handle MethodInfo := .empty
  threads : SlotTable Handle ThreadInfo := .empty
  /-- The classes announced for reclamation, with repetitions. -/
  unloading : List Handle := []
  deriving DecidableEq

namespace Heap

/-- The first handle. -/
def handleBase : Handle := 0x1000

/-- The distance between two handles. -/
def handleStride : Nat := 0x10

/-- The handle handed out next. -/
def nextHandle (g : Heap) : Handle := handleBase + g.allocated * handleStride

/-- Add a class loader. -/
def addClassLoader (g : Heap) (i : LoaderInfo) : Handle × Heap :=
  (g.nextHandle, { g with
    allocated := g.allocated + 1, classLoaders := g.classLoaders.insert g.nextHandle i })

/-- Add a module. -/
def addModule (g : Heap) (i : ModuleInfo) : Handle × Heap :=
  (g.nextHandle, { g with
    allocated := g.allocated + 1, modules := g.modules.insert g.nextHandle i })

/-- Add an exported package. -/
def addPackage (g : Heap) (name : String) (owner : Option Handle) : Handle × Heap :=
  (g.nextHandle, { g with
    allocated := g.allocated + 1
    packages := g.packages.insert g.nextHandle { name := name, module := owner } })

/-- Add a class. -/
def addClass (g : Heap) (i : ClassInfo) : Handle × Heap :=
  (g.nextHandle, { g with
    allocated := g.allocated + 1, classes := g.classes.insert g.nextHandle i })

/-- Place a class at a handle, in place of a class that may be there. -/
def addClassAt (g : Heap) (h : Handle) (i : ClassInfo) : Heap :=
  { g with classes := g.classes.insert h i }

/-- Add a public method to a class. -/
def addMethod (g : Heap) (holder : Handle) (name descriptor : String) : Handle × Heap :=
  (g.nextHandle, { g with
    allocated := g.allocated + 1
    methods := g.methods.insert g.nextHandle
      { holder := holder, name := name, descriptor := descriptor } })

/-- Add an attached thread. The runtime numbers threads by how many there are. -/
def addThread (g : Heap) (name : String) (osThreadId : Nat) : Handle × Heap :=
  (g.nextHandle, { g with
    allocated := g.allocated + 1
    threads := g.threads.insert g.nextHandle
      { name := name, osThreadId := osThreadId, managedThreadId := some (g.threads.size + 1) } })

/-- Replace the fields of a class that is there. -/
def setClass (g : Heap) (h : Handle) (i : ClassInfo) : Bool × Heap :=
  (g.classes.contains h, { g with classes := g.classes.modify h fun _ => i })

/-- Announce classes that are about to be reclaimed. -/
def beginUnloading (g : Heap) (classes : List Handle) : Heap :=
  { g with unloading := g.unloading ++ classes }

/-- Take back the announcements. -/
def cancelUnloading (g : Heap) : Heap := { g with unloading := [] }

/-- Reclaim one class together with the methods that it declares. -/
def reclaim (g : Heap) (h : Handle) : Heap :=
  { g with classes := g.classes.erase h, methods := g.methods.filter fun _ m => m.holder != h }

/-- Reclaim the announced classes; tells how many were there. -/
def finishUnloading (g : Heap) : Nat × Heap :=
  let start : Nat × Heap := (0, { g with unloading := [] })
  g.unloading.foldl (fun s h =>
    (s.1 + if s.2.classes.contains h then 1 else 0, s.2.reclaim h)) start

/-- Take an artifact away; tells whether it was there. -/
def remove (g : Heap) (a : Artifact) : Bool × Heap :=
  match a.kind with
  | .symbol => (false, g)
  | .classLoader =>
    (g.classLoaders.contains a.handle, { g with classLoaders := g.classLoaders.erase a.handle })
  | .module => (g.modules.contains a.handle, { g with modules := g.modules.erase a.handle })
  | .package => (g.packages.contains a.handle, { g with packages := g.packages.erase a.handle })
  | .cls => (g.classes.contains a.handle, { g with classes := g.classes.erase a.handle })
  | .method => (g.methods.contains a.handle, { g with methods := g.methods.erase a.handle })
  | .thread => (g.threads.contains a.handle, { g with threads := g.threads.erase a.handle })

/-- The heap as a metadata graph. -/
def graph (g : Heap) : MetadataGraph where
  classLoader := g.classLoaders.get?
  module := g.modules.get?
  package := g.packages.get?
  cls := g.classes.get?
  method := g.methods.get?
  thread := g.threads.get?
  unloading := g.unloading

end Heap

end TraceTypes
