import TraceTypes.Checkpoint.Record
import TraceTypes.Identity.Registries
import TraceTypes.Metadata
/-!
# Capture of unloading classes

Just before the runtime reclaims classes, what their last records need is
copied out of the graph. A class that never had an id gets one now, so that its
last record can name it. The loader's name is copied too, since the loader may
go with the class.
-/

namespace TraceTypes

/-- A class captured before it is reclaimed. -/
structure CapturedClass where
  handle : Handle
  id : TraceId
  /-- Whether the capture handed out the id. -/
  fresh : Bool
  name : String
  /-- The loader's id, if the loader was ever written. -/
  loader : Option TraceId
  /-- The loader's name, if the graph has the loader. -/
  loaderName : Option String
  deriving DecidableEq

namespace CapturedClass

/-- The last record of the class. -/
def record (c : CapturedClass) : Record := .unloadedClass c.id c.name c.loader c.loaderName

end CapturedClass

namespace UnloadCapture

/-- The id and name of a class's loader, as far as they are known. -/
def loader (g : MetadataGraph) (r : Registries) (bootstrapName : String) (c : ClassInfo) :
    Option TraceId × Option String :=
  match c.loader with
  | none => (some bootstrapId, some bootstrapName)
  | some l => (r.id? (.classLoader l), (g.classLoader l).map LoaderInfo.displayName)

/-- Capture one class. -/
def captureOne (g : MetadataGraph) (bootstrapName : String) (h : Handle) (r : Registries) :
    Except Violation (CapturedClass × Registries) :=
  match g.cls h with
  | none => .error (.danglingArtifact (.cls h))
  | some c =>
    match r.register (.cls h) with
    | .error v => .error v
    | .ok ((id, fresh), r) =>
      let l := loader g r bootstrapName c
      .ok (⟨h, id, fresh, c.name, l.1, l.2⟩, r)

/-- Take back the ids that a capture handed out. -/
def rollback (l : List CapturedClass) (r : Registries) : Registries :=
  r.unregisterAll ((l.filter CapturedClass.fresh).map fun c => .cls c.handle)

/-- Capture classes behind those captured already; a violation rolls all of them back. -/
def captureOnto (g : MetadataGraph) (bootstrapName : String) :
    List Handle → List CapturedClass → EStateM Violation Registries (List CapturedClass)
  | [], l => fun r => .ok l r
  | h :: rest, l => fun r =>
    match captureOne g bootstrapName h r with
    | .error v => .error v (rollback l r)
    | .ok (c, r) => captureOnto g bootstrapName rest (l ++ [c]) r

/-- Capture every class that the graph announces, each once. -/
def capture (g : MetadataGraph) (bootstrapName : String) :
    EStateM Violation Registries (List CapturedClass) :=
  captureOnto g bootstrapName g.unloading.eraseDups []

end UnloadCapture

end TraceTypes
