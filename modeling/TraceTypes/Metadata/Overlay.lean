import TraceTypes.Metadata
import TraceTypes.SlotTable
/-!
# Overlays

An overlay lays fields of its own over a metadata graph. Where it has fields of
the right kind for an artifact they are the answer, and the graph below answers
the rest. The classes about to be reclaimed are always those of the graph below.
-/

namespace TraceTypes

/-- Fields laid over a graph. -/
structure Overlay where
  fields : SlotTable Artifact ArtifactInfo := .empty
  deriving DecidableEq

namespace Overlay

/-- Lay fields over an artifact. -/
def put (o : Overlay) (a : Artifact) (i : ArtifactInfo) : Overlay := ⟨o.fields.insert a i⟩

/-- Withdraw the fields of an artifact; tells whether there were any. -/
def take (o : Overlay) (a : Artifact) : Bool × Overlay :=
  (o.fields.contains a, ⟨o.fields.erase a⟩)

/-- The graph as seen through the overlay. -/
def layOnto (o : Overlay) (g : MetadataGraph) : MetadataGraph where
  classLoader h := match o.fields.get? (.classLoader h) with
    | some (.classLoader i) => some i
    | _ => g.classLoader h
  module h := match o.fields.get? (.module h) with
    | some (.module i) => some i
    | _ => g.module h
  package h := match o.fields.get? (.package h) with
    | some (.package i) => some i
    | _ => g.package h
  cls h := match o.fields.get? (.cls h) with
    | some (.cls i) => some i
    | _ => g.cls h
  method h := match o.fields.get? (.method h) with
    | some (.method i) => some i
    | _ => g.method h
  thread h := match o.fields.get? (.thread h) with
    | some (.thread i) => some i
    | _ => g.thread h
  unloading := g.unloading

end Overlay

end TraceTypes
