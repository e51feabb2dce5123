import TraceTypes.Checkpoint.Record
import TraceTypes.Dependency.Expansion
import TraceTypes.Identity.Registries
import TraceTypes.Marks
import TraceTypes.Settings
import TraceTypes.Symbols
/-!
# Planning a pass

A serialize pass is planned in memory before anything is written. Kind by kind,
each tagged artifact is expanded into its dependencies, and for every artifact
of the expansion a record is built: its texts become symbols, which get a
record of their own in front when the pass needs one, and the artifact itself
and its symbols are registered. What the record refers to must be registered
already; the order of the expansion sees to that.

A plan that meets a violation is given up, and then its registrations are
undone. The symbols it interned and the ids it used up stay used.
-/

namespace TraceTypes

/-- What a pass reads and does not change. -/
structure PassScope where
  graph : MetadataGraph
  marks : MarkTable
  settings : Settings
  /-- Whether classes about to be reclaimed are written as unloading. -/
  classUnload : Bool
  /-- Whether the bootstrap loader was written in this epoch already. -/
  bootstrapWritten : Bool

namespace PassScope

/-- Whether an earlier record of the artifact can be referred to: it was emitted in this epoch and
is not tagged to be emitted again. -/
def stillValid (c : PassScope) (a : Artifact) : Bool :=
  c.marks.isSerialized a && !c.marks.isTagged a

end PassScope

/-- A pass while it is planned. -/
structure Pass where
  registries : Registries
  symbols : SymbolTable
  plan : EmissionPlan
  /-- The records, in emission order, with their artifacts. -/
  entries : List Entry := []
  /-- The artifacts that got their id in this pass. -/
  fresh : List Artifact := []
  /-- The classes written as unloading. -/
  unloading : List Handle := []
  /-- The classes that have a record in this pass, with their fields. -/
  classes : List (Handle × ClassInfo) := []
  /-- Whether this pass has written the bootstrap loader. -/
  bootstrapEmitted : Bool := false

/-- A step of planning. A violation ends it and leaves the state that was reached. -/
abbrev PassM := EStateM Violation Pass

namespace PassM

/-- Give an artifact an id, or find the one it has. -/
def register (a : Artifact) : PassM TraceId := fun s =>
  match s.registries.register a with
  | .error v => .error v s
  | .ok ((id, fresh), r) =>
    .ok id { s with registries := r, fresh := if fresh then s.fresh ++ [a] else s.fresh }

/-- The id of an artifact that was written before. -/
def dependency (a : Artifact) : PassM TraceId := fun s =>
  match s.registries.id? a with
  | none => .error (.danglingArtifact a) s
  | some id => .ok id s

/-- Add a record for an artifact, or one that no artifact stands behind. -/
def write (subject : Option Artifact) (r : Record) : PassM Unit :=
  modify fun s => { s with entries := s.entries ++ [⟨subject, r⟩] }

/-- Intern a text. -/
def intern (text : String) : PassM Artifact := fun s =>
  let p := s.symbols.intern text
  .ok p.1 { s with symbols := p.2 }

/-- Write the record of a symbol and place the symbol. -/
def writeSymbol (a : Artifact) (id : TraceId) (text : String) : PassM Unit := do
  modify fun s => { s with plan := s.plan.markDone a }
  write (some a) (.symbol id text)

/-- Write the record of a symbol, unless this pass or this epoch has one. -/
def announce (c : PassScope) (a : Artifact) (id : TraceId) (text : String) : PassM Unit := fun s =>
  if s.plan.isDone a || c.marks.isSerialized a then .ok () s else writeSymbol a id text s

/-- The id of a text, with the record of its symbol in front. -/
def symbol (c : PassScope) (text : String) : PassM TraceId := do
  let a ← intern text
  let id ← register a
  announce c a id text
  return id

/-- The id of a text that may be absent. -/
def optionalSymbol (c : PassScope) : Option String → PassM (Option TraceId)
  | none => pure none
  | some text => return some (← symbol c text)

/-- The id of an artifact that may be absent. -/
def optionalDependency : Option Artifact → PassM (Option TraceId)
  | none => pure none
  | some a => return some (← dependency a)

/-- The record of a tagged symbol, unless this pass has one. -/
def taggedSymbol (a : Artifact) : PassM Unit := fun s =>
  if s.plan.isDone a then .ok () s
  else
    match s.symbols.text? a.handle with
    | none => .error (.danglingArtifact a) s
    | some text => (do writeSymbol a (← register a) text : PassM Unit) s

/-- Write the record of the bootstrap loader. -/
def writeBootstrap (name : TraceId) : PassM Unit := do
  modify fun s => { s with bootstrapEmitted := true }
  write none (.classLoader bootstrapId (some name) name)

/-- The id of the bootstrap loader, with its record in front unless it is switched off or this
pass or this epoch has one. -/
def bootstrap (c : PassScope) : PassM TraceId := fun s =>
  if c.settings.emitBootstrapLoader && !c.bootstrapWritten && !s.bootstrapEmitted then
    (do
      writeBootstrap (← symbol c c.settings.bootstrapLoaderName)
      return bootstrapId : PassM TraceId) s
  else .ok bootstrapId s

/-- The id of a class's loader. -/
def loader (c : PassScope) : Option Handle → PassM TraceId
  | none => bootstrap c
  | some l => dependency (.classLoader l)

/-- Note a class that is written as unloading. -/
def noteUnloading (h : Handle) (unloading : Bool) : PassM Unit :=
  modify fun s => { s with unloading := if unloading then s.unloading ++ [h] else s.unloading }

/-- Build the record of a class. -/
def classRecord (c : PassScope) (a : Artifact) (i : ClassInfo) : PassM Record := do
  let name ← symbol c i.name
  let loader ← loader c i.loader
  let package ← optionalDependency (i.package.map Artifact.package)
  let element ← optionalDependency (i.element.map Artifact.cls)
  let superclass ← optionalDependency (i.superclass.map Artifact.cls)
  let unloading := c.classUnload && c.graph.isUnloading a.handle
  noteUnloading a.handle unloading
  let id ← register a
  return .cls id name loader package superclass element i.modifiers i.hidden unloading

/-- Note the class that owns a method. -/
def noteOwner (a : Artifact) (owner : Handle) : PassM Unit :=
  modify fun s => { s with registries := s.registries.setOwner a owner }

/-- Build the record of a method and note the class that owns it. -/
def methodRecord (c : PassScope) (a : Artifact) (i : MethodInfo) : PassM Record := do
  let holder ← dependency (.cls i.holder)
  let name ← symbol c i.name
  let descriptor ← symbol c i.descriptor
  let id ← register a
  noteOwner a i.holder
  return .method id holder name descriptor i.modifiers i.hidden

/-- Build the record of a package. -/
def packageRecord (c : PassScope) (a : Artifact) (i : PackageInfo) : PassM Record := do
  let name ← symbol c i.name
  let owner ← optionalDependency (i.module.map Artifact.module)
  let id ← register a
  return .package id name owner i.exported

/-- Build the record of a module. -/
def moduleRecord (c : PassScope) (a : Artifact) (i : ModuleInfo) : PassM Record := do
  let name ← symbol c i.name
  let version ← optionalSymbol c i.version
  let location ← optionalSymbol c i.location
  let id ← register a
  return .module id name version location

/-- Build the record of a class loader. -/
def loaderRecord (c : PassScope) (a : Artifact) (i : LoaderInfo) : PassM Record := do
  let name ← optionalSymbol c i.name
  let typeName ← symbol c i.typeName
  let id ← register a
  return .classLoader id name typeName

/-- Build the record of a thread. -/
def threadRecord (c : PassScope) (a : Artifact) (i : ThreadInfo) : PassM Record := do
  let name ← symbol c i.name
  let id ← register a
  return .thread id name i.osThreadId i.managedThreadId

/-- Build the record of an artifact from its fields. -/
def buildRecord (c : PassScope) (a : Artifact) : ArtifactInfo → PassM Record
  | .cls i => classRecord c a i
  | .method i => methodRecord c a i
  | .package i => packageRecord c a i
  | .module i => moduleRecord c a i
  | .classLoader i => loaderRecord c a i
  | .thread i => threadRecord c a i

/-- Note a class for the leak stream. -/
def noteClass (a : Artifact) : ArtifactInfo → PassM Unit
  | .cls i => modify fun s => { s with classes := s.classes ++ [(a.handle, i)] }
  | _ => pure ()

/-- Emit the artifacts of an expansion in order. -/
def emitAll (c : PassScope) : List (Artifact × ArtifactInfo) → PassM Unit
  | [] => pure ()
  | (a, i) :: rest => do
    noteClass a i
    let r ← buildRecord c a i
    write (some a) r
    emitAll c rest

/-- List an artifact behind its dependencies. -/
def expand (c : PassScope) (a : Artifact) : PassM (List (Artifact × ArtifactInfo)) := fun s =>
  match s.plan.expand c.graph c.stillValid a with
  | .ok order plan => .ok order { s with plan := plan }
  | .error v plan => .error v { s with plan := plan }

/-- Emit a tagged artifact and what it depends on. -/
def visit (c : PassScope) (a : Artifact) : PassM Unit :=
  if a.kind = .symbol then taggedSymbol a
  else do emitAll c (← expand c a)

/-- Emit tagged artifacts in order. -/
def visitAll (c : PassScope) : List Artifact → PassM Unit
  | [] => pure ()
  | a :: rest => do
    visit c a
    visitAll c rest

end PassM

namespace Pass

/-- A pass before the first tagged artifact. -/
def start (registries : Registries) (symbols : SymbolTable) (settings : Settings) : Pass where
  registries := registries
  symbols := symbols
  plan := { maxDepth := settings.maxDependencyDepth }

/-- Plan a pass over all tagged artifacts. -/
def planAll (c : PassScope) (registries : Registries) (symbols : SymbolTable) :
    EStateM.Result Violation Pass Unit :=
  PassM.visitAll c c.marks.allTagged (start registries symbols c.settings)

/-- Look up the fields of classes, up to the first that the graph does not have. -/
def describeClasses (g : MetadataGraph) : List Handle → Except Violation (List (Handle × ClassInfo))
  | [] => .ok []
  | h :: rest =>
    match g.cls h with
    | none => .error (.danglingArtifact (.cls h))
    | some i => (describeClasses g rest).map ((h, i) :: ·)

/-- The classes for the leak stream: those of the pass, then the others that carry the leak
mark. -/
def leakClasses (c : PassScope) (s : Pass) : Except Violation (List (Handle × ClassInfo)) :=
  let marked := (c.marks.carrying .leak .cls).filter fun h => !(s.classes.map Prod.fst).contains h
  (describeClasses c.graph marked).map (s.classes ++ ·)

end Pass

end TraceTypes
