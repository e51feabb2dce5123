import TraceTypes.Pass
import TraceTypes.TypeSet
/-!
# Serialize passes

A pass writes every tagged artifact, dependencies first, as one segment, and if
there is a leak sink a reduced record of each class there. It has four stages.

* **plan**: build all records in memory; a violation undoes the registrations
  of the pass and poisons the type set;
* **stage**: open both segments and append their records;
* **commit main**: up to here a sink's error discards both segments and undoes
  the registrations;
* **commit leak**: a sink's error discards the leak segment only. The main
  segment stays, and the pass counts as made.

Only then do marks change, and classes written as unloading are forgotten.
-/

namespace TraceTypes

/-- How a pass is made. -/
structure PassFlags where
  /-- Write classes about to be reclaimed as unloading, and forget them. -/
  classUnload : Bool := false
  /-- Leave the tags in place. -/
  flushpoint : Bool := false
  deriving DecidableEq

/-- The sinks of a pass. -/
structure Sinks (σ τ : Type) where
  main : σ
  leak : Option τ

/-- Answers can be compared. -/
instance decEqAnswer {ε α : Type} [DecidableEq ε] [DecidableEq α] : DecidableEq (Except ε α)
  | .ok a, .ok b => decidable_of_iff (a = b) ⟨congrArg Except.ok, Except.ok.inj⟩
  | .error a, .error b => decidable_of_iff (a = b) ⟨congrArg Except.error, Except.error.inj⟩
  | .ok _, .error _ | .error _, .ok _ => isFalse nofun

/-- What an operation that writes comes to: its answer, and the states it leaves behind. -/
structure Outcome (σ α : Type) where
  result : Except TypeSetError α
  types : TypeSet
  sinks : σ

/-- A planned pass. -/
structure Batch where
  /-- The records of the main segment, with their artifacts. -/
  entries : List Entry
  /-- The artifacts that got their id in the pass. -/
  fresh : List Artifact
  /-- The tagged artifacts that the pass was made for. -/
  processed : List Artifact
  /-- The classes written as unloading. -/
  unloading : List Handle
  /-- Whether the main segment has the record of the bootstrap loader. -/
  bootstrapEmitted : Bool
  /-- The classes marked for the leak stream that the pass answers. -/
  leakClasses : List Handle
  /-- The write to the leak stream, if there is a leak sink. -/
  leak : Option PendingLeak
  deriving DecidableEq

namespace Batch

/-- The records of the main segment. -/
def records (b : Batch) : List Record := b.entries.map Entry.record

/-- The artifacts that have a record in the main segment. -/
def emitted (b : Batch) : List Artifact := Entry.subjects b.entries

/-- The records of the leak segment. -/
def leakRecords (b : Batch) : List Record := (b.leak.map PendingLeak.records).getD []

end Batch

namespace TypeSet

/-- What a pass reads of the type set. -/
def scope (t : TypeSet) (g : MetadataGraph) (classUnload : Bool) : PassScope where
  graph := g
  marks := t.marks
  settings := t.settings
  classUnload := classUnload
  bootstrapWritten := t.bootstrapWritten

/-- Take over what a pass did to registries and symbols. -/
def absorb (t : TypeSet) (s : Pass) : TypeSet :=
  { t with registries := s.registries, symbols := s.symbols }

/-- Undo registrations, the latest first. -/
def unregister (t : TypeSet) (fresh : List Artifact) : TypeSet :=
  { t with registries := t.registries.unregisterAll fresh.reverse }

/-- Plan the main segment of a pass and, if there is a leak sink, list the classes for it. A
violation undoes the registrations. -/
def planMain (t : TypeSet) (g : MetadataGraph) (classUnload withLeak : Bool) :
    EStateM.Result Violation TypeSet (Pass × List (Handle × ClassInfo)) :=
  let c := t.scope g classUnload
  match Pass.planAll c t.registries t.symbols with
  | .error v s => .error v ((t.absorb s).unregister s.fresh)
  | .ok () s =>
    if withLeak then
      match s.leakClasses c with
      | .error v => .error v ((t.absorb s).unregister s.fresh)
      | .ok classes => .ok (s, classes) (t.absorb s)
    else .ok (s, []) (t.absorb s)

/-- Plan a pass: the main segment first, then the leak segment. A violation undoes the
registrations of the main stream. -/
def plan (t : TypeSet) (g : MetadataGraph) (classUnload withLeak : Bool) :
    EStateM.Result Violation TypeSet Batch :=
  match t.planMain g classUnload withLeak with
  | .error v t => .error v t
  | .ok (s, classes) t' =>
    let batch (leak : Option PendingLeak) : Batch := {
      entries := s.entries
      fresh := s.fresh
      processed := t.marks.allTagged
      unloading := s.unloading
      bootstrapEmitted := s.bootstrapEmitted
      leakClasses := classes.map Prod.fst
      leak := leak }
    if withLeak then
      match LeakStream.prepare g t.settings.bootstrapLoaderName t.epoch.generation classes
          t'.leak with
      | .error v leak => .error v ({ t' with leak := leak }.unregister s.fresh)
      | .ok p leak => .ok (batch (some p)) { t' with leak := leak }
    else .ok (batch none) t'

/-- Undo the registrations of a planned pass on both streams. -/
def rollback (t : TypeSet) (b : Batch) : TypeSet :=
  let t := t.unregister b.fresh
  match b.leak with
  | none => t
  | some p => { t with leak := t.leak.rollback p }

/-- The leak write is done: its classes are known to look-ups and lose their leak marks. -/
def commitLeak (t : TypeSet) (b : Batch) (p : PendingLeak) : TypeSet :=
  { t with
    marks := b.leakClasses.foldl (fun m h => m.lower .leak (.cls h)) t.marks
    leak := t.leak.commit p }

/-- The main write is done: what has a record is serialized, and unless at a flushpoint the tags
that the pass was made for are gone. -/
def markWritten (t : TypeSet) (b : Batch) (flushpoint : Bool) : TypeSet :=
  let marks := b.emitted.foldl (fun m a => (m.raise .serialized a).2) t.marks
  let marks :=
    if flushpoint then marks else b.processed.foldl (fun m a => m.lower .referenced a) marks
  { t with marks := marks, bootstrapWritten := t.bootstrapWritten || b.bootstrapEmitted }

/-- The main write is done: marks follow, and unloading classes are forgotten with the methods
registered as theirs. -/
def commitMain (t : TypeSet) (b : Batch) (flushpoint : Bool) : TypeSet :=
  (t.markWritten b flushpoint).forgetClasses registeredMethods b.unloading

/-- Count a pass. -/
def addPass (t : TypeSet) (s : PassSummary) : TypeSet :=
  { t with totals := t.totals.addPass s, lastSummary := some s }

end TypeSet

namespace Sinks

variable {σ τ α : Type} [Sink σ] [Sink τ]

/-- Act on the main sink. -/
def onMain (act : EStateM SinkError σ α) : EStateM SinkError (Sinks σ τ) α := fun w =>
  match act w.main with
  | .ok v main => .ok v { w with main := main }
  | .error e main => .error e { w with main := main }

/-- Act on the leak sink; without one there is nothing to do. -/
def onLeak (dflt : α) (act : EStateM SinkError τ α) : EStateM SinkError (Sinks σ τ) α := fun w =>
  match w.leak with
  | none => .ok dflt w
  | some leak =>
    match act leak with
    | .ok v leak => .ok v { w with leak := some leak }
    | .error e leak => .error e { w with leak := some leak }

/-- Stage both segments of a pass and commit the main one. -/
def commitMain (h : Header) (b : Batch) : EStateM SinkError (Sinks σ τ) Nat := do
  onMain (Sink.stage h b.records)
  onLeak () (Sink.stage { h with kind := .leakProfiler } b.leakRecords)
  onMain (Sink.finish b.records)

/-- Discard the open segment of the leak sink. -/
def discardLeak (w : Sinks σ τ) : Sinks σ τ := { w with leak := w.leak.map Sink.discard }

/-- Discard the open segments of both sinks. -/
def discard (w : Sinks σ τ) : Sinks σ τ := { w.discardLeak with main := Sink.discard w.main }

end Sinks

namespace TypeSet

variable {σ τ : Type} [Sink σ] [Sink τ]

/-- What follows when the main segment of a pass is committed. The answer is its size, or the error
that kept the leak segment from being committed. -/
def finishPass (t : TypeSet) (flags : PassFlags) (b : Batch) (bytes : Nat) (w : Sinks σ τ) :
    Outcome (Sinks σ τ) Nat :=
  let summary : PassSummary := ({
    bytes := bytes
    flushpoint := flags.flushpoint
    classUnload := flags.classUnload
    generation := t.epoch.generation } : PassSummary).countAll b.records
  let commit (t : TypeSet) (summary : PassSummary) : TypeSet :=
    (t.commitMain b flags.flushpoint).addPass { summary with unloaded := b.unloading.length }
  match b.leak with
  | none => ⟨.ok bytes, commit t summary, w⟩
  | some p =>
    match (Sinks.onLeak 0 (Sink.finish p.records) : EStateM SinkError (Sinks σ τ) Nat) w with
    | .ok leakBytes w =>
      let summary := { summary with leakBytes := leakBytes, leakClasses := p.entries.length }
      ⟨.ok bytes, commit (t.commitLeak b p) summary, w⟩
    | .error e w =>
      let t := commit { t with leak := t.leak.rollback p } summary
      ⟨.error (.sink e), t.countFailure, w.discardLeak⟩

/-- Write every tagged artifact, dependencies first, as one segment. The answer is the size of the
segment; without tagged artifacts there is no segment and the size is zero. -/
def serialize (t : TypeSet) (g : MetadataGraph) (flags : PassFlags) (w : Sinks σ τ) :
    Outcome (Sinks σ τ) Nat :=
  if t.isPoisoned then ⟨.error .poisoned, t, w⟩
  else
    match t.plan g flags.classUnload w.leak.isSome with
    | .error v t => ⟨.error (.violation v), t.poison v, w⟩
    | .ok b t =>
      let header : Header := ⟨.typeSet, t.epoch.generation, flags.flushpoint⟩
      match (Sinks.commitMain header b : EStateM SinkError (Sinks σ τ) Nat) w with
      | .error e w => ⟨.error (.sink e), (t.rollback b).countFailure, w.discard⟩
      | .ok bytes w => t.finishPass flags b bytes w

end TypeSet

end TraceTypes
