import TraceTypes.TypeSet.Serialize
import TraceTypes.UnloadCapture
/-!
# Class unloading

Before the runtime reclaims classes, each of them gets a last record in a
segment of its own. Afterwards the class is forgotten together with its
methods: those registered as its own, and those that are tagged and that the
graph says it declares, which may not have been written yet.
-/

namespace TraceTypes.TypeSet

/-- The methods that go with a class. -/
def methodsOf (t : TypeSet) (g : MetadataGraph) (h : Handle) : List Handle :=
  let owned := t.registeredMethods h
  let tagged := t.marks.carrying .referenced .method
  owned ++ tagged.filter fun m =>
    !owned.contains m && (g.method m).any fun i => i.holder == h

/-- Forget captured classes with their methods, in the order of their capture. -/
def forgetCaptured (t : TypeSet) (g : MetadataGraph) (l : List CapturedClass) : TypeSet :=
  t.forgetClasses (fun t h => t.methodsOf g h) (l.map CapturedClass.handle)

/-- Count a class-unload segment. -/
def addCapture (t : TypeSet) (classes : Nat) : TypeSet :=
  { t with totals := { t.totals with
      unloadCaptures := t.totals.unloadCaptures + 1
      classesUnloaded := t.totals.classesUnloaded + classes } }

variable {σ : Type} [Sink σ]

/-- Write the last record of every class that is about to be reclaimed. The answer is their
number. -/
def captureUnloading (t : TypeSet) (g : MetadataGraph) (w : σ) : Outcome σ Nat :=
  if t.isPoisoned then ⟨.error .poisoned, t, w⟩
  else
    match UnloadCapture.capture g t.settings.bootstrapLoaderName t.registries with
    | .error v r => ⟨.error (.violation v), { t with registries := r }.poison v, w⟩
    | .ok l r =>
      let t := { t with registries := r }
      if l.isEmpty then ⟨.ok 0, t, w⟩
      else
        let header : Header := ⟨.classUnload, t.epoch.generation, false⟩
        match Sink.send header (l.map CapturedClass.record) w with
        | .error e w =>
          let t := { t with registries := UnloadCapture.rollback l t.registries }
          ⟨.error (.sink e), t.countFailure, Sink.discard w⟩
        | .ok _ w => ⟨.ok l.length, (t.forgetCaptured g l).addCapture l.length, w⟩

end TraceTypes.TypeSet
