import TraceTypes.Pass
import TraceTypes.Proofs.Actions
import TraceTypes.Proofs.Expansion
import TraceTypes.Proofs.Identity
/-!
# Planning only adds

Planning is put together from a few changes of the pass. `PassM.Stable c P` says
that none of them breaks the property `P`, and then no plan does, however it
ends (`Stable.planAll`). `PassM.SymbolStable P` says so of the changes that are
made for symbols and notes, which is what the building of a record comes to
apart from the registration of its artifact.

The first such property is that the pass has only added to registries and
symbols (`Pass.Grown`): the artifacts listed as fresh got an id, no other
look-up has changed but for the owners of methods, and the texts that were
interned before keep their places. That is what makes it possible to undo a
plan (`grown_planAll`).
-/

namespace TraceTypes

namespace PassM

variable {s s' : Pass} {c : PassScope} {P : Pass → Prop}

theorem keeps_dependency (a : Artifact) : Keeps P (dependency a) := by
  intro s hs
  unfold dependency
  cases s.registries.id? a <;> exact hs

theorem keeps_optionalDependency (a : Option Artifact) : Keeps P (optionalDependency a) := by
  cases a with
  | none => exact .pure none
  | some d => exact .bind (keeps_dependency d) fun _ => .pure _

/-! ## What the building of records keeps -/

variable (P) in
/-- No change that is made for a symbol, the bootstrap loader or a note breaks the property. What
the building of a record changes beside is the registration of its artifact. -/
structure SymbolStable : Prop where
  register : ∀ a, a.kind = .symbol → Keeps P (register a)
  intern : ∀ text, Keeps P (intern text)
  writeSymbol : ∀ a id text, a.kind = .symbol → Keeps P (writeSymbol a id text)
  writeBootstrap : ∀ name, Keeps P (writeBootstrap name)
  noteUnloading : ∀ h unloading, Keeps P (noteUnloading h unloading)

namespace SymbolStable

variable (hP : SymbolStable P)
include hP

theorem symbol (text : String) : Keeps P (symbol c text) := by
  refine (hP.intern text).bind_of fun s a s₁ h => ?_
  have hkind : a.kind = .symbol := by
    cases h
    exact s.symbols.kind_intern text
  refine .bind (hP.register a hkind) fun id => .bind (fun s hs => ?_) fun _ => .pure id
  unfold announce
  split
  · exact hs
  · exact hP.writeSymbol a id text hkind s hs

theorem optionalSymbol (text : Option String) : Keeps P (optionalSymbol c text) := by
  cases text with
  | none => exact .pure none
  | some t => exact .bind (hP.symbol t) fun _ => .pure _

theorem taggedSymbol {a : Artifact} (ha : a.kind = .symbol) : Keeps P (taggedSymbol a) := by
  intro s hs
  unfold PassM.taggedSymbol
  split
  · exact hs
  · cases s.symbols.text? a.handle with
    | none => exact hs
    | some text =>
        exact Keeps.bind (hP.register a ha) (fun id => hP.writeSymbol a id text ha) s hs

theorem bootstrap : Keeps P (bootstrap c) := by
  intro s hs
  unfold PassM.bootstrap
  split
  · -- the name of the loader is interned in front of its record
    refine Keeps.bind (hP.symbol _) (fun name => ?_) s hs
    exact .bind (hP.writeBootstrap name) fun _ => .pure _
  · exact hs

theorem loader (l : Option Handle) : Keeps P (loader c l) := by
  cases l with
  | none => exact hP.bootstrap
  | some l => exact keeps_dependency _

theorem buildRecord {a : Artifact} {i : ArtifactInfo} (h : i.kind = a.kind)
    (hregister : a.kind ≠ .method → Keeps P (PassM.register a))
    (hmethod : ∀ j (f : TraceId → Record), i = .method j → Keeps P (do
      let id ← PassM.register a
      noteOwner a j.holder
      return f id)) : Keeps P (buildRecord c a i) := by
  cases i with
  | cls i =>
      refine .bind (hP.symbol _) fun _ => ?_
      refine .bind (hP.loader _) fun _ => ?_
      refine .bind (keeps_optionalDependency _) fun _ => ?_
      refine .bind (keeps_optionalDependency _) fun _ => ?_
      refine .bind (keeps_optionalDependency _) fun _ => ?_
      refine .bind (hP.noteUnloading _ _) fun _ => ?_
      exact .bind (hregister (by rw [← h]; simp [ArtifactInfo.kind])) fun _ => .pure _
  | method i =>
      refine .bind (keeps_dependency _) fun _ => ?_
      refine .bind (hP.symbol _) fun _ => ?_
      refine .bind (hP.symbol _) fun _ => ?_
      exact hmethod i _ rfl
  | package i =>
      refine .bind (hP.symbol _) fun _ => ?_
      refine .bind (keeps_optionalDependency _) fun _ => ?_
      exact .bind (hregister (by rw [← h]; simp [ArtifactInfo.kind])) fun _ => .pure _
  | module i =>
      refine .bind (hP.symbol _) fun _ => ?_
      refine .bind (hP.optionalSymbol _) fun _ => ?_
      refine .bind (hP.optionalSymbol _) fun _ => ?_
      exact .bind (hregister (by rw [← h]; simp [ArtifactInfo.kind])) fun _ => .pure _
  | classLoader i =>
      refine .bind (hP.optionalSymbol _) fun _ => ?_
      refine .bind (hP.symbol _) fun _ => ?_
      exact .bind (hregister (by rw [← h]; simp [ArtifactInfo.kind])) fun _ => .pure _
  | thread i =>
      refine .bind (hP.symbol _) fun _ => ?_
      exact .bind (hregister (by rw [← h]; simp [ArtifactInfo.kind])) fun _ => .pure _

end SymbolStable

/-! ## What every plan keeps -/

variable (c P) in
/-- No single change that planning makes breaks the property. A method is registered together with
its owner, so that the property may tie the two. -/
structure Stable : Prop where
  register : ∀ a, a.kind ≠ .method → Keeps P (register a)
  method : ∀ a i (f : TraceId → Record), c.graph.describe? a = some (.method i) →
    Keeps P (do
      let id ← PassM.register a
      noteOwner a i.holder
      return f id)
  intern : ∀ text, Keeps P (intern text)
  write : ∀ subject record, Keeps P (write subject record)
  writeSymbol : ∀ a id text, Keeps P (writeSymbol a id text)
  writeBootstrap : ∀ name, Keeps P (writeBootstrap name)
  noteUnloading : ∀ h unloading, Keeps P (noteUnloading h unloading)
  noteClass : ∀ a i, c.graph.describe? a = some i → Keeps P (noteClass a i)
  expand : ∀ a, Keeps P (expand c a)

/-- What an expansion lists comes with its fields. -/
theorem describe?_of_expand {a : Artifact} {l : List (Artifact × ArtifactInfo)}
    (h : expand c a s = .ok l s') {b : Artifact} {i : ArtifactInfo} (hb : (b, i) ∈ l) :
    c.graph.describe? b = some i := by
  unfold expand at h
  cases he : s.plan.expand c.graph c.stillValid a with
  | error v p => rw [he] at h; cases h
  | ok order p =>
      rw [he] at h
      cases h
      rcases EmissionPlan.expand_cases he with ⟨-, rfl, -⟩ | ⟨-, hplace, -⟩
      · cases hb
      · exact (hplace.mem hb).1

namespace Stable

variable (hP : Stable c P)
include hP

theorem symbolStable : SymbolStable P where
  register a ha := hP.register a (by rw [ha]; simp)
  intern := hP.intern
  writeSymbol a id text _ := hP.writeSymbol a id text
  writeBootstrap := hP.writeBootstrap
  noteUnloading := hP.noteUnloading

theorem buildRecord {a : Artifact} {i : ArtifactInfo} (h : c.graph.describe? a = some i) :
    Keeps P (buildRecord c a i) :=
  hP.symbolStable.buildRecord (MetadataGraph.kind_of_describe? h).symm (hP.register a)
    fun j f hi => hP.method a j f (hi ▸ h)

theorem emitAll {l : List (Artifact × ArtifactInfo)}
    (h : ∀ a i, (a, i) ∈ l → c.graph.describe? a = some i) : Keeps P (emitAll c l) := by
  induction l with
  | nil => exact .pure _
  | cons p rest ih =>
      obtain ⟨a, i⟩ := p
      have hi := h a i List.mem_cons_self
      refine .bind (hP.noteClass a i hi) fun _ => ?_
      refine .bind (hP.buildRecord hi) fun _ => ?_
      refine .bind (hP.write _ _) fun _ => ?_
      exact ih fun b j hb => h b j (List.mem_cons_of_mem _ hb)

theorem visit (a : Artifact) : Keeps P (visit c a) := by
  unfold PassM.visit
  split
  · rename_i ha
    exact hP.symbolStable.taggedSymbol ha
  · exact (hP.expand a).bind_of fun _ _ _ h => hP.emitAll fun _ _ hb => describe?_of_expand h hb

theorem visitAll (l : List Artifact) : Keeps P (visitAll c l) := by
  induction l with
  | nil => exact .pure _
  | cons a rest ih => exact .bind (hP.visit a) fun _ => ih

/-- What holds of a pass before the first tagged artifact holds however its plan ends. -/
theorem planAll {r : Registries} {y : SymbolTable} (h : P (Pass.start r y c.settings)) :
    P (endState (Pass.planAll c r y)) := hP.visitAll c.marks.allTagged _ h

end Stable

/-- A property of the classes noted and the depth limit is stable if the noting of a class keeps
it. -/
theorem stable_of_classes
    (hframe : ∀ s s', s'.classes = s.classes → s'.plan.maxDepth = s.plan.maxDepth → P s → P s')
    (hnote : ∀ a i, c.graph.describe? a = some i → Keeps P (noteClass a i)) : Stable c P := by
  have hregister (a : Artifact) : Keeps P (register a) := by
    intro s hs
    unfold register
    cases s.registries.register a with
    | error v => exact hs
    | ok q => exact hframe s _ rfl rfl hs
  constructor
  case register => exact fun a _ => hregister a
  case method =>
    intro a i f _
    refine .bind (hregister a) fun _ => ?_
    exact .bind (.modify fun s hs => hframe s _ rfl rfl hs) fun _ => .pure _
  case intern => exact fun _ s hs => hframe s _ rfl rfl hs
  case write => exact fun _ _ s hs => hframe s _ rfl rfl hs
  case writeSymbol => exact fun _ _ _ s hs => hframe s _ rfl rfl hs
  case writeBootstrap => exact fun _ s hs => hframe s _ rfl rfl hs
  case noteUnloading => exact fun _ _ s hs => hframe s _ rfl rfl hs
  case noteClass => exact hnote
  case expand =>
    intro a s hs
    have hdepth := EmissionPlan.maxDepth_expand c.graph c.stillValid a s.plan
    unfold expand
    cases he : s.plan.expand c.graph c.stillValid a with
    | error v p =>
        rw [he] at hdepth
        exact hframe s _ rfl hdepth hs
    | ok order p =>
        rw [he] at hdepth
        exact hframe s _ rfl hdepth hs

end PassM

/-! ## Registries and symbols grow -/

/-- What a pass has made of the registries and symbols that it started with. -/
structure Pass.Grown (r : Registries) (y : SymbolTable) (s : Pass) : Prop where
  registries : r.Extends s.registries s.fresh
  wf : r.WF → s.registries.WF
  texts : y.texts <+: s.symbols.texts

theorem Pass.grown_start (r : Registries) (y : SymbolTable) (settings : Settings) :
    (Pass.start r y settings).Grown r y :=
  ⟨.refl r, id, List.prefix_rfl⟩

namespace PassM

variable {r : Registries} {y : SymbolTable} (c : PassScope)

theorem keeps_grown_register (a : Artifact) : Keeps (Pass.Grown r y) (register a) := by
  intro s hs
  unfold register
  cases h : s.registries.register a with
  | error v => exact hs
  | ok p =>
      obtain ⟨⟨id, fresh⟩, r'⟩ := p
      exact ⟨hs.registries.register h, fun hwf => (hs.wf hwf).register h, hs.texts⟩

theorem keeps_grown_write (subject : Option Artifact) (record : Record) :
    Keeps (Pass.Grown r y) (write subject record) :=
  .modify fun _ hs => ⟨hs.registries, hs.wf, hs.texts⟩

theorem keeps_grown_intern (text : String) : Keeps (Pass.Grown r y) (intern text) :=
  fun s hs =>
    ⟨hs.registries, hs.wf, hs.texts.trans (s.symbols.prefix_intern text)⟩

theorem keeps_grown_writeSymbol (a : Artifact) (id : TraceId) (text : String) :
    Keeps (Pass.Grown r y) (writeSymbol a id text) :=
  .bind (.modify fun _ hs => ⟨hs.registries, hs.wf, hs.texts⟩) fun _ => keeps_grown_write _ _

theorem keeps_grown_noteUnloading (h : Handle) (unloading : Bool) :
    Keeps (Pass.Grown r y) (noteUnloading h unloading) :=
  .modify fun _ hs => ⟨hs.registries, hs.wf, hs.texts⟩

theorem keeps_grown_noteOwner {a : Artifact} (ha : a.kind = .method) (owner : Handle) :
    Keeps (Pass.Grown r y) (noteOwner a owner) :=
  .modify fun _ hs =>
    ⟨hs.registries.setOwner ha owner, fun hwf => (hs.wf hwf).setOwner a owner, hs.texts⟩

theorem keeps_grown_noteClass (a : Artifact) (i : ArtifactInfo) :
    Keeps (Pass.Grown r y) (noteClass a i) := by
  cases i with
  | cls i => exact .modify fun _ hs => ⟨hs.registries, hs.wf, hs.texts⟩
  | classLoader | module | package | method | thread => exact .pure _

theorem keeps_grown_expand (a : Artifact) : Keeps (Pass.Grown r y) (expand c a) := by
  intro s hs
  unfold expand
  cases s.plan.expand c.graph c.stillValid a <;> exact ⟨hs.registries, hs.wf, hs.texts⟩

theorem stable_grown (r : Registries) (y : SymbolTable) : Stable c (Pass.Grown r y) where
  register a _ := keeps_grown_register a
  method a i _ h := by
    refine .bind (keeps_grown_register a) fun _ => ?_
    -- the only owners that change are those of methods
    exact .bind (keeps_grown_noteOwner (MetadataGraph.kind_of_describe? h) _) fun _ => .pure _
  intern := keeps_grown_intern
  write := keeps_grown_write
  writeSymbol := keeps_grown_writeSymbol
  writeBootstrap _ :=
    .bind (.modify fun _ hs => ⟨hs.registries, hs.wf, hs.texts⟩) fun _ => keeps_grown_write _ _
  noteUnloading := keeps_grown_noteUnloading
  noteClass a i _ := keeps_grown_noteClass a i
  expand := keeps_grown_expand c

end PassM

/-- However a plan ends, it has only added to registries and symbols. -/
theorem Pass.grown_planAll (c : PassScope) (r : Registries) (y : SymbolTable) :
    (endState (Pass.planAll c r y)).Grown r y :=
  (PassM.stable_grown c r y).planAll (Pass.grown_start r y c.settings)

end TraceTypes
