import TraceTypes.Proofs.CommittedContent
import TraceTypes.Proofs.LeakIndependence
/-!
# What a leak mark does to the main stream

All marks of a class stand in one slot, and the slot is there from the first
mark on. So a leak mark can give a class its place among the classes that are
enumerated later, and with it the order of records and ids on the main stream
(`Script.leak_tag_shows`). It can do nothing else:

* `TypeSet.Alike.serialize` — on type sets that differ in leak marks, a pass
  without a leak sink comes to the same, provided that they enumerate the
  tagged artifacts in the same order;
* `Script.SameCalls` — runs that differ in leak marks only;
* `Script.observe_eq` — what they show on the main stream.
-/

namespace TraceTypes

/-! ## Passes that read the same -/

namespace PassScope.Alike

variable {c c' : PassScope}

section Actions

variable (h : c.Alike c')

include h

theorem stillValid : c'.stillValid = c.stillValid := by
  funext a
  unfold PassScope.stillValid
  rw [h.serialized, h.tagged]

theorem announce (a : Artifact) (id : TraceId) (text : String) :
    PassM.announce c' a id text = PassM.announce c a id text := by
  funext s
  unfold PassM.announce
  rw [h.serialized]

theorem symbol (text : String) : PassM.symbol c' text = PassM.symbol c text := by
  unfold PassM.symbol
  simp only [h.announce]

theorem optionalSymbol (text : Option String) :
    PassM.optionalSymbol c' text = PassM.optionalSymbol c text := by
  cases text with
  | none => rfl
  | some text => simp only [PassM.optionalSymbol, h.symbol]

theorem loader (l : Option Handle) : PassM.loader c' l = PassM.loader c l := by
  cases l with
  | none =>
      funext s
      simp only [PassM.loader, PassM.bootstrap, h.settings, h.bootstrapWritten, h.symbol]
  | some l => rfl

theorem expand (a : Artifact) : PassM.expand c' a = PassM.expand c a := by
  funext s
  unfold PassM.expand
  rw [h.graph, h.stillValid]

end Actions

variable (h : c.Alike c') (hunload : c'.classUnload = c.classUnload)

include h hunload

theorem buildRecord (a : Artifact) (i : ArtifactInfo) :
    PassM.buildRecord c' a i = PassM.buildRecord c a i := by
  cases i with
  | cls i =>
      simp only [PassM.buildRecord, PassM.classRecord, h.symbol, h.loader, h.graph, hunload]
  | method i => simp only [PassM.buildRecord, PassM.methodRecord, h.symbol]
  | package i => simp only [PassM.buildRecord, PassM.packageRecord, h.symbol]
  | module i => simp only [PassM.buildRecord, PassM.moduleRecord, h.symbol, h.optionalSymbol]
  | classLoader i => simp only [PassM.buildRecord, PassM.loaderRecord, h.symbol, h.optionalSymbol]
  | thread i => simp only [PassM.buildRecord, PassM.threadRecord, h.symbol]

theorem emitAll (l : List (Artifact × ArtifactInfo)) :
    PassM.emitAll c' l = PassM.emitAll c l := by
  induction l with
  | nil => rfl
  | cons e rest ih =>
      obtain ⟨a, i⟩ := e
      simp only [PassM.emitAll, h.buildRecord hunload, ih]

theorem visitAll (l : List Artifact) : PassM.visitAll c' l = PassM.visitAll c l := by
  induction l with
  | nil => rfl
  | cons a rest ih =>
      have hvisit : PassM.visit c' a = PassM.visit c a := by
        simp only [PassM.visit, h.expand, h.emitAll hunload]
      rw [PassM.visitAll, PassM.visitAll, hvisit, ih]

/-- Passes that also visit the tagged artifacts in the same order are planned alike. -/
theorem planAll (hall : c'.marks.allTagged = c.marks.allTagged) (r : Registries)
    (y : SymbolTable) : Pass.planAll c' r y = Pass.planAll c r y := by
  unfold Pass.planAll
  rw [hall, h.settings, h.visitAll hunload]

end PassScope.Alike

/-! ## Passes without a leak sink -/

section Pass

open TypeSet

variable {kinds : Kind → Prop} {t t' : TypeSet} {σ : Type} [Sink σ]

/-- All that a pass does without a leak sink. -/
theorem serialize_without {τ : Type} [Sink τ] (hp : t.isPoisoned = false) (g : MetadataGraph)
    (flags : PassFlags) (main : σ) : t.serialize g flags (⟨main, none⟩ : Sinks σ τ) =
      match Pass.planAll (t.scope g flags.classUnload) t.registries t.symbols with
      | .error v s =>
          ⟨.error (.violation v), ((t.absorb s).unregister s.fresh).poison v, ⟨main, none⟩⟩
      | .ok () s =>
          let b := t.batchOf s [] none
          match Sink.send ((t.absorb s).passHeader flags) b.records main with
          | .error e main => ⟨.error (.sink e), ((t.absorb s).unregister s.fresh).countFailure,
              ⟨Sink.discard main, none⟩⟩
          | .ok bytes main => ⟨.ok bytes, ((t.absorb s).commitMain b flags.flushpoint).addPass
              ((t.absorb s).mainSummary flags b bytes), ⟨main, none⟩⟩ := by
  split
  · rename_i v s hplanned
    exact serialize_of_violation hp (plan_of_violation hplanned)
  · rename_i s hplanned
    have hplan := plan_without_leak hplanned
    obtain ⟨htaken, hrefused⟩ := Sinks.commitMain_without (τ := τ)
      ((t.absorb s).passHeader flags) (t.batchOf s [] none) main
    dsimp only
    split
    · rename_i e main' hsend
      exact (serialize_of_refused hp hplan (hrefused e main' hsend)).2
    · rename_i bytes main' hsend
      rw [(serialize_of_taken hp hplan (htaken bytes main' hsend)).2, finishPass_without rfl]

/-- Without a leak sink a pass over the same tags in the same order comes to the same. -/
theorem TypeSet.Alike.serialize {τ : Type} [Sink τ] (h : Alike kinds t t')
    (horder : t'.marks.allTagged = t.marks.allTagged) (g : MetadataGraph) (flags : PassFlags)
    (main : σ) :
    let r := t.serialize g flags (⟨main, none⟩ : Sinks σ τ)
    let r' := t'.serialize g flags (⟨main, none⟩ : Sinks σ τ)
    r'.result = r.result ∧ r'.sinks = r.sinks ∧ Alike kinds r.types r'.types := by
  have habsorb (s : Pass) : Alike kinds (t.absorb s) (t'.absorb s) :=
    { h with registries := rfl, symbols := rfl, marks := h.marks }
  have hunregister (s : Pass) : Alike kinds ((t.absorb s).unregister s.fresh)
      ((t'.absorb s).unregister s.fresh) :=
    { habsorb s with registries := rfl, marks := h.marks }
  cases hp : t.isPoisoned with
  | true =>
      unfold TypeSet.serialize
      rw [if_pos hp, if_pos (h.isPoisoned.trans hp)]
      exact ⟨rfl, rfl, h⟩
  | false =>
      -- both passes have the same plan, and send it under the same header
      have hscope : (t.scope g flags.classUnload).Alike (t'.scope g flags.classUnload) :=
        ⟨rfl, h.settings, h.bootstrapWritten, fun a => h.marks.has _ a (by simp),
          fun a => h.marks.has _ a (by simp)⟩
      have hplan : Pass.planAll (t'.scope g flags.classUnload) t'.registries t'.symbols =
          Pass.planAll (t.scope g flags.classUnload) t.registries t.symbols := by
        rw [h.registries, h.symbols]
        exact hscope.planAll rfl horder _ _
      have hbatch (s : Pass) : t'.batchOf s [] none = t.batchOf s [] none := by
        unfold batchOf
        rw [horder]
      have hheader (s : Pass) :
          (t'.absorb s).passHeader flags = (t.absorb s).passHeader flags := by
        unfold passHeader TypeSet.epoch
        rw [(habsorb s).epochs]
      rw [serialize_without hp, serialize_without (h.isPoisoned.trans hp), hplan]
      split
      · exact ⟨rfl, rfl, (hunregister _).poison _⟩
      · rw [hheader, hbatch]
        dsimp only
        split
        · exact ⟨rfl, rfl, (hunregister _).counted ..⟩
        · exact ⟨rfl, rfl, ((habsorb _).commitMain _ _).counted ..⟩

end Pass

/-! ## Runs -/

/-- What a caller can do with a type set on the main stream. -/
inductive Command (σ : Type) where
  | tag (a : Artifact)
  | clear
  | rotate
  | serialize (g : MetadataGraph) (flags : PassFlags)
  | captureUnloading (g : MetadataGraph)
  | lookUp (a : Artifact)
  /-- Something is done to the sink between two calls. -/
  | operate (f : σ → σ)

/-- What a call answers. -/
inductive Answer where
  | done
  | tagged (fresh : Bool)
  | count (n : Nat)
  | id (id : Option TraceId)
  deriving DecidableEq

namespace Command

variable {σ : Type} [Sink σ]

/-- Make the call, without a leak sink. -/
def run (t : TypeSet) (w : σ) : Command σ → Outcome σ Answer
  | tag a => ⟨.ok (.tagged (t.tag a).1), (t.tag a).2, w⟩
  | clear => ⟨.ok .done, t.clear, w⟩
  | rotate => ⟨.ok .done, t.rotate, w⟩
  | serialize g flags =>
      let r := t.serialize g flags (⟨w, none⟩ : Sinks σ σ)
      ⟨r.result.map .count, r.types, r.sinks.main⟩
  | captureUnloading g =>
      let r := t.captureUnloading g w
      ⟨r.result.map .count, r.types, r.sinks⟩
  | lookUp a => ⟨.ok (.id (t.id? a)), t, w⟩
  | operate f => ⟨.ok .done, t, f w⟩

/-- The tagged artifacts in the order in which the call enumerates them. -/
def order (t : TypeSet) : Command σ → List Artifact
  | serialize .. => t.marks.allTagged
  | tag _ | clear | rotate | captureUnloading _ | lookUp _ | operate _ => []

omit [Sink σ] in
theorem order_congr {t t' : TypeSet} (h : TypeSet.Alike (fun _ => True) t t') (c : Command σ) :
    c.order t' = c.order t := by
  cases c <;> first | rfl | exact h.marks.allTagged

/-- A call that enumerates the same comes to the same. -/
theorem run_alike {kinds : Kind → Prop} (hkinds : kinds .method) {t t' : TypeSet}
    (h : TypeSet.Alike kinds t t') (c : Command σ) (w : σ) (horder : c.order t' = c.order t) :
    (c.run t' w).result = (c.run t w).result ∧ (c.run t' w).sinks = (c.run t w).sinks ∧
      TypeSet.Alike kinds (c.run t w).types (c.run t' w).types := by
  cases c with
  | tag a =>
      obtain ⟨hfresh, htag⟩ := h.tag a
      exact ⟨congrArg (Except.ok ∘ Answer.tagged) hfresh, rfl, htag⟩
  | clear => exact ⟨rfl, rfl, h.clear⟩
  | rotate => exact ⟨rfl, rfl, h.rotate⟩
  | serialize g flags =>
      obtain ⟨hresult, hsinks, htypes⟩ := h.serialize (τ := σ) horder g flags w
      exact ⟨congrArg (Except.map Answer.count) hresult, congrArg Sinks.main hsinks, htypes⟩
  | captureUnloading g =>
      obtain ⟨hresult, hsinks, htypes⟩ := h.captureUnloading hkinds g w
      exact ⟨congrArg (Except.map Answer.count) hresult, hsinks, htypes⟩
  | lookUp a =>
      refine ⟨?_, rfl, h⟩
      show Except.ok (Answer.id (t'.registries.id? a)) = .ok (.id (t.registries.id? a))
      rw [h.registries]
  | operate f => exact ⟨rfl, rfl, h⟩

end Command

/-- A step of a script: a call on the main stream, or a leak mark. -/
inductive Script.Step (σ : Type) where
  | call (c : Command σ)
  | tagLeak (n : Handle)

/-- What a caller does with a type set, step by step. -/
abbrev Script (σ : Type) := List (Script.Step σ)

namespace Script

variable {σ : Type}

/-- The scripts differ in leak marks only. -/
inductive SameCalls : Script σ → Script σ → Prop
  | nil : SameCalls [] []
  | call (c : Command σ) {l l' : Script σ} :
      SameCalls l l' → SameCalls (.call c :: l) (.call c :: l')
  | left (n : Handle) {l l' : Script σ} : SameCalls l l' → SameCalls (.tagLeak n :: l) l'
  | right (n : Handle) {l l' : Script σ} : SameCalls l l' → SameCalls l (.tagLeak n :: l')

variable [Sink σ]

/-- What the main stream shows of a run: the answer of each call, and the sink behind it. -/
def observe (t : TypeSet) (w : σ) : Script σ → List (Except TypeSetError Answer × σ)
  | [] => []
  | .call c :: rest =>
      let r := c.run t w
      (r.result, r.sinks) :: observe r.types r.sinks rest
  | .tagLeak n :: rest => observe (t.tagLeak n).2 w rest

/-- The orders in which the calls of a run enumerate the tagged artifacts. -/
def orders (t : TypeSet) (w : σ) : Script σ → List (List Artifact)
  | [] => []
  | .call c :: rest =>
      let r := c.run t w
      c.order t :: orders r.types r.sinks rest
  | .tagLeak n :: rest => orders (t.tagLeak n).2 w rest

/-- No leak mark of the script is what gives its class a slot. -/
def KnownOnly (t : TypeSet) (w : σ) : Script σ → Prop
  | [] => True
  | .call c :: rest =>
      let r := c.run t w
      KnownOnly r.types r.sinks rest
  | .tagLeak n :: rest => t.marks.knows (.cls n) = true ∧ KnownOnly (t.tagLeak n).2 w rest

variable {t t' : TypeSet} {w : σ} {l l' : Script σ}

/-- Runs that enumerate the same show the same. -/
theorem observe_of_orders (hl : SameCalls l l') (h : TypeSet.Alike (· ≠ .cls) t t')
    (horders : orders t w l = orders t' w l') : observe t w l = observe t' w l' := by
  induction hl generalizing t t' w with
  | nil => rfl
  | call c _ ih =>
      obtain ⟨horder, hrest⟩ := List.cons.inj horders
      obtain ⟨hresult, hsinks, htypes⟩ := c.run_alike (by simp) h w horder.symm
      unfold observe
      dsimp only
      rw [hsinks] at hrest
      rw [hresult, hsinks, ih htypes hrest]
  | left n _ ih => exact ih (h.tagLeak (.inr fun hne => hne rfl)) horders
  | right n _ ih => exact ih (h.symm.tagLeak (.inr fun hne => hne rfl)).symm horders

/-- Leak marks in slots that are there change no order. -/
theorem orders_of_knownOnly (hl : SameCalls l l') (h : TypeSet.Alike (fun _ => True) t t')
    (hknown : KnownOnly t w l) (hknown' : KnownOnly t' w l') : orders t w l = orders t' w l' := by
  induction hl generalizing t t' w with
  | nil => rfl
  | call c _ ih =>
      have horder := c.order_congr h
      obtain ⟨-, hsinks, htypes⟩ := c.run_alike trivial h w horder
      unfold orders
      dsimp only
      unfold KnownOnly at hknown hknown'
      dsimp only at hknown hknown'
      rw [hsinks] at hknown' ⊢
      rw [horder, ih htypes hknown hknown']
  | left n _ ih => exact ih (h.tagLeak (.inl hknown.1)) hknown.2 hknown'
  | right n _ ih => exact ih (h.symm.tagLeak (.inl hknown'.1)).symm hknown hknown'.2

/-- Two runs without a leak sink that differ in leak marks only show the same on the main stream,
answer by answer and byte by byte, if they enumerate the tagged artifacts in the same order at
each pass. This they do if no leak mark of theirs is what gives a class its slot. -/
theorem observe_eq (t : TypeSet) (w : σ) (h : SameCalls l l') :
    (orders t w l = orders t w l' → observe t w l = observe t w l') ∧
    (KnownOnly t w l → KnownOnly t w l' →
      orders t w l = orders t w l' ∧ observe t w l = observe t w l') := by
  have hobserve := observe_of_orders (w := w) h (.refl _ t)
  refine ⟨hobserve, fun hknown hknown' => ?_⟩
  have horders := orders_of_knownOnly h (.refl _ t) hknown hknown'
  exact ⟨horders, hobserve horders⟩

/-! ### Two classes -/

/-- Two classes that do not refer to each other. -/
def twoClasses : MetadataGraph := { sampleGraph with
  cls
    | 1 => some { name := "A" }
    | 2 => some { name := "B" }
    | _ => none }

/-- A pass over both of them. -/
def bothClasses : Script SegmentLog :=
  [.call (.tag (.cls 1)), .call (.tag (.cls 2)), .call (.serialize twoClasses {})]

/-- The pass with a leak mark on the first class, behind its tag. -/
def bothClassesMarked : Script SegmentLog :=
  [.call (.tag (.cls 1)), .tagLeak 1, .call (.tag (.cls 2)), .call (.serialize twoClasses {})]

/-- A leak mark behind the tag of its class does not show. One in front of the tag of the class
that comes first does not show either. -/
theorem observe_eq_bothClasses :
    observe (.create {}) {} bothClasses = observe (.create {}) {} bothClassesMarked ∧
      observe (.create {}) {} bothClasses =
        observe (.create {}) {} (.tagLeak 1 :: bothClasses) := by
  have hbehind : SameCalls bothClasses bothClassesMarked :=
    .call _ (.right 1 (.call _ (.call _ .nil)))
  have hfront : SameCalls bothClasses (.tagLeak 1 :: bothClasses) :=
    .right 1 (.call _ (.call _ (.call _ .nil)))
  constructor
  · exact ((observe_eq (.create {}) {} hbehind).2 trivial ⟨by decide, trivial⟩).2
  · exact (observe_eq (.create {}) {} hfront).1 (by decide +kernel)

/-- A leak mark on the other class, in front of both tags, puts it first on the main stream. -/
theorem leak_tag_shows : SameCalls bothClasses (.tagLeak 2 :: bothClasses) ∧
    observe (.create {}) {} bothClasses ≠ observe (.create {}) {} (.tagLeak 2 :: bothClasses) :=
  ⟨.right 2 (.call _ (.call _ (.call _ .nil))), by decide +kernel⟩

end Script

end TraceTypes
