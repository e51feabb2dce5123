import Mathlib.Logic.Function.Iterate
import TraceTypes.Proofs.Acceptance
import TraceTypes.Proofs.Flushpoints
import TraceTypes.Proofs.Repetition
import TraceTypes.Proofs.UnloadingPass
/-!
# Calls with nothing new to write

Behind a pass that took its tags, nothing is tagged. From there on the type set
is idle until a tag comes in: resets and passes change nothing but the tallies,
whatever graph they are given, and a pass makes no call to its sinks.

Behind a pass at a flushpoint the tags are still there. The same pass made again
writes the tagged artifacts and nothing else, unless it gets deeper than the
limit.

* `TypeSet.Idle` — no tag is left, and `TypeSet.Idle.serialize` on a pass then;
* `TypeSet.Rests` — calls without a tag in between, and `TypeSet.Rests.idle` on
  what they leave;
* `Run.repeats` — a pass at a flushpoint leaves what the same pass needs;
* `Run.quiescence` — both put together.
-/

namespace TraceTypes

open TypeSet

/-- The batch of a pass that has nothing to write. -/
def Batch.idle (leak : Option PendingLeak) : Batch where
  entries := []
  fresh := []
  processed := []
  unloading := []
  bootstrapEmitted := false
  leakClasses := []
  leak := leak

/-- Where no class is marked for the leak stream, the classes for it are those of the pass. -/
theorem Pass.leakClasses_of_unmarked {c : PassScope} {s : Pass}
    (h : ∀ n, c.marks.has .leak (.cls n) = false) : s.leakClasses c = .ok s.classes := by
  have hmarked : c.marks.carrying .leak .cls = [] := by
    refine List.eq_nil_iff_forall_not_mem.mpr fun n hn => ?_
    have hn : c.marks.has .leak (.cls n) = true := MarkTable.mem_carrying.mp hn
    rw [h n] at hn
    cases hn
  unfold leakClasses
  rw [hmarked]
  exact congrArg Except.ok (List.append_nil _)

namespace TypeSet

variable {t t' t'' : TypeSet} {g : MetadataGraph} {flags : PassFlags}

/-! ## Without tags -/

theorem EqualButTallies.refl (t : TypeSet) : t.EqualButTallies t := rfl

theorem EqualButTallies.trans (h : t.EqualButTallies t') (h' : t'.EqualButTallies t'') :
    t.EqualButTallies t'' := by
  unfold EqualButTallies at h h' ⊢
  rw [h', h]

theorem EqualButTallies.rotate (h : t.EqualButTallies t') :
    t.rotate.EqualButTallies t'.rotate := by
  unfold EqualButTallies at h ⊢
  rw [h]
  rfl

/-- The type set can write, and has no tag to write for. -/
structure Idle (t : TypeSet) : Prop where
  ready : t.isPoisoned = false
  untagged : ∀ a, t.marks.isTagged a = false

namespace Idle

theorem of_equalButTallies (h : t.Idle) (heq : t.EqualButTallies t') : t'.Idle := by
  unfold EqualButTallies at heq
  rw [heq]
  exact ⟨h.ready, h.untagged⟩

theorem equalButTallies_clear (h : t.Idle) : t.EqualButTallies t.clear := by
  unfold EqualButTallies TypeSet.clear
  rw [MarkTable.lowerAll_eq_self h.untagged]

theorem clear (h : t.Idle) : t.clear.Idle := h.of_equalButTallies h.equalButTallies_clear

theorem rotate (h : t.Idle) : t.rotate.Idle where
  ready := h.ready
  untagged a := by
    refine (MarkTable.has_lowerAll ..).trans ((if_neg ?_).trans (h.untagged a))
    simp

/-- Without tags there is nothing to plan on the main stream, whatever the graph is like. -/
theorem planAll (h : t.Idle) (classUnload : Bool) :
    t.marks.allTagged = [] ∧
      Pass.planAll (t.scope g classUnload) t.registries t.symbols =
        .ok () (Pass.start t.registries t.symbols t.settings) := by
  have hnil : t.marks.allTagged = [] := by
    refine List.eq_nil_iff_forall_not_mem.mpr fun a ha => ?_
    rw [MarkTable.mem_allTagged, h.untagged a] at ha
    cases ha
  refine ⟨hnil, ?_⟩
  show PassM.visitAll (t.scope g classUnload) t.marks.allTagged _ = _
  rw [hnil]
  rfl

/-- Nor is there on the leak stream, if no class is marked for it. -/
theorem plan (h : t.Idle) (classUnload withLeak : Bool)
    (hleak : withLeak = false ∨ ∀ n, t.marks.has .leak (.cls n) = false) :
    t.plan g classUnload withLeak = .ok (.idle (if withLeak then some {} else none)) t := by
  obtain ⟨hnil, hplan⟩ := h.planAll (g := g) classUnload
  cases withLeak with
  | false =>
      rw [plan_without_leak hplan, batchOf, hnil]
      rfl
  | true =>
      have hclasses := Pass.leakClasses_of_unmarked (c := t.scope g classUnload)
        (s := Pass.start t.registries t.symbols t.settings) (hleak.resolve_left (by simp))
      rw [plan_with_leak hplan hclasses rfl, batchOf, hnil]
      rfl

end Idle

theorem commitMain_idle (t : TypeSet) (leak : Option PendingLeak) (flushpoint : Bool) :
    t.commitMain (.idle leak) flushpoint = t := by
  show { t with marks := if flushpoint then t.marks else t.marks,
                bootstrapWritten := t.bootstrapWritten || false } = t
  rw [ite_self, Bool.or_false]

theorem commitLeak_idle (t : TypeSet) (leak : Option PendingLeak) :
    t.commitLeak (.idle leak) {} = t := by
  have hleak : t.leak.commit {} = t.leak := by
    unfold LeakStream.commit
    split <;> rfl
  show { t with marks := t.marks, leak := t.leak.commit {} } = t
  rw [hleak]

section Pass

variable {σ τ : Type} [Sink σ] [Sink τ]

/-- A pass without tags answers zero, makes no call to a sink and changes nothing but the tallies,
if there is no leak sink or no class is marked for it. -/
theorem Idle.serialize (h : t.Idle) (g : MetadataGraph) (flags : PassFlags) {w : Sinks σ τ}
    (hleak : w.leak = none ∨ ∀ n, t.marks.has .leak (.cls n) = false) :
    (t.serialize g flags w).result = .ok 0 ∧ (t.serialize g flags w).sinks = w ∧
      t.EqualButTallies (t.serialize g flags w).types := by
  have hplan := h.plan (g := g) flags.classUnload w.leak.isSome
    (hleak.imp_left fun hw => by rw [hw]; rfl)
  -- without records a sink is neither opened nor committed
  obtain ⟨main, leak⟩ := w
  cases leak with
  | none =>
      have hcommit : (Sinks.commitMain (t.passHeader flags) (.idle none) :
          EStateM SinkError (Sinks σ τ) Nat) ⟨main, none⟩ = .ok 0 ⟨main, none⟩ := rfl
      obtain ⟨-, heq⟩ := serialize_of_taken h.ready hplan hcommit
      rw [heq, finishPass_without rfl, commitMain_idle]
      exact ⟨rfl, rfl, rfl⟩
  | some leak =>
      have hcommit : (Sinks.commitMain (t.passHeader flags) (.idle (some {})) :
          EStateM SinkError (Sinks σ τ) Nat) ⟨main, some leak⟩ = .ok 0 ⟨main, some leak⟩ := rfl
      obtain ⟨-, heq⟩ := serialize_of_taken h.ready hplan hcommit
      rw [heq, finishPass_committed (p := {}) rfl rfl, commitLeak_idle, commitMain_idle]
      exact ⟨rfl, rfl, rfl⟩

end Pass

/-- Behind `n` rotations and any number of resets and passes, with no tag in between. A pass has a
leak sink only where no class is marked for it. -/
inductive Rests (t : TypeSet) : Nat → TypeSet → Prop
  | refl : Rests t 0 t
  | clear {n : Nat} {t' : TypeSet} : Rests t n t' → Rests t n t'.clear
  | rotate {n : Nat} {t' : TypeSet} : Rests t n t' → Rests t (n + 1) t'.rotate
  | serialize {n : Nat} {t' : TypeSet} {σ τ : Type} [Sink σ] [Sink τ] (g : MetadataGraph)
      (flags : PassFlags) (w : Sinks σ τ) : Rests t n t' →
      (w.leak = none ∨ ∀ n, t'.marks.has .leak (.cls n) = false) →
      Rests t n (t'.serialize g flags w).types

/-- Such calls change nothing but the tallies, apart from what the rotations change. -/
theorem Rests.idle {n : Nat} (h : t.Rests n t') (ht : t.Idle) :
    (TypeSet.rotate^[n] t).EqualButTallies t' ∧ t'.Idle := by
  induction h with
  | refl => exact ⟨.refl t, ht⟩
  | clear _ ih => exact ⟨ih.1.trans ih.2.equalButTallies_clear, ih.2.clear⟩
  | rotate _ ih =>
      rw [Function.iterate_succ_apply']
      exact ⟨ih.1.rotate, ih.2.rotate⟩
  | serialize g flags w _ hleak ih =>
      obtain ⟨-, -, hsame⟩ := ih.2.serialize g flags hleak
      exact ⟨ih.1.trans hsame, ih.2.of_equalButTallies hsame⟩

section Pass

variable {σ τ : Type} [Sink σ] [Sink τ] {w : Sinks σ τ}

/-- A pass that succeeds meets no violation. -/
theorem isPoisoned_serialize {k : Nat} (hok : (t.serialize g flags w).result = .ok k) :
    (t.serialize g flags w).types.isPoisoned = false := by
  obtain ⟨b, t', w', hc⟩ := commits?_of_ok hok
  obtain ⟨hplan, bytes, -, heq⟩ := serialize_committed hc
  obtain ⟨s, hp⟩ := plan_ok hplan
  have hpoisoned : t'.poisoned = t.poisoned := by rw [hp.types]; rfl
  rw [heq, isPoisoned, poisoned_finishPass, hpoisoned]
  exact Bool.eq_false_iff.mpr (not_isPoisoned_of_commits hc)

/-- A pass that succeeds takes the tags that it was made for, unless at a flushpoint. -/
theorem isTagged_serialize {k : Nat} (hok : (t.serialize g flags w).result = .ok k) :
    ∃ b t' w', t.commits? g flags w = some (b, t', w') ∧
      ∀ a, (t.serialize g flags w).types.marks.isTagged a = true ↔
        flags.flushpoint = true ∧ t.marks.isTagged a = true ∧
          a ∉ forgottenBy registeredMethods t' b.unloading := by
  obtain ⟨b, t', w', hc⟩ := commits?_of_ok hok
  obtain ⟨hplan, bytes, -, heq⟩ := serialize_committed hc
  obtain ⟨s, hp⟩ := plan_ok hplan
  refine ⟨b, t', w', hc, fun a => ?_⟩
  have hprocessed : a ∈ b.processed ↔ t.marks.isTagged a = true := by
    rw [hp.processed, MarkTable.mem_allTagged]
  -- the commit of the leak segment has no part in it
  have hcommit (t₁ : TypeSet) (hregistries : t₁.registries = t'.registries)
      (htagged : t₁.marks.has .referenced a = true ↔ t.marks.isTagged a = true) :
      (t₁.commitMain b flags.flushpoint).marks.has .referenced a = true ↔
        flags.flushpoint = true ∧ t.marks.isTagged a = true ∧
          a ∉ forgottenBy registeredMethods t' b.unloading := by
    rw [has_commitMain, forgottenBy_congr t' t₁ hregistries, htagged, hprocessed]
    cases flags.flushpoint <;> simp [and_comm]
  rw [heq] at hok ⊢
  rcases finishPass_cases t' flags b bytes w' with
    ⟨-, hfinish⟩ | ⟨p, -, ⟨size, w₁, -, hfinish⟩ | ⟨e, w₁, -, hfinish⟩⟩
  · rw [hfinish]
    exact hcommit t' rfl (by rw [hp.marks])
  · rw [hfinish]
    refine hcommit (t'.commitLeak b p) rfl ?_
    unfold commitLeak
    rw [has_foldl_lower, hp.marks]
    simp [MarkTable.isTagged]
  · rw [hfinish] at hok
    cases hok

/-- Behind a pass that succeeds, unless at a flushpoint, no tag is left. -/
theorem idle_of_serialize {classUnload : Bool} {k : Nat}
    (hok : (t.serialize g ⟨classUnload, false⟩ w).result = .ok k) :
    (t.serialize g ⟨classUnload, false⟩ w).types.Idle := by
  obtain ⟨_, _, _, -, htagged⟩ := isTagged_serialize hok
  refine ⟨isPoisoned_serialize hok, fun a => ?_⟩
  rw [Bool.eq_false_iff, Ne, htagged]
  simp

end Pass

end TypeSet

/-! ## A repeated pass -/

section Run

variable {settings : Settings} {t : TypeSet} {H : History} {g : MetadataGraph} {σ τ : Type}
  [Sink σ] [Sink τ] {w : Sinks σ τ} {k : Nat}

/-- Behind a pass at a flushpoint that keeps its classes, the same pass finds the tags that the
first one found, and the records that it made. -/
theorem Run.repeats (h : Run settings t H)
    (hok : (t.serialize g ⟨false, true⟩ w).result = .ok k) :
    ∃ s, Pass.planAll (t.scope g false) t.registries t.symbols = .ok () s ∧
      (t.serialize g ⟨false, true⟩ w).types.registries = s.registries ∧
      (t.serialize g ⟨false, true⟩ w).types.symbols = s.symbols ∧
      (t.scope g false).Repeats ((t.serialize g ⟨false, true⟩ w).types.scope g false) s := by
  obtain ⟨b, t', w', hc, htagged⟩ := isTagged_serialize hok
  obtain ⟨hplan, bytes, -, heq⟩ := serialize_committed hc
  obtain ⟨s, hp⟩ := plan_ok hplan
  obtain ⟨hs, -⟩ := Pass.planAll_ok (h.recorded.ready g false) hp.plan
  -- no class is written as unloading, so none is forgotten
  have hunloading : b.unloading = [] := by
    rw [hp.unloading]
    refine List.eq_nil_iff_forall_not_mem.mpr fun n hn => ?_
    have := (hs.unloading n hn).1
    cases this
  have hforgotten : forgottenBy registeredMethods t' b.unloading = [] := by
    rw [hunloading]
    rfl
  rw [hforgotten] at htagged
  have hwritten := written_finishPass t' ⟨false, true⟩ b bytes w'
  rw [hforgotten, ← heq] at hwritten
  have htypes := hp.types
  refine ⟨s, hp.plan, ?_, ?_, ?_⟩
  · rw [hwritten.registries, htypes]
    rfl
  · rw [hwritten.symbols, htypes]
    rfl
  · constructor
    case graph => rfl
    case settings =>
      show (t.serialize g ⟨false, true⟩ w).types.settings = t.settings
      rw [hwritten.settings, htypes]
      rfl
    case tagged =>
      intro a
      rw [Bool.eq_iff_iff]
      exact (htagged a).trans (by simp [scope])
    case serialized =>
      intro a
      refine (hwritten.serialized a).trans ?_
      rw [hp.marks, Batch.emitted, hp.entries]
      simp [scope]
    case bootstrapWritten =>
      show (t.serialize g ⟨false, true⟩ w).types.bootstrapWritten = _
      rw [hwritten.bootstrapWritten, hp.bootstrapEmitted, htypes]
      rfl

/-- The plan of the repeated pass has one entry for each tagged artifact, and no other entry. -/
theorem Run.perm_repeated (h : Run settings t H)
    (hok : (t.serialize g ⟨false, true⟩ w).result = .ok k) {s' : Pass}
    (hs' : Pass.planAll ((t.serialize g ⟨false, true⟩ w).types.scope g false)
      (t.serialize g ⟨false, true⟩ w).types.registries
      (t.serialize g ⟨false, true⟩ w).types.symbols = .ok () s') :
    (s'.entries.map Entry.subject).Perm (t.marks.allTagged.map some) := by
  obtain ⟨s, hs, hregistries, hsymbols, hrepeats⟩ := h.repeats hok
  have hready := (Run.serialize g ⟨false, true⟩ w h).recorded.ready g false
  rw [hregistries, hsymbols] at hready hs'
  exact hrepeats.perm (h.recorded.ready g false) hs hready hs'

/-- The repeated pass gets deeper than the limit, or it is planned on the main stream. -/
theorem Run.planAll_repeated (h : Run settings t H)
    (hok : (t.serialize g ⟨false, true⟩ w).result = .ok k) :
    let t₁ := (t.serialize g ⟨false, true⟩ w).types
    ((t₁.scope g false).OverLimit ∧
      ∃ root s', Pass.planAll (t₁.scope g false) t₁.registries t₁.symbols =
        .error (.dependencyTooDeep root t₁.settings.maxDependencyDepth) s') ∨
    ¬ (t₁.scope g false).OverLimit ∧
      ∃ s', Pass.planAll (t₁.scope g false) t₁.registries t₁.symbols = .ok () s' := by
  intro t₁
  have hready := (Run.serialize g ⟨false, true⟩ w h).recorded.ready g false
  obtain ⟨s, hs, hregistries, hsymbols, hrepeats⟩ := h.repeats hok
  obtain ⟨hinv, htagged⟩ := Pass.planAll_ok (h.recorded.ready g false) hs
  have htraversable := hrepeats.traversable hinv htagged
  rw [← hregistries, ← hsymbols] at htraversable
  rcases Pass.planAll_cases hready htraversable with
    ⟨s', hs'⟩ | ⟨hover, root, -, s', -, -, -, -, hs'⟩
  · exact .inr ⟨Pass.not_overLimit hready hs', s', hs'⟩
  · exact .inl ⟨hover, root, s', hs'⟩

theorem LeakPlan.exists_record {b : Batch} (h : LeakPlan t g b) {n : Handle}
    (hn : n ∈ b.leakClasses) :
    ∃ record, LeakRecordOf g t.settings.bootstrapLoaderName n record := by
  have hdescribed := h.described
  generalize b.leakClasses = l at hn hdescribed
  generalize b.leakRecords = records at hdescribed
  induction hdescribed with
  | nil => cases hn
  | @cons _ record _ _ hrecord _ ih =>
      rcases List.mem_cons.mp hn with rfl | hn
      · exact ⟨record, hrecord⟩
      · exact ih hn

/-- A class that a leak segment has described has a loader with a name. -/
theorem LeakRecordOf.exists_loaderName {name : String} {n : Handle} {record : Record}
    {i : ClassInfo} (h : LeakRecordOf g name n record) (hi : g.cls n = some i) :
    ∃ loader, LeakStream.loaderName g name i = .ok loader := by
  cases h with
  | bootstrap hn hl =>
      obtain rfl := Option.some.inj (hn.symm.trans hi)
      exact ⟨name, by simp only [LeakStream.loaderName, hl]⟩
  | @named _ _ j _ _ hn hl hj _ | @unnamed _ _ j _ hn hl hj _ =>
      obtain rfl := Option.some.inj (hn.symm.trans hi)
      exact ⟨j.displayName, by simp only [LeakStream.loaderName, hl, hj]⟩

/-- Behind a pass with a leak sink that succeeds, no class is marked for the leak stream. -/
theorem Run.unmarked_of_serialize (h : Run settings t H) {flags : PassFlags}
    (hok : (t.serialize g flags w).result = .ok k) (hleak : w.leak.isSome = true) (n : Handle) :
    (t.serialize g flags w).types.marks.has .leak (.cls n) = false := by
  obtain ⟨b, t', w', hc⟩ := commits?_of_ok hok
  have hsome := (isSome_leak_of_plan (serialize_committed hc).1).trans hleak
  exact leakMarks_committed hc hok hsome fun hn => ((h.leakPlan hc hleak).classes n).mpr (.inr hn)

/-- What the repeated pass writes was described on the leak stream before, if the first pass had a
leak sink. -/
theorem Run.loaderName_repeated (h : Run settings t H)
    (hok : (t.serialize g ⟨false, true⟩ w).result = .ok k) (hleak : w.leak.isSome = true)
    {s' : Pass}
    (hs' : Pass.planAll ((t.serialize g ⟨false, true⟩ w).types.scope g false)
      (t.serialize g ⟨false, true⟩ w).types.registries
      (t.serialize g ⟨false, true⟩ w).types.symbols = .ok () s') :
    ∀ x ∈ s'.classes, ∃ loader,
      LeakStream.loaderName g t.settings.bootstrapLoaderName x.2 = .ok loader := by
  intro x hx
  obtain ⟨b, t', w', hc⟩ := commits?_of_ok hok
  have hunmarked := h.unmarked_of_serialize hok hleak
  have hclasses := Pass.leakClasses_of_unmarked (s := s')
    (c := (t.serialize g ⟨false, true⟩ w).types.scope g false) hunmarked
  -- the class is written, so it is tagged, and the first pass has described it
  have hwritten := (Pass.mem_leakClasses (Pass.classesNoted_planAll hs') hclasses).mp
    (List.mem_map_of_mem hx)
  have htag : .cls x.1 ∈ t.marks.allTagged := by
    obtain ⟨e, he, hsub⟩ := Entry.mem_subjects.mp
      (hwritten.resolve_right fun hmark => by simp [scope, hunmarked] at hmark)
    have := (h.perm_repeated hok hs').mem_iff.mp (List.mem_map_of_mem he)
    rw [hsub] at this
    simpa using this
  have hneeded : (t.scope g false).Needed (.cls x.1) :=
    .root ⟨MarkTable.mem_allTagged.mp htag, by simp⟩
  have hfirst := h.leakPlan hc hleak
  have hmem : x.1 ∈ b.leakClasses := (hfirst.classes x.1).mpr
    (.inl (((h.content hc).artifacts _ (by simp)).mpr hneeded))
  obtain ⟨record, hrecord⟩ := hfirst.exists_record hmem
  exact hrecord.exists_loaderName (Pass.cls_of_mem_leakClasses hs' hclasses x hx)

/-- If the first pass has answered on the leak stream, so can the repeated one. -/
theorem Run.plan_repeated (h : Run settings t H)
    (hok : (t.serialize g ⟨false, true⟩ w).result = .ok k) {withLeak : Bool}
    (hleak : withLeak = true → w.leak.isSome = true) {s' : Pass}
    (hs' : Pass.planAll ((t.serialize g ⟨false, true⟩ w).types.scope g false)
      (t.serialize g ⟨false, true⟩ w).types.registries
      (t.serialize g ⟨false, true⟩ w).types.symbols = .ok () s') :
    ∃ b t', (t.serialize g ⟨false, true⟩ w).types.plan g false withLeak = .ok b t' := by
  cases withLeak with
  | false => exact ⟨_, _, plan_without_leak hs'⟩
  | true =>
      have hloaders := h.loaderName_repeated hok (hleak rfl) hs'
      obtain ⟨_, -, -, -, hrepeats⟩ := h.repeats hok
      have hsettings : (t.serialize g ⟨false, true⟩ w).types.settings = t.settings :=
        hrepeats.settings
      rw [← hsettings] at hloaders
      have hleakwf := ((Run.serialize g ⟨false, true⟩ w h).leakRecorded.sound
        (by simp [isPoisoned_serialize hok])).ids.wf
      obtain ⟨p, leak, hp⟩ : ∃ p leak, LeakStream.prepare g
          (t.serialize g ⟨false, true⟩ w).types.settings.bootstrapLoaderName
          (t.serialize g ⟨false, true⟩ w).types.epoch.generation s'.classes
          (t.serialize g ⟨false, true⟩ w).types.leak = .ok p leak :=
        LeakStream.prepareOnto_succeeds hleakwf hloaders
      have hclasses := Pass.leakClasses_of_unmarked (s := s')
        (c := (t.serialize g ⟨false, true⟩ w).types.scope g false)
        (h.unmarked_of_serialize hok (hleak rfl))
      exact ⟨_, _, plan_with_leak hs' hclasses hp⟩

/-- Where the main stream is planned, the repeated pass meets no violation but one on a leak stream
that the first pass did not have. -/
theorem Run.violation_repeated (h : Run settings t H)
    (hok : (t.serialize g ⟨false, true⟩ w).result = .ok k) {s' : Pass}
    (hs' : Pass.planAll ((t.serialize g ⟨false, true⟩ w).types.scope g false)
      (t.serialize g ⟨false, true⟩ w).types.registries
      (t.serialize g ⟨false, true⟩ w).types.symbols = .ok () s')
    {σ' τ' : Type} [Sink σ'] [Sink τ'] {w' : Sinks σ' τ'} {flushpoint : Bool} {v : Violation}
    (hv : ((t.serialize g ⟨false, true⟩ w).types.serialize g ⟨false, flushpoint⟩ w').result =
      .error (.violation v)) :
    w.leak = none ∧ w'.leak.isSome = true ∧ ∃ a, v = .danglingArtifact a := by
  have hleakwf := ((Run.serialize g ⟨false, true⟩ w h).leakRecorded.sound
    (by simp [isPoisoned_serialize hok])).ids.wf
  obtain ⟨t', hplan, -⟩ := plan_of_violation_reported hv
  obtain ⟨hsome, hdangling⟩ := violation_of_planned hleakwf hs' hplan
  refine ⟨?_, hsome, hdangling⟩
  by_contra hleak
  obtain ⟨b, t'', hplan'⟩ := h.plan_repeated hok
    (fun _ => Option.isSome_iff_ne_none.mpr hleak) hs'
  cases hplan.symm.trans hplan'

/-- Behind a pass that has taken its tags nothing is tagged, and further calls without a tag in
between change nothing but the tallies, apart from rotations; every pass among them answers zero and
makes no call to its sinks. Behind a pass at a flushpoint that keeps its classes the same artifacts
are tagged. The same pass made again gets deeper than the limit, or it can only be stopped by a sink
that refuses, or on a leak stream that the first pass did not have; and what the main log gains is
one segment with one record for each tagged artifact, or nothing if nothing is tagged. -/
theorem Run.quiescence (h : Run settings t H) (g : MetadataGraph) (w : Sinks σ τ) :
    (∀ classUnload k, (t.serialize g ⟨classUnload, false⟩ w).result = .ok k →
      let t₁ := (t.serialize g ⟨classUnload, false⟩ w).types
      t₁.Idle ∧ ∀ n t', t₁.Rests n t' → (TypeSet.rotate^[n] t₁).EqualButTallies t' ∧ t'.Idle ∧
        ∀ (g' : MetadataGraph) (flags : PassFlags) {σ' τ' : Type} [Sink σ'] [Sink τ']
          (w' : Sinks σ' τ'), (w'.leak = none ∨ ∀ n, t'.marks.has .leak (.cls n) = false) →
          (t'.serialize g' flags w').result = .ok 0 ∧ (t'.serialize g' flags w').sinks = w') ∧
    ∀ k, (t.serialize g ⟨false, true⟩ w).result = .ok k →
      let t₁ := (t.serialize g ⟨false, true⟩ w).types
      (∀ a, t₁.marks.isTagged a = t.marks.isTagged a) ∧
      ∀ (flushpoint : Bool) {σ' τ' : Type} [Sink σ'] [Sink τ'] (w' : Sinks σ' τ'),
        ((t₁.scope g false).OverLimit →
          ∃ root, (t₁.serialize g ⟨false, flushpoint⟩ w').result =
            .error (.violation (.dependencyTooDeep root t₁.settings.maxDependencyDepth))) ∧
        (¬ (t₁.scope g false).OverLimit →
          (∀ v, (t₁.serialize g ⟨false, flushpoint⟩ w').result = .error (.violation v) →
            w.leak = none ∧ w'.leak.isSome = true ∧ ∃ a, v = .danglingArtifact a) ∧
          ∀ [LawfulSink σ'] [LawfulSink τ'], (w'.leak.isSome = true → w.leak.isSome = true) →
            Willing w'.main → (∀ x, w'.leak = some x → Willing x) →
            ∃ bytes, (t₁.serialize g ⟨false, flushpoint⟩ w').result = .ok bytes) ∧
        ∀ b t' w'', t₁.commits? g ⟨false, flushpoint⟩ w' = some (b, t', w'') →
          (b.entries.map Entry.subject).Perm (t₁.marks.allTagged.map some) ∧
          ∀ [LawfulSink σ'] [LawfulSink τ'],
            committed (t₁.serialize g ⟨false, flushpoint⟩ w').sinks.main =
              committed w'.main ++
                segmentOf (t₁.passHeader ⟨false, flushpoint⟩) (b.entries.map Entry.record) := by
  constructor
  · intro classUnload k hok t₁
    have hidle : t₁.Idle := idle_of_serialize hok
    refine ⟨hidle, fun n t' hrests => ?_⟩
    obtain ⟨heq, hidle'⟩ := hrests.idle hidle
    refine ⟨heq, hidle', fun g' flags _ _ _ _ w' hleak => ?_⟩
    obtain ⟨hresult, hsinks, -⟩ := hidle'.serialize g' flags hleak
    exact ⟨hresult, hsinks⟩
  · intro k hok t₁
    have hready : t₁.isPoisoned = false := isPoisoned_serialize hok
    obtain ⟨_, -, -, -, hrepeats⟩ := h.repeats hok
    have hsame : ∀ a, t₁.marks.isTagged a = t.marks.isTagged a := hrepeats.tagged
    refine ⟨hsame, fun flushpoint _ _ _ _ w' => ⟨fun hover => ?_, fun hshort => ?_,
      fun b t' w'' hc => ⟨?_, main_serialize hc⟩⟩⟩
    · obtain ⟨-, root, s', hs'⟩ :=
        (h.planAll_repeated hok).resolve_right fun hshort => hshort.1 hover
      have heq : t₁.serialize g ⟨false, flushpoint⟩ w' = ⟨.error (.violation _), _, w'⟩ :=
        serialize_of_violation hready (plan_of_violation hs')
      exact ⟨root, congrArg Outcome.result heq⟩
    · obtain ⟨-, s', hs'⟩ := (h.planAll_repeated hok).resolve_left fun hover => hshort hover.1
      refine ⟨fun v hv => ?_, fun hleak hmain hwilling => ?_⟩
      · exact h.violation_repeated hok hs' hv
      · obtain ⟨b, t', hplan⟩ := h.plan_repeated hok hleak hs'
        exact (serialize_willing hready hplan hmain hwilling).1
    · obtain ⟨hplan, -⟩ := serialize_committed hc
      obtain ⟨s', hp⟩ := plan_ok hplan
      rw [hp.entries]
      refine (h.perm_repeated hok hp.plan).trans (.map some ?_)
      refine (List.perm_ext_iff_of_nodup (MarkTable.nodup_allTagged _)
        (MarkTable.nodup_allTagged _)).mpr fun a => ?_
      rw [MarkTable.mem_allTagged, MarkTable.mem_allTagged, hsame]

end Run

/-- Behind the pass over the tagged class nothing is left to do, for any graph; and at a flushpoint
the repeated pass writes the class, without its symbol and the bootstrap loader. -/
theorem quiescence_sampleTypes :
    let t₁ := (sampleTypes.serialize sampleGraph {} sampleLog).types
    let t₂ := (sampleTypes.serialize sampleGraph ⟨false, true⟩ sampleLog).types
    (t₁.rotate.serialize sampleGraph ⟨true, true⟩ sampleLog).result = .ok 0 ∧
    ∃ b t' w', t₂.commits? sampleGraph ⟨false, true⟩ sampleLog = some (b, t', w') ∧
      (b.entries.map Entry.subject).Perm [some (.cls 1)] ∧
      committed (t₂.serialize sampleGraph ⟨false, true⟩ sampleLog).sinks.main =
        segmentOf (t₂.passHeader ⟨false, true⟩) (b.entries.map Entry.record) := by
  have h := run_sampleTypes.quiescence sampleGraph sampleLog
  constructor
  · obtain ⟨-, hrests⟩ := h.1 false 33 (by decide +kernel)
    exact ((hrests 1 _ (.rotate .refl)).2.2 sampleGraph ⟨true, true⟩ sampleLog (.inl rfl)).1
  · have hsome : ((sampleTypes.serialize sampleGraph ⟨false, true⟩ sampleLog).types.commits?
        sampleGraph ⟨false, true⟩ sampleLog).isSome = true := by decide +kernel
    obtain ⟨⟨b, t', w'⟩, hc⟩ := Option.isSome_iff_exists.mp hsome
    obtain ⟨-, hrepeated⟩ := h.2 33 (by decide +kernel)
    obtain ⟨hperm, hlog⟩ := (hrepeated true sampleLog).2.2 b t' w' hc
    have htagged : (sampleTypes.serialize sampleGraph ⟨false, true⟩ sampleLog).types.marks.allTagged
        = [.cls 1] := by decide +kernel
    rw [htagged] at hperm
    exact ⟨b, t', w', hc, hperm, hlog⟩

/-! ## A pass that cannot be repeated -/

/-- Five classes. The last one heads a chain of four by superclasses, and reaches the end of this
chain by its element class as well, in two steps. -/
def crossGraph : MetadataGraph where
  classLoader _ := none
  module _ := none
  package _ := none
  cls
    | 1 => some { name := "C" }
    | 2 => some { name := "B2", superclass := some 1 }
    | 3 => some { name := "B", superclass := some 2 }
    | 4 => some { name := "X", superclass := some 1 }
    | 5 => some { name := "A", superclass := some 3, element := some 4 }
    | _ => none
  method _ := none
  thread _ := none
  unloading := []

/-- A type set that accepts chains of three, with all classes tagged but the element class. -/
def crossTypes : TypeSet :=
  [5, 3, 2, 1].foldl (fun t n => (t.tag (.cls n)).2) (.create { maxDependencyDepth := 3 })

/-- The first pass comes to the end of the chain by the short way and is not too deep. In the
repeated pass the element class is covered, so the end of the chain is reached by the long way, and
that is a violation. -/
theorem quiescence_tooDeep :
    let pass := crossTypes.serialize crossGraph ⟨false, true⟩ sampleLog
    Run { maxDependencyDepth := 3 } crossTypes [] ∧ pass.result = .ok 86 ∧
      pass.types.marks.allTagged = crossTypes.marks.allTagged ∧
      (pass.types.serialize crossGraph ⟨false, true⟩ pass.sinks).result =
        .error (.violation (.dependencyTooDeep (.cls 5) 3)) := by
  refine ⟨.tag _ (.tag _ (.tag _ (.tag _ .create))), ?_, ?_, ?_⟩ <;> decide +kernel

end TraceTypes
