import TraceTypes.Proofs.Recording
/-!
# What the writing calls do

Each call that writes either stops before it commits anything, with the main
stream as it was, or commits and then forgets. The two are told apart once, and
what follows is stated for the state behind the call:

* `serialize_stopped`, `serialize_committed` — the ways of a pass;
* `finishPass_cases` — what follows the commit of its main segment;
* `captureUnloading_stopped`, `captureUnloading_committed` — the ways of a
  capture;
* `Written` — what a committed main segment changes: the marks of its
  artifacts, the bootstrap flag, and the artifacts that are forgotten;
* `main_serialize` — what a committed main segment adds to the main log;
* `serialize_writes`, `captureUnloading_writes` — the logs of the sinks grow by
  the segments of the call's events.
-/

namespace TraceTypes.Batch

theorem leakRecords_of_none {b : Batch} (h : b.leak = none) : b.leakRecords = [] := by
  unfold leakRecords
  rw [h]
  rfl

theorem leakRecords_of_some {b : Batch} {p : PendingLeak} (h : b.leak = some p) :
    b.leakRecords = p.records := by
  unfold leakRecords
  rw [h]
  rfl

end TraceTypes.Batch

namespace TraceTypes.TypeSet

variable {t t' t'' : TypeSet} {g : MetadataGraph} {flags : PassFlags}

/-! ## Forgetting -/

/-- The artifacts in `l` were forgotten on the main stream, and nothing else was done there. -/
structure Forgot (l : List Artifact) (t t' : TypeSet) : Prop where
  settings : t'.settings = t.settings
  symbols : t'.symbols = t.symbols
  epochs : t'.epochs = t.epochs
  bootstrapWritten : t'.bootstrapWritten = t.bootstrapWritten
  registries : t'.registries = t.registries.forgetAll l
  marks : ∀ m a, t'.marks.has m a = if a ∈ l then false else t.marks.has m a

theorem forgot_nil (t : TypeSet) : Forgot [] t t :=
  ⟨rfl, rfl, rfl, rfl, rfl, fun _ _ => (if_neg List.not_mem_nil).symm⟩

theorem Forgot.trans {l l' : List Artifact} (h : Forgot l t t') (h' : Forgot l' t' t'') :
    Forgot (l ++ l') t t'' where
  settings := h'.settings.trans h.settings
  symbols := h'.symbols.trans h.symbols
  epochs := h'.epochs.trans h.epochs
  bootstrapWritten := h'.bootstrapWritten.trans h.bootstrapWritten
  registries := by rw [h'.registries, h.registries, Registries.forgetAll_append]
  marks m a := by
    rw [h'.marks, h.marks]
    by_cases h1 : a ∈ l <;> by_cases h2 : a ∈ l' <;> simp [h1, h2]

theorem forgot_forgetAll (t : TypeSet) (l : List Artifact) : Forgot l t (t.forgetAll l) := by
  induction l generalizing t with
  | nil => exact forgot_nil t
  | cons a rest ih =>
      have hstep : Forgot [a] t
          { t with registries := (t.registries.forget a).2, marks := t.marks.forget a } := by
        refine ⟨rfl, rfl, rfl, rfl, rfl, ?_⟩
        intro m b
        rw [MarkTable.has_forget]
        simp
      exact hstep.trans (ih _)

theorem forgot_forgetClass (t : TypeSet) (methods : List Handle) (n : Handle) :
    Forgot (methods.map Artifact.method ++ [.cls n]) t (t.forgetClass methods n) := by
  have h := forgot_forgetAll t (methods.map Artifact.method ++ [.cls n])
  exact ⟨h.settings, h.symbols, h.epochs, h.bootstrapWritten, h.registries, h.marks⟩

/-- To forget classes is to forget the artifacts that `forgottenBy` lists. -/
theorem forgot_forgetClasses (methods : TypeSet → Handle → List Handle) (t : TypeSet)
    (l : List Handle) : Forgot (forgottenBy methods t l) t (t.forgetClasses methods l) := by
  -- the methods of a class are looked up when the classes before it are gone
  induction l generalizing t with
  | nil => exact forgot_nil t
  | cons n rest ih =>
      have := (forgot_forgetClass t (methods t n) n).trans (ih _)
      rwa [List.append_assoc] at this

/-- The classes that are forgotten are those of the list: what goes with them are methods. -/
theorem cls_mem_forgottenBy (methods : TypeSet → Handle → List Handle) (t : TypeSet)
    {l : List Handle} {n : Handle} : .cls n ∈ forgottenBy methods t l ↔ n ∈ l := by
  induction l generalizing t with
  | nil => simp [forgottenBy]
  | cons k rest ih =>
      unfold forgottenBy
      rw [List.mem_append, List.mem_cons, ih, List.mem_cons]
      simp

/-- Which methods go with their classes is a matter of the registries alone. -/
theorem forgottenBy_congr (t t' : TypeSet) (h : t'.registries = t.registries) (l : List Handle) :
    forgottenBy registeredMethods t' l = forgottenBy registeredMethods t l := by
  induction l generalizing t t' with
  | nil => rfl
  | cons n rest ih =>
      have hm : registeredMethods t' n = registeredMethods t n := by
        unfold registeredMethods
        rw [h]
      unfold forgottenBy
      rw [hm, ih (t.forgetClass (registeredMethods t n) n)]
      rw [(forgot_forgetClass t' _ n).registries, (forgot_forgetClass t _ n).registries, h]

/-! ## A committed main segment -/

/-- What the commit of a main segment changes on the main stream: `marked` have their record now,
and `l` are forgotten. -/
structure Written (t : TypeSet) (marked : List Artifact) (bootstrap : Bool) (l : List Artifact)
    (t' : TypeSet) : Prop where
  settings : t'.settings = t.settings
  symbols : t'.symbols = t.symbols
  epochs : t'.epochs = t.epochs
  bootstrapWritten : t'.bootstrapWritten = (t.bootstrapWritten || bootstrap)
  registries : t'.registries = t.registries.forgetAll l
  serialized : ∀ a, t'.marks.isSerialized a = true ↔
    a ∉ l ∧ (t.marks.isSerialized a = true ∨ a ∈ marked)

theorem has_foldl_raise (m m' : Mark) (s : MarkTable) (l : List Artifact) (a : Artifact) :
    (l.foldl (fun s a => (s.raise m a).2) s).has m' a = true ↔
      s.has m' a = true ∨ m' = m ∧ a ∈ l := by
  induction l generalizing s with
  | nil => simp
  | cons b rest ih =>
      rw [List.foldl_cons, ih, MarkTable.has_raise, List.mem_cons]
      by_cases hm : m' = m <;> by_cases hb : a = b <;> simp [hm, hb]

theorem has_foldl_lower (m m' : Mark) (f : α → Artifact) (s : MarkTable) (l : List α)
    (a : Artifact) : (l.foldl (fun s x => s.lower m (f x)) s).has m' a = true ↔
      s.has m' a = true ∧ ¬ (m' = m ∧ a ∈ l.map f) := by
  induction l generalizing s with
  | nil => simp
  | cons b rest ih =>
      rw [List.foldl_cons, ih, MarkTable.has_lower, List.map_cons, List.mem_cons]
      by_cases hm : m' = m <;> by_cases hb : a = f b <;> simp [hm, hb]

theorem has_markWritten (t : TypeSet) (b : Batch) (flushpoint : Bool) (m : Mark) (a : Artifact) :
    (t.markWritten b flushpoint).marks.has m a = true ↔
      (t.marks.has m a = true ∨ m = .serialized ∧ a ∈ b.emitted) ∧
        ¬ (flushpoint = false ∧ m = .referenced ∧ a ∈ b.processed) := by
  unfold markWritten
  cases flushpoint with
  | true => simp [has_foldl_raise]
  | false => simp [has_foldl_raise, has_foldl_lower _ _ (fun a => a)]

/-- What the commit of a main segment does to the marks. An artifact may get its serialized mark and
lose it again, if its class goes with the pass. -/
theorem has_commitMain (t : TypeSet) (b : Batch) (flushpoint : Bool) (m : Mark) (a : Artifact) :
    (t.commitMain b flushpoint).marks.has m a = true ↔
      a ∉ forgottenBy registeredMethods t b.unloading ∧
      (t.marks.has m a = true ∨ m = .serialized ∧ a ∈ b.emitted) ∧
        ¬ (flushpoint = false ∧ m = .referenced ∧ a ∈ b.processed) := by
  have h := forgot_forgetClasses registeredMethods (t.markWritten b flushpoint) b.unloading
  rw [forgottenBy_congr t (t.markWritten b flushpoint) rfl] at h
  rw [commitMain, h.marks, ← has_markWritten t b flushpoint m a]
  split
  · rename_i ha
    simp [ha]
  · rename_i ha
    simp [ha]

theorem written_commitMain (t : TypeSet) (b : Batch) (flushpoint : Bool) :
    Written t b.emitted b.bootstrapEmitted (forgottenBy registeredMethods t b.unloading)
      (t.commitMain b flushpoint) := by
  have h := forgot_forgetClasses registeredMethods (t.markWritten b flushpoint) b.unloading
  rw [forgottenBy_congr t (t.markWritten b flushpoint) rfl] at h
  refine ⟨h.settings, h.symbols, h.epochs, h.bootstrapWritten, h.registries, ?_⟩
  intro a
  show MarkTable.has _ _ _ = true ↔ _
  rw [has_commitMain]
  simp

/-- What was written on the main stream does not depend on the leak stream or the tallies. -/
theorem Written.of_eq {t₁ : TypeSet} {marked l : List Artifact} {bootstrap : Bool}
    (h : Written t₁ marked bootstrap l t') (hsettings : t₁.settings = t.settings)
    (hsymbols : t₁.symbols = t.symbols) (hepochs : t₁.epochs = t.epochs)
    (hbootstrap : t₁.bootstrapWritten = t.bootstrapWritten)
    (hregistries : t₁.registries = t.registries)
    (hserialized : ∀ a, t₁.marks.isSerialized a = t.marks.isSerialized a) :
    Written t marked bootstrap l t' where
  settings := h.settings.trans hsettings
  symbols := h.symbols.trans hsymbols
  epochs := h.epochs.trans hepochs
  bootstrapWritten := by rw [h.bootstrapWritten, hbootstrap]
  registries := by rw [h.registries, hregistries]
  serialized a := by rw [h.serialized, hserialized]

/-- To count a pass changes nothing of this. -/
theorem Written.counted {marked l : List Artifact} {bootstrap : Bool}
    (h : Written t marked bootstrap l t') (totals : Totals) (summary : Option PassSummary) :
    Written t marked bootstrap l { t' with totals := totals, lastSummary := summary } :=
  ⟨h.settings, h.symbols, h.epochs, h.bootstrapWritten, h.registries, h.serialized⟩

/-! ## Behind the commit of the main segment -/

/-- The summary of a pass, with nothing counted of a leak segment. -/
def mainSummary (t : TypeSet) (flags : PassFlags) (b : Batch) (bytes : Nat) : PassSummary :=
  { ({ bytes := bytes
       flushpoint := flags.flushpoint
       classUnload := flags.classUnload
       generation := t.epoch.generation } : PassSummary).countAll b.records with
    unloaded := b.unloading.length }

theorem leakFields_countAll (s : PassSummary) (l : List Record) :
    (s.countAll l).leakBytes = s.leakBytes ∧ (s.countAll l).leakClasses = s.leakClasses := by
  unfold PassSummary.countAll
  induction l generalizing s with
  | nil => exact ⟨rfl, rfl⟩
  | cons r rest ih => exact ih (s.count r)

theorem leakBytes_mainSummary (t : TypeSet) (flags : PassFlags) (b : Batch) (bytes : Nat) :
    (t.mainSummary flags b bytes).leakBytes = 0 := (leakFields_countAll _ b.records).1

theorem leakClasses_mainSummary (t : TypeSet) (flags : PassFlags) (b : Batch) (bytes : Nat) :
    (t.mainSummary flags b bytes).leakClasses = 0 := (leakFields_countAll _ b.records).2

section Pass

variable {σ τ : Type} [Sink τ] {w w' : Sinks σ τ}

section Finish

variable {b : Batch} {p : PendingLeak}

/-- A pass without a leak segment is finished with its main segment. -/
theorem finishPass_without (hb : b.leak = none) (bytes : Nat) (w : Sinks σ τ) :
    t.finishPass flags b bytes w =
      ⟨.ok bytes, (t.commitMain b flags.flushpoint).addPass (t.mainSummary flags b bytes), w⟩ := by
  unfold finishPass
  rw [hb]
  rfl

/-- When the leak segment is committed, its classes lose their leak marks first. -/
theorem finishPass_committed {size : Nat} (hb : b.leak = some p)
    (hok : (Sinks.onLeak 0 (Sink.finish p.records) : EStateM SinkError (Sinks σ τ) Nat) w =
      .ok size w') (bytes : Nat) :
    t.finishPass flags b bytes w =
      ⟨.ok bytes, ((t.commitLeak b p).commitMain b flags.flushpoint).addPass
        { t.mainSummary flags b bytes with leakBytes := size, leakClasses := p.entries.length },
        w'⟩ := by
  unfold finishPass
  rw [hb]
  dsimp only
  rw [hok]
  rfl

/-- When the leak segment is refused, the leak part of the pass is taken back. -/
theorem finishPass_refused {e : SinkError} (hb : b.leak = some p)
    (herr : (Sinks.onLeak 0 (Sink.finish p.records) : EStateM SinkError (Sinks σ τ) Nat) w =
      .error e w') (bytes : Nat) :
    t.finishPass flags b bytes w =
      ⟨.error (.sink e),
        (({ t with leak := t.leak.rollback p }.commitMain b flags.flushpoint).addPass
          (t.mainSummary flags b bytes)).countFailure, w'.discardLeak⟩ := by
  unfold finishPass
  rw [hb]
  dsimp only
  rw [herr]
  rfl

end Finish

/-- The ways in which a pass is finished. -/
theorem finishPass_cases (t : TypeSet) (flags : PassFlags) (b : Batch) (bytes : Nat)
    (w : Sinks σ τ) :
    (b.leak = none ∧ t.finishPass flags b bytes w =
      ⟨.ok bytes, (t.commitMain b flags.flushpoint).addPass (t.mainSummary flags b bytes), w⟩) ∨
    ∃ p, b.leak = some p ∧
      ((∃ size w',
        (Sinks.onLeak 0 (Sink.finish p.records) : EStateM SinkError (Sinks σ τ) Nat) w =
          .ok size w' ∧
        t.finishPass flags b bytes w =
          ⟨.ok bytes, ((t.commitLeak b p).commitMain b flags.flushpoint).addPass
            { t.mainSummary flags b bytes with
              leakBytes := size, leakClasses := p.entries.length }, w'⟩) ∨
      ∃ e w',
        (Sinks.onLeak 0 (Sink.finish p.records) : EStateM SinkError (Sinks σ τ) Nat) w =
          .error e w' ∧
        t.finishPass flags b bytes w =
          ⟨.error (.sink e), (({ t with leak := t.leak.rollback p }.commitMain b
            flags.flushpoint).addPass (t.mainSummary flags b bytes)).countFailure,
            w'.discardLeak⟩) := by
  cases hb : b.leak with
  | none => exact .inl ⟨rfl, finishPass_without hb bytes w⟩
  | some p =>
      refine .inr ⟨p, rfl, ?_⟩
      cases hfinish : (Sinks.onLeak 0 (Sink.finish p.records) :
          EStateM SinkError (Sinks σ τ) Nat) w with
      | ok size w' => exact .inl ⟨size, w', rfl, finishPass_committed hb hfinish bytes⟩
      | error e w' => exact .inr ⟨e, w', rfl, finishPass_refused hb hfinish bytes⟩

/-- Whatever becomes of the leak segment, the main segment is written. -/
theorem written_finishPass (t : TypeSet) (flags : PassFlags) (b : Batch) (bytes : Nat)
    (w : Sinks σ τ) :
    Written t b.emitted b.bootstrapEmitted (forgottenBy registeredMethods t b.unloading)
      (t.finishPass flags b bytes w).types := by
  have hcommit (t₁ : TypeSet) := written_commitMain t₁ b flags.flushpoint
  rcases finishPass_cases t flags b bytes w with
    ⟨-, heq⟩ | ⟨p, -, ⟨size, w', -, heq⟩ | ⟨e, w', -, heq⟩⟩
  · rw [heq]
    exact (hcommit t).counted _ _
  · -- the leak commit lowers leak marks only
    have h := hcommit (t.commitLeak b p)
    rw [forgottenBy_congr t (t.commitLeak b p) rfl] at h
    rw [heq]
    refine (h.counted _ _).of_eq rfl rfl rfl rfl rfl ?_
    intro a
    rw [Bool.eq_iff_iff]
    show MarkTable.has _ _ _ = true ↔ _
    simp [commitLeak, has_foldl_lower]
  · have h := hcommit { t with leak := t.leak.rollback p }
    rw [forgottenBy_congr t { t with leak := t.leak.rollback p } rfl] at h
    rw [heq]
    exact (h.counted _ _).of_eq rfl rfl rfl rfl rfl fun _ => rfl

/-! ## The ways of a pass -/

variable [Sink σ]

/-- A pass that does not get past the commit of its main segment is refused, or meets a violation in
its plan, or a sink's error before or at the commit. -/
theorem serialize_stopped (h : t.commits? g flags w = none) :
    (t.isPoisoned = true ∧ t.serialize g flags w = ⟨.error .poisoned, t, w⟩) ∨
    (∃ v t', t.plan g flags.classUnload w.leak.isSome = .error v t' ∧
      t.serialize g flags w = ⟨.error (.violation v), t'.poison v, w⟩) ∨
    (∃ b t' e w', t.plan g flags.classUnload w.leak.isSome = .ok b t' ∧
      (Sinks.commitMain (t'.passHeader flags) b : EStateM SinkError (Sinks σ τ) Nat) w =
        .error e w' ∧
      t.serialize g flags w = ⟨.error (.sink e), (t'.rollback b).countFailure, w'.discard⟩) := by
  unfold commits? at h
  split at h
  · rename_i hp
    exact .inl ⟨hp, by rw [serialize, if_pos hp]⟩
  · rename_i hp
    split at h
    · rename_i v t' hplan
      exact .inr (.inl ⟨v, t', hplan, by rw [serialize, if_neg hp, hplan]⟩)
    · rename_i b t' hplan
      split at h
      · rename_i e w' hcommit
        refine .inr (.inr ⟨b, t', e, w', hplan, hcommit, ?_⟩)
        unfold passHeader at hcommit
        rw [serialize, if_neg hp, hplan]
        dsimp only
        rw [hcommit]
      · cases h

/-- A pass that gets past it has a plan, and is finished behind the commit. -/
theorem serialize_committed {b : Batch} (h : t.commits? g flags w = some (b, t', w')) :
    t.plan g flags.classUnload w.leak.isSome = .ok b t' ∧ ∃ bytes,
      (Sinks.commitMain (t'.passHeader flags) b : EStateM SinkError (Sinks σ τ) Nat) w =
        .ok bytes w' ∧
      t.serialize g flags w = t'.finishPass flags b bytes w' := by
  unfold commits? at h
  split at h
  · cases h
  · rename_i hp
    split at h
    · cases h
    · rename_i b' t₁ hplan
      split at h
      · cases h
      · rename_i bytes w₁ hcommit
        cases h
        refine ⟨hplan, bytes, hcommit, ?_⟩
        unfold passHeader at hcommit
        rw [serialize, if_neg hp, hplan]
        dsimp only
        rw [hcommit]

/-- A pass that cannot be planned writes nothing. -/
theorem serialize_of_violation {v : Violation} (hp : t.isPoisoned = false)
    (hplan : t.plan g flags.classUnload w.leak.isSome = .error v t') :
    t.serialize g flags w = ⟨.error (.violation v), t'.poison v, w⟩ := by
  rw [serialize, if_neg (by simp [hp]), hplan]

/-- A violation that a call reports is that of its plan. -/
theorem plan_of_violation_reported {v : Violation}
    (h : (t.serialize g flags w).result = .error (.violation v)) :
    ∃ t', t.plan g flags.classUnload w.leak.isSome = .error v t' ∧
      t.serialize g flags w = ⟨.error (.violation v), t'.poison v, w⟩ := by
  cases hc : t.commits? g flags w with
  | none =>
      rcases serialize_stopped hc with
        ⟨-, heq⟩ | ⟨v', t', hplan, heq⟩ | ⟨b, t', e, w', -, -, heq⟩ <;>
        rw [heq] at h <;> cases h
      exact ⟨t', hplan, heq⟩
  | some q =>
      obtain ⟨b, t', w'⟩ := q
      obtain ⟨-, bytes, -, heq⟩ := serialize_committed hc
      rw [heq] at h
      rcases finishPass_cases t' flags b bytes w' with
        ⟨-, heq'⟩ | ⟨p, -, ⟨size, w₁, -, heq'⟩ | ⟨e, w₁, -, heq'⟩⟩ <;>
        rw [heq'] at h <;> cases h

/-- A planned pass whose main segment is refused stops there. -/
theorem serialize_of_refused {b : Batch} {e : SinkError} (hp : t.isPoisoned = false)
    (hplan : t.plan g flags.classUnload w.leak.isSome = .ok b t')
    (hcommit : (Sinks.commitMain (t'.passHeader flags) b : EStateM SinkError (Sinks σ τ) Nat) w =
      .error e w') :
    t.commits? g flags w = none ∧
      t.serialize g flags w = ⟨.error (.sink e), (t'.rollback b).countFailure, w'.discard⟩ := by
  have hn : ¬ t.isPoisoned = true := by simp [hp]
  constructor
  · rw [commits?, if_neg hn, hplan]
    dsimp only
    rw [hcommit]
  · unfold passHeader at hcommit
    rw [serialize, if_neg hn, hplan]
    dsimp only
    rw [hcommit]

/-- A planned pass whose main segment is taken is finished behind its commit. -/
theorem serialize_of_taken {b : Batch} {bytes : Nat} (hp : t.isPoisoned = false)
    (hplan : t.plan g flags.classUnload w.leak.isSome = .ok b t')
    (hcommit : (Sinks.commitMain (t'.passHeader flags) b : EStateM SinkError (Sinks σ τ) Nat) w =
      .ok bytes w') :
    t.commits? g flags w = some (b, t', w') ∧
      t.serialize g flags w = t'.finishPass flags b bytes w' := by
  have hn : ¬ t.isPoisoned = true := by simp [hp]
  constructor
  · rw [commits?, if_neg hn, hplan]
    dsimp only
    rw [hcommit]
  · unfold passHeader at hcommit
    rw [serialize, if_neg hn, hplan]
    dsimp only
    rw [hcommit]

/-- Only a type set that is not poisoned commits. -/
theorem not_isPoisoned_of_commits {b : Batch} (h : t.commits? g flags w = some (b, t', w')) :
    ¬ t.isPoisoned = true := by
  intro hp
  unfold commits? at h
  rw [if_pos hp] at h
  cases h

/-- A pass that stops before the commit leaves the main stream as it was. -/
theorem mainKept_of_stopped (h : t.commits? g flags w = none) :
    MainKept t (t.serialize g flags w).types := by
  rcases serialize_stopped h with ⟨-, heq⟩ | ⟨v, t', hplan, heq⟩ | ⟨b, t', e, w', hplan, -, heq⟩
  · rw [heq]
    exact (Kept.refl t).toMainKept
  · rw [heq]
    exact (plan_error hplan).1.poison v
  · rw [heq]
    obtain ⟨s, hplanned⟩ := plan_ok hplan
    exact hplanned.rollback.toMainKept.counted _ _

end Pass

/-! ## The ways of a capture -/

section Capture

variable {σ : Type} [Sink σ] {w w' : σ}

/-- A capture that commits nothing is refused, or meets a violation, or finds nothing to capture,
or meets a sink's error. Registrations are undone in each case. -/
theorem captureUnloading_stopped (h : t.captures? g w = none) :
    (t.isPoisoned = true ∧ t.captureUnloading g w = ⟨.error .poisoned, t, w⟩) ∨
    (∃ v t', Undone t t' ∧ t.captureUnloading g w = ⟨.error (.violation v), t'.poison v, w⟩) ∨
    (g.unloading = [] ∧ t.captureUnloading g w = ⟨.ok 0, t, w⟩) ∨
    (∃ (l : List CapturedClass) (e : SinkError) (w' : σ) (t' : TypeSet), Undone t t' ∧
      Sink.send t.captureHeader (l.map CapturedClass.record) w = .error e w' ∧
      t.captureUnloading g w = ⟨.error (.sink e), t'.countFailure, Sink.discard w'⟩) := by
  have hundone {r : Registries} (hr : t.registries.Similar r)
      (hentries : ∀ a, r.entry? a = t.registries.entry? a) :
      Undone t { t with registries := r } :=
    ⟨⟨⟨rfl, rfl, hr, List.prefix_rfl, rfl, rfl⟩, .refl _, rfl, rfl, rfl, rfl, rfl⟩, hentries⟩
  unfold captures? at h
  split at h
  · rename_i hp
    exact .inl ⟨hp, by rw [captureUnloading, if_pos hp]⟩
  · rename_i hp
    split at h
    · rename_i v r hcapture
      obtain ⟨hsimilar, hentries⟩ := UnloadCapture.capture_error hcapture
      refine .inr (.inl ⟨v, _, hundone hsimilar hentries, ?_⟩)
      rw [captureUnloading, if_neg hp, hcapture]
    · rename_i l r hcapture
      obtain ⟨hcaptured, hhandles⟩ := UnloadCapture.capture_ok hcapture
      split at h
      · rename_i hl
        obtain rfl := List.isEmpty_iff.mp hl
        have hnil : g.unloading = [] := by
          refine List.eq_nil_iff_forall_not_mem.mpr ?_
          intro n hn
          rw [← List.mem_eraseDups, ← hhandles] at hn
          cases hn
        refine .inr (.inr (.inl ⟨hnil, ?_⟩))
        rw [captureUnloading, if_neg hp, UnloadCapture.capture, hnil]
        rfl
      · rename_i hl
        split at h
        · rename_i e w' hsend
          refine .inr (.inr (.inr
            ⟨l, e, w', _, hundone hcaptured.rollback hcaptured.entry?_rollback, hsend, ?_⟩))
          have hsend' : Sink.send { t with registries := r }.captureHeader
              (l.map CapturedClass.record) w = .error e w' := hsend
          unfold captureHeader at hsend'
          rw [captureUnloading, if_neg hp, hcapture]
          dsimp only
          rw [if_neg hl, hsend']
        · cases h

/-- A capture that commits its segment forgets the captured classes. -/
theorem captureUnloading_committed {l : List CapturedClass} {r : Registries}
    (h : t.captures? g w = some (l, r)) :
    UnloadCapture.capture g t.settings.bootstrapLoaderName t.registries = .ok l r ∧ l ≠ [] ∧
      ∃ n w', Sink.send t.captureHeader (l.map CapturedClass.record) w = .ok n w' ∧
        t.captureUnloading g w = ⟨.ok l.length,
          ({ t with registries := r }.forgetCaptured g l).addCapture l.length, w'⟩ := by
  unfold captures? at h
  split at h
  · cases h
  · rename_i hp
    split at h
    · cases h
    · rename_i l' r' hcapture
      split at h
      · cases h
      · rename_i hl
        split at h
        · cases h
        · rename_i n w' hsend
          cases h
          refine ⟨hcapture, fun e => hl (List.isEmpty_iff.mpr e), n, w', hsend, ?_⟩
          have hsend' : Sink.send { t with registries := r }.captureHeader
              (l.map CapturedClass.record) w = .ok n w' := hsend
          unfold captureHeader at hsend'
          rw [captureUnloading, if_neg hp, hcapture]
          dsimp only
          rw [if_neg hl, hsend']

theorem not_isPoisoned_of_captures {l : List CapturedClass} {r : Registries}
    (h : t.captures? g w = some (l, r)) : ¬ t.isPoisoned = true := by
  intro hp
  unfold captures? at h
  rw [if_pos hp] at h
  cases h

/-- A capture that commits nothing leaves all as it was, but for the violation or the failure that
it notes. -/
theorem undone_of_captureUnloading_stopped (h : t.captures? g w = none) :
    Undone t { (t.captureUnloading g w).types with poisoned := t.poisoned, totals := t.totals } := by
  rcases captureUnloading_stopped h with
    ⟨-, heq⟩ | ⟨v, t', hundone, heq⟩ | ⟨-, heq⟩ | ⟨l, e, w', t', hundone, -, heq⟩ <;> rw [heq]
  · exact ⟨.refl t, fun _ => rfl⟩
  · exact { hundone with poisoned := rfl, totals := rfl }
  · exact ⟨.refl t, fun _ => rfl⟩
  · exact { hundone with poisoned := rfl, totals := rfl }

/-- A capture that commits nothing leaves the main stream as it was. -/
theorem mainKept_of_captureUnloading_stopped (h : t.captures? g w = none) :
    MainKept t (t.captureUnloading g w).types := by
  have hu := (undone_of_captureUnloading_stopped h).toMainKept
  exact ⟨hu.settings, hu.marks, hu.registries, hu.symbols, hu.epochs, hu.bootstrapWritten⟩

end Capture

/-! ## What the sinks take -/

theorem segments_append (leak : Bool) (H H' : History) :
    History.segments leak (H ++ H') = H.segments leak ++ H'.segments leak := List.filterMap_append

theorem segments_ofSegment (leak : Bool) {header : Header} (l : List Entry)
    (h : decide (header.kind = .leakProfiler) = leak) :
    History.segments leak (Event.ofSegment header l) = segmentOf header (l.map Entry.record) := by
  unfold Event.ofSegment segmentOf
  rw [List.isEmpty_map]
  split
  · rfl
  · simp only [History.segments, List.filterMap_cons, Event.segment?, if_pos h,
      List.filterMap_nil]

theorem segments_ofSegment_of_ne (leak : Bool) {header : Header} (l : List Entry)
    (h : decide (header.kind = .leakProfiler) ≠ leak) :
    History.segments leak (Event.ofSegment header l) = [] := by
  unfold Event.ofSegment
  split
  · rfl
  · simp only [History.segments, List.filterMap_cons, Event.segment?, if_neg h,
      List.filterMap_nil]

theorem mem_segments {leak : Bool} {H : History} {header : Header} {records : List Record} :
    (header, records) ∈ History.segments leak H ↔ ∃ l, .committed header l ∈ H ∧
      decide (header.kind = .leakProfiler) = leak ∧ records = l.map Entry.record := by
  unfold History.segments
  rw [List.mem_filterMap]
  constructor
  · rintro ⟨event, hmem, h⟩
    cases event with
    | rotated => cases h
    | forgotten l => cases h
    | committed k l =>
        simp only [Event.segment?] at h
        split at h
        · rename_i hk
          cases h
          exact ⟨l, hmem, hk, rfl⟩
        · cases h
  · rintro ⟨l, hmem, hk, rfl⟩
    exact ⟨_, hmem, if_pos hk⟩

/-- A pass commits a leak segment behind the main one, or none. -/
theorem leakEvents_cases {σ τ : Type} [Sink τ] (t : TypeSet) (flags : PassFlags) (b : Batch)
    (w : Sinks σ τ) : t.leakEvents flags b w = [] ∨ ∃ p header, b.leak = some p ∧
      header.kind = .leakProfiler ∧
      t.leakEvents flags b w = [.committed header (leakEntries b p)] := by
  unfold leakEvents
  split
  · exact .inl rfl
  · rename_i p hp
    split
    · exact .inl rfl
    · split
      · unfold Event.ofSegment
        split
        · exact .inl rfl
        · exact .inr ⟨p, _, hp, rfl, rfl⟩
      · exact .inl rfl

theorem mem_leakEvents {σ τ : Type} [Sink τ] {b : Batch} {w : Sinks σ τ} {event : Event}
    (h : event ∈ t.leakEvents flags b w) : ∃ p header, b.leak = some p ∧
      header.kind = .leakProfiler ∧ event = .committed header (leakEntries b p) := by
  rcases leakEvents_cases t flags b w with hnil | ⟨p, header, hb, hkind, hone⟩
  · rw [hnil] at h
    cases h
  · rw [hone] at h
    exact ⟨p, header, hb, hkind, List.mem_singleton.mp h⟩

/-- The events of a pass are its main segment, its leak segment, and what it forgets. -/
theorem mem_serializeEvents {σ τ : Type} [Sink σ] [Sink τ] {w : Sinks σ τ} {event : Event}
    (h : event ∈ t.serializeEvents g flags w) :
    ∃ b t' w', t.commits? g flags w = some (b, t', w') ∧
      (event = .committed (t'.passHeader flags) b.entries ∨
      (∃ p header, b.leak = some p ∧ header.kind = .leakProfiler ∧
        event = .committed header (leakEntries b p)) ∨
      event = .forgotten (forgottenBy registeredMethods t' b.unloading)) := by
  unfold serializeEvents at h
  split at h
  · cases h
  · rename_i b t' w' hc
    refine ⟨b, t', w', hc, ?_⟩
    rcases List.mem_append.mp h with h | h
    · rcases List.mem_append.mp h with h | h
      · exact .inl (Event.eq_of_mem_ofSegment h)
      · exact .inr (.inl (mem_leakEvents h))
    · exact .inr (.inr (List.mem_singleton.mp h))

/-- The main segment of a call's events is that of the pass. -/
theorem main_of_mem_serializeEvents {σ τ : Type} [Sink σ] [Sink τ] {w : Sinks σ τ}
    {header : Header} {l : List Entry} (h : .committed header l ∈ t.serializeEvents g flags w)
    (hkind : header.kind ≠ .leakProfiler) :
    ∃ b t' w', t.commits? g flags w = some (b, t', w') ∧ header = t'.passHeader flags ∧
      l = b.entries := by
  obtain ⟨b, t', w', hc, heq | ⟨p, k, -, hk, heq⟩ | heq⟩ := mem_serializeEvents h
  · cases heq
    exact ⟨b, t', w', hc, rfl, rfl⟩
  · cases heq
    exact absurd hk hkind
  · cases heq

/-- The leak segment of a pass has the records of its classes. -/
theorem map_record_leakEntries {b : Batch} {p : PendingLeak}
    (h : p.entries.length = b.leakClasses.length) :
    (leakEntries b p).map Entry.record = p.records := by
  unfold leakEntries PendingLeak.records
  rw [List.map_zipWith]
  generalize b.leakClasses = l at h
  generalize p.entries = entries at h
  induction entries generalizing l with
  | nil => cases l <;> rfl
  | cons e rest ih =>
      cases l with
      | nil => cases h
      | cons n l => exact congrArg (_ :: ·) (ih l (Nat.succ.inj h))

section Pass

variable {σ τ : Type} [Sink τ] {w : Sinks σ τ} {b : Batch}

theorem main_finishPass (t : TypeSet) (flags : PassFlags) (b : Batch) (bytes : Nat)
    (w : Sinks σ τ) : (t.finishPass flags b bytes w).sinks.main = w.main := by
  rcases finishPass_cases t flags b bytes w with
    ⟨-, heq⟩ | ⟨p, -, ⟨size, w', hfinish, heq⟩ | ⟨e, w', hfinish, heq⟩⟩
  · rw [heq]
  · rw [heq]
    exact (Sinks.onLeak_ok hfinish).1
  · rw [heq]
    exact (Sinks.onLeak_error hfinish).1

variable [LawfulSink τ]

/-- Behind the commit of the main segment the leak log grows by the leak segment, or not at all. -/
theorem leakLog_finishPass (bytes : Nat)
    (hlength : ∀ p, b.leak = some p → p.entries.length = b.leakClasses.length)
    (hstaged : ∀ x, w.leak = some x → b.leakRecords ≠ [] →
      opened x = some ({ t.passHeader flags with kind := .leakProfiler }, b.leakRecords)) :
    (t.finishPass flags b bytes w).sinks.leakLog =
      w.leakLog.map (· ++ History.segments true (t.leakEvents flags b w)) := by
  have hnil : w.leakLog.map (· ++ []) = w.leakLog := by simp
  unfold leakEvents
  rcases finishPass_cases t flags b bytes w with
    ⟨hb, heq⟩ | ⟨p, hb, ⟨size, w', hfinish, heq⟩ | ⟨e, w', hfinish, heq⟩⟩
  · rw [heq, hb]
    exact hnil.symm
  · rw [heq, hb]
    dsimp only
    rw [hfinish]
    dsimp only
    obtain ⟨-, ⟨hx, hx', -⟩ | ⟨x, x', hx, hx', hok⟩⟩ := Sinks.onLeak_ok hfinish
    · rw [Sinks.leakLog, Sinks.leakLog, hx, hx']
      rfl
    · rw [if_pos (by rw [hx]; rfl), segments_ofSegment true _ rfl,
        map_record_leakEntries (hlength p hb), Sinks.leakLog, Sinks.leakLog, hx, hx']
      refine congrArg some (finish_ok ?_ hok)
      intro hne
      have hrecords := Batch.leakRecords_of_some hb
      rw [← hrecords]
      exact hstaged x hx (hrecords ▸ hne)
  · -- the leak sink has refused the commit, and its segment is discarded
    rw [heq, hb]
    dsimp only
    rw [hfinish]
    obtain ⟨-, x, x', hx, hx', herr⟩ := Sinks.onLeak_error hfinish
    have hlog : w'.leakLog = w.leakLog := by
      rw [Sinks.leakLog, Sinks.leakLog, hx, hx', Option.map_some, finish_error herr,
        Option.map_some]
    exact (Sinks.leakLog_discardLeak w').trans (hlog.trans hnil.symm)

variable [Sink σ] [LawfulSink σ]

/-- The main log grows by the main segment of a pass that commits it. -/
theorem main_serialize {w' : Sinks σ τ} (h : t.commits? g flags w = some (b, t', w')) :
    committed (t.serialize g flags w).sinks.main =
      committed w.main ++ segmentOf (t.passHeader flags) (b.entries.map Entry.record) := by
  obtain ⟨hplan, bytes, hcommit, heq⟩ := serialize_committed h
  obtain ⟨s, hp⟩ := plan_ok hplan
  rw [heq, main_finishPass, (Sinks.commitMain_ok hcommit).1, hp.types]
  rfl

/-- The logs of the sinks grow by the segments of the call's events. -/
theorem serialize_writes (t : TypeSet) (g : MetadataGraph) (flags : PassFlags) (w : Sinks σ τ) :
    committed (t.serialize g flags w).sinks.main =
      committed w.main ++ History.segments false (t.serializeEvents g flags w) ∧
    (t.serialize g flags w).sinks.leakLog =
      w.leakLog.map (· ++ History.segments true (t.serializeEvents g flags w)) := by
  unfold serializeEvents
  cases h : t.commits? g flags w with
  | none =>
      show _ = _ ++ [] ∧ _ = w.leakLog.map (· ++ [])
      rw [List.append_nil]
      simp only [List.append_nil, Option.map_id']
      rcases serialize_stopped h with ⟨-, heq⟩ | ⟨v, t', -, heq⟩ | ⟨b, t', e, w', -, herr, heq⟩
      · rw [heq]
        exact ⟨rfl, rfl⟩
      · rw [heq]
        exact ⟨rfl, rfl⟩
      · rw [heq]
        obtain ⟨hmain, hleak⟩ := Sinks.commitMain_error herr
        exact ⟨(LawfulSink.committed_discard _).trans hmain,
          (Sinks.leakLog_discard _).trans hleak⟩
  | some q =>
      obtain ⟨b, t', w'⟩ := q
      obtain ⟨hplan, bytes, hcommit, heq⟩ := serialize_committed h
      obtain ⟨s, hplanned⟩ := plan_ok hplan
      obtain ⟨hmain, hleak, hstaged⟩ := Sinks.commitMain_ok hcommit
      dsimp only
      rw [heq, main_finishPass, leakLog_finishPass bytes hplanned.leak_length hstaged, hmain,
        hleak]
      -- each stream sees its own segment among the events only
      have hforgot (l : List Artifact) (leak : Bool) :
          History.segments leak [.forgotten l] = [] := rfl
      have hother : History.segments false (t'.leakEvents flags b w') = [] := by
        rcases leakEvents_cases t' flags b w' with hnil | ⟨p, header, -, hkind, hone⟩
        · rw [hnil]
          rfl
        · rw [hone]
          simp [History.segments, Event.segment?, hkind]
      rw [segments_append, segments_append, segments_append, segments_append, hforgot, hforgot,
        hother, segments_ofSegment false _ rfl,
        segments_ofSegment_of_ne true _ (by simp [passHeader])]
      simp [Batch.records]

end Pass

/-- The log of the sink grows by the segment of the call's events. -/
theorem captureUnloading_writes {σ : Type} [Sink σ] [LawfulSink σ] (t : TypeSet)
    (g : MetadataGraph) (w : σ) :
    committed (t.captureUnloading g w).sinks =
      committed w ++ History.segments false (t.captureEvents g w) := by
  unfold captureEvents
  cases h : t.captures? g w with
  | none =>
      show _ = _ ++ []
      rw [List.append_nil]
      rcases captureUnloading_stopped h with
        ⟨-, heq⟩ | ⟨v, t', -, heq⟩ | ⟨-, heq⟩ | ⟨l, e, w', t', -, hsend, heq⟩ <;> rw [heq]
      exact (LawfulSink.committed_discard _).trans (send_error hsend)
  | some q =>
      obtain ⟨l, r⟩ := q
      obtain ⟨-, hne, n, w', hsend, heq⟩ := captureUnloading_committed h
      rw [heq]
      dsimp only
      rw [send_ok hsend]
      have hl : (l.map CapturedClass.record).isEmpty = false := by
        rw [List.isEmpty_map]
        cases l with
        | nil => exact absurd rfl hne
        | cons c l => rfl
      unfold segmentOf
      rw [hl]
      simp [History.segments, Event.segment?, captureHeader, captureEntry, Function.comp_def]

end TraceTypes.TypeSet
