import TraceTypes.Proofs.Alike
import TraceTypes.Proofs.Retention
/-!
# The leak sink does not show on the main stream

A pass with a leak sink is compared with the same pass without one. As long as
the leak segment can be planned and staged, the two cannot be told apart on the
main stream, whatever becomes of the leak segment in the end:

* `TypeSet.AgreeOnMain` — two type sets have the same state behind the main
  stream, and the same slots in the table of marks;
* `TypeSet.plan_without` — the plan of the main segment is the same;
* `Sinks.commitMain_without`, `Sinks.commitMain_staged` — up to the commit of
  the main segment both passes do to the main sink what `Sink.send` does;
* `TypeSet.finishPass_leak_independent` — behind it the type sets still agree;
* `TypeSet.serialize_leak_independent` — the two passes.
-/

namespace TraceTypes

/-- The summary without what it counts of the leak segment. -/
def PassSummary.withoutLeak (s : PassSummary) : PassSummary :=
  { s with leakBytes := 0, leakClasses := 0 }

namespace TypeSet

/-- Two type sets agree on what the main stream uses. With the leak marks lowered, the tables of
marks are the same slot by slot. -/
structure AgreeOnMain (t t' : TypeSet) : Prop where
  settings : t'.settings = t.settings
  registries : t'.registries = t.registries
  symbols : t'.symbols = t.symbols
  epochs : t'.epochs = t.epochs
  bootstrapWritten : t'.bootstrapWritten = t.bootstrapWritten
  poisoned : t'.poisoned = t.poisoned
  marks : t'.marks.lowerAll .leak = t.marks.lowerAll .leak

variable {t t' t'' : TypeSet} {g : MetadataGraph} {flags : PassFlags} {b : Batch}

theorem AgreeOnMain.trans (h : AgreeOnMain t t') (h' : AgreeOnMain t' t'') : AgreeOnMain t t'' where
  settings := h'.settings.trans h.settings
  registries := h'.registries.trans h.registries
  symbols := h'.symbols.trans h.symbols
  epochs := h'.epochs.trans h.epochs
  bootstrapWritten := h'.bootstrapWritten.trans h.bootstrapWritten
  poisoned := h'.poisoned.trans h.poisoned
  marks := h'.marks.trans h.marks

/-! ## What a commit does to the main stream -/

/-- They differ in leak marks, and all their slots are in the same order. -/
theorem agreeOnMain_iff : AgreeOnMain t t' ↔ Alike (fun _ => True) t t' := by
  constructor
  · intro h
    refine ⟨h.settings, h.registries, h.symbols, h.epochs, h.bootstrapWritten, h.poisoned, ?_, ?_⟩
    · intro m a hm
      have hmarks := congrArg (fun s => s.has m a) h.marks
      simpa only [MarkTable.has_lowerAll, if_neg hm] using hmarks
    · intro k _
      rw [h.marks]
  · intro h
    refine ⟨h.settings, h.registries, h.symbols, h.epochs, h.bootstrapWritten, h.poisoned, ?_⟩
    exact congrArg MarkTable.mk (PerKind.ext fun k => h.marks.slots k trivial)

/-- What the commit of a main segment does to the main stream does not depend on leak marks or the
leak stream. -/
theorem AgreeOnMain.commitMain (h : AgreeOnMain t t') (b : Batch) (flushpoint : Bool) :
    AgreeOnMain (t.commitMain b flushpoint) (t'.commitMain b flushpoint) :=
  agreeOnMain_iff.mpr ((agreeOnMain_iff.mp h).commitMain b flushpoint)

/-- To answer leak marks leaves the main stream alone. -/
theorem agreeOnMain_commitLeak (t : TypeSet) (b : Batch) (p : PendingLeak) :
    AgreeOnMain t (t.commitLeak b p) where
  settings := rfl
  registries := rfl
  symbols := rfl
  epochs := rfl
  bootstrapWritten := rfl
  poisoned := rfl
  marks := by
    show (b.leakClasses.foldl (fun s n => s.lower .leak (.cls n)) t.marks).lowerAll .leak = _
    generalize t.marks = marks
    induction b.leakClasses generalizing marks with
    | nil => rfl
    | cons n rest ih => rw [List.foldl_cons, ih, MarkTable.lowerAll_lower_self]

/-! ## The plan and the sinks -/

/-- Without the leak sink the main segment is planned as with it. -/
theorem plan_without {classUnload : Bool} (h : t.plan g classUnload true = .ok b t') :
    t.plan g classUnload false =
      .ok { b with leakClasses := [], leak := none } { t' with leak := t.leak } := by
  obtain ⟨s, hplan, ⟨h, -⟩ | ⟨-, classes, p, leak, -, -, rfl, rfl⟩⟩ := plan_cases h
  · cases h
  · exact plan_without_leak hplan

/-- What is left of the leak stream when the leak part of a planned pass is taken back. -/
theorem leak_rollback_of_plan {classUnload : Bool} (h : t.plan g classUnload true = .ok b t') :
    ∃ p, b.leak = some p ∧ t.leak.ids.Similar (t'.leak.rollback p).ids ∧
      (t'.leak.rollback p).retained = t.leak.retained := by
  obtain ⟨s, -, ⟨h, -⟩ | ⟨-, classes, p, leak, -, hprepare, rfl, rfl⟩⟩ := plan_cases h
  · cases h
  · obtain ⟨hleak, -⟩ := LeakStream.prepare_ok hprepare
    exact ⟨p, rfl, hleak.rollback, hleak.retained⟩

end TypeSet

namespace Sinks

variable {σ τ : Type} [Sink σ] [Sink τ]

/-- Without a leak sink the commit of a main segment sends it. -/
theorem commitMain_without (h : Header) (b : Batch) (main : σ) :
    (∀ n main', (Sink.send h b.records : EStateM SinkError σ Nat) main = .ok n main' →
      (commitMain h b : EStateM SinkError (Sinks σ τ) Nat) ⟨main, none⟩ = .ok n ⟨main', none⟩) ∧
    (∀ e main', (Sink.send h b.records : EStateM SinkError σ Nat) main = .error e main' →
      (commitMain h b : EStateM SinkError (Sinks σ τ) Nat) ⟨main, none⟩ =
        .error e ⟨main', none⟩) := by
  simp only [commitMain, Sink.send, bind, EStateM.bind, onMain]
  cases (Sink.stage h b.records : EStateM SinkError σ Unit) main with
  | error e main₁ => simp
  | ok v main₁ =>
      simp only [onLeak]
      cases (Sink.finish b.records : EStateM SinkError σ Nat) main₁ <;> simp

/-- With a leak segment that can be staged it does so too. -/
theorem commitMain_staged {h : Header} {b : Batch} {leak staged : τ}
    (hstage : Sink.stage { h with kind := .leakProfiler } b.leakRecords leak = .ok () staged)
    (main : σ) :
    (∀ n main', (Sink.send h b.records : EStateM SinkError σ Nat) main = .ok n main' →
      (commitMain h b : EStateM SinkError (Sinks σ τ) Nat) ⟨main, some leak⟩ =
        .ok n ⟨main', some staged⟩) ∧
    (∀ e main', (Sink.send h b.records : EStateM SinkError σ Nat) main = .error e main' →
      ∃ x, (commitMain h b : EStateM SinkError (Sinks σ τ) Nat) ⟨main, some leak⟩ =
        .error e ⟨main', some x⟩) := by
  simp only [commitMain, Sink.send, bind, EStateM.bind, onMain]
  cases (Sink.stage h b.records : EStateM SinkError σ Unit) main with
  | error e main₁ => simp
  | ok v main₁ =>
      simp only [onLeak, hstage]
      cases (Sink.finish b.records : EStateM SinkError σ Nat) main₁ <;> simp

end Sinks

namespace TypeSet

variable {t t' : TypeSet} {g : MetadataGraph} {flags : PassFlags} {b : Batch}
  {σ τ : Type} [Sink σ] [Sink τ]

/-! ## Behind the commit of the main segment -/

/-- Nothing is counted of a leak segment. -/
theorem withoutLeak_mainSummary (t : TypeSet) (flags : PassFlags) (b : Batch) (bytes : Nat) :
    (t.mainSummary flags b bytes).withoutLeak = t.mainSummary flags b bytes := by
  have h := leakBytes_mainSummary t flags b bytes
  have h' := leakClasses_mainSummary t flags b bytes
  generalize t.mainSummary flags b bytes = s at h h'
  cases s
  cases h
  cases h'
  rfl

/-- The leak fields of a summary count for the leak total only. -/
theorem addPass_leakFields (n : Totals) {s : PassSummary} (h : s.leakClasses = 0)
    (size classes : Nat) :
    n.addPass { s with leakBytes := size, leakClasses := classes } = { n.addPass s with
      leakRecordsWritten := (n.addPass s).leakRecordsWritten + classes } := by
  unfold Totals.addPass
  dsimp only
  rw [h]
  rfl

/-- To count a pass or a failure leaves both sides in agreement. -/
theorem AgreeOnMain.counted (h : AgreeOnMain t t') (s s' : Option PassSummary)
    (n n' : Totals) : AgreeOnMain { t with totals := n, lastSummary := s }
      { t' with totals := n', lastSummary := s' } :=
  ⟨h.settings, h.registries, h.symbols, h.epochs, h.bootstrapWritten, h.poisoned, h.marks⟩

/-- A leak segment that was refused has left nothing behind but the count of the failure. -/
structure NoLeakTrace (t t' : TypeSet) : Prop where
  marks : t'.marks = t.marks
  leakIds : ∀ n, t'.leakId? n = t.leakId? n
  retained : t'.leak.retained = t.leak.retained
  lastSummary : t'.lastSummary = t.lastSummary
  totals : t'.totals = { t.totals with writerFailures := t.totals.writerFailures + 1 }

/-- The commit of a main segment behind a leak write that was taken back is that of a pass that did
not attempt one. -/
theorem noLeakTrace_commitMain {s s' : LeakStream} (hids : s.ids.Similar s'.ids)
    (hretained : s'.retained = s.retained) (t : TypeSet) (b : Batch) (flushpoint : Bool)
    (summary : PassSummary) :
    NoLeakTrace (({ t with leak := s }.commitMain b flushpoint).addPass summary)
      (({ t with leak := s' }.commitMain b flushpoint).addPass summary).countFailure := by
  rw [commitMain_eq, commitMain_eq,
    forgottenBy_congr { t with leak := s } { t with leak := s' } rfl]
  refine ⟨rfl, ?_, hretained, rfl, rfl⟩
  intro n
  show (s'.ids.forgetAll _).id? _ = (s.ids.forgetAll _).id? _
  rw [Registries.id?_forgetAll, Registries.id?_forgetAll, hids.ids]

omit [Sink σ] in
/-- Behind the commit of its main segment a pass with a leak segment is finished like the pass
without, whatever the leak sink answers. The leak stream `s` is that of the pass without, and what
the leak stream is rolled back to. -/
theorem finishPass_leak_independent (flags : PassFlags) {p : PendingLeak} {s : LeakStream}
    (hb : b.leak = some p) (hids : s.ids.Similar (t.leak.rollback p).ids)
    (hretained : (t.leak.rollback p).retained = s.retained) (bytes : Nat) (main : σ) (x : τ) :
    let r := t.finishPass flags b bytes (⟨main, some x⟩ : Sinks σ τ)
    let r₀ := { t with leak := s }.finishPass flags { b with leakClasses := [], leak := none } bytes
      (⟨main, none⟩ : Sinks σ τ)
    r.sinks.main = r₀.sinks.main ∧ AgreeOnMain r₀.types r.types ∧ r₀.result = .ok bytes ∧
      r.types.lastSummary.map PassSummary.withoutLeak = r₀.types.lastSummary ∧
      (∀ size x', Sink.finish p.records x = .ok size x' →
        r.result = .ok bytes ∧ r.types.totals = { r₀.types.totals with
          leakRecordsWritten := r₀.types.totals.leakRecordsWritten + p.records.length }) ∧
      (∀ e x', Sink.finish p.records x = .error e x' →
        r.result = .error (.sink e) ∧ NoLeakTrace r₀.types r.types) := by
  intro r r₀
  have hr₀ : r₀ = _ := finishPass_without rfl bytes _
  cases hfinish : Sink.finish p.records x with
  | ok size x' =>
      have hleak : (Sinks.onLeak 0 (Sink.finish p.records) : EStateM SinkError (Sinks σ τ) Nat)
          ⟨main, some x⟩ = .ok size ⟨main, some x'⟩ := by
        simp only [Sinks.onLeak, hfinish]
      have hr : r = _ := finishPass_committed hb hleak bytes
      rw [hr, hr₀]
      have hleak : AgreeOnMain { t with leak := s } t := ⟨rfl, rfl, rfl, rfl, rfl, rfl, rfl⟩
      have hagree := hleak.trans (agreeOnMain_commitLeak t b p)
      refine ⟨rfl, (hagree.commitMain b flags.flushpoint).counted .., rfl,
        congrArg some (withoutLeak_mainSummary t flags b bytes), ?_, ?_⟩
      · intro _ _ _
        refine ⟨rfl, ?_⟩
        have htotals : ((t.commitLeak b p).commitMain b flags.flushpoint).totals =
            ({ t with leak := s }.commitMain b flags.flushpoint).totals := by
          rw [totals_commitMain, totals_commitMain]
          rfl
        have hlength : p.records.length = p.entries.length := List.length_map _
        rw [hlength]
        unfold addPass
        dsimp only
        rw [htotals]
        exact addPass_leakFields _ (leakClasses_mainSummary t flags b bytes) size _
      · intro _ _ h
        cases h
  | error e x' =>
      have hleak : (Sinks.onLeak 0 (Sink.finish p.records) : EStateM SinkError (Sinks σ τ) Nat)
          ⟨main, some x⟩ = .error e ⟨main, some x'⟩ := by
        simp only [Sinks.onLeak, hfinish]
      have hr : r = _ := finishPass_refused hb hleak bytes
      rw [hr, hr₀]
      have hagree : AgreeOnMain { t with leak := s } { t with leak := t.leak.rollback p } :=
        ⟨rfl, rfl, rfl, rfl, rfl, rfl, rfl⟩
      refine ⟨rfl, (hagree.commitMain b flags.flushpoint).counted .., rfl,
        congrArg some (withoutLeak_mainSummary t flags b bytes), ?_, ?_⟩
      · intro _ _ h
        cases h
      · intro e' x'' h
        cases h
        exact ⟨rfl, noLeakTrace_commitMain hids hretained t b flags.flushpoint
          (t.mainSummary flags b bytes)⟩

/-! ## The two passes -/

/-- A pass with a leak sink, whose leak segment can be planned and staged, against the same pass
without a leak sink. They do the same to the main sink, whatever sink that is, and leave type sets
behind that agree on the main stream. Either both stop at the error of the main sink, or both
commit the main segment and count it alike. If the leak segment is committed then, the answers are
the same too. If it is refused, the answer is the error, and nothing else tells that the leak
segment was attempted. -/
theorem serialize_leak_independent (t : TypeSet) (g : MetadataGraph) (flags : PassFlags) (main : σ)
    {leak staged : τ} (hp : t.isPoisoned = false)
    (hplan : t.plan g flags.classUnload true = .ok b t')
    (hstage : Sink.stage { t'.passHeader flags with kind := .leakProfiler } b.leakRecords leak =
      .ok () staged) :
    let r := t.serialize g flags ⟨main, some leak⟩
    let r₀ := t.serialize g flags (⟨main, none⟩ : Sinks σ τ)
    r.sinks.main = r₀.sinks.main ∧ AgreeOnMain r₀.types r.types ∧
    ((t.commits? g flags ⟨main, some leak⟩ = none ∧
        t.commits? g flags (⟨main, none⟩ : Sinks σ τ) = none ∧
        ∃ e, r.result = .error (.sink e) ∧ r₀.result = .error (.sink e)) ∨
      ((t.commits? g flags ⟨main, some leak⟩).isSome ∧
        (t.commits? g flags (⟨main, none⟩ : Sinks σ τ)).isSome ∧
        ∃ bytes, r₀.result = .ok bytes ∧
          r.types.lastSummary.map PassSummary.withoutLeak = r₀.types.lastSummary ∧
          (∀ size leak', Sink.finish b.leakRecords staged = .ok size leak' →
            r.result = .ok bytes ∧ r.types.totals = { r₀.types.totals with
              leakRecordsWritten := r₀.types.totals.leakRecordsWritten + b.leakRecords.length }) ∧
          (∀ e leak', Sink.finish b.leakRecords staged = .error e leak' →
            r.result = .error (.sink e) ∧ NoLeakTrace r₀.types r.types))) := by
  intro r r₀
  obtain ⟨p, hb, hids, hretained⟩ := leak_rollback_of_plan hplan
  have hrecords : b.leakRecords = p.records := by
    rw [Batch.leakRecords, hb]
    rfl
  have hplan₀ := plan_without hplan
  obtain ⟨htaken, hrefused⟩ := Sinks.commitMain_staged (σ := σ) hstage main
  obtain ⟨htaken₀, hrefused₀⟩ := Sinks.commitMain_without (τ := τ)
    (passHeader { t' with leak := t.leak } flags) { b with leakClasses := [], leak := none } main
  cases hsend : (Sink.send (t'.passHeader flags) b.records : EStateM SinkError σ Nat) main with
  | error e main' =>
      obtain ⟨x, hcommit⟩ := hrefused e main' hsend
      obtain ⟨hnone, hr⟩ := serialize_of_refused hp hplan hcommit
      obtain ⟨hnone₀, hr₀⟩ := serialize_of_refused hp hplan₀ (hrefused₀ e main' hsend)
      have hr : r = _ := hr
      have hr₀ : r₀ = _ := hr₀
      rw [hr, hr₀]
      refine ⟨rfl, ?_, .inl ⟨hnone, hnone₀, e, rfl, rfl⟩⟩
      unfold TypeSet.rollback
      rw [hb]
      exact ⟨rfl, rfl, rfl, rfl, rfl, rfl, rfl⟩
  | ok bytes main' =>
      obtain ⟨hsome, hr⟩ := serialize_of_taken hp hplan (htaken bytes main' hsend)
      obtain ⟨hsome₀, hr₀⟩ := serialize_of_taken hp hplan₀ (htaken₀ bytes main' hsend)
      have hr : r = _ := hr
      have hr₀ : r₀ = _ := hr₀
      obtain ⟨hmain, hagree, hresult, hsummary, hok, herror⟩ :=
        finishPass_leak_independent flags hb hids hretained bytes main' staged
      rw [hr, hr₀, hrecords]
      exact ⟨hmain, hagree, .inr ⟨by rw [hsome]; rfl, by rw [hsome₀]; rfl, bytes, hresult, hsummary,
        hok, herror⟩⟩

/-! ## A leak segment that is refused -/

/-- The error of a leak sink that takes the planned segment and then refuses to commit it. -/
def leakRefusal? (t : TypeSet) (g : MetadataGraph) (flags : PassFlags) (leak : τ) :
    Option SinkError :=
  match t.plan g flags.classUnload true with
  | .error .. => none
  | .ok b t' =>
    match (Sink.stage { t'.passHeader flags with kind := .leakProfiler } b.leakRecords :
        EStateM SinkError τ Unit) leak with
    | .error .. => none
    | .ok () staged =>
      match (Sink.finish b.leakRecords : EStateM SinkError τ Nat) staged with
      | .error e _ => some e
      | .ok .. => none

theorem leakRefusal?_eq_some {leak : τ} {e : SinkError}
    (h : t.leakRefusal? g flags leak = some e) :
    ∃ b t' staged x, t.plan g flags.classUnload true = .ok b t' ∧
      Sink.stage { t'.passHeader flags with kind := .leakProfiler } b.leakRecords leak =
        .ok () staged ∧
      Sink.finish b.leakRecords staged = .error e x := by
  unfold leakRefusal? at h
  split at h
  · cases h
  · rename_i b t' hplan
    split at h
    · cases h
    · rename_i staged hstage
      split at h
      · rename_i e' x hfinish
        cases h
        exact ⟨b, t', staged, x, hplan, hstage, hfinish⟩
      · cases h

/-- A log that refuses its first commit. -/
def refusing : Flaky SegmentLog := { inner := {}, schedule := .once .commit 1 "disk full" }

/-- The pass over the sample, with the class marked for the leak stream too. -/
def leakyPass (leak : Option (Flaky SegmentLog)) :
    Outcome (Sinks (Flaky SegmentLog) (Flaky SegmentLog)) Nat :=
  (sampleTypes.tagLeak 1).2.serialize sampleGraph {} ⟨{ inner := {} }, leak⟩

/-- The answer is that of the leak log, the main log has taken the same calls as without it, and
the leak mark is still there. -/
theorem serialize_leak_independent_refused :
    (leakyPass refusing).result = .error (.sink (.io "disk full")) ∧
      (leakyPass refusing).sinks.main = (leakyPass none).sinks.main ∧
      AgreeOnMain (leakyPass none).types (leakyPass refusing).types ∧
      NoLeakTrace (leakyPass none).types (leakyPass refusing).types := by
  have hrefusal : (sampleTypes.tagLeak 1).2.leakRefusal? sampleGraph {} refusing =
      some (.io "disk full") := by decide +kernel
  obtain ⟨b, t', staged, x, hplan, hstage, hfinish⟩ := leakRefusal?_eq_some hrefusal
  obtain ⟨hmain, hagree, ⟨hnone, -⟩ | ⟨-, -, bytes, -, -, -, hrefused⟩⟩ :=
    serialize_leak_independent _ sampleGraph {} ({ inner := {} } : Flaky SegmentLog) rfl hplan
      hstage
  · exact absurd hnone (by decide +kernel)
  · obtain ⟨hresult, htrace⟩ := hrefused _ x hfinish
    exact ⟨hresult, hmain, hagree, htrace⟩

end TypeSet

end TraceTypes
