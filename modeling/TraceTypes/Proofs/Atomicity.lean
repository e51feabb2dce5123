import TraceTypes.Proofs.Recorded
/-!
# A call that fails leaves no trace

A pass that ends before its main part is committed, and a capture that fails,
leave nothing behind that can be seen from outside (`Untouched`): the sinks keep
what they had and have no open segment, and tags, marks, ids, look-ups, the
epoch and the summary of the last pass are as before. What may differ are the
next ids, interned texts, the owners of methods, the number of failures and,
behind a violation, the poison.

The main part of a pass without records is committed without a call. So a pass
over leak tags alone that fails to commit its leak segment counts as made, and
its summary replaces the last one.
-/

namespace TraceTypes

namespace TypeSet

/-- All that can be asked of a type set is answered as before. -/
structure Untouched (t t' : TypeSet) : Prop where
  settings : t'.settings = t.settings
  /-- The bits of every artifact, and the order in which they are enumerated. -/
  marks : t'.marks = t.marks
  id? : ∀ a, t'.id? a = t.id? a
  resolve : ∀ id, t'.resolve id = t.resolve id
  entries : ∀ a, a.kind ≠ .method → t'.registries.entry? a = t.registries.entry? a
  leakId? : ∀ n, t'.leakId? n = t.leakId? n
  retain : t'.leak.retain = t.leak.retain
  retained : t'.leak.retained = t.leak.retained
  epoch : t'.epoch = t.epoch
  bootstrapWritten : t'.bootstrapWritten = t.bootstrapWritten
  lastSummary : t'.lastSummary = t.lastSummary
  totals : t'.totals = { t.totals with writerFailures := t'.totals.writerFailures }
  next : t.registries.ids.next ≤ t'.registries.ids.next
  leakNext : t.leak.ids.ids.next ≤ t'.leak.ids.ids.next
  symbols : t.symbols.texts <+: t'.symbols.texts

theorem Kept.untouched {t t' : TypeSet} (h : Kept t t') : Untouched t t' where
  settings := h.settings
  marks := h.marks
  id? := h.registries.ids
  resolve id := congrArg (Except.mapError TypeSetError.violation) (h.registries.resolve id)
  entries := h.registries.entries
  leakId? n := h.leakIds.ids (.cls n)
  retain := h.retain
  retained := h.retained
  epoch := congrArg EpochCounter.current h.epochs
  bootstrapWritten := h.bootstrapWritten
  lastSummary := h.lastSummary
  totals := by rw [h.totals]
  next := h.registries.next
  leakNext := h.leakIds.next
  symbols := h.symbols

/-- To poison a type set or to count a failure changes nothing of this. -/
theorem Kept.untouched_poison {t t' : TypeSet} (h : Kept t t') (v : Violation) :
    Untouched t (t'.poison v) :=
  { h.untouched with }

theorem Kept.untouched_countFailure {t t' : TypeSet} (h : Kept t t') :
    Untouched t t'.countFailure :=
  { h.untouched with totals := by rw [countFailure, h.totals] }

/-- How an error shows in the state: a sink's error is counted, a violation poisons, and a poisoned
type set stays as it is. -/
def ErrorNoted (t t' : TypeSet) : TypeSetError → Prop
  | .sink _ => t'.poisoned = t.poisoned ∧ t'.totals.writerFailures = t.totals.writerFailures + 1
  | .violation v => t'.poisoned = some v ∧ t'.totals = t.totals
  | .poisoned => t' = t
  | .settings _ => False

/-- A call with an error that is not a sink's has not called the sinks. -/
def SinksSpared {α : Type} (w w' : α) : TypeSetError → Prop
  | .sink _ => True
  | .violation _ | .poisoned | .settings _ => w' = w

section Atomicity

variable {σ τ : Type} [Sink σ] [LawfulSink σ]

theorem captureUnloading_atomic {t : TypeSet} {g : MetadataGraph} {w : σ} {e : TypeSetError}
    (hopen : opened w = none) (herr : (t.captureUnloading g w).result = .error e) :
    Untouched t (t.captureUnloading g w).types ∧
      ErrorNoted t (t.captureUnloading g w).types e ∧
      SinksSpared w (t.captureUnloading g w).sinks e ∧
      committed (t.captureUnloading g w).sinks = committed w ∧
      opened (t.captureUnloading g w).sinks = none := by
  cases hc : t.captures? g w with
  | some q =>
      obtain ⟨l, r⟩ := q
      obtain ⟨-, -, n, w', -, heq⟩ := captureUnloading_committed hc
      rw [heq] at herr
      cases herr
  | none =>
      rcases captureUnloading_stopped hc with
        ⟨-, heq⟩ | ⟨v, t', hkept, heq⟩ | ⟨-, heq⟩ | ⟨l, e', w', t', hkept, hsend, heq⟩ <;>
        rw [heq] at herr ⊢ <;> cases herr
      · exact ⟨(Kept.refl t).untouched, rfl, rfl, rfl, hopen⟩
      · exact ⟨hkept.untouched_poison v, ⟨rfl, hkept.totals⟩, rfl, rfl, hopen⟩
      · refine ⟨hkept.untouched_countFailure, ⟨hkept.poisoned, ?_⟩, trivial,
          (LawfulSink.committed_discard _).trans (send_error hsend),
          LawfulSink.opened_discard _⟩
        rw [← hkept.totals]
        rfl

variable [Sink τ] [LawfulSink τ]

theorem serialize_atomic {t : TypeSet} {g : MetadataGraph} {flags : PassFlags} {w : Sinks σ τ}
    (hmain : opened w.main = none) (hleak : ∀ x, w.leak = some x → opened x = none)
    (hstop : t.commits? g flags w = none)
    (hplan : ∀ v, (t.serialize g flags w).result = .error (.violation v) →
      ∃ t', t.planMain g flags.classUnload w.leak.isSome = .error v t') :
    ∃ e, (t.serialize g flags w).result = .error e ∧
      Untouched t (t.serialize g flags w).types ∧
      ErrorNoted t (t.serialize g flags w).types e ∧
      SinksSpared w (t.serialize g flags w).sinks e ∧
      committed (t.serialize g flags w).sinks.main = committed w.main ∧
      opened (t.serialize g flags w).sinks.main = none ∧
      (t.serialize g flags w).sinks.leak.map committed = w.leak.map committed ∧
      ∀ x, (t.serialize g flags w).sinks.leak = some x → opened x = none := by
  rcases serialize_stopped hstop with
    ⟨-, heq⟩ | ⟨v, t', hviolation, heq⟩ | ⟨b, t', e, w', hplanned, herr, heq⟩
  · rw [heq]
    exact ⟨_, rfl, (Kept.refl t).untouched, rfl, rfl, rfl, hmain, rfl, hleak⟩
  · -- the violation was met on the main stream, so the leak stream is as before too
    obtain ⟨t₁, hviolation₁⟩ := hplan v (by rw [heq])
    have hboth : t.plan g flags.classUnload w.leak.isSome = .error v t₁ := by
      rw [TypeSet.plan, hviolation₁]
    rw [hviolation] at hboth
    cases hboth
    have hkept := planMain_error hviolation₁
    rw [heq]
    exact ⟨_, rfl, hkept.untouched_poison v, ⟨rfl, hkept.totals⟩, rfl, rfl, hmain, rfl, hleak⟩
  · obtain ⟨s, hp⟩ := plan_ok hplanned
    have hkept := hp.rollback
    obtain ⟨hlog, hleakLog⟩ := Sinks.commitMain_error herr
    rw [heq]
    refine ⟨_, rfl, hkept.untouched_countFailure, ⟨hkept.poisoned, ?_⟩, trivial,
      (LawfulSink.committed_discard _).trans hlog, LawfulSink.opened_discard _,
      (Sinks.leakLog_discard w').trans hleakLog, fun x hx => ?_⟩
    · rw [← hkept.totals]
      rfl
    · obtain ⟨y, -, rfl⟩ := Option.map_eq_some_iff.mp hx
      exact LawfulSink.opened_discard y

/-- A pass that ends before its main part is committed, by a sink's error or a violation met on the
main stream, leaves no trace; nor does a capture that fails. -/
theorem failed_call_atomic (t : TypeSet) (g : MetadataGraph) :
    (∀ (flags : PassFlags) (w : Sinks σ τ), opened w.main = none →
      (∀ x, w.leak = some x → opened x = none) → t.commits? g flags w = none →
      (∀ v, (t.serialize g flags w).result = .error (.violation v) →
        ∃ t', t.planMain g flags.classUnload w.leak.isSome = .error v t') →
      ∃ e, (t.serialize g flags w).result = .error e ∧
        Untouched t (t.serialize g flags w).types ∧
        ErrorNoted t (t.serialize g flags w).types e ∧
        SinksSpared w (t.serialize g flags w).sinks e ∧
        committed (t.serialize g flags w).sinks.main = committed w.main ∧
        opened (t.serialize g flags w).sinks.main = none ∧
        (t.serialize g flags w).sinks.leak.map committed = w.leak.map committed ∧
        ∀ x, (t.serialize g flags w).sinks.leak = some x → opened x = none) ∧
    (∀ (w : σ) (e : TypeSetError), opened w = none →
      (t.captureUnloading g w).result = .error e →
      Untouched t (t.captureUnloading g w).types ∧
      ErrorNoted t (t.captureUnloading g w).types e ∧
      SinksSpared w (t.captureUnloading g w).sinks e ∧
      committed (t.captureUnloading g w).sinks = committed w ∧
      opened (t.captureUnloading g w).sinks = none) := by
  constructor
  · intro flags w hmain hleak hstop hplan
    exact serialize_atomic hmain hleak hstop hplan
  · intro w e hopen herr
    exact captureUnloading_atomic hopen herr

end Atomicity

/-- A log that takes a single record. -/
def brokenLog : Sinks (Flaky SegmentLog) (Flaky SegmentLog) :=
  ⟨{ inner := {}, schedule := .once .append 2 "disk full" }, none⟩

/-- A pass over the sample that fails on its second record. -/
theorem failed_call_atomic_second_record :
    (sampleTypes.serialize sampleGraph {} brokenLog).result = .error (.sink (.io "disk full")) ∧
    Untouched sampleTypes (sampleTypes.serialize sampleGraph {} brokenLog).types ∧
    committed (sampleTypes.serialize sampleGraph {} brokenLog).sinks.main = [] ∧
    opened (sampleTypes.serialize sampleGraph {} brokenLog).sinks.main = none := by
  have herr : (sampleTypes.serialize sampleGraph {} brokenLog).result =
      .error (.sink (.io "disk full")) := by decide +kernel
  obtain ⟨e, -, huntouched, -, -, hlog, hopen, -⟩ :=
    (failed_call_atomic (σ := Flaky SegmentLog) (τ := Flaky SegmentLog) sampleTypes
      sampleGraph).1 {} brokenLog rfl (fun _ h => by cases h) (by decide +kernel)
      (fun v hv => by rw [herr] at hv; cases hv)
  exact ⟨herr, huntouched, hlog, hopen⟩

/-- A pass over a leak tag alone has no main part. Its summary replaces the last one, although the
leak segment fails and nothing was committed. -/
theorem failed_pass_replaces_summary :
    let t := ((TypeSet.create {}).tagLeak 1).2
    let w : Sinks (Flaky SegmentLog) (Flaky SegmentLog) :=
      ⟨{ inner := {} }, some { inner := {}, schedule := .once .commit 1 "disk full" }⟩
    Run {} t [] ∧ opened w.main = none ∧ w.leak.map opened = some none ∧
      (t.serialize sampleGraph {} w).result = .error (.sink (.io "disk full")) ∧
      (t.serialize sampleGraph {} w).sinks.main.calls.committed = 0 ∧
      t.lastSummary = none ∧ (t.serialize sampleGraph {} w).types.lastSummary ≠ none := by
  refine ⟨.tagLeak 1 .create, rfl, rfl, ?_⟩
  decide +kernel

end TypeSet

end TraceTypes
