import TraceTypes.Proofs.CallLogs
/-!
# What a failed call leaves of the logs

A call may be given a log in which a segment stands open that it has not opened.
When the call fails and has committed nothing on the main stream, the committed
segments of both logs are as before (`failed_call_logs`). The open segments are
as before too if no sink has failed, and if only the leak segment of a pass
without main records was refused. Behind any other error of a sink nothing
stands open in either log, whoever had opened it and whichever sink it was that
failed (`foreign_segment_lost`).
-/

namespace TraceTypes

/-- To discard changes nothing where no segment stands open. -/
theorem Sinks.discard_eq_self {x : Sinks SegmentLog SegmentLog} (hmain : x.main.pending = none)
    (hleak : ∀ y ∈ x.leak, y.pending = none) : x.discard = x := by
  obtain ⟨main, leak⟩ := x
  show (⟨main.discard, leak.map SegmentLog.discard⟩ : Sinks SegmentLog SegmentLog) = _
  rw [SegmentLog.discard_eq_self main hmain]
  cases leak with
  | none => rfl
  | some y => exact congrArg (Sinks.mk main <| some ·) (SegmentLog.discard_eq_self y (hleak y rfl))

namespace TypeSet

section Failed

variable {σ τ : Type} [Sink σ] [Sink τ] [LogBacked σ] [LogBacked τ]

/-- What is left of the logs behind a pass that fails and has committed no main segment, and behind
a capture that fails. Where no segment stood open before, the logs are as they were. -/
theorem failed_call_logs (t : TypeSet) (g : MetadataGraph) :
    (∀ (flags : PassFlags) (w : Sinks σ τ) (e : TypeSetError),
      (t.serialize g flags w).result = .error e →
      (∀ b t' w', t.commits? g flags w = some (b, t', w') → b.entries = []) →
      (t.serialize g flags w).sinks.logs =
        (if (t.commits? g flags w).isNone then w.logs.discardedOn e else w.logs) ∧
      ((log w.main).pending = none → (∀ x ∈ w.leak, (log x).pending = none) →
        (t.serialize g flags w).sinks.logs = w.logs)) ∧
    (∀ (w : σ) (e : TypeSetError), (t.captureUnloading g w).result = .error e →
      log (t.captureUnloading g w).sinks =
        (if e.isRecoverable then (log w).discard else log w) ∧
      ((log w).pending = none → log (t.captureUnloading g w).sinks = log w)) := by
  constructor
  · intro flags w e herr hmain
    have hlogs : (t.serialize g flags w).sinks.logs =
        if (t.commits? g flags w).isNone then w.logs.discardedOn e else w.logs := by
      cases hc : t.commits? g flags w with
      | none =>
          obtain ⟨e', herr', hlogs, -⟩ := serialize_stopped_logs hc
          rw [herr] at herr'
          cases herr'
          exact hlogs
      | some q =>
          -- the main part was empty, so the leak sink has refused its segment
          obtain ⟨b, t', w'⟩ := q
          have hrecords : b.records = [] := by rw [Batch.records, hmain b t' w' hc]; rfl
          obtain ⟨bytes, leak, -, hlogs, -, ⟨hok, -⟩ | ⟨-, -, rfl, -⟩⟩ :=
            serialize_committed_logs hc
          · rw [herr] at hok
            cases hok
          · rw [hlogs, hrecords]
            simp only [SegmentLog.adding_nil, Option.map_id']
            rfl
    refine ⟨hlogs, fun hclosed hleak => ?_⟩
    have hself : w.logs.discard = w.logs := Sinks.discard_eq_self hclosed fun y hy => by
      obtain ⟨x, hx, rfl⟩ := Option.map_eq_some_iff.mp hy
      exact hleak x hx
    rw [hlogs, Sinks.discardedOn, hself, ite_self, ite_self]
  · intro w e herr
    obtain ⟨-, hlog, -⟩ := captureUnloading_error_logs herr
    refine ⟨hlog, fun hclosed => ?_⟩
    rw [hlog, SegmentLog.discard_eq_self _ hclosed, ite_self]

end Failed

/-! ## A segment that somebody else has opened -/

/-- A log in which somebody has opened a segment and appended a record. -/
def sharedLog : SegmentLog :=
  endState ((Sink.openSegment ⟨.typeSet, 7, false⟩ >>= fun _ => Sink.append (.symbol 9 "x") :
    EStateM SinkError SegmentLog Nat) {})

/-- A main sink that takes a single record, beside a leak log with an open segment. -/
def brokenBesideShared : Sinks (Flaky SegmentLog) SegmentLog :=
  ⟨{ inner := {}, schedule := .once .append 2 "disk full" }, some sharedLog⟩

/-- When the main sink fails, the open segment of the leak log goes too. -/
theorem failed_call_logs_beside_shared :
    (sampleTypes.serialize sampleGraph {} brokenBesideShared).result =
      .error (.sink (.io "disk full")) ∧
    (sampleTypes.serialize sampleGraph {} brokenBesideShared).sinks.logs =
      ⟨{}, some sharedLog.discard⟩ := by
  have hstop : sampleTypes.commits? sampleGraph {} brokenBesideShared = none := by
    rw [← Option.isNone_iff_eq_none]
    decide +kernel
  have herr : (sampleTypes.serialize sampleGraph {} brokenBesideShared).result =
      .error (.sink (.io "disk full")) := by decide +kernel
  refine ⟨herr, ?_⟩
  have hlogs := ((failed_call_logs sampleTypes sampleGraph).1 {} brokenBesideShared _ herr
    (fun b t' w' hc => by rw [hstop] at hc; cases hc)).1
  rw [hlogs, hstop]
  rfl

/-- A pass and a capture that are refused because a segment stands open already throw that segment
away. -/
theorem foreign_segment_lost :
    sharedLog.pending = some (.of ⟨.typeSet, 7, false⟩ [.symbol 9 "x"]) ∧
    Run {} sampleTypes [] ∧
    let pass := sampleTypes.serialize sampleGraph {} (⟨sharedLog, none⟩ : Sinks _ SegmentLog)
    let capture := sampleTypes.captureUnloading sampleGraph sharedLog
    (pass.result = .error (.sink .segmentAlreadyOpen) ∧ pass.sinks.main.pending = none) ∧
      capture.result = .error (.sink .segmentAlreadyOpen) ∧ capture.sinks.pending = none := by
  refine ⟨by decide +kernel, run_sampleTypes, ?_⟩
  decide +kernel

end TypeSet

end TraceTypes
