import TraceTypes.Proofs.Forgetting
import TraceTypes.Proofs.LogBacked
/-!
# What the writing calls do to the logs and the tallies

For each way in which a call that writes can end, this says what has become of
the logs behind the sinks, of the totals and of the summary of the last pass,
with the answer that goes with it:

* `serialize_stopped_logs`, `serialize_committed_logs` — a pass that does not
  get past the commit of its main segment, and one that does;
* `captureUnloading_error_logs`, `captureUnloading_ok_logs` — a capture.

An error of a sink before the commit discards the open segments of both logs
and counts as a failure (`discardedOn`, `failedOn`). Behind the commit it drops
the leak segment alone.
-/

namespace TraceTypes

open SegmentLog

/-- The logs behind a call that an error has ended before it committed anything. -/
def Sinks.discardedOn (x : Sinks SegmentLog SegmentLog) (e : TypeSetError) :
    Sinks SegmentLog SegmentLog :=
  if e.isRecoverable then x.discard else x

/-- The totals behind a call that an error has ended before it committed anything. -/
def Totals.failedOn (n : Totals) (e : TypeSetError) : Totals :=
  if e.isRecoverable then { n with writerFailures := n.writerFailures + 1 } else n

namespace TypeSet

/-- The header of the leak segment of a pass. -/
def leakHeader (t : TypeSet) (flags : PassFlags) : Header :=
  { t.passHeader flags with kind := .leakProfiler }

/-- The summary of a pass that has committed these records on the leak stream. -/
def passSummary (t : TypeSet) (flags : PassFlags) (b : Batch) (bytes : Nat) (leak : List Record) :
    PassSummary :=
  { t.mainSummary flags b bytes with
    leakBytes := ((added (t.leakHeader flags) leak).flatMap Segment.bytes).length
    leakClasses := leak.length }

variable {t t' : TypeSet} {g : MetadataGraph} {flags : PassFlags} {b : Batch}

/-- Without records there is nothing to count of a leak segment. -/
theorem passSummary_nil (t : TypeSet) (flags : PassFlags) (b : Batch) (bytes : Nat) :
    t.passSummary flags b bytes [] = t.mainSummary flags b bytes := by
  have hbytes := leakBytes_mainSummary t flags b bytes
  have hclasses := leakClasses_mainSummary t flags b bytes
  unfold passSummary
  generalize t.mainSummary flags b bytes = s at hbytes hclasses
  cases s
  cases hbytes
  cases hclasses
  rfl

/-- A leak segment is planned exactly if there is a leak sink. -/
theorem isSome_leak_of_plan {classUnload withLeak : Bool}
    (h : t.plan g classUnload withLeak = .ok b t') : b.leak.isSome = withLeak := by
  obtain ⟨s, -, ⟨rfl, rfl, -⟩ | ⟨rfl, _, _, _, -, -, rfl, -⟩⟩ := plan_cases h <;> rfl

theorem tallies_plan_error {v : Violation} {classUnload withLeak : Bool}
    (h : t.plan g classUnload withLeak = .error v t') :
    t'.totals = t.totals ∧ t'.lastSummary = t.lastSummary := by
  rcases plan_stopped h with hm | ⟨-, s, classes, leak, -, -, -, rfl⟩
  · exact ⟨(planMain_error hm).totals, (planMain_error hm).lastSummary⟩
  · exact ⟨rfl, rfl⟩

/-! ## A capture -/

section Capture

variable {σ : Type} [Sink σ] [LogBacked σ] {w : σ}

/-- A capture that fails has committed nothing. -/
theorem captureUnloading_error_logs {e : TypeSetError}
    (herr : (t.captureUnloading g w).result = .error e) :
    t.captures? g w = none ∧
      log (t.captureUnloading g w).sinks = (if e.isRecoverable then (log w).discard else log w) ∧
      (t.captureUnloading g w).types.totals = t.totals.failedOn e ∧
      (t.captureUnloading g w).types.lastSummary = t.lastSummary := by
  cases hc : t.captures? g w with
  | some q =>
      obtain ⟨l, r⟩ := q
      obtain ⟨-, -, n, w', -, heq⟩ := captureUnloading_committed hc
      rw [heq] at herr
      cases herr
  | none =>
      rcases captureUnloading_stopped hc with
        ⟨-, heq⟩ | ⟨v, t', hundone, heq⟩ | ⟨-, heq⟩ | ⟨l, e', w', t', hundone, hsend, heq⟩ <;>
        rw [heq] at herr ⊢ <;> cases herr
      · exact ⟨rfl, rfl, rfl, rfl⟩
      · exact ⟨rfl, rfl, hundone.totals, hundone.lastSummary⟩
      · refine ⟨rfl, (LogBacked.log_discard w').trans (discard_log_send hsend), ?_,
          hundone.lastSummary⟩
        show t'.countFailure.totals = t.countFailure.totals
        unfold countFailure
        rw [hundone.totals]

/-- A capture that succeeds has committed a segment with one record for each captured class, or has
found none to capture. -/
theorem captureUnloading_ok_logs {n : Nat} (hok : (t.captureUnloading g w).result = .ok n) :
    ∃ l : List CapturedClass, n = l.length ∧
      log (t.captureUnloading g w).sinks =
        (log w).adding t.captureHeader (l.map CapturedClass.record) ∧
      (t.captureUnloading g w).types.totals =
        (if l = [] then t.totals else (t.addCapture l.length).totals) ∧
      (t.captureUnloading g w).types.lastSummary = t.lastSummary := by
  cases hc : t.captures? g w with
  | some q =>
      obtain ⟨l, r⟩ := q
      obtain ⟨-, hne, size, w', hsend, heq⟩ := captureUnloading_committed hc
      rw [heq] at hok ⊢
      cases hok
      refine ⟨l, rfl, (log_send_ok hsend).1, ?_, ?_⟩ <;>
        unfold forgetCaptured <;> rw [forgetClasses_eq]
      · rw [if_neg hne]
        rfl
      · rfl
  | none =>
      rcases captureUnloading_stopped hc with
        ⟨-, heq⟩ | ⟨v, t', -, heq⟩ | ⟨-, heq⟩ | ⟨l, e', w', t', -, -, heq⟩ <;>
        rw [heq] at hok ⊢ <;> cases hok
      exact ⟨[], rfl, rfl, rfl, rfl⟩

end Capture

/-! ## A pass -/

section Pass

variable {σ τ : Type} [Sink σ] [Sink τ] [LogBacked σ] [LogBacked τ] {w w' : Sinks σ τ}

/-- A pass that does not get past the commit of its main segment fails. -/
theorem serialize_stopped_logs (hstop : t.commits? g flags w = none) :
    ∃ e, (t.serialize g flags w).result = .error e ∧
      (t.serialize g flags w).sinks.logs = w.logs.discardedOn e ∧
      (t.serialize g flags w).types.totals = t.totals.failedOn e ∧
      (t.serialize g flags w).types.lastSummary = t.lastSummary := by
  rcases serialize_stopped hstop with
    ⟨-, heq⟩ | ⟨v, t', hplan, heq⟩ | ⟨b, t', e, w', hplan, hcommit, heq⟩ <;> rw [heq]
  · exact ⟨_, rfl, rfl, rfl, rfl⟩
  · exact ⟨_, rfl, rfl, (tallies_plan_error hplan).1, (tallies_plan_error hplan).2⟩
  · obtain ⟨s, hp⟩ := plan_ok hplan
    refine ⟨_, rfl, (Sinks.logs_discard w').trans (Sinks.discard_logs_commitMain hcommit), ?_,
      hp.rollback.lastSummary⟩
    show (t'.rollback b).countFailure.totals = t.countFailure.totals
    unfold countFailure
    rw [hp.rollback.totals]

/-- Behind the commit of its main segment a pass commits the staged leak segment, or the leak sink
refuses, and the log there is as it was before the segment was staged. -/
theorem finishPass_logs {y : Option SegmentLog} (flags : PassFlags) (bytes : Nat)
    (hleak : b.leak.isSome = w.leak.isSome)
    (hstaged : w.logs.leak = y.map (·.opening (t.leakHeader flags) b.leakRecords))
    (hclosed : b.leakRecords ≠ [] → ∀ x ∈ y, x.pending = none) :
    ∃ leak, (t.finishPass flags b bytes w).sinks.logs =
        ⟨log w.main, y.map (·.adding (t.leakHeader flags) leak)⟩ ∧
      (t.finishPass flags b bytes w).types.lastSummary =
        some (t.passSummary flags b bytes leak) ∧
      (((t.finishPass flags b bytes w).result = .ok bytes ∧ leak = b.leakRecords ∧
          (t.finishPass flags b bytes w).types.totals =
            t.totals.addPass (t.passSummary flags b bytes leak)) ∨
        ∃ e, (t.finishPass flags b bytes w).result = .error (.sink e) ∧ leak = [] ∧
          (t.finishPass flags b bytes w).types.totals =
            (t.totals.addPass (t.passSummary flags b bytes leak)).failedOn (.sink e)) := by
  rcases finishPass_cases t flags b bytes w with
    ⟨hb, heq⟩ | ⟨p, hb, ⟨size, w', hfinish, heq⟩ | ⟨e, w', hfinish, heq⟩⟩ <;> rw [heq]
  · -- without a leak sink there is no leak segment
    have hrecords := Batch.leakRecords_of_none hb
    have hnone : w.leak = none := by simpa [hb] using hleak
    rw [Sinks.logs, hnone] at hstaged
    obtain rfl : y = none := Option.map_eq_none_iff.mp hstaged.symm
    refine ⟨[], ?_, ?_, .inl ⟨rfl, hrecords.symm, ?_⟩⟩
    · rw [Sinks.logs, hnone]
      rfl
    · rw [passSummary_nil]
      rfl
    · rw [passSummary_nil, addPass, totals_commitMain]
  · have hrecords := Batch.leakRecords_of_some hb
    obtain ⟨hmain, ⟨hx, -⟩ | ⟨x, x', hx, hx', hok⟩⟩ := Sinks.onLeak_ok hfinish
    · rw [hb, hx] at hleak
      cases hleak
    · rw [Sinks.logs, hx] at hstaged
      obtain ⟨z, rfl, hz⟩ := Option.map_eq_some_iff.mp hstaged.symm
      rw [hrecords] at hz
      obtain ⟨hlog, rfl⟩ := log_finish_ok hz.symm hok
      refine ⟨p.records, ?_, ?_, .inl ⟨rfl, hrecords.symm, ?_⟩⟩
      · rw [Sinks.logs, hmain, hx', Option.map_some, hlog]
        rfl
      · rw [addPass, passSummary, PendingLeak.records, List.length_map]
      · rw [addPass, totals_commitMain, passSummary, PendingLeak.records, List.length_map]
        rfl
  · have hrecords := Batch.leakRecords_of_some hb
    obtain ⟨hmain, x, x', hx, hx', herr⟩ := Sinks.onLeak_error hfinish
    rw [Sinks.logs, hx] at hstaged
    obtain ⟨z, rfl, hz⟩ := Option.map_eq_some_iff.mp hstaged.symm
    obtain ⟨hne, hlog⟩ := log_finish_error herr
    rw [← hrecords] at hne
    refine ⟨[], ?_, ?_, .inr ⟨e, rfl, rfl, ?_⟩⟩
    · -- the discard drops the staged segment, and no other was open before
      rw [Sinks.logs_discardLeak, Sinks.logs, hmain, hx']
      refine congrArg (Sinks.mk _ <| some ·) ?_
      show (log x').discard = z
      rw [hlog, ← hz, discard_opening, discard_eq_self z (hclosed hne z rfl)]
    · rw [passSummary_nil]
      rfl
    · rw [passSummary_nil, countFailure, addPass, totals_commitMain]
      rfl

/-- A pass that gets past the commit of its main segment has added it to the main log. To the leak
log it has added the planned segment, or it has added nothing and fails. -/
theorem serialize_committed_logs (hc : t.commits? g flags w = some (b, t', w')) :
    ∃ bytes leak, bytes = ((added (t.passHeader flags) b.records).flatMap Segment.bytes).length ∧
      (t.serialize g flags w).sinks.logs =
        ⟨(log w.main).adding (t.passHeader flags) b.records,
          w.logs.leak.map (·.adding (t.leakHeader flags) leak)⟩ ∧
      (t.serialize g flags w).types.lastSummary = some (t.passSummary flags b bytes leak) ∧
      (((t.serialize g flags w).result = .ok bytes ∧ leak = b.leakRecords ∧
          (t.serialize g flags w).types.totals =
            t.totals.addPass (t.passSummary flags b bytes leak)) ∨
        ∃ e, (t.serialize g flags w).result = .error (.sink e) ∧ leak = [] ∧
          (t.serialize g flags w).types.totals =
            (t.totals.addPass (t.passSummary flags b bytes leak)).failedOn (.sink e)) := by
  obtain ⟨hplan, bytes, hcommit, heq⟩ := serialize_committed hc
  obtain ⟨s, hp⟩ := plan_ok hplan
  obtain ⟨hlogs, hbytes, hclosed⟩ := Sinks.logs_commitMain_ok hcommit
  -- the plan has changed neither the epoch nor the tallies
  have hpass : t'.passHeader flags = t.passHeader flags := by rw [hp.types]; rfl
  have hheader : t'.leakHeader flags = t.leakHeader flags := by rw [hp.types]; rfl
  have hsummary : t'.passSummary flags b bytes = t.passSummary flags b bytes := by
    rw [hp.types]; rfl
  have htotals : t'.totals = t.totals := by rw [hp.types]; rfl
  have hmain : log w'.main = (log w.main).adding (t.passHeader flags) b.records := by
    rw [← hpass]
    exact congrArg Sinks.main hlogs
  have hstaged := congrArg Sinks.leak hlogs
  have hleak : b.leak.isSome = w'.leak.isSome := by
    rw [isSome_leak_of_plan hplan]
    simpa [Sinks.logs] using (congrArg Option.isSome hstaged).symm
  obtain ⟨leak, hsinks, hlast, hends⟩ := finishPass_logs flags bytes hleak hstaged hclosed
  rw [hsummary, htotals] at hends
  rw [hsummary] at hlast
  rw [hmain, hheader] at hsinks
  rw [heq]
  exact ⟨bytes, leak, by rw [hbytes, hpass], hsinks, hlast, hends⟩

end Pass

end TypeSet

/-- Logs of which the leak log refuses its first commit. -/
def refusingLogs : Sinks (Flaky SegmentLog) (Flaky SegmentLog) :=
  ⟨{ inner := {} }, some { inner := {}, schedule := .once .commit 1 "disk full" }⟩

end TraceTypes
