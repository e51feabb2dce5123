import TraceTypes.Proofs.CallLogs
import TraceTypes.Proofs.WrittenClasses
/-!
# Receipts

A receipt says what one call has left behind: the segments by which the logs
behind its sinks have grown, the classes that it has forgotten, whether it was a
pass that committed its main part, and whether a sink's error ended it. It is
read off the logs and the events of the call, not off the tallies:

* `TypeSet.passReceipt`, `TypeSet.captureReceipt` — the receipts;
* `Totals.Gained` — totals have gone up by what segments and receipts say;
* `PassSummary.Summarizes` — a summary says what a receipt says;
* `TypeSet.passReceipt_booked`, `TypeSet.captureReceipt_booked` — so it is with
  every call.
-/

namespace TraceTypes

open SegmentLog

/-! ## Segments by their kind -/

section Kinds

variable (k : SegmentKind) (l l' : List Segment)

/-- The segments of one kind. -/
def segmentsOf : List Segment := l.filter fun s => s.header.kind = k

/-- The records in the segments of one kind. -/
def recordsOf : List Record := (segmentsOf k l).flatMap Segment.records

/-- The bytes of the segments of one kind. -/
def bytesOf : Nat := ((segmentsOf k l).flatMap Segment.bytes).length

theorem segmentsOf_append : segmentsOf k (l ++ l') = segmentsOf k l ++ segmentsOf k l' :=
  List.filter_append ..

theorem recordsOf_append : recordsOf k (l ++ l') = recordsOf k l ++ recordsOf k l' := by
  unfold recordsOf
  rw [segmentsOf_append, List.flatMap_append]

theorem bytesOf_append : bytesOf k (l ++ l') = bytesOf k l + bytesOf k l' := by
  unfold bytesOf
  rw [segmentsOf_append, List.flatMap_append, List.length_append]

variable (h : Header) (records : List Record)

theorem segmentsOf_added :
    segmentsOf k (added h records) = if h.kind = k then added h records else [] := by
  unfold segmentsOf added
  split
  · rw [ite_self]
    rfl
  · by_cases hk : h.kind = k <;> simp [Segment.of, hk]

theorem recordsOf_added :
    recordsOf k (added h records) = if h.kind = k then records else [] := by
  unfold recordsOf
  rw [segmentsOf_added]
  split
  · unfold added
    split
    · rename_i hnil
      exact (List.isEmpty_iff.mp hnil).symm
    · exact List.append_nil _
  · rfl

theorem bytesOf_added : bytesOf k (added h records) =
    if h.kind = k then ((added h records).flatMap Segment.bytes).length else 0 := by
  unfold bytesOf
  rw [segmentsOf_added]
  split <;> rfl

end Kinds

/-! ## Receipts -/

/-- What a call has left behind. -/
structure Receipt where
  /-- Whether it was a pass that committed its main part. -/
  passed : Bool
  /-- Whether a sink's error ended it. -/
  failed : Bool
  /-- The segments that it has committed, those of the main stream first. -/
  segments : List Segment
  /-- The classes that it has forgotten. -/
  forgotten : List Handle

/-- The committed segments of the leak log, if there is one. -/
def Sinks.leakSegments (x : Sinks SegmentLog SegmentLog) : List Segment :=
  (x.leak.map SegmentLog.segments).getD []

/-- The segments by which the logs have grown. -/
def Sinks.gained (x y : Sinks SegmentLog SegmentLog) : List Segment :=
  y.main.segments.drop x.main.segments.length ++ y.leakSegments.drop x.leakSegments.length

namespace Sinks

/-- The logs have grown by these segments: the main log, and the leak log. -/
structure GrownBy (x y : Sinks SegmentLog SegmentLog) (l l' : List Segment) : Prop where
  main : y.main.segments = x.main.segments ++ l
  leak : y.leakSegments = x.leakSegments ++ l'

variable {x y : Sinks SegmentLog SegmentLog}

theorem GrownBy.gained {l l' : List Segment} (h : x.GrownBy y l l') : x.gained y = l ++ l' := by
  rw [Sinks.gained, h.main, h.leak, List.drop_left, List.drop_left]

/-- A discard drops open segments only. -/
theorem grownBy_discardedOn (x : Sinks SegmentLog SegmentLog) (e : TypeSetError) :
    x.GrownBy (x.discardedOn e) [] [] := by
  unfold discardedOn
  split
  · refine ⟨(List.append_nil _).symm, ?_⟩
    unfold leakSegments discard discardLeak
    cases x.leak <;> exact (List.append_nil _).symm
  · exact ⟨(List.append_nil _).symm, (List.append_nil _).symm⟩

theorem grownBy_adding {h h' : Header} {l l' : List Record} (hleak : x.leak = none → l' = []) :
    x.GrownBy ⟨x.main.adding h l, x.leak.map (·.adding h' l')⟩ (added h l) (added h' l') := by
  refine ⟨segments_adding _ h l, ?_⟩
  unfold leakSegments
  cases hx : x.leak with
  | none =>
      rw [hleak hx]
      rfl
  | some z => exact segments_adding z h' l'

end Sinks

/-- Whether a sink's error has ended a call. -/
def endedBySink {α : Type} : Except TypeSetError α → Bool
  | .error (.sink _) => true
  | _ => false

/-- The artifacts that an event says are forgotten. -/
def Event.forgottenArtifacts : Event → List Artifact
  | forgotten l => l
  | _ => []

/-- The classes that events say are forgotten. -/
def History.forgottenClasses (H : History) : List Handle :=
  classHandles (H.flatMap Event.forgottenArtifacts)

namespace TypeSet

section Receipts

variable {σ τ : Type} [Sink σ] [Sink τ] [LogBacked σ] [LogBacked τ]

/-- The receipt of a pass. -/
def passReceipt (t : TypeSet) (g : MetadataGraph) (flags : PassFlags) (w : Sinks σ τ) :
    Receipt where
  passed := (t.commits? g flags w).isSome
  failed := endedBySink (t.serialize g flags w).result
  segments := w.logs.gained (t.serialize g flags w).sinks.logs
  forgotten := (t.serializeEvents g flags w).forgottenClasses

/-- The receipt of a capture. -/
def captureReceipt (t : TypeSet) (g : MetadataGraph) (w : σ) : Receipt where
  passed := false
  failed := endedBySink (t.captureUnloading g w).result
  segments := Sinks.gained ⟨log w, none⟩ ⟨log (t.captureUnloading g w).sinks, none⟩
  forgotten := (t.captureEvents g w).forgottenClasses

end Receipts

end TypeSet

/-! ## Tallies -/

/-- Totals have gone up by passes and failures, and by what is in segments. -/
structure Totals.Gained (n n' : Totals) (passes failures : Nat) (l : List Segment) : Prop where
  serializations : n'.serializations = n.serializations + passes
  writerFailures : n'.writerFailures = n.writerFailures + failures
  bytesWritten : n'.bytesWritten = n.bytesWritten + bytesOf .typeSet l
  recordsWritten : n'.recordsWritten = n.recordsWritten + (recordsOf .typeSet l).length
  leakRecordsWritten :
    n'.leakRecordsWritten = n.leakRecordsWritten + (recordsOf .leakProfiler l).length
  unloadCaptures : n'.unloadCaptures = n.unloadCaptures + (segmentsOf .classUnload l).length
  classesUnloaded : n'.classesUnloaded = n.classesUnloaded + (recordsOf .classUnload l).length

/-- A summary says what a receipt says. -/
structure PassSummary.Summarizes (s : PassSummary) (r : Receipt) : Prop where
  bytes : s.bytes = bytesOf .typeSet r.segments
  records : ∀ k, s.records.get k = (recordsOf .typeSet r.segments).countP fun x => x.kind = k
  leakBytes : s.leakBytes = bytesOf .leakProfiler r.segments
  leakClasses : s.leakClasses = (recordsOf .leakProfiler r.segments).length
  unloaded : s.unloaded = r.forgotten.length

namespace Totals.Gained

variable {n n' n'' : Totals} {p p' f f' : Nat} {l l' : List Segment}

theorem refl (n : Totals) : n.Gained n 0 0 [] := ⟨rfl, rfl, rfl, rfl, rfl, rfl, rfl⟩

theorem trans (h : n.Gained n' p f l) (h' : n'.Gained n'' p' f' l') :
    n.Gained n'' (p + p') (f + f') (l ++ l') where
  serializations := by rw [h'.serializations, h.serializations, Nat.add_assoc]
  writerFailures := by rw [h'.writerFailures, h.writerFailures, Nat.add_assoc]
  bytesWritten := by rw [h'.bytesWritten, h.bytesWritten, bytesOf_append, Nat.add_assoc]
  recordsWritten := by
    rw [h'.recordsWritten, h.recordsWritten, recordsOf_append, List.length_append, Nat.add_assoc]
  leakRecordsWritten := by
    rw [h'.leakRecordsWritten, h.leakRecordsWritten, recordsOf_append, List.length_append,
      Nat.add_assoc]
  unloadCaptures := by
    rw [h'.unloadCaptures, h.unloadCaptures, segmentsOf_append, List.length_append, Nat.add_assoc]
  classesUnloaded := by
    rw [h'.classesUnloaded, h.classesUnloaded, recordsOf_append, List.length_append,
      Nat.add_assoc]

/-- An error that ends a call is counted if a sink has raised it. -/
theorem failedOn (n : Totals) (e : TypeSetError) :
    n.Gained (n.failedOn e) 0 (if e.isRecoverable then 1 else 0) [] := by
  unfold Totals.failedOn
  split
  · exact ⟨rfl, rfl, rfl, rfl, rfl, rfl, rfl⟩
  · exact .refl n

/-- The segment of a capture counts with its records. -/
theorem capture (n : Totals) {h : Header} (hk : h.kind = .classUnload) {records : List Record}
    (hne : records ≠ []) :
    n.Gained { n with
      unloadCaptures := n.unloadCaptures + 1
      classesUnloaded := n.classesUnloaded + records.length } 0 0 (added h records) where
  serializations := rfl
  writerFailures := rfl
  bytesWritten := by rw [bytesOf_added, hk]; rfl
  recordsWritten := by rw [recordsOf_added, hk]; rfl
  leakRecordsWritten := by rw [recordsOf_added, hk]; rfl
  unloadCaptures := by
    rw [segmentsOf_added, if_pos hk, added, if_neg fun e => hne (List.isEmpty_iff.mp e)]
    rfl
  classesUnloaded := by rw [recordsOf_added, if_pos hk]

end Totals.Gained

namespace PassSummary

theorem get_countAll (s : PassSummary) (l : List Record) (k : Kind) :
    (s.countAll l).records.get k = s.records.get k + l.countP fun x => x.kind = k := by
  unfold countAll
  induction l generalizing s with
  | nil => rfl
  | cons r rest ih =>
      rw [List.foldl_cons, ih, count, PerKind.get_set, List.countP_cons]
      by_cases hk : k = r.kind
      · simp [hk]
        omega
      · have hk' : ¬ r.kind = k := fun e => hk e.symm
        simp [hk, hk']

theorem totalRecords_countAll (s : PassSummary) (l : List Record) :
    (s.countAll l).totalRecords = s.totalRecords + l.length := by
  unfold countAll
  induction l generalizing s with
  | nil => rfl
  | cons r rest ih =>
      rw [List.foldl_cons, ih, totalRecords, count, PerKind.total_set_add, totalRecords,
        List.length_cons]
      omega

theorem bytes_countAll (s : PassSummary) (l : List Record) : (s.countAll l).bytes = s.bytes := by
  unfold countAll
  induction l generalizing s with
  | nil => rfl
  | cons r rest ih => exact ih (s.count r)

end PassSummary

namespace TypeSet

section Pass

variable (t : TypeSet) (flags : PassFlags) (b : Batch) {bytes : Nat} (leak : List Record)

/-- The segments of a pass that has committed these records on the leak stream. -/
def passSegments : List Segment :=
  added (t.passHeader flags) b.records ++ added (t.leakHeader flags) leak

theorem recordsOf_passSegments_typeSet :
    recordsOf .typeSet (t.passSegments flags b leak) = b.records := by
  rw [passSegments, recordsOf_append, recordsOf_added, recordsOf_added]
  exact List.append_nil _

theorem recordsOf_passSegments_leakProfiler :
    recordsOf .leakProfiler (t.passSegments flags b leak) = leak := by
  rw [passSegments, recordsOf_append, recordsOf_added, recordsOf_added]
  rfl

theorem segmentsOf_passSegments_classUnload :
    segmentsOf .classUnload (t.passSegments flags b leak) = [] := by
  rw [passSegments, segmentsOf_append, segmentsOf_added, segmentsOf_added]
  rfl

theorem bytesOf_passSegments_leakProfiler :
    bytesOf .leakProfiler (t.passSegments flags b leak) =
      (t.passSummary flags b bytes leak).leakBytes := by
  rw [passSegments, bytesOf_append, bytesOf_added, bytesOf_added]
  exact Nat.zero_add _

variable {t flags b leak}
  (hbytes : bytes = ((added (t.passHeader flags) b.records).flatMap Segment.bytes).length)
include hbytes

theorem bytesOf_passSegments_typeSet :
    bytesOf .typeSet (t.passSegments flags b leak) = bytes := by
  rw [passSegments, bytesOf_append, bytesOf_added, bytesOf_added, hbytes]
  rfl

/-- A pass counts with its segments. -/
theorem gained_addPass (n : Totals) : n.Gained (n.addPass (t.passSummary flags b bytes leak)) 1 0
    (t.passSegments flags b leak) where
  serializations := rfl
  writerFailures := rfl
  bytesWritten := by
    rw [bytesOf_passSegments_typeSet hbytes]
    exact congrArg (n.bytesWritten + ·) (PassSummary.bytes_countAll _ b.records)
  recordsWritten := by
    rw [recordsOf_passSegments_typeSet]
    refine congrArg (n.recordsWritten + ·) ((PassSummary.totalRecords_countAll _ _).trans ?_)
    exact Nat.zero_add _
  leakRecordsWritten := by rw [recordsOf_passSegments_leakProfiler]; rfl
  unloadCaptures := by rw [segmentsOf_passSegments_classUnload]; rfl
  classesUnloaded := by rw [recordsOf, segmentsOf_passSegments_classUnload]; rfl

/-- The summary of a pass says what is in its segments. -/
theorem summarizes_passSummary {r : Receipt} (hr : r.segments = t.passSegments flags b leak)
    (hforgotten : r.forgotten = b.unloading) :
    (t.passSummary flags b bytes leak).Summarizes r where
  bytes := by
    rw [hr, bytesOf_passSegments_typeSet hbytes]
    exact PassSummary.bytes_countAll _ b.records
  records k := by
    rw [hr, recordsOf_passSegments_typeSet]
    refine (PassSummary.get_countAll _ b.records k).trans ?_
    rw [PerKind.get_replicate, Nat.zero_add]
  leakBytes := by rw [hr, bytesOf_passSegments_leakProfiler]
  leakClasses := by rw [hr, recordsOf_passSegments_leakProfiler]; rfl
  unloaded := by rw [hforgotten]; rfl

end Pass

/-! ## Calls -/

theorem classHandles_forgottenBy (methods : TypeSet → Handle → List Handle) (t : TypeSet)
    (l : List Handle) : classHandles (forgottenBy methods t l) = l := by
  have hmethods (m : List Handle) : classHandles (m.map Artifact.method) = [] := by
    refine List.eq_nil_iff_forall_not_mem.mpr fun n hn => ?_
    simpa using mem_classHandles.mp hn
  induction l generalizing t with
  | nil => rfl
  | cons n rest ih =>
      unfold forgottenBy
      rw [classHandles_append, hmethods, List.nil_append]
      exact congrArg (n :: ·) (ih _)

theorem endedBySink_error {α : Type} (e : TypeSetError) :
    endedBySink (.error e : Except TypeSetError α) = e.isRecoverable := by
  cases e <;> rfl

section Calls

variable {σ τ : Type} [Sink σ] [Sink τ] {t t' : TypeSet} {g : MetadataGraph} {flags : PassFlags}
  {w w' : Sinks σ τ} {b : Batch}

theorem forgottenClasses_stopped (hstop : t.commits? g flags w = none) :
    (t.serializeEvents g flags w).forgottenClasses = [] := by
  unfold serializeEvents
  rw [hstop]
  rfl

theorem forgottenClasses_serializeEvents (hc : t.commits? g flags w = some (b, t', w')) :
    (t.serializeEvents g flags w).forgottenClasses = b.unloading := by
  have hcommitted (header : Header) (l : List Entry) :
      (Event.ofSegment header l).flatMap Event.forgottenArtifacts = [] := by
    unfold Event.ofSegment
    split <;> rfl
  have hleak : (t'.leakEvents flags b w').flatMap Event.forgottenArtifacts = [] := by
    rcases leakEvents_cases t' flags b w' with hnil | ⟨p, header, -, -, hone⟩
    · rw [hnil]
      rfl
    · rw [hone]
      rfl
  unfold History.forgottenClasses serializeEvents
  rw [hc]
  dsimp only
  rw [List.flatMap_append, List.flatMap_append, hcommitted, hleak]
  exact (congrArg classHandles (List.append_nil _)).trans (classHandles_forgottenBy ..)

variable [LogBacked σ] [LogBacked τ]

/-- The receipt of a pass that does not get past the commit of its main segment shows nothing but
the failure. -/
theorem passReceipt_stopped (hstop : t.commits? g flags w = none) : ∃ e,
    (t.serialize g flags w).types.totals = t.totals.failedOn e ∧
    (t.serialize g flags w).types.lastSummary = t.lastSummary ∧
    w.logs.GrownBy (t.serialize g flags w).sinks.logs [] [] ∧
    t.passReceipt g flags w = ⟨false, e.isRecoverable, [], []⟩ := by
  obtain ⟨e, herr, hlogs, htotals, hlast⟩ := serialize_stopped_logs hstop
  have hgrown := Sinks.grownBy_discardedOn w.logs e
  refine ⟨e, htotals, hlast, hlogs ▸ hgrown, ?_⟩
  rw [passReceipt, hstop, herr, hlogs, hgrown.gained, endedBySink_error,
    forgottenClasses_stopped hstop]
  rfl

/-- The receipt of a pass that gets past it shows the segments of the pass and the classes that were
written as unloading. -/
theorem passReceipt_committed (hc : t.commits? g flags w = some (b, t', w')) :
    ∃ bytes leak, bytes = ((added (t.passHeader flags) b.records).flatMap Segment.bytes).length ∧
      (t.serialize g flags w).types.lastSummary = some (t.passSummary flags b bytes leak) ∧
      w.logs.GrownBy (t.serialize g flags w).sinks.logs (added (t.passHeader flags) b.records)
        (added (t.leakHeader flags) leak) ∧
      ∃ failed, t.passReceipt g flags w =
          ⟨true, failed, t.passSegments flags b leak, b.unloading⟩ ∧
        (t.totals.addPass (t.passSummary flags b bytes leak)).Gained
          (t.serialize g flags w).types.totals 0 (if failed then 1 else 0) [] := by
  obtain ⟨bytes, leak, hbytes, hlogs, hlast, hends⟩ := serialize_committed_logs hc
  have hnone : w.logs.leak = none → leak = [] := by
    intro hnone
    rcases hends with ⟨-, rfl, -⟩ | ⟨-, -, rfl, -⟩
    · -- without a leak sink nothing is planned for it
      have hplan := isSome_leak_of_plan (serialize_committed hc).1
      have hw : w.leak = none := Option.map_eq_none_iff.mp hnone
      exact Batch.leakRecords_of_none (by simpa [hw] using hplan)
    · rfl
  have hgrown : w.logs.GrownBy (t.serialize g flags w).sinks.logs
      (added (t.passHeader flags) b.records) (added (t.leakHeader flags) leak) := by
    rw [hlogs]
    exact Sinks.grownBy_adding hnone
  have hreceipt : t.passReceipt g flags w = ⟨true, endedBySink (t.serialize g flags w).result,
      t.passSegments flags b leak, b.unloading⟩ := by
    rw [passReceipt, hgrown.gained, forgottenClasses_serializeEvents hc, hc]
    rfl
  refine ⟨bytes, leak, hbytes, hlast, hgrown, _, hreceipt, ?_⟩
  rcases hends with ⟨hresult, -, htotals⟩ | ⟨e, hresult, -, htotals⟩
  · rw [hresult, htotals]
    exact .refl _
  · rw [hresult, htotals]
    exact .failedOn _ _

/-- Every pass is booked as its receipt says, and its summary is kept if it has passed. -/
theorem passReceipt_booked (t : TypeSet) (g : MetadataGraph) (flags : PassFlags)
    (w : Sinks σ τ) :
    let r := t.passReceipt g flags w
    t.totals.Gained (t.serialize g flags w).types.totals (if r.passed then 1 else 0)
      (if r.failed then 1 else 0) r.segments ∧
    if r.passed then ∃ s, (t.serialize g flags w).types.lastSummary = some s ∧ s.Summarizes r
    else (t.serialize g flags w).types.lastSummary = t.lastSummary := by
  intro r
  cases hc : t.commits? g flags w with
  | none =>
      obtain ⟨e, htotals, hlast, -, hr⟩ := passReceipt_stopped hc
      rw [htotals, show r = _ from hr]
      exact ⟨.failedOn _ _, hlast⟩
  | some q =>
      obtain ⟨b, t', w'⟩ := q
      obtain ⟨bytes, leak, hbytes, hlast, -, failed, hr, hfailed⟩ := passReceipt_committed hc
      rw [show r = _ from hr]
      refine ⟨?_, _, hlast, summarizes_passSummary hbytes rfl rfl⟩
      have := (gained_addPass hbytes t.totals).trans hfailed
      rwa [List.append_nil, Nat.zero_add] at this

/-- The receipt of a capture shows the segment of the captured classes, or the failure. -/
theorem captureReceipt_booked (t : TypeSet) (g : MetadataGraph) (w : σ) :
    let r := t.captureReceipt g w
    t.totals.Gained (t.captureUnloading g w).types.totals 0 (if r.failed then 1 else 0)
      r.segments ∧
    (log (t.captureUnloading g w).sinks).segments = (log w).segments ++ r.segments ∧
    r.passed = false ∧ (t.captureUnloading g w).types.lastSummary = t.lastSummary := by
  intro r
  have hfailed : r.failed = endedBySink (t.captureUnloading g w).result := rfl
  have segments_of {l : List Segment}
      (h : (log (t.captureUnloading g w).sinks).segments = (log w).segments ++ l) :
      r.segments = l :=
    (Sinks.GrownBy.gained ⟨h, rfl⟩).trans (List.append_nil l)
  cases hresult : (t.captureUnloading g w).result with
  | error e =>
      obtain ⟨-, hlog, htotals, hlast⟩ := captureUnloading_error_logs hresult
      have hgrown : (log (t.captureUnloading g w).sinks).segments = (log w).segments ++ [] := by
        rw [hlog, List.append_nil]
        split <;> rfl
      rw [segments_of hgrown, hfailed, hresult, endedBySink_error, htotals]
      exact ⟨.failedOn _ _, hgrown, rfl, hlast⟩
  | ok n =>
      obtain ⟨l, -, hlog, htotals, hlast⟩ := captureUnloading_ok_logs hresult
      have hgrown : (log (t.captureUnloading g w).sinks).segments =
          (log w).segments ++ added t.captureHeader (l.map CapturedClass.record) := by
        rw [hlog, segments_adding]
      rw [segments_of hgrown, hfailed, hresult, htotals]
      refine ⟨?_, hgrown, rfl, hlast⟩
      split
      · rename_i hnil
        rw [hnil]
        exact .refl _
      · rename_i hne
        have hrecords : l.map CapturedClass.record ≠ [] := fun e => hne (List.map_eq_nil_iff.mp e)
        have := Totals.Gained.capture t.totals (h := t.captureHeader) rfl hrecords
        rwa [List.length_map] at this

end Calls

end TypeSet

end TraceTypes
