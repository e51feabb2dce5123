import TraceTypes.Proofs.CommittedContent
import TraceTypes.Proofs.Receipts
/-!
# The books balance

The totals of a type set and the summary of its last pass are put beside the
receipts of all calls that write, over any run on sinks that have segment logs
behind them and fail as they like (`BookedRun.balanced`). The totals are what
the receipts add up to, and the summary is that of the last receipt of a pass. A
pass whose leak segment was refused counts both as a pass and as a failure.
-/

namespace TraceTypes

open TypeSet

/-- A type set that some run reaches, with the receipts of the calls that write. -/
inductive BookedRun (settings : Settings) : TypeSet → List Receipt → Prop
  | create : BookedRun settings (.create settings) []
  | tag {t : TypeSet} {L : List Receipt} (a : Artifact) :
      BookedRun settings t L → BookedRun settings (t.tag a).2 L
  | tagLeak {t : TypeSet} {L : List Receipt} (n : Handle) :
      BookedRun settings t L → BookedRun settings (t.tagLeak n).2 L
  | clear {t : TypeSet} {L : List Receipt} : BookedRun settings t L → BookedRun settings t.clear L
  | rotate {t : TypeSet} {L : List Receipt} :
      BookedRun settings t L → BookedRun settings t.rotate L
  | serialize {t : TypeSet} {L : List Receipt} {σ τ : Type} [Sink σ] [Sink τ] [LogBacked σ]
      [LogBacked τ] (g : MetadataGraph) (flags : PassFlags) (w : Sinks σ τ) :
      BookedRun settings t L →
      BookedRun settings (t.serialize g flags w).types (L ++ [t.passReceipt g flags w])
  | captureUnloading {t : TypeSet} {L : List Receipt} {σ : Type} [Sink σ] [LogBacked σ]
      (g : MetadataGraph) (w : σ) :
      BookedRun settings t L →
      BookedRun settings (t.captureUnloading g w).types (L ++ [t.captureReceipt g w])

namespace BookedRun

variable {settings : Settings} {t : TypeSet} {L : List Receipt}

theorem run (h : BookedRun settings t L) : ∃ H, Run settings t H := by
  induction h with
  | create => exact ⟨_, .create⟩
  | tag a _ ih => exact ih.imp fun _ => .tag a
  | tagLeak n _ ih => exact ih.imp fun _ => .tagLeak n
  | clear _ ih => exact ih.imp fun _ => .clear
  | rotate _ ih =>
      obtain ⟨H, h⟩ := ih
      exact ⟨_, h.rotate⟩
  | serialize g flags w _ ih =>
      obtain ⟨H, h⟩ := ih
      exact ⟨_, h.serialize g flags w⟩
  | captureUnloading g w _ ih =>
      obtain ⟨H, h⟩ := ih
      exact ⟨_, h.captureUnloading g w⟩

/-- The totals are what the receipts add up to. -/
theorem gained (h : BookedRun settings t L) : Totals.Gained {} t.totals (L.countP Receipt.passed)
    (L.countP Receipt.failed) (L.flatMap Receipt.segments) := by
  induction h with
  | create => exact .refl _
  | tag _ _ ih | tagLeak _ _ ih | clear _ ih | rotate _ ih => exact { ih with }
  | @serialize t _ _ _ _ _ _ _ g flags w _ ih =>
      rw [List.countP_append, List.countP_append, List.flatMap_append, List.countP_singleton,
        List.countP_singleton, List.flatMap_singleton]
      exact ih.trans (passReceipt_booked t g flags w).1
  | @captureUnloading t _ _ _ _ g w _ ih =>
      obtain ⟨hgained, -, hpassed, -⟩ := captureReceipt_booked t g w
      rw [List.countP_append, List.countP_append, List.flatMap_append, List.countP_singleton,
        List.countP_singleton, List.flatMap_singleton, hpassed]
      exact ih.trans hgained

/-- The last pass of a row of receipts. -/
theorem getLast?_passed_snoc (L : List Receipt) (r : Receipt) :
    ((L ++ [r]).filter Receipt.passed).getLast? =
      if r.passed then some r else (L.filter Receipt.passed).getLast? := by
  cases hr : r.passed <;> simp [List.filter_append, hr]

/-- The summary is that of the last pass. -/
theorem lastSummary (h : BookedRun settings t L) :
    Option.Rel PassSummary.Summarizes t.lastSummary (L.filter Receipt.passed).getLast? := by
  induction h with
  | create => exact .none
  | tag _ _ ih | tagLeak _ _ ih | clear _ ih | rotate _ ih => exact ih
  | @serialize t _ _ _ _ _ _ _ g flags w _ ih =>
      have hlast := (passReceipt_booked t g flags w).2
      rw [getLast?_passed_snoc]
      split at hlast
      · rename_i hpassed
        obtain ⟨s, hs, hsum⟩ := hlast
        rw [if_pos hpassed, hs]
        exact .some hsum
      · rename_i hpassed
        rw [if_neg hpassed, hlast]
        exact ih
  | @captureUnloading t _ _ _ _ g w _ ih =>
      obtain ⟨-, -, hpassed, hlast⟩ := captureReceipt_booked t g w
      rw [getLast?_passed_snoc, if_neg (by simp [hpassed]), hlast]
      exact ih

end BookedRun

/-! ## One pass -/

section Pass

variable {settings : Settings} {t t' : TypeSet} {H : History} {g : MetadataGraph}
  {flags : PassFlags} {σ τ : Type} [Sink σ] [Sink τ] {w w' : Sinks σ τ} {b : Batch}

/-- A pass has an empty main part exactly if nothing is tagged. -/
theorem Run.entries_eq_nil_iff (h : Run settings t H)
    (hc : t.commits? g flags w = some (b, t', w')) :
    b.entries = [] ↔ ∀ a, t.marks.isTagged a = false := by
  obtain ⟨hplan, -⟩ := serialize_committed hc
  obtain ⟨s, hp⟩ := plan_ok hplan
  have htagged := (Pass.planAll_ok (h.recorded.ready g flags.classUnload) hp.plan).2
  constructor
  · intro hnil a
    rw [Bool.eq_false_iff]
    intro ha
    have hmem := htagged a ha
    rw [← hp.entries, hnil] at hmem
    cases hmem
  · intro hnone
    have hnil : (t.scope g flags.classUnload).marks.allTagged = [] := by
      refine List.eq_nil_iff_forall_not_mem.mpr fun a ha => ?_
      have := MarkTable.mem_allTagged.mp ha
      rw [show (t.scope g flags.classUnload).marks = t.marks from rfl, hnone a] at this
      cases this
    have hplan := hp.plan
    unfold Pass.planAll at hplan
    rw [hnil] at hplan
    cases hplan
    exact hp.entries

/-- The classes that go with a pass go once. -/
theorem Run.unloading_nodup (h : Run settings t H)
    (hc : t.commits? g flags w = some (b, t', w')) : b.unloading.Nodup := by
  obtain ⟨hplan, -⟩ := serialize_committed hc
  obtain ⟨s, hp⟩ := plan_ok hplan
  rw [hp.unloading, (Pass.classesNoted_planAll hp.plan).unloading]
  refine (nodup_classHandles ?_).filter _
  rw [← hp.entries]
  exact (h.content hc).subjects_nodup

variable [LogBacked σ] [LogBacked τ]

/-- What a pass has done, as its answer and its receipt say. -/
structure PassBooked (t : TypeSet) (g : MetadataGraph) (flags : PassFlags) (w : Sinks σ τ) :
    Prop where
  /-- The logs have grown by the segments of the receipt. -/
  grown : ∃ l l', (t.passReceipt g flags w).segments = l ++ l' ∧
    w.logs.GrownBy (t.serialize g flags w).sinks.logs l l'
  /-- The answer is the size of a segment that was added to the main log, or zero if nothing is
  tagged. -/
  answered : ∀ n, (t.serialize g flags w).result = .ok n →
    (∃ s : Segment, s.header = t.passHeader flags ∧ s.bytes.length = n ∧
      (t.serialize g flags w).sinks.logs.main.segments = w.logs.main.segments ++ [s] ∧
      (t.serialize g flags w).sinks.logs.main.committedBytes =
        w.logs.main.committedBytes + n ∧
      ∃ a, t.marks.isTagged a = true) ∨
    (n = 0 ∧ (t.serialize g flags w).sinks.logs.main = w.logs.main ∧
      ∀ a, t.marks.isTagged a = false)
  /-- The classes of the receipt are forgotten, each of them once. -/
  forgotten : (t.passReceipt g flags w).forgotten.Nodup ∧
    ∀ n ∈ (t.passReceipt g flags w).forgotten, (t.serialize g flags w).types.id? (.cls n) = none

theorem Run.passBooked (h : Run settings t H) (g : MetadataGraph) (flags : PassFlags)
    (w : Sinks σ τ) : PassBooked t g flags w := by
  cases hc : t.commits? g flags w with
  | none =>
      obtain ⟨e, herr, -⟩ := serialize_stopped_logs hc
      obtain ⟨_, -, -, hgrown, hreceipt⟩ := passReceipt_stopped hc
      refine ⟨⟨[], [], by rw [hreceipt]; rfl, hgrown⟩, fun n hok => ?_, ?_⟩
      · rw [herr] at hok
        cases hok
      · rw [hreceipt]
        exact ⟨.nil, nofun⟩
  | some q =>
      obtain ⟨b, t', w'⟩ := q
      obtain ⟨bytes, leak, hbytes, hlogs, -, hends⟩ := serialize_committed_logs hc
      obtain ⟨_, _, -, -, hgrown, failed, hreceipt, -⟩ := passReceipt_committed hc
      refine ⟨⟨_, _, by rw [hreceipt]; rfl, hgrown⟩, fun n hok => ?_, ?_⟩
      · obtain rfl : bytes = n := by
          rcases hends with ⟨hresult, -⟩ | ⟨e, hresult, -⟩ <;> rw [hresult] at hok <;> cases hok
          rfl
        have hmain : (t.serialize g flags w).sinks.logs.main =
            w.logs.main.adding (t.passHeader flags) b.records := by rw [hlogs]; rfl
        by_cases hnil : b.entries = []
        · have hrecords : b.records = [] := by rw [Batch.records, hnil]; rfl
          rw [hrecords] at hmain hbytes
          exact .inr ⟨hbytes, hmain, (h.entries_eq_nil_iff hc).mp hnil⟩
        · have hadded : SegmentLog.added (t.passHeader flags) b.records =
              [.of (t.passHeader flags) b.records] :=
            if_neg fun e => hnil (List.map_eq_nil_iff.mp (List.isEmpty_iff.mp e))
          have htagged : ∃ a, t.marks.isTagged a = true := by
            refine Classical.byContradiction fun hnone => hnil ?_
            refine (h.entries_eq_nil_iff hc).mpr fun a => ?_
            exact Bool.eq_false_iff.mpr fun ha => hnone ⟨a, ha⟩
          refine .inl ⟨.of (t.passHeader flags) b.records, rfl, ?_, ?_, ?_, htagged⟩
          · rw [hbytes, hadded, List.flatMap_singleton]
          · rw [hgrown.main, hadded]
          · rw [hmain, SegmentLog.committedBytes_adding, hbytes]
      · rw [hreceipt]
        exact ⟨h.unloading_nodup hc, fun n hn => (forgotten_of_unloading hc hn).1⟩

end Pass

/-! ## All calls together -/

/-- The totals are what the receipts add up to. -/
structure Totals.Balanced (n : Totals) (L : List Receipt) : Prop where
  bytesWritten : n.bytesWritten = bytesOf .typeSet (L.flatMap Receipt.segments)
  recordsWritten : n.recordsWritten = (recordsOf .typeSet (L.flatMap Receipt.segments)).length
  leakRecordsWritten :
    n.leakRecordsWritten = (recordsOf .leakProfiler (L.flatMap Receipt.segments)).length
  unloadCaptures :
    n.unloadCaptures = (segmentsOf .classUnload (L.flatMap Receipt.segments)).length
  classesUnloaded :
    n.classesUnloaded = (recordsOf .classUnload (L.flatMap Receipt.segments)).length
  serializations : n.serializations = L.countP Receipt.passed
  writerFailures : n.writerFailures = L.countP Receipt.failed

/-- The books balance at every point of a run, whichever calls of its sinks fail. Each pass adds the
segments of its receipt to the logs, and answers the size of the one that it adds to the main log,
or zero exactly if nothing is tagged; each capture adds those of its receipt. The totals are what
all receipts so far add up to, and the summary is that of the last pass that has committed its
main part. -/
theorem BookedRun.balanced {settings : Settings} {t : TypeSet} {L : List Receipt} {σ τ : Type}
    [Sink σ] [Sink τ] [LogBacked σ] [LogBacked τ] (h : BookedRun settings t L) :
    (∀ (g : MetadataGraph) (flags : PassFlags) (w : Sinks σ τ), PassBooked t g flags w) ∧
    (∀ (g : MetadataGraph) (w : σ), (log (t.captureUnloading g w).sinks).segments =
      (log w).segments ++ (t.captureReceipt g w).segments) ∧
    t.totals.Balanced L ∧
    Option.Rel PassSummary.Summarizes t.lastSummary (L.filter Receipt.passed).getLast? := by
  obtain ⟨H, hrun⟩ := h.run
  have hgained := h.gained
  refine ⟨hrun.passBooked, fun g w => (captureReceipt_booked t g w).2.1, ?_, h.lastSummary⟩
  constructor
  case bytesWritten => exact hgained.bytesWritten.trans (Nat.zero_add _)
  case recordsWritten => exact hgained.recordsWritten.trans (Nat.zero_add _)
  case leakRecordsWritten => exact hgained.leakRecordsWritten.trans (Nat.zero_add _)
  case unloadCaptures => exact hgained.unloadCaptures.trans (Nat.zero_add _)
  case classesUnloaded => exact hgained.classesUnloaded.trans (Nat.zero_add _)
  case serializations => exact hgained.serializations.trans (Nat.zero_add _)
  case writerFailures => exact hgained.writerFailures.trans (Nat.zero_add _)

/-- A pass whose leak segment is refused, with a capture behind it: one pass and one failure, no
leak record, and one captured class. -/
theorem balanced_refused_leak :
    let t := (sampleTypes.serialize sampleGraph {} refusingLogs).types
    let t' := (t.captureUnloading sampleGraph ({} : SegmentLog)).types
    t'.totals.serializations = 1 ∧ t'.totals.writerFailures = 1 ∧
      t'.totals.leakRecordsWritten = 0 ∧ t'.totals.classesUnloaded = 1 ∧
      t'.totals.recordsWritten = 4 ∧ t'.lastSummary ≠ none := by
  intro t t'
  have hpass : BookedRun {} t [sampleTypes.passReceipt sampleGraph {} refusingLogs] :=
    .serialize sampleGraph {} refusingLogs (.tag (.cls 1) .create)
  have hrun : BookedRun {} t' [sampleTypes.passReceipt sampleGraph {} refusingLogs,
      t.captureReceipt sampleGraph ({} : SegmentLog)] :=
    .captureUnloading sampleGraph ({} : SegmentLog) hpass
  obtain ⟨-, -, hbalanced, hlast⟩ := hrun.balanced (σ := SegmentLog) (τ := SegmentLog)
  refine ⟨?_, ?_, ?_, ?_, ?_, ?_⟩
  · exact hbalanced.serializations.trans (by decide +kernel)
  · exact hbalanced.writerFailures.trans (by decide +kernel)
  · exact hbalanced.leakRecordsWritten.trans (by decide +kernel)
  · exact hbalanced.classesUnloaded.trans (by decide +kernel)
  · exact hbalanced.recordsWritten.trans (by decide +kernel)
  · intro hnone
    have hsome : ([sampleTypes.passReceipt sampleGraph {} refusingLogs,
        t.captureReceipt sampleGraph ({} : SegmentLog)].filter
          Receipt.passed).getLast?.isSome = true := by decide +kernel
    rw [hnone] at hlast
    generalize List.getLast? _ = last at hlast hsome
    cases hlast
    cases hsome

end TraceTypes
