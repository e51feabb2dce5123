import TraceTypes.Proofs.Forgetting
/-!
# Sinks that accept everything

A sink is willing if it will take every call that is in order: a segment may be
opened when none is, and records appended and the segment committed when one is.
A pass that could be planned is then made, with both of its segments:

* `Accepting`, `Willing` — what is asked of a sink;
* `willing_segmentLog` — a log without a limit is willing;
* `stage_willing`, `finish_willing` — a segment can be written;
* `TypeSet.serialize_willing` — what a pass comes to.
-/

namespace TraceTypes

section Sink

variable {σ : Type} [Sink σ] [LawfulSink σ]

/-- Sinks with the property take every call that is in order, and have the property then. -/
structure Accepting (P : σ → Prop) : Prop where
  openSegment : ∀ {w : σ} (h : Header), P w → opened w = none →
    ∃ w', Sink.openSegment h w = .ok () w' ∧ P w'
  append : ∀ {w : σ} {s : Transcript} (r : Record), P w → opened w = some s →
    ∃ n w', Sink.append r w = .ok n w' ∧ P w'
  commit : ∀ {w : σ} {s : Transcript}, P w → opened w = some s →
    ∃ n w', Sink.commit w = .ok n w' ∧ P w'

/-- The sink has no open segment and takes every call that is in order from now on. -/
def Willing (w : σ) : Prop := opened w = none ∧ ∃ P : σ → Prop, Accepting P ∧ P w

variable {P : σ → Prop} {w : σ} {h : Header} {l : List Record}

theorem appendAll_accepting (hP : Accepting P) (hw : P w) {l₀ : List Record}
    (hopen : opened w = some (h, l₀)) (l : List Record) :
    ∃ w', Sink.appendAll l w = .ok () w' ∧ P w' := by
  induction l generalizing w l₀ with
  | nil => exact ⟨w, rfl, hw⟩
  | cons r rest ih =>
      obtain ⟨n, w₁, happend, hw₁⟩ := hP.append r hw hopen
      obtain ⟨w₂, hrest, hw₂⟩ := ih hw₁ (LawfulSink.opened_append happend hopen)
      refine ⟨w₂, ?_, hw₂⟩
      show EStateM.bind _ _ w = _
      unfold EStateM.bind
      rw [happend]
      exact hrest

theorem stage_accepting (hP : Accepting P) (hw : P w) (hclosed : opened w = none) (h : Header)
    (l : List Record) : ∃ w', Sink.stage h l w = .ok () w' ∧ P w' := by
  unfold Sink.stage
  split
  · exact ⟨w, rfl, hw⟩
  · obtain ⟨w₁, hopen, hw₁⟩ := hP.openSegment h hw hclosed
    obtain ⟨w₂, hall, hw₂⟩ := appendAll_accepting hP hw₁ (LawfulSink.opened_openSegment hopen) l
    refine ⟨w₂, ?_, hw₂⟩
    show EStateM.bind _ _ w = _
    unfold EStateM.bind
    rw [hopen]
    exact hall

/-- What was staged can be committed. -/
theorem finish_accepting (hP : Accepting P) (hw : P w) (hstaged : l ≠ [] → opened w = some (h, l)) :
    ∃ n w', Sink.finish l w = .ok n w' := by
  unfold Sink.finish
  split
  · exact ⟨0, w, rfl⟩
  · rename_i hl
    obtain ⟨n, w', hcommit, -⟩ := hP.commit hw (hstaged fun e => hl (List.isEmpty_iff.mpr e))
    exact ⟨n, w', hcommit⟩

end Sink

/-- A log without a limit is willing when no segment is open. -/
theorem willing_segmentLog {w : SegmentLog} (hlimit : w.limit = none) (hclosed : w.pending = none) :
    Willing w := by
  have hfits {w : SegmentLog} (h : w.limit = none) (n : Nat) : w.refusal? n = none := by
    rw [SegmentLog.refusal?, h]
  refine ⟨?_, fun w => w.limit = none, ⟨?_, ?_, ?_⟩, hlimit⟩
  · show w.pending.map _ = none
    rw [hclosed]
    rfl
  · intro w h hw hnone
    have hpending : w.pending = none := Option.map_eq_none_iff.mp hnone
    refine ⟨{ w with pending := some ⟨h, [], Checkpoint.encodeHeader h⟩ }, ?_, hw⟩
    exact SegmentLog.openSegment_ok_iff.mpr ⟨hpending, hfits hw _, rfl⟩
  · intro w s r hw hsome
    obtain ⟨p, hp, -⟩ := Option.map_eq_some_iff.mp hsome
    refine ⟨(Checkpoint.encodeRecord r).length, { w with pending := some { p with
      records := p.records ++ [r], bytes := p.bytes ++ Checkpoint.encodeRecord r } }, ?_, hw⟩
    exact SegmentLog.append_ok_iff.mpr ⟨p, hp, hfits hw _, rfl, rfl⟩
  · intro w s hw hsome
    obtain ⟨p, hp, -⟩ := Option.map_eq_some_iff.mp hsome
    refine ⟨p.bytes.length, { w with
      segments := w.segments ++ [p], pending := none,
      committedBytes := w.committedBytes + p.bytes.length }, ?_, hw⟩
    exact SegmentLog.commit_ok_iff.mpr ⟨p, hp, rfl, rfl⟩

/-! ## A pass -/

variable {σ τ : Type} [Sink σ] [Sink τ] [LawfulSink σ] [LawfulSink τ] {w : Sinks σ τ}

/-- The main segment is committed, and the leak sink is as willing as before. -/
theorem Sinks.commitMain_willing (hmain : Willing w.main)
    (hleak : ∀ x, w.leak = some x → Willing x) (h : Header) (b : Batch) :
    ∃ n w', commitMain h b w = .ok n w' ∧
      ∀ x, w'.leak = some x → ∃ P : τ → Prop, Accepting P ∧ P x := by
  obtain ⟨main, leak⟩ := w
  obtain ⟨hclosed, P, hP, hw⟩ := hmain
  obtain ⟨main₁, hstage, hw₁⟩ := stage_accepting hP hw hclosed h b.records
  obtain ⟨n, main₂, hfinish⟩ := finish_accepting hP hw₁ (opened_stage hstage)
  cases leak with
  | none =>
      refine ⟨n, ⟨main₂, none⟩, ?_, nofun⟩
      simp only [commitMain, bind, EStateM.bind, onMain, onLeak, hstage, hfinish]
  | some x =>
      obtain ⟨hclosed, Q, hQ, hx⟩ := hleak x rfl
      obtain ⟨x₁, hstage', hx₁⟩ :=
        stage_accepting hQ hx hclosed { h with kind := .leakProfiler } b.leakRecords
      refine ⟨n, ⟨main₂, some x₁⟩, ?_, ?_⟩
      · simp only [commitMain, bind, EStateM.bind, onMain, onLeak, hstage, hstage', hfinish]
      · rintro _ ⟨⟩
        exact ⟨Q, hQ, hx₁⟩

omit [Sink σ] [LawfulSink σ] in
/-- What was staged on the leak sink can be committed there. -/
theorem Sinks.finishLeak_willing {h : Header} {l : List Record}
    (hleak : ∀ x, w.leak = some x → ∃ P : τ → Prop, Accepting P ∧ P x)
    (hstaged : ∀ x, w.leak = some x → l ≠ [] → opened x = some (h, l)) :
    ∃ n w', (onLeak 0 (Sink.finish l) : EStateM SinkError (Sinks σ τ) Nat) w = .ok n w' ∧
      w'.main = w.main ∧ w'.leakLog = w.leakLog.map (· ++ segmentOf h l) := by
  obtain ⟨main, leak⟩ := w
  cases leak with
  | none => exact ⟨0, ⟨main, none⟩, rfl, rfl, rfl⟩
  | some x =>
      obtain ⟨P, hP, hx⟩ := hleak x rfl
      obtain ⟨n, x', hfinish⟩ := finish_accepting hP hx (hstaged x rfl)
      refine ⟨n, ⟨main, some x'⟩, ?_, rfl, ?_⟩
      · simp only [onLeak, hfinish]
      · exact congrArg some (finish_ok (hstaged x rfl) hfinish)

namespace TypeSet

/-- Both segments of a pass are committed. -/
def commitAll (t : TypeSet) (b : Batch) (flushpoint : Bool) : TypeSet :=
  (match b.leak with
    | none => t
    | some p => t.commitLeak b p).commitMain b flushpoint

variable {t t' : TypeSet} {g : MetadataGraph} {flags : PassFlags} {b : Batch}

/-- With willing sinks a pass that was planned is made. -/
theorem serialize_willing (hp : t.isPoisoned = false)
    (hplan : t.plan g flags.classUnload w.leak.isSome = .ok b t') (hmain : Willing w.main)
    (hleak : ∀ x, w.leak = some x → Willing x) :
    (∃ bytes, (t.serialize g flags w).result = .ok bytes) ∧
    (∃ totals summary, (t.serialize g flags w).types =
      { t'.commitAll b flags.flushpoint with totals := totals, lastSummary := summary }) ∧
    committed (t.serialize g flags w).sinks.main =
      committed w.main ++ segmentOf (t'.passHeader flags) b.records ∧
    (t.serialize g flags w).sinks.leakLog = w.leakLog.map
      (· ++ segmentOf { t'.passHeader flags with kind := .leakProfiler } b.leakRecords) := by
  obtain ⟨bytes, w', hcommit, hleak'⟩ :=
    Sinks.commitMain_willing hmain hleak (t'.passHeader flags) b
  obtain ⟨hlog, hleakLog, hstaged⟩ := Sinks.commitMain_ok hcommit
  obtain ⟨-, hr⟩ := serialize_of_taken hp hplan hcommit
  rw [hr, ← hlog, ← hleakLog]
  unfold commitAll
  cases hb : b.leak with
  | none =>
      rw [finishPass_without hb, Batch.leakRecords_of_none hb]
      refine ⟨⟨bytes, rfl⟩, ⟨_, _, rfl⟩, rfl, ?_⟩
      show w'.leakLog = w'.leakLog.map (· ++ [])
      simp
  | some p =>
      rw [Batch.leakRecords_of_some hb] at hstaged ⊢
      obtain ⟨size, w'', hfinish, hmain', hlog'⟩ :=
        Sinks.finishLeak_willing (σ := σ) hleak' hstaged
      rw [finishPass_committed hb hfinish]
      exact ⟨⟨bytes, rfl⟩, ⟨_, _, rfl⟩, by rw [hmain'], hlog'⟩

end TypeSet

end TraceTypes
