import TraceTypes.Checkpoint.Flaky
import TraceTypes.Checkpoint.SegmentLog
import TraceTypes.Proofs.Actions
import TraceTypes.TypeSet.Serialize
/-!
# Sinks as logs

What a type set asks of a sink is that it keeps a log of committed segments and
at most one open segment (`LawfulSink`): a call that fails, whenever that may
be, commits nothing, and a discard drops the open segment only. The segment log
is such a sink, and so is any flaky sink in front of one.

From the laws of the single calls follow those of whole writes: `send_ok` and
`send_error` for one segment, `Sinks.commitMain_ok` and `Sinks.commitMain_error`
for the two segments of a pass.
-/

namespace TraceTypes

/-- A segment by its header and records. -/
abbrev Transcript := Header × List Record

/-- A sink that keeps a log: the committed segments, oldest first, and the open one. -/
class LawfulSink (σ : Type) [Sink σ] where
  committed : σ → List Transcript
  opened : σ → Option Transcript
  keeps_openSegment : ∀ h l,
    Keeps (fun w : σ => committed w = l) (Sink.openSegment h : EStateM SinkError σ Unit)
  opened_openSegment : ∀ {h : Header} {w w' : σ}, Sink.openSegment h w = .ok () w' →
    opened w' = some (h, [])
  keeps_append : ∀ r l,
    Keeps (fun w : σ => committed w = l) (Sink.append r : EStateM SinkError σ Nat)
  opened_append : ∀ {r : Record} {n : Nat} {w w' : σ} {h : Header} {l : List Record},
    Sink.append r w = .ok n w' → opened w = some (h, l) → opened w' = some (h, l ++ [r])
  commit_ok : ∀ {n : Nat} {w w' : σ} {s : Transcript}, Sink.commit w = .ok n w' →
    opened w = some s → committed w' = committed w ++ [s] ∧ opened w' = none
  commit_error : ∀ {e : SinkError} {w w' : σ},
    (Sink.commit w : EStateM.Result SinkError σ Nat) = .error e w' → committed w' = committed w
  committed_discard : ∀ w : σ, committed (Sink.discard w) = committed w
  opened_discard : ∀ w : σ, opened (Sink.discard w) = none

export LawfulSink (committed opened)

/-! ## The sinks of the library are logs -/

/-- The segment log commits what was appended since the segment was opened. -/
instance : LawfulSink SegmentLog where
  committed w := w.segments.map fun s => (s.header, s.records)
  opened w := w.pending.map fun s => (s.header, s.records)
  keeps_openSegment h l := by
    refine .of_ok (fun _ _ _ => SegmentLog.eq_of_openSegment_error) fun w _ w' hok hw => ?_
    obtain ⟨-, -, rfl⟩ := SegmentLog.openSegment_ok_iff.mp hok
    exact hw
  opened_openSegment hok := by
    obtain ⟨-, -, rfl⟩ := SegmentLog.openSegment_ok_iff.mp hok
    rfl
  keeps_append r l := by
    refine .of_ok (fun _ _ _ => SegmentLog.eq_of_append_error) fun w n w' hok hw => ?_
    obtain ⟨s, -, -, -, rfl⟩ := SegmentLog.append_ok_iff.mp hok
    exact hw
  opened_append hok hopen := by
    obtain ⟨s, hs, -, -, rfl⟩ := SegmentLog.append_ok_iff.mp hok
    rw [hs] at hopen
    cases hopen
    rfl
  commit_ok hok hopen := by
    obtain ⟨s, hs, -, rfl⟩ := SegmentLog.commit_ok_iff.mp hok
    rw [hs] at hopen
    cases hopen
    exact ⟨List.map_append, rfl⟩
  commit_error herr := by rw [SegmentLog.eq_of_commit_error herr]
  committed_discard _ := rfl
  opened_discard _ := rfl

namespace Flaky

variable {σ α : Type} {call : SinkCall} {act : EStateM SinkError σ α} {w w' : Flaky σ}

/-- A call that succeeds has reached the sink behind. -/
theorem attempt_ok {v : α} (h : attempt call act w = .ok v w') :
    act w.inner = .ok v w'.inner := by
  unfold attempt at h
  dsimp only at h
  split at h
  · cases h
  · split at h
    · rename_i hact
      cases h
      exact hact
    · cases h

/-- A call that fails has failed behind, or has not reached the sink behind. -/
theorem attempt_error {e : SinkError} (h : attempt call act w = .error e w') :
    w'.inner = w.inner ∨ act w.inner = .error e w'.inner := by
  unfold attempt at h
  dsimp only at h
  split at h
  · cases h
    exact .inl rfl
  · split at h
    · cases h
    · rename_i hact
      cases h
      exact .inr hact

theorem keeps_attempt {P : σ → Prop} (hact : Keeps P act) :
    Keeps (fun w : Flaky σ => P w.inner) (attempt call act) := by
  intro w hw
  cases h : attempt call act w with
  | ok v w' => exact hact.ok hw (attempt_ok h)
  | error e w' =>
      rcases attempt_error h with heq | herr
      · show P w'.inner
        rw [heq]
        exact hw
      · exact hact.error hw herr

/-- A flaky sink in front of a log is a log. -/
instance [Sink σ] [LawfulSink σ] : LawfulSink (Flaky σ) where
  committed w := committed w.inner
  opened w := opened w.inner
  keeps_openSegment h l := keeps_attempt (LawfulSink.keeps_openSegment h l)
  opened_openSegment h := LawfulSink.opened_openSegment (attempt_ok h)
  keeps_append r l := keeps_attempt (LawfulSink.keeps_append r l)
  opened_append h hopen := LawfulSink.opened_append (attempt_ok h) hopen
  commit_ok h hopen := LawfulSink.commit_ok (attempt_ok h) hopen
  commit_error h := by
    -- a commit that fails by schedule has not reached the sink behind
    rcases attempt_error h with heq | herr
    · rw [heq]
    · exact LawfulSink.commit_error herr
  committed_discard w := LawfulSink.committed_discard w.inner
  opened_discard w := LawfulSink.opened_discard w.inner

end Flaky

/-! ## Writing one segment -/

section Segment

variable {σ : Type} [Sink σ] [LawfulSink σ] {h : Header} {l : List Record} {w w' : σ}

theorem keeps_appendAll (l : List Record) (x : List Transcript) :
    Keeps (fun w : σ => committed w = x) (Sink.appendAll l) := by
  induction l with
  | nil => exact .pure _
  | cons r rest ih => exact .bind (LawfulSink.keeps_append r x) fun _ => ih

theorem keeps_stage (h : Header) (l : List Record) (x : List Transcript) :
    Keeps (fun w : σ => committed w = x) (Sink.stage h l) := by
  unfold Sink.stage
  split
  · exact .pure _
  · exact .bind (LawfulSink.keeps_openSegment h x) fun _ => keeps_appendAll l x

theorem opened_appendAll {l₀ : List Record} (hopen : opened w = some (h, l₀))
    (hok : Sink.appendAll l w = .ok () w') : opened w' = some (h, l₀ ++ l) := by
  induction l generalizing w l₀ with
  | nil =>
      obtain ⟨-, rfl⟩ := ok_of_pure hok
      rwa [List.append_nil]
  | cons r rest ih =>
      obtain ⟨_, w₁, happend, hok⟩ := ok_of_bind hok
      have := ih (LawfulSink.opened_append happend hopen) hok
      rwa [List.append_assoc] at this

/-- Behind a stage the segment stands open with its records, if there are any. -/
theorem opened_stage (hok : Sink.stage h l w = .ok () w') (hne : l ≠ []) :
    opened w' = some (h, l) := by
  rw [Sink.stage, if_neg fun e => hne (List.isEmpty_iff.mp e)] at hok
  obtain ⟨_, w₁, hopen, hok⟩ := ok_of_bind hok
  exact opened_appendAll (LawfulSink.opened_openSegment hopen) hok

/-- The log grows by the segment, if there are records. -/
def segmentOf (h : Header) (l : List Record) : List Transcript := if l.isEmpty then [] else [(h, l)]

/-- What was staged is committed. -/
theorem finish_ok {n : Nat} (hstaged : l ≠ [] → opened w = some (h, l))
    (hok : Sink.finish l w = .ok n w') : committed w' = committed w ++ segmentOf h l := by
  unfold Sink.finish at hok
  unfold segmentOf
  split at hok
  · -- without records nothing was staged, and nothing is committed
    rename_i hl
    obtain ⟨-, rfl⟩ := ok_of_pure hok
    rw [if_pos hl, List.append_nil]
  · rename_i hl
    rw [if_neg hl]
    exact (LawfulSink.commit_ok hok (hstaged fun e => hl (List.isEmpty_iff.mpr e))).1

theorem finish_error {e : SinkError} (herr : Sink.finish l w = .error e w') :
    committed w' = committed w := by
  unfold Sink.finish at herr
  split at herr
  · cases herr
  · exact LawfulSink.commit_error herr

theorem send_ok {n : Nat} (hok : Sink.send h l w = .ok n w') :
    committed w' = committed w ++ segmentOf h l := by
  obtain ⟨_, w₁, hstage, hfinish⟩ := ok_of_bind hok
  have hkeeps := (keeps_stage h l (committed w)).ok rfl hstage
  rw [← hkeeps]
  exact finish_ok (opened_stage hstage) hfinish

theorem send_error {e : SinkError} (herr : Sink.send h l w = .error e w') :
    committed w' = committed w := by
  rcases error_of_bind herr with hstage | ⟨_, w₁, hstage, hfinish⟩
  · exact (keeps_stage h l (committed w)).error rfl hstage
  · rw [finish_error hfinish]
    exact (keeps_stage h l (committed w)).ok rfl hstage

end Segment

/-! ## Writing the segments of a pass -/

namespace Sinks

variable {σ τ α : Type} {w w' : Sinks σ τ}

theorem onMain_ok {act : EStateM SinkError σ α} {v : α} (h : onMain act w = .ok v w') :
    act w.main = .ok v w'.main ∧ w'.leak = w.leak := by
  unfold onMain at h
  split at h
  · rename_i hact
    cases h
    exact ⟨hact, rfl⟩
  · cases h

theorem onMain_error {act : EStateM SinkError σ α} {e : SinkError}
    (h : onMain act w = .error e w') : act w.main = .error e w'.main ∧ w'.leak = w.leak := by
  unfold onMain at h
  split at h
  · cases h
  · rename_i hact
    cases h
    exact ⟨hact, rfl⟩

theorem onLeak_ok {dflt : α} {act : EStateM SinkError τ α} {v : α}
    (h : onLeak dflt act w = .ok v w') : w'.main = w.main ∧
      ((w.leak = none ∧ w'.leak = none ∧ v = dflt) ∨
        ∃ x x', w.leak = some x ∧ w'.leak = some x' ∧ act x = .ok v x') := by
  unfold onLeak at h
  split at h
  · rename_i hnone
    cases h
    exact ⟨rfl, .inl ⟨hnone, hnone, rfl⟩⟩
  · rename_i x hx
    split at h
    · rename_i x' hact
      cases h
      exact ⟨rfl, .inr ⟨x, x', hx, rfl, hact⟩⟩
    · cases h

theorem onLeak_error {dflt : α} {act : EStateM SinkError τ α} {e : SinkError}
    (h : onLeak dflt act w = .error e w') : w'.main = w.main ∧
      ∃ x x', w.leak = some x ∧ w'.leak = some x' ∧ act x = .error e x' := by
  unfold onLeak at h
  split at h
  · cases h
  · rename_i x hx
    split at h
    · cases h
    · rename_i x' hact
      cases h
      exact ⟨rfl, x, x', hx, rfl, hact⟩

variable [Sink τ] [LawfulSink τ]

/-- What the leak sink has committed, if there is one. -/
def leakLog (w : Sinks σ τ) : Option (List Transcript) := w.leak.map committed

theorem leakLog_discardLeak (w : Sinks σ τ) : w.discardLeak.leakLog = w.leakLog := by
  unfold leakLog discardLeak
  cases w.leak with
  | none => rfl
  | some x => exact congrArg some (LawfulSink.committed_discard x)

theorem leakLog_stage {h : Header} {l : List Record} {v : Unit}
    (hok : onLeak () (Sink.stage h l) w = .ok v w') : w'.main = w.main ∧ w'.leakLog = w.leakLog ∧
      ∀ x', w'.leak = some x' → l ≠ [] → opened x' = some (h, l) := by
  obtain ⟨hmain, ⟨hnone, hnone', -⟩ | ⟨x, x', hx, hx', hstage⟩⟩ := onLeak_ok hok
  · refine ⟨hmain, ?_, fun x' hx' => ?_⟩
    · rw [leakLog, leakLog, hnone, hnone']
    · rw [hnone'] at hx'
      cases hx'
  · refine ⟨hmain, ?_, fun y hy hne => ?_⟩
    · rw [leakLog, leakLog, hx, hx']
      exact congrArg some ((keeps_stage h l (committed x)).ok rfl hstage)
    · rw [hx'] at hy
      cases hy
      exact opened_stage hstage hne

variable [Sink σ]

theorem leakLog_discard (w : Sinks σ τ) : w.discard.leakLog = w.leakLog := leakLog_discardLeak w

variable [LawfulSink σ]

/-- The main log has grown by the main segment, and the leak segment is staged. -/
theorem commitMain_ok {h : Header} {b : Batch} {n : Nat} (hok : commitMain h b w = .ok n w') :
    committed w'.main = committed w.main ++ segmentOf h b.records ∧ w'.leakLog = w.leakLog ∧
      ∀ x', w'.leak = some x' → b.leakRecords ≠ [] →
        opened x' = some ({ h with kind := .leakProfiler }, b.leakRecords) := by
  obtain ⟨_, w₁, hstage, hok⟩ := ok_of_bind hok
  obtain ⟨_, w₂, hleak, hfinish⟩ := ok_of_bind hok
  obtain ⟨hstage, hleak₁⟩ := onMain_ok hstage
  obtain ⟨hmain₂, hlog₂, hopen₂⟩ := leakLog_stage hleak
  obtain ⟨hfinish, hleak'⟩ := onMain_ok hfinish
  have hkeeps := (keeps_stage h b.records (committed w.main)).ok rfl hstage
  rw [hmain₂] at hfinish
  refine ⟨?_, ?_, ?_⟩
  · rw [← hkeeps]
    exact finish_ok (opened_stage hstage) hfinish
  · rw [leakLog, hleak', ← leakLog, hlog₂, leakLog, hleak₁, leakLog]
  · rw [hleak']
    exact hopen₂

/-- Whichever call failed, nothing was committed. -/
theorem commitMain_error {h : Header} {b : Batch} {e : SinkError}
    (herr : commitMain h b w = .error e w') :
    committed w'.main = committed w.main ∧ w'.leakLog = w.leakLog := by
  -- by the call that failed: a stage of the main segment or the leak segment, or the commit
  rcases error_of_bind herr with hstage | ⟨_, w₁, hstage, herr⟩
  · obtain ⟨hstage, hleak⟩ := onMain_error hstage
    exact ⟨(keeps_stage h b.records (committed w.main)).error rfl hstage, by
      rw [leakLog, hleak, leakLog]⟩
  obtain ⟨hstage, hleak₁⟩ := onMain_ok hstage
  have hmain := (keeps_stage h b.records (committed w.main)).ok rfl hstage
  rcases error_of_bind herr with hleak | ⟨_, w₂, hleak, hfinish⟩
  · obtain ⟨hmain₂, x, x', hx, hx', hstage'⟩ := onLeak_error hleak
    refine ⟨by rw [hmain₂, hmain], ?_⟩
    rw [leakLog, hx', leakLog, ← hleak₁, hx]
    exact congrArg some ((keeps_stage _ _ (committed x)).error rfl hstage')
  · obtain ⟨hmain₂, hlog₂, -⟩ := leakLog_stage hleak
    obtain ⟨hfinish, hleak'⟩ := onMain_error hfinish
    refine ⟨by rw [finish_error hfinish, hmain₂, hmain], ?_⟩
    rw [leakLog, hleak', ← leakLog, hlog₂, leakLog, hleak₁, leakLog]

end Sinks

end TraceTypes
