import TraceTypes.Checkpoint.Flaky
import TraceTypes.Checkpoint.SegmentLog
import TraceTypes.Proofs.LawfulSink
/-!
# Sinks with a segment log behind them

`LawfulSink` knows of a sink what it has committed. Here more is known: behind
the sink there is a segment log, and each call either does to the log what the
log's own call does, or fails and leaves the log alone (`LogBacked`). So it can
be said what becomes of a segment that stands open already, and how many bytes
are added:

* `SegmentLog.opening`, `SegmentLog.adding` — a log with a segment staged, and
  with the segment committed;
* `log_stage_ok`, `log_finish_ok`, `log_send_ok` — a write that succeeds;
* `discard_log_stage`, `log_finish_error`, `discard_log_send` — a write that
  fails has changed at most the open segment;
* `Sinks.logs_commitMain_ok`, `Sinks.discard_logs_commitMain` — the same for
  the two segments of a pass.
-/

namespace TraceTypes

/-- The segment that a header and records make. -/
def Segment.of (h : Header) (l : List Record) : Segment where
  header := h
  records := l
  bytes := Checkpoint.encodeHeader h ++ l.flatMap Checkpoint.encodeRecord

namespace SegmentLog

variable (x : SegmentLog) (h : Header) (l : List Record)

/-- The log with a segment of these records open. Without records no segment is opened. -/
def opening : SegmentLog := if l.isEmpty then x else { x with pending := some (.of h l) }

/-- The segment of these records, if there are any. -/
def added : List Segment := if l.isEmpty then [] else [.of h l]

/-- The log with the segment of these records committed. -/
def adding : SegmentLog :=
  if l.isEmpty then x
  else { x with
    segments := x.segments ++ [.of h l]
    pending := none
    committedBytes := x.committedBytes + (Segment.of h l).bytes.length }

@[simp] theorem adding_nil : x.adding h [] = x := rfl

theorem discard_eq_self (hx : x.pending = none) : x.discard = x := by
  cases x
  cases hx
  rfl

theorem discard_opening : (x.opening h l).discard = x.discard := by
  unfold opening
  split <;> rfl

theorem segments_adding : (x.adding h l).segments = x.segments ++ added h l := by
  unfold adding added
  split
  · exact (List.append_nil _).symm
  · rfl

theorem committedBytes_adding : (x.adding h l).committedBytes =
    x.committedBytes + ((added h l).flatMap Segment.bytes).length := by
  unfold adding added
  split
  · rfl
  · simp

end SegmentLog

/-! ## Calls that reach the log, or fail -/

section Reaches

variable {σ α : Type}

/-- When the call succeeds, it has done to the log behind what `act` does there; when it fails, it
has left the log alone. -/
structure Reaches (log : σ → SegmentLog) (act : EStateM SinkError SegmentLog α)
    (call : EStateM SinkError σ α) : Prop where
  ok : ∀ {w w' v}, call w = .ok v w' → act (log w) = .ok v (log w')
  error : ∀ {w w' e}, call w = .error e w' → log w' = log w

end Reaches

/-- A sink that has a segment log behind it. -/
class LogBacked (σ : Type) [Sink σ] where
  log : σ → SegmentLog
  openSegment : ∀ h, Reaches log (SegmentLog.openSegment h) (Sink.openSegment h)
  append : ∀ r, Reaches log (SegmentLog.append r) (Sink.append r)
  commit : Reaches log SegmentLog.commit Sink.commit
  log_discard : ∀ w, log (Sink.discard w) = (log w).discard

export LogBacked (log)

/-- The segment log is its own. None of its calls changes anything when it fails. -/
instance : LogBacked SegmentLog where
  log := id
  openSegment _ := ⟨id, SegmentLog.eq_of_openSegment_error⟩
  append _ := ⟨id, SegmentLog.eq_of_append_error⟩
  commit := ⟨id, SegmentLog.eq_of_commit_error⟩
  log_discard _ := rfl

/-- A call that fails by schedule has not reached the log. -/
theorem Reaches.attempt {σ α : Type} {log : σ → SegmentLog} {act : EStateM SinkError SegmentLog α}
    {inner : EStateM SinkError σ α} (h : Reaches log act inner) (call : SinkCall) :
    Reaches (fun w : Flaky σ => log w.inner) act (Flaky.attempt call inner) where
  ok hok := h.ok (Flaky.attempt_ok hok)
  error herr := by
    rcases Flaky.attempt_error herr with heq | herr
    · rw [heq]
    · exact h.error herr

/-- A flaky sink has the log of the sink behind it. -/
instance {σ : Type} [Sink σ] [LogBacked σ] : LogBacked (Flaky σ) where
  log w := log w.inner
  openSegment h := (LogBacked.openSegment h).attempt .openSegment
  append r := (LogBacked.append r).attempt .append
  commit := LogBacked.commit.attempt .commit
  log_discard w := LogBacked.log_discard w.inner

/-! ## Writing one segment -/

section Segment

variable {σ : Type} [Sink σ] [LogBacked σ] {h : Header} {l : List Record} {w w' : σ}

/-- A segment is opened only where none stands open. -/
theorem log_openSegment_ok (hok : Sink.openSegment h w = .ok () w') :
    (log w).pending = none ∧ log w' = { log w with pending := some (.of h []) } := by
  obtain ⟨hclosed, -, hlog⟩ :=
    SegmentLog.openSegment_ok_iff.mp ((LogBacked.openSegment h).ok hok)
  exact ⟨hclosed, by rw [hlog, Segment.of, List.flatMap_nil, List.append_nil]⟩

theorem log_append_ok {r : Record} {n : Nat} {x : SegmentLog}
    (hopen : log w = { x with pending := some (.of h l) }) (hok : Sink.append r w = .ok n w') :
    log w' = { x with pending := some (.of h (l ++ [r])) } := by
  have hlog := (LogBacked.append r).ok hok
  rw [hopen] at hlog
  obtain ⟨s, hs, -, -, hlog⟩ := SegmentLog.append_ok_iff.mp hlog
  cases hs
  rw [hlog]
  simp [Segment.of]

theorem log_appendAll_ok {l₀ : List Record} {x : SegmentLog}
    (hopen : log w = { x with pending := some (.of h l₀) })
    (hok : Sink.appendAll l w = .ok () w') :
    log w' = { x with pending := some (.of h (l₀ ++ l)) } := by
  induction l generalizing w l₀ with
  | nil =>
      obtain ⟨-, rfl⟩ := ok_of_pure hok
      rwa [List.append_nil]
  | cons r rest ih =>
      obtain ⟨_, w₁, happend, hok⟩ := ok_of_bind hok
      have := ih (log_append_ok hopen happend) hok
      rwa [List.append_assoc] at this

/-- What was staged stands open, and no other segment did before. -/
theorem log_stage_ok (hok : Sink.stage h l w = .ok () w') :
    log w' = (log w).opening h l ∧ (l ≠ [] → (log w).pending = none) := by
  unfold Sink.stage at hok
  unfold SegmentLog.opening
  split at hok
  · rename_i hl
    obtain ⟨-, rfl⟩ := ok_of_pure hok
    rw [if_pos hl]
    exact ⟨rfl, fun hne => absurd (List.isEmpty_iff.mp hl) hne⟩
  · rename_i hl
    obtain ⟨_, w₁, hopen, hok⟩ := ok_of_bind hok
    obtain ⟨hclosed, hopened⟩ := log_openSegment_ok hopen
    rw [if_neg hl]
    exact ⟨log_appendAll_ok hopened hok, fun _ => hclosed⟩

/-- Up to the open segment a call that opens one or appends to it leaves the log alone. -/
theorem Reaches.keeps_discard {α : Type} {act : EStateM SinkError SegmentLog α}
    {call : EStateM SinkError σ α} (hreaches : Reaches log act call)
    (hact : ∀ (y y' : SegmentLog) v, act y = .ok v y' → y'.discard = y.discard) (x : SegmentLog) :
    Keeps (fun w : σ => (log w).discard = x) call := by
  intro w hw
  cases hcall : call w with
  | ok v w' => exact (hact _ _ v (hreaches.ok hcall)).trans hw
  | error e w' =>
      show (log w').discard = x
      rw [hreaches.error hcall, hw]

theorem keeps_discard_openSegment (h : Header) (x : SegmentLog) :
    Keeps (fun w : σ => (log w).discard = x) (Sink.openSegment h) := by
  refine (LogBacked.openSegment h).keeps_discard (fun y y' v hok => ?_) x
  obtain ⟨-, rfl⟩ := log_openSegment_ok (σ := SegmentLog) hok
  rfl

theorem keeps_discard_append (r : Record) (x : SegmentLog) :
    Keeps (fun w : σ => (log w).discard = x) (Sink.append r) := by
  refine (LogBacked.append r).keeps_discard (fun y y' n hok => ?_) x
  obtain ⟨s, -, -, -, rfl⟩ := SegmentLog.append_ok_iff.mp hok
  rfl

theorem keeps_discard_appendAll (l : List Record) (x : SegmentLog) :
    Keeps (fun w : σ => (log w).discard = x) (Sink.appendAll l) := by
  induction l with
  | nil => exact .pure _
  | cons r rest ih => exact .bind (keeps_discard_append r x) fun _ => ih

theorem keeps_discard_stage (h : Header) (l : List Record) (x : SegmentLog) :
    Keeps (fun w : σ => (log w).discard = x) (Sink.stage h l) := by
  unfold Sink.stage
  split
  · exact .pure _
  · exact .bind (keeps_discard_openSegment h x) fun _ => keeps_discard_appendAll l x

/-- A stage that fails has changed at most the open segment. -/
theorem discard_log_stage {e : SinkError} (herr : Sink.stage h l w = .error e w') :
    (log w').discard = (log w).discard := (keeps_discard_stage h l _).error rfl herr

/-- What was staged is committed, and the answer is its size. -/
theorem log_finish_ok {n : Nat} {x : SegmentLog} (hstaged : log w = x.opening h l)
    (hok : Sink.finish l w = .ok n w') : log w' = x.adding h l ∧
      n = ((SegmentLog.added h l).flatMap Segment.bytes).length := by
  unfold Sink.finish at hok
  unfold SegmentLog.opening at hstaged
  unfold SegmentLog.adding SegmentLog.added
  split at hok
  · rename_i hl
    obtain ⟨rfl, rfl⟩ := ok_of_pure hok
    rw [if_pos hl] at hstaged ⊢
    rw [if_pos hl]
    exact ⟨hstaged, rfl⟩
  · rename_i hl
    have hlog := LogBacked.commit.ok hok
    rw [if_neg hl] at hstaged
    rw [if_neg hl, if_neg hl]
    rw [hstaged] at hlog
    obtain ⟨s, hs, hn, hlog⟩ := SegmentLog.commit_ok_iff.mp hlog
    cases hs
    exact ⟨hlog, by simp [hn]⟩

theorem log_finish_error {e : SinkError} (herr : Sink.finish l w = .error e w') :
    l ≠ [] ∧ log w' = log w := by
  unfold Sink.finish at herr
  split at herr
  · cases herr
  · rename_i hl
    exact ⟨fun e => hl (List.isEmpty_iff.mpr e), LogBacked.commit.error herr⟩

/-- A segment that was sent is committed, and the answer is its size. -/
theorem log_send_ok {n : Nat} (hok : Sink.send h l w = .ok n w') : log w' = (log w).adding h l ∧
    n = ((SegmentLog.added h l).flatMap Segment.bytes).length := by
  obtain ⟨_, w₁, hstage, hfinish⟩ := ok_of_bind hok
  exact log_finish_ok (log_stage_ok hstage).1 hfinish

/-- A send that fails has changed at most the open segment. -/
theorem discard_log_send {e : SinkError} (herr : Sink.send h l w = .error e w') :
    (log w').discard = (log w).discard := by
  rcases error_of_bind herr with hstage | ⟨_, w₁, hstage, hfinish⟩
  · exact discard_log_stage hstage
  · rw [(log_finish_error hfinish).2]
    exact (keeps_discard_stage h l _).ok rfl hstage

end Segment

/-! ## Writing the segments of a pass -/

namespace Sinks

variable {σ τ : Type} [Sink σ] [Sink τ] [LogBacked σ] [LogBacked τ] {w w' : Sinks σ τ}

/-- The logs behind the sinks. -/
def logs (w : Sinks σ τ) : Sinks SegmentLog SegmentLog := ⟨log w.main, w.leak.map log⟩

theorem logs_discardLeak (w : Sinks σ τ) : w.discardLeak.logs = w.logs.discardLeak := by
  unfold logs discardLeak
  cases w.leak with
  | none => rfl
  | some x => exact congrArg (Sinks.mk _ <| some ·) (LogBacked.log_discard x)

theorem logs_discard (w : Sinks σ τ) : w.discard.logs = w.logs.discard := by
  have hleak := congrArg Sinks.leak (logs_discardLeak w)
  unfold discard
  exact congr (congrArg Sinks.mk (LogBacked.log_discard w.main)) hleak

/-- The segments of a pass: where the leak log stands behind the commit of the main segment. -/
theorem logs_commitMain_ok {h : Header} {b : Batch} {n : Nat} (hok : commitMain h b w = .ok n w') :
    w'.logs = ⟨(log w.main).adding h b.records,
      w.logs.leak.map (·.opening { h with kind := .leakProfiler } b.leakRecords)⟩ ∧
    n = ((SegmentLog.added h b.records).flatMap Segment.bytes).length ∧
    (b.leakRecords ≠ [] → ∀ x ∈ w.logs.leak, x.pending = none) := by
  obtain ⟨_, w₁, hstage, hok⟩ := ok_of_bind hok
  obtain ⟨_, w₂, hleak, hfinish⟩ := ok_of_bind hok
  obtain ⟨hstage, hleak₁⟩ := onMain_ok hstage
  obtain ⟨hmain₂, hleak₂⟩ := onLeak_ok hleak
  obtain ⟨hfinish, hleak'⟩ := onMain_ok hfinish
  rw [hmain₂] at hfinish
  obtain ⟨hmain, hn⟩ := log_finish_ok (log_stage_ok hstage).1 hfinish
  unfold logs
  rw [hmain, hleak', ← hleak₁]
  rcases hleak₂ with ⟨hx, hx', -⟩ | ⟨x, x', hx, hx', hleak⟩
  · rw [hx, hx']
    exact ⟨rfl, hn, nofun⟩
  · obtain ⟨hlog, hclosed⟩ := log_stage_ok hleak
    rw [hx, hx']
    refine ⟨?_, hn, ?_⟩
    · rw [Option.map_some, hlog]
      rfl
    · rintro hne _ ⟨⟩
      exact hclosed hne

/-- Whichever call failed, the logs have changed at most in their open segments. -/
theorem discard_logs_commitMain {h : Header} {b : Batch} {e : SinkError}
    (herr : commitMain h b w = .error e w') : w'.logs.discard = w.logs.discard := by
  have of_parts (hmain : (log w'.main).discard = (log w.main).discard)
      (hleak : (w'.leak.map log).map SegmentLog.discard =
        (w.leak.map log).map SegmentLog.discard) : w'.logs.discard = w.logs.discard := by
    show (⟨(log w'.main).discard, _⟩ : Sinks SegmentLog SegmentLog) = ⟨(log w.main).discard, _⟩
    rw [hmain]
    exact congrArg (Sinks.mk _) hleak
  -- by the call that failed: a stage of the main segment or the leak segment, or the commit
  rcases error_of_bind herr with hstage | ⟨_, w₁, hstage, herr⟩
  · obtain ⟨hstage, hleak⟩ := onMain_error hstage
    exact of_parts (discard_log_stage hstage) (by rw [hleak])
  obtain ⟨hstage, hleak₁⟩ := onMain_ok hstage
  have hmain := (keeps_discard_stage h b.records _).ok rfl hstage
  rcases error_of_bind herr with hleak | ⟨_, w₂, hleak, hfinish⟩
  · obtain ⟨hmain₂, x, x', hx, hx', hstage'⟩ := onLeak_error hleak
    refine of_parts (by rw [hmain₂, hmain]) ?_
    rw [hx', ← hleak₁, hx]
    exact congrArg some (discard_log_stage hstage')
  · obtain ⟨hmain₂, hleak₂⟩ := onLeak_ok hleak
    obtain ⟨hfinish, hleak'⟩ := onMain_error hfinish
    refine of_parts (by rw [(log_finish_error hfinish).2, hmain₂, hmain]) ?_
    rw [hleak', ← hleak₁]
    rcases hleak₂ with ⟨hx, hx', -⟩ | ⟨x, x', hx, hx', hstage'⟩
    · rw [hx, hx']
    · rw [hx, hx', Option.map_some, (log_stage_ok hstage').1]
      exact congrArg some (SegmentLog.discard_opening ..)

end Sinks

end TraceTypes
