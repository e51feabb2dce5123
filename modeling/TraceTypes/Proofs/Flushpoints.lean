import Mathlib.Data.List.Forall2
import TraceTypes.Proofs.CallLogs
/-!
# A flushpoint and a reset of the tags

At a flushpoint a pass leaves the tags in place. To reset them afterwards comes
to the same as a pass without the flag: planning does not look at the flag, and
the pass without it takes exactly the tags that the reset would take.

* `Tracks`, `FlagBlind` — calls that end alike, and sinks that take no notice of
  the flushpoint byte of a header;
* `MarkTable.lowerAll_eq_self` — a reset is idle where nothing is marked;
* `TypeSet.commitMain_clear` — the commit of a main segment, with and without
  the flag;
* `TypeSet.flushpoint_clear` — the whole call.
-/

namespace TraceTypes

/-! ## Calls that end alike -/

section Tracks

variable {ε σ α β : Type}

/-- Two calls end alike: with the same answer or the same error, in related states. -/
inductive EndAlike (R : σ → σ → Prop) : EStateM.Result ε σ α → EStateM.Result ε σ α → Prop
  | ok {a : α} {s s' : σ} : R s s' → EndAlike R (.ok a s) (.ok a s')
  | error {e : ε} {s s' : σ} : R s s' → EndAlike R (.error e s) (.error e s')

theorem EndAlike.cases {R : σ → σ → Prop} {r r' : EStateM.Result ε σ α} (h : EndAlike R r r') :
    (∃ a s s', r = .ok a s ∧ r' = .ok a s' ∧ R s s') ∨
      ∃ e s s', r = .error e s ∧ r' = .error e s' ∧ R s s' := by
  cases h with
  | ok h => exact .inl ⟨_, _, _, rfl, rfl, h⟩
  | error h => exact .inr ⟨_, _, _, rfl, rfl, h⟩

/-- From related states the actions end alike. -/
def Tracks (R : σ → σ → Prop) (m m' : EStateM ε σ α) : Prop :=
  ∀ s s', R s s' → EndAlike R (m s) (m' s')

variable {R : σ → σ → Prop} {m m' : EStateM ε σ α} {f f' : α → EStateM ε σ β}

theorem Tracks.pure (a : α) : Tracks R (Pure.pure a : EStateM ε σ α) (Pure.pure a) :=
  fun _ _ h => .ok h

theorem Tracks.bind (hm : Tracks R m m') (hf : ∀ a, Tracks R (f a) (f' a)) :
    Tracks R (m >>= f) (m' >>= f') := by
  intro s s' h
  show EndAlike R (EStateM.bind m f s) (EStateM.bind m' f' s')
  unfold EStateM.bind
  obtain ⟨a, s₁, s₁', hr, hr', h₁⟩ | ⟨e, s₁, s₁', hr, hr', h₁⟩ := (hm s s' h).cases <;>
    rw [hr, hr']
  · exact hf a s₁ s₁' h₁
  · exact .error h₁

end Tracks

/-! ## Sinks that take no notice of the flag -/

/-- A sink that takes no notice of the flushpoint byte of a header: which calls it refuses, and what
it answers, is the same with another byte. -/
class FlagBlind (σ : Type) [Sink σ] where
  /-- The sinks have been called alike but for flushpoint bytes. -/
  Alike : σ → σ → Prop
  refl : ∀ w, Alike w w
  openSegment : ∀ h flag,
    Tracks Alike (Sink.openSegment h) (Sink.openSegment { h with flushpoint := flag })
  append : ∀ r, Tracks Alike (Sink.append r) (Sink.append r)
  commit : Tracks Alike Sink.commit Sink.commit
  discard : ∀ {w w'}, Alike w w' → Alike (Sink.discard w) (Sink.discard w')

namespace SegmentLog

/-- The logs have the same room left, and an open segment of the same size. -/
structure SameRoom (x x' : SegmentLog) : Prop where
  limit : x'.limit = x.limit
  committedBytes : x'.committedBytes = x.committedBytes
  pending : x'.pending.map (·.bytes.length) = x.pending.map (·.bytes.length)

variable {x x' : SegmentLog}

theorem SameRoom.isOpen (h : SameRoom x x') : x'.isOpen = x.isOpen := by
  have := congrArg Option.isSome h.pending
  rwa [Option.isSome_map, Option.isSome_map] at this

theorem SameRoom.refusal? (h : SameRoom x x') (n : Nat) : x'.refusal? n = x.refusal? n := by
  unfold SegmentLog.refusal? SegmentLog.openBytes
  rw [h.limit, h.committedBytes, h.pending]

end SegmentLog

/-- The byte of a flag is one byte, whatever the flag. -/
theorem length_encodeHeader (h : Header) (flag : Bool) :
    (Checkpoint.encodeHeader { h with flushpoint := flag }).length =
      (Checkpoint.encodeHeader h).length := by
  simp [Checkpoint.encodeHeader]

/-- The segment log looks at the sizes of segments only. -/
instance : FlagBlind SegmentLog where
  Alike := SegmentLog.SameRoom
  refl _ := ⟨rfl, rfl, rfl⟩
  openSegment h flag x x' hx := by
    show EndAlike _ (SegmentLog.openSegment h x) (SegmentLog.openSegment _ x')
    unfold SegmentLog.openSegment
    rw [hx.isOpen]
    split
    · exact .error hx
    · dsimp only
      rw [hx.refusal?, length_encodeHeader h flag]
      cases x.refusal? (Checkpoint.encodeHeader h).length with
      | some e => exact .error hx
      | none => exact .ok ⟨hx.limit, hx.committedBytes, congrArg some (length_encodeHeader h flag)⟩
  append r x x' hx := by
    show EndAlike _ (SegmentLog.append r x) (SegmentLog.append r x')
    have hpending := hx.pending
    unfold SegmentLog.append
    cases hs : x.pending with
    | none =>
        rw [hs] at hpending
        rw [Option.map_eq_none_iff.mp hpending]
        exact .error hx
    | some s =>
        rw [hs] at hpending
        obtain ⟨s', hs', hlength⟩ := Option.map_eq_some_iff.mp hpending
        rw [hs']
        dsimp only
        rw [hx.refusal?]
        split
        · exact .error hx
        · refine .ok ⟨hx.limit, hx.committedBytes, congrArg some ?_⟩
          simp only [List.length_append, hlength]
  commit x x' hx := by
    show EndAlike _ (SegmentLog.commit x) (SegmentLog.commit x')
    have hpending := hx.pending
    unfold SegmentLog.commit
    cases hs : x.pending with
    | none =>
        rw [hs] at hpending
        rw [Option.map_eq_none_iff.mp hpending]
        exact .error hx
    | some s =>
        rw [hs] at hpending
        obtain ⟨s', hs', hlength⟩ := Option.map_eq_some_iff.mp hpending
        rw [hs']
        dsimp only
        rw [hlength]
        refine .ok ⟨hx.limit, ?_, rfl⟩
        simp only [hx.committedBytes]
  discard hx := ⟨hx.limit, hx.committedBytes, rfl⟩

namespace Flaky

variable {σ : Type}

/-- The same calls were made, and the sinks behind are related. -/
structure Alike (R : σ → σ → Prop) (w w' : Flaky σ) : Prop where
  inner : R w.inner w'.inner
  schedule : w'.schedule = w.schedule
  calls : w'.calls = w.calls

theorem tracks_attempt {α : Type} {R : σ → σ → Prop} {act act' : EStateM SinkError σ α}
    (h : Tracks R act act') (call : SinkCall) :
    Tracks (Alike R) (attempt call act) (attempt call act') := by
  intro w w' hw
  unfold attempt
  dsimp only
  rw [hw.schedule, hw.calls]
  split
  · exact .error ⟨hw.inner, rfl, rfl⟩
  · obtain ⟨v, s, s', hr, hr', h₁⟩ | ⟨e, s, s', hr, hr', h₁⟩ := (h _ _ hw.inner).cases <;>
      rw [hr, hr']
    · exact .ok ⟨h₁, rfl, rfl⟩
    · exact .error ⟨h₁, rfl, rfl⟩

end Flaky

/-- A schedule of failures does not look at headers. -/
instance {σ : Type} [Sink σ] [FlagBlind σ] : FlagBlind (Flaky σ) where
  Alike := Flaky.Alike FlagBlind.Alike
  refl _ := ⟨FlagBlind.refl _, rfl, rfl⟩
  openSegment h flag := Flaky.tracks_attempt (FlagBlind.openSegment h flag) _
  append r := Flaky.tracks_attempt (FlagBlind.append r) _
  commit := Flaky.tracks_attempt FlagBlind.commit _
  discard hw := ⟨FlagBlind.discard hw.inner, hw.schedule, hw.calls⟩

section Segment

variable {σ : Type} [Sink σ] [FlagBlind σ]

theorem tracks_appendAll (l : List Record) :
    Tracks (FlagBlind.Alike (σ := σ)) (Sink.appendAll l) (Sink.appendAll l) := by
  induction l with
  | nil => exact .pure _
  | cons r rest ih => exact .bind (FlagBlind.append r) fun _ => ih

theorem tracks_stage (h : Header) (flag : Bool) (l : List Record) :
    Tracks (FlagBlind.Alike (σ := σ)) (Sink.stage h l)
      (Sink.stage { h with flushpoint := flag } l) := by
  unfold Sink.stage
  split
  · exact .pure _
  · exact .bind (FlagBlind.openSegment h flag) fun _ => tracks_appendAll l

theorem tracks_finish (l : List Record) :
    Tracks (FlagBlind.Alike (σ := σ)) (Sink.finish l) (Sink.finish l) := by
  unfold Sink.finish
  split
  · exact .pure _
  · exact FlagBlind.commit

end Segment

namespace Sinks

variable {σ τ α : Type} [Sink σ] [Sink τ] [FlagBlind σ] [FlagBlind τ]

/-- Both sinks were called alike but for flushpoint bytes. -/
structure Alike (w w' : Sinks σ τ) : Prop where
  main : FlagBlind.Alike w.main w'.main
  leak : Option.Rel FlagBlind.Alike w.leak w'.leak

theorem Alike.refl (w : Sinks σ τ) : Alike w w := by
  refine ⟨FlagBlind.refl _, ?_⟩
  cases w.leak with
  | none => exact .none
  | some x => exact .some (FlagBlind.refl x)

theorem tracks_onMain {act act' : EStateM SinkError σ α} (h : Tracks FlagBlind.Alike act act') :
    Tracks (Alike (τ := τ)) (onMain act) (onMain act') := by
  intro w w' hw
  unfold onMain
  obtain ⟨v, s, s', hr, hr', h₁⟩ | ⟨e, s, s', hr, hr', h₁⟩ := (h _ _ hw.main).cases <;>
    rw [hr, hr']
  · exact .ok ⟨h₁, hw.leak⟩
  · exact .error ⟨h₁, hw.leak⟩

theorem tracks_onLeak {act act' : EStateM SinkError τ α} (h : Tracks FlagBlind.Alike act act')
    (dflt : α) : Tracks (Alike (σ := σ)) (onLeak dflt act) (onLeak dflt act') := by
  rintro ⟨main, leak⟩ ⟨main', leak'⟩ ⟨hmain, hleak⟩
  unfold onLeak
  cases hleak with
  | none => exact .ok ⟨hmain, .none⟩
  | some hx =>
      dsimp only
      obtain ⟨v, s, s', hr, hr', h₁⟩ | ⟨e, s, s', hr, hr', h₁⟩ := (h _ _ hx).cases <;>
        rw [hr, hr']
      · exact .ok ⟨hmain, .some h₁⟩
      · exact .error ⟨hmain, .some h₁⟩

/-- The segments of a pass are taken or refused whatever the flushpoint byte. -/
theorem tracks_commitMain (h : Header) (flag : Bool) (b : Batch) :
    Tracks (Alike (σ := σ) (τ := τ)) (commitMain h b)
      (commitMain { h with flushpoint := flag } b) :=
  .bind (tracks_onMain (tracks_stage h flag b.records)) fun _ =>
    .bind (tracks_onLeak (tracks_stage { h with kind := .leakProfiler } flag b.leakRecords) ())
      fun _ => tracks_onMain (tracks_finish b.records)

end Sinks

/-! ## The marks -/

theorem Marks.put_eq_self {s : Marks} {m : Mark} {v : Bool} (h : s.has m = v) :
    s.put m v = s := by
  cases m <;> cases h <;> rfl

namespace MarkTable

/-- To lower a mark everywhere is idle where nothing carries it. -/
theorem lowerAll_eq_self {s : MarkTable} {m : Mark} (h : ∀ a, s.has m a = false) :
    s.lowerAll m = s := by
  unfold lowerAll
  congr 1
  refine PerKind.ext fun k => ?_
  rw [PerKind.get_map]
  refine SlotTable.ext ?_
  show (s.slots.get k).slots.map (fun e => (e.1, e.2.put m false)) = (s.slots.get k).slots
  refine (List.map_congr_left fun e he => ?_).trans (List.map_id _)
  have hslot : s.slot? ⟨k, e.1⟩ = some e.2 := SlotTable.get?_eq_some_iff.mpr he
  have hclear := h ⟨k, e.1⟩
  unfold has marks at hclear
  rw [hslot, Option.getD_some] at hclear
  rw [Marks.put_eq_self hclear]
  rfl

/-- To lower a mark one by one and then everywhere is to lower it everywhere. -/
theorem lowerAll_foldl_lower (s : MarkTable) (m : Mark) (l : List Artifact) :
    (l.foldl (fun s a => s.lower m a) s).lowerAll m = s.lowerAll m := by
  induction l generalizing s with
  | nil => rfl
  | cons a rest ih => rw [List.foldl_cons, ih, lowerAll_lower_self]

theorem lowerAll_foldl_forget (s : MarkTable) (m : Mark) (l : List Artifact) :
    (l.foldl forget s).lowerAll m = l.foldl forget (s.lowerAll m) := by
  induction l generalizing s with
  | nil => rfl
  | cons a rest ih => rw [List.foldl_cons, ih, lowerAll_forget, List.foldl_cons]

end MarkTable

namespace TypeSet

/-- The type sets are equal but for the tallies. -/
def EqualButTallies (t t' : TypeSet) : Prop :=
  t' = { t with totals := t'.totals, lastSummary := t'.lastSummary }

/-- The commit of a main segment at a flushpoint, and then a reset of the tags, is the commit
without the flag, if the pass was made for all tagged artifacts. -/
theorem commitMain_clear (t : TypeSet) {b : Batch}
    (hb : ∀ a, t.marks.isTagged a = true → a ∈ b.processed) :
    (t.commitMain b true).clear.EqualButTallies (t.commitMain b false) := by
  have hmarks : (t.commitMain b false).marks =
      (t.commitMain b true).marks.lowerAll .referenced := by
    have hclear : ∀ a, (t.commitMain b false).marks.has .referenced a = false := by
      intro a
      rw [Bool.eq_false_iff, Ne, has_commitMain]
      rintro ⟨-, ha | ⟨h, -⟩, hkept⟩
      · exact hkept ⟨rfl, rfl, hb a ha⟩
      · cases h
    rw [← MarkTable.lowerAll_eq_self hclear, commitMain_eq, commitMain_eq]
    dsimp only
    rw [MarkTable.lowerAll_foldl_forget, MarkTable.lowerAll_foldl_forget]
    unfold markWritten
    dsimp only
    rw [if_neg Bool.false_ne_true, if_pos rfl, MarkTable.lowerAll_foldl_lower]
  rw [commitMain_eq] at hmarks ⊢
  rw [commitMain_eq] at hmarks ⊢
  unfold EqualButTallies clear
  dsimp only at hmarks ⊢
  rw [hmarks]

/-- Counting goes beside the reset. -/
theorem EqualButTallies.counted {t t' : TypeSet} (h : t.clear.EqualButTallies t')
    (n n' : Totals) (s s' : Option PassSummary) :
    { t with totals := n, lastSummary := s }.clear.EqualButTallies
      { t' with totals := n', lastSummary := s' } := by
  unfold EqualButTallies at h ⊢
  rw [h]
  rfl

section Pass

variable {σ τ : Type} [Sink σ] [Sink τ] [FlagBlind σ] [FlagBlind τ] {t : TypeSet}
  {g : MetadataGraph} {classUnload : Bool} {b : Batch}

/-- What follows the commit of a main segment. The leak segment is committed or refused whatever the
flag. -/
theorem finishPass_clear (hb : ∀ a, t.marks.isTagged a = true → a ∈ b.processed) (bytes : Nat)
    {w w' : Sinks σ τ} (hw : w.Alike w') :
    (t.finishPass ⟨classUnload, true⟩ b bytes w').result =
        (t.finishPass ⟨classUnload, false⟩ b bytes w).result ∧
      (t.finishPass ⟨classUnload, true⟩ b bytes w').types.clear.EqualButTallies
        (t.finishPass ⟨classUnload, false⟩ b bytes w).types := by
  cases hleak : b.leak with
  | none =>
      rw [finishPass_without hleak, finishPass_without hleak]
      exact ⟨rfl, (commitMain_clear t hb).counted ..⟩
  | some p =>
      obtain ⟨size, w₁, w₁', hok, hok', -⟩ | ⟨e, w₁, w₁', herr, herr', -⟩ :=
        (Sinks.tracks_onLeak (tracks_finish p.records) 0 w w' hw).cases
      · rw [finishPass_committed hleak hok, finishPass_committed hleak hok']
        have htagged : ∀ a, (t.commitLeak b p).marks.isTagged a = true → a ∈ b.processed := by
          intro a ha
          exact hb a ((has_foldl_lower _ _ _ _ _ _).mp ha).1
        exact ⟨rfl, (commitMain_clear _ htagged).counted ..⟩
      · rw [finishPass_refused hleak herr, finishPass_refused hleak herr']
        exact ⟨rfl, (commitMain_clear { t with leak := t.leak.rollback p } hb).counted ..⟩

/-- The call with the flag and the call without it stop at the same place, with the same error and
in the same state; or both get past the commit of the same main segment, answer the same, and differ
by a reset of the tags. -/
theorem serialize_clear (t : TypeSet) (g : MetadataGraph) (classUnload : Bool) (w : Sinks σ τ) :
    (t.commits? g ⟨classUnload, false⟩ w = none ∧ t.commits? g ⟨classUnload, true⟩ w = none ∧
      (t.serialize g ⟨classUnload, true⟩ w).result =
        (t.serialize g ⟨classUnload, false⟩ w).result ∧
      (t.serialize g ⟨classUnload, true⟩ w).types =
        (t.serialize g ⟨classUnload, false⟩ w).types) ∨
    ∃ b t' w₁ w₁', t.commits? g ⟨classUnload, false⟩ w = some (b, t', w₁) ∧
      t.commits? g ⟨classUnload, true⟩ w = some (b, t', w₁') ∧
      (t.serialize g ⟨classUnload, true⟩ w).result =
        (t.serialize g ⟨classUnload, false⟩ w).result ∧
      (t.serialize g ⟨classUnload, true⟩ w).types.clear.EqualButTallies
        (t.serialize g ⟨classUnload, false⟩ w).types := by
  by_cases hp : t.isPoisoned = true
  · refine .inl ⟨?_, ?_, ?_, ?_⟩
    · rw [commits?, if_pos hp]
    · rw [commits?, if_pos hp]
    · rw [serialize, serialize, if_pos hp, if_pos hp]
    · rw [serialize, serialize, if_pos hp, if_pos hp]
  have hp : t.isPoisoned = false := by simpa using hp
  cases hplan : t.plan g classUnload w.leak.isSome with
  | error v t' =>
      refine .inl ⟨?_, ?_, ?_, ?_⟩
      · rw [commits?, if_neg (by simp [hp]), hplan]
      · rw [commits?, if_neg (by simp [hp]), hplan]
      · rw [serialize_of_violation hp hplan, serialize_of_violation hp hplan]
      · rw [serialize_of_violation hp hplan, serialize_of_violation hp hplan]
  | ok b t' =>
      -- planning does not look at the flag, and neither do the sinks
      obtain ⟨bytes, w₁, w₁', hok, hok', hw⟩ | ⟨e, w₁, w₁', herr, herr', -⟩ :=
        (Sinks.tracks_commitMain (t'.passHeader ⟨classUnload, false⟩) true b w w (.refl w)).cases
      · change Sinks.commitMain (t'.passHeader ⟨classUnload, true⟩) b w = .ok bytes w₁' at hok'
        obtain ⟨hc, heq⟩ := serialize_of_taken hp (by exact hplan) hok
        obtain ⟨hc', heq'⟩ := serialize_of_taken hp (by exact hplan) hok'
        obtain ⟨s, hplanned⟩ := plan_ok hplan
        have htagged : ∀ a, t'.marks.isTagged a = true → a ∈ b.processed := by
          intro a ha
          rw [hplanned.processed, MarkTable.mem_allTagged, ← hplanned.marks]
          exact ha
        rw [heq, heq']
        exact .inr ⟨b, t', w₁, w₁', hc, hc', finishPass_clear htagged bytes hw⟩
      · change Sinks.commitMain (t'.passHeader ⟨classUnload, true⟩) b w = .error e w₁' at herr'
        obtain ⟨hc, heq⟩ := serialize_of_refused hp (by exact hplan) herr
        obtain ⟨hc', heq'⟩ := serialize_of_refused hp (by exact hplan) herr'
        rw [heq, heq']
        exact .inl ⟨hc, hc', rfl, rfl⟩

end Pass

end TypeSet

/-! ## The segments -/

/-- The second segment is the first one with the flushpoint byte set: the same records, and the same
bytes but for the last one of the header. -/
structure Segment.Flushed (s s' : Segment) : Prop where
  clear : s.header.flushpoint = false
  header : s'.header = { s.header with flushpoint := true }
  records : s'.records = s.records
  bytes : ∃ front back, Checkpoint.encodeHeader s.header = front ++ [0] ∧
    s.bytes = front ++ 0 :: back ∧ s'.bytes = front ++ 1 :: back

theorem flushed_of {h : Header} (hclear : h.flushpoint = false) (l : List Record) :
    (Segment.of h l).Flushed (.of { h with flushpoint := true } l) where
  clear := hclear
  header := rfl
  records := rfl
  bytes := by
    refine ⟨Checkpoint.segmentMarker :: UInt8.ofNat h.kind.code :: Checkpoint.varint h.generation,
      l.flatMap Checkpoint.encodeRecord, ?_, ?_, ?_⟩
    · simp [Segment.of, Checkpoint.encodeHeader, Checkpoint.flag, hclear]
    · simp [Segment.of, Checkpoint.encodeHeader, Checkpoint.flag, hclear]
    · simp [Segment.of, Checkpoint.encodeHeader, Checkpoint.flag]

namespace SegmentLog

/-- Behind the first log the second one and the third one have committed the same segments, but for
flushpoint bytes. -/
def GrewAlike (x y z : SegmentLog) : Prop :=
  ∃ l l', y.segments = x.segments ++ l ∧ z.segments = x.segments ++ l' ∧
    List.Forall₂ Segment.Flushed l l'

theorem grewAlike_of_eq {x y z : SegmentLog} (hy : y.segments = x.segments)
    (hz : z.segments = x.segments) : GrewAlike x y z :=
  ⟨[], [], by rw [hy, List.append_nil], by rw [hz, List.append_nil], .nil⟩

theorem grewAlike_adding (x : SegmentLog) {h : Header} (hclear : h.flushpoint = false)
    (l : List Record) : GrewAlike x (x.adding h l) (x.adding { h with flushpoint := true } l) := by
  refine ⟨_, _, segments_adding x h l, segments_adding x _ l, ?_⟩
  unfold added
  split
  · exact .nil
  · exact .cons (flushed_of hclear l) .nil

end SegmentLog

/-- Both logs of a pass have grown alike. -/
structure Sinks.GrewAlike (x y z : Sinks SegmentLog SegmentLog) : Prop where
  main : SegmentLog.GrewAlike x.main y.main z.main
  leak : (x.leak = none ∧ y.leak = none ∧ z.leak = none) ∨
    ∃ a b c, x.leak = some a ∧ y.leak = some b ∧ z.leak = some c ∧ SegmentLog.GrewAlike a b c

/-- Logs that keep their segments have grown alike, by nothing. -/
theorem Sinks.grewAlike_discardedOn (x : Sinks SegmentLog SegmentLog) (e e' : TypeSetError) :
    x.GrewAlike (x.discardedOn e) (x.discardedOn e') := by
  have hkeeps : ∀ e : TypeSetError, (x.discardedOn e).main.segments = x.main.segments ∧
      (x.leak = none ∧ (x.discardedOn e).leak = none ∨
        ∃ a b, x.leak = some a ∧ (x.discardedOn e).leak = some b ∧ b.segments = a.segments) := by
    intro e
    unfold discardedOn
    cases hx : x.leak with
    | none => split <;> exact ⟨rfl, .inl ⟨rfl, by simp [discard, discardLeak, hx]⟩⟩
    | some a =>
        split
        · exact ⟨rfl, .inr ⟨a, a.discard, rfl, by rw [discard, discardLeak, hx]; rfl, rfl⟩⟩
        · exact ⟨rfl, .inr ⟨a, a, rfl, hx, rfl⟩⟩
  obtain ⟨hmain, hleak⟩ := hkeeps e
  obtain ⟨hmain', hleak'⟩ := hkeeps e'
  refine ⟨SegmentLog.grewAlike_of_eq hmain hmain', ?_⟩
  rcases hleak with ⟨hx, hy⟩ | ⟨a, b, hx, hy, hb⟩ <;>
    rcases hleak' with ⟨hx', hz⟩ | ⟨a', c, hx', hz, hc⟩
  · exact .inl ⟨hx, hy, hz⟩
  · rw [hx] at hx'
    cases hx'
  · rw [hx] at hx'
    cases hx'
  · obtain rfl : a = a' := Option.some.inj (hx.symm.trans hx')
    exact .inr ⟨a, b, c, hx, hy, hz, SegmentLog.grewAlike_of_eq hb hc⟩

namespace TypeSet

variable {σ τ : Type} [Sink σ] [Sink τ] [LogBacked σ] [LogBacked τ] [FlagBlind σ] [FlagBlind τ]

/-- With the flag and without it the calls commit the same segments, but for flushpoint bytes. -/
theorem grewAlike_serialize (t : TypeSet) (g : MetadataGraph) (classUnload : Bool)
    (w : Sinks σ τ) :
    w.logs.GrewAlike (t.serialize g ⟨classUnload, false⟩ w).sinks.logs
      (t.serialize g ⟨classUnload, true⟩ w).sinks.logs := by
  rcases t.serialize_clear g classUnload w with
    ⟨hc, hc', -, -⟩ | ⟨b, t', w₁, w₁', hc, hc', hresult, -⟩
  · obtain ⟨e, -, hlogs, -⟩ := serialize_stopped_logs hc
    obtain ⟨e', -, hlogs', -⟩ := serialize_stopped_logs hc'
    rw [hlogs, hlogs']
    exact w.logs.grewAlike_discardedOn e e'
  · obtain ⟨n, leak, -, hlogs, -, hend⟩ := serialize_committed_logs hc
    obtain ⟨n', leak', -, hlogs', -, hend'⟩ := serialize_committed_logs hc'
    -- the calls end alike, so the leak segment is committed in both or in none
    have hleak : leak' = leak := by
      rcases hend with ⟨hok, rfl, -⟩ | ⟨e, herr, rfl, -⟩ <;>
        rcases hend' with ⟨hok', rfl, -⟩ | ⟨e', herr', rfl, -⟩
      · rfl
      · rw [hresult, hok] at herr'
        cases herr'
      · rw [hresult, herr] at hok'
        cases hok'
      · rfl
    subst hleak
    rw [hlogs, hlogs']
    refine ⟨SegmentLog.grewAlike_adding _ rfl _, ?_⟩
    dsimp only
    cases hx : w.logs.leak with
    | none => exact .inl ⟨rfl, rfl, rfl⟩
    | some x => exact .inr ⟨x, _, _, rfl, rfl, rfl, x.grewAlike_adding rfl leak'⟩

/-- A flushpoint and then a reset of the tags is a pass without the flag, for sinks that take no
notice of the flushpoint byte. The two calls answer the same, number or error, and commit the same
segments but for this byte. If the main segment is committed, the reset makes the type set behind
the flushpoint equal to that behind the pass without the flag, but for the tallies; otherwise both
calls fail and leave equal type sets. -/
theorem flushpoint_clear (t : TypeSet) (g : MetadataGraph) (classUnload : Bool) (w : Sinks σ τ) :
    (t.serialize g ⟨classUnload, true⟩ w).result =
        (t.serialize g ⟨classUnload, false⟩ w).result ∧
      w.logs.GrewAlike (t.serialize g ⟨classUnload, false⟩ w).sinks.logs
        (t.serialize g ⟨classUnload, true⟩ w).sinks.logs ∧
      ((t.commits? g ⟨classUnload, false⟩ w = none ∧ t.commits? g ⟨classUnload, true⟩ w = none ∧
          (∃ e, (t.serialize g ⟨classUnload, false⟩ w).result = .error e) ∧
          (t.serialize g ⟨classUnload, true⟩ w).types =
            (t.serialize g ⟨classUnload, false⟩ w).types) ∨
        ∃ b t' w₁ w₁', t.commits? g ⟨classUnload, false⟩ w = some (b, t', w₁) ∧
          t.commits? g ⟨classUnload, true⟩ w = some (b, t', w₁') ∧
          (t.serialize g ⟨classUnload, true⟩ w).types.clear.EqualButTallies
            (t.serialize g ⟨classUnload, false⟩ w).types) := by
  have hlogs := t.grewAlike_serialize g classUnload w
  rcases t.serialize_clear g classUnload w with
    ⟨hc, hc', hresult, htypes⟩ | ⟨b, t', w₁, w₁', hc, hc', hresult, htypes⟩
  · obtain ⟨e, he, -⟩ := serialize_stopped_logs hc
    exact ⟨hresult, hlogs, .inl ⟨hc, hc', ⟨e, he⟩, htypes⟩⟩
  · exact ⟨hresult, hlogs, .inr ⟨b, t', w₁, w₁', hc, hc', htypes⟩⟩

/-- The subclass is written at a flushpoint and forgotten, and the reset of the tags has nothing
left to distinguish. -/
theorem flushpoint_clear_sampleNext :
    (sampleNext.serialize sampleGraph ⟨true, true⟩ sampleLogs).types.clear.EqualButTallies
      (sampleNext.serialize sampleGraph ⟨true, false⟩ sampleLogs).types := by
  have hsome : (sampleNext.commits? sampleGraph ⟨true, false⟩ sampleLogs).isSome = true := by
    decide +kernel
  obtain ⟨-, -, ⟨hc, -⟩ | ⟨-, -, -, -, -, -, h⟩⟩ :=
    sampleNext.flushpoint_clear sampleGraph true sampleLogs
  · rw [hc] at hsome
    cases hsome
  · exact h

end TypeSet

end TraceTypes
