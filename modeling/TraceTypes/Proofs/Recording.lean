import TraceTypes.Proofs.LawfulSink
import TraceTypes.Proofs.Rollback
/-!
# Runs and what they record

A run starts with a new type set and makes calls on it, each with whatever
graph and sinks it is given. What the calls leave behind for a reader of the
trace is a history of events, oldest first: committed segments, with the
artifacts that their records are written for, the artifacts that were
forgotten, and the rotations.

* `TypeSet.serializeEvents`, `TypeSet.captureEvents` — the events of one call;
* `Run` — the states that runs reach, with their histories.

For sinks that keep logs, the segments of a history are what the logs have
gained in the run (`LoggedRun.segments_eq`).
-/

namespace TraceTypes

/-- One thing that a reader of the trace has to know about. -/
inductive Event where
  /-- The trace was rotated. -/
  | rotated
  /-- A segment was committed, on the stream that its header tells. -/
  | committed (header : Header) (entries : List Entry)
  /-- Artifacts were forgotten. -/
  | forgotten (artifacts : List Artifact)

/-- Events, oldest first. -/
abbrev History := List Event

namespace Event

/-- The segment of an event, if it is one of the main stream or, with `leak`, of the leak
stream. -/
def segment? (leak : Bool) : Event → Option Transcript
  | committed header entries =>
      if decide (header.kind = .leakProfiler) = leak then
        some (header, entries.map Entry.record)
      else none
  | rotated | forgotten _ => none

/-- The event of a segment, which is only written if there are entries. -/
def ofSegment (header : Header) (entries : List Entry) : History :=
  if entries.isEmpty then [] else [committed header entries]

theorem eq_of_mem_ofSegment {event : Event} {header : Header} {l : List Entry}
    (h : event ∈ ofSegment header l) : event = committed header l := by
  unfold ofSegment at h
  split at h
  · cases h
  · exact List.mem_singleton.mp h

end Event

namespace History

/-- The segments of one stream. -/
def segments (leak : Bool) (H : History) : List Transcript := H.filterMap (Event.segment? leak)

variable (H : History) (i j : Nat) (a : Artifact)

/-- The `i`-th event commits the entry on the main stream, in a segment with this header. -/
def MainAt (header : Header) (e : Entry) : Prop :=
  ∃ l, H[i]? = some (.committed header l) ∧ header.kind ≠ .leakProfiler ∧ e ∈ l

/-- The artifact was forgotten behind the `i`-th event. -/
def ForgottenAfter : Prop := ∃ k l, i < k ∧ H[k]? = some (.forgotten l) ∧ a ∈ l

/-- The artifact was forgotten between the `i`-th and the `j`-th event. -/
def ForgottenBetween : Prop := ∃ k l, i < k ∧ k < j ∧ H[k]? = some (.forgotten l) ∧ a ∈ l

/-- The trace was rotated behind the `i`-th event. -/
def RotatedAfter : Prop := ∃ k, i < k ∧ H[k]? = some .rotated

variable {H : History} {i j : Nat} {a : Artifact} {header : Header} {e : Entry} {event : Event}

theorem getElem?_snoc {x : Event} :
    (H ++ [event])[i]? = some x ↔ H[i]? = some x ∨ (i = H.length ∧ event = x) := by
  rw [List.getElem?_append]
  split
  · rename_i hi
    constructor
    · exact .inl
    · rintro (h | ⟨rfl, -⟩)
      · exact h
      · exact absurd hi (Nat.lt_irrefl _)
  · rename_i hi
    rw [List.getElem?_singleton, List.getElem?_eq_none (Nat.le_of_not_lt hi)]
    constructor
    · intro h
      split at h
      · cases h
        exact .inr ⟨by omega, rfl⟩
      · cases h
    · rintro (h | ⟨rfl, rfl⟩)
      · cases h
      · rw [Nat.sub_self, if_pos rfl]

theorem mainAt_snoc : MainAt (H ++ [event]) i header e ↔ MainAt H i header e ∨
    (i = H.length ∧ ∃ l, event = .committed header l ∧ header.kind ≠ .leakProfiler ∧ e ∈ l) := by
  simp only [MainAt, getElem?_snoc]
  constructor
  · rintro ⟨l, h | ⟨rfl, rfl⟩, hkind, he⟩
    · exact .inl ⟨l, h, hkind, he⟩
    · exact .inr ⟨rfl, l, rfl, hkind, he⟩
  · rintro (⟨l, h, hkind, he⟩ | ⟨rfl, l, rfl, hkind, he⟩)
    · exact ⟨l, .inl h, hkind, he⟩
    · exact ⟨l, .inr ⟨rfl, rfl⟩, hkind, he⟩

theorem MainAt.lt_length (h : MainAt H i header e) : i < H.length := by
  obtain ⟨l, h, -⟩ := h
  exact (List.getElem?_eq_some_iff.mp h).1

theorem forgottenAfter_snoc : ForgottenAfter (H ++ [event]) i a ↔ ForgottenAfter H i a ∨
    (i < H.length ∧ ∃ l, event = .forgotten l ∧ a ∈ l) := by
  simp only [ForgottenAfter, getElem?_snoc]
  constructor
  · rintro ⟨k, l, hik, h | ⟨rfl, rfl⟩, ha⟩
    · exact .inl ⟨k, l, hik, h, ha⟩
    · exact .inr ⟨hik, l, rfl, ha⟩
  · rintro (⟨k, l, hik, h, ha⟩ | ⟨hi, l, rfl, ha⟩)
    · exact ⟨k, l, hik, .inl h, ha⟩
    · exact ⟨_, l, hi, .inr ⟨rfl, rfl⟩, ha⟩

theorem rotatedAfter_snoc : RotatedAfter (H ++ [event]) i ↔ RotatedAfter H i ∨
    (i < H.length ∧ event = .rotated) := by
  simp only [RotatedAfter, getElem?_snoc]
  constructor
  · rintro ⟨k, hik, h | ⟨rfl, rfl⟩⟩
    · exact .inl ⟨k, hik, h⟩
    · exact .inr ⟨hik, rfl⟩
  · rintro (⟨k, hik, h⟩ | ⟨hi, rfl⟩)
    · exact ⟨k, hik, .inl h⟩
    · exact ⟨_, hi, .inr ⟨rfl, rfl⟩⟩

/-! What comes later does not matter to an entry, nor between two events. -/

section Append

variable (E : History)

theorem mainAt_append (hi : i < H.length) : (H ++ E).MainAt i header e ↔ H.MainAt i header e := by
  unfold MainAt
  rw [List.getElem?_append_left hi]

theorem MainAt.append (h : MainAt H i header e) : MainAt (H ++ E) i header e :=
  (mainAt_append E h.lt_length).mpr h

theorem ForgottenAfter.append (h : ForgottenAfter H i a) : ForgottenAfter (H ++ E) i a := by
  obtain ⟨k, l, hik, hget, ha⟩ := h
  refine ⟨k, l, hik, ?_, ha⟩
  rw [List.getElem?_append_left (List.getElem?_eq_some_iff.mp hget).1]
  exact hget

theorem RotatedAfter.append (h : RotatedAfter H i) : RotatedAfter (H ++ E) i := by
  obtain ⟨k, hik, hget⟩ := h
  refine ⟨k, hik, ?_⟩
  rw [List.getElem?_append_left (List.getElem?_eq_some_iff.mp hget).1]
  exact hget

theorem forgottenBetween_append (hj : j ≤ H.length) :
    (H ++ E).ForgottenBetween i j a ↔ H.ForgottenBetween i j a := by
  have hget {k : Nat} (hk : k < j) : (H ++ E)[k]? = H[k]? :=
    List.getElem?_append_left (Nat.lt_of_lt_of_le hk hj)
  constructor
  · rintro ⟨k, l, hik, hkj, h, ha⟩
    exact ⟨k, l, hik, hkj, by rw [← hget hkj]; exact h, ha⟩
  · rintro ⟨k, l, hik, hkj, h, ha⟩
    exact ⟨k, l, hik, hkj, by rw [hget hkj]; exact h, ha⟩

end Append

theorem forgottenBetween_snoc (hj : j ≤ H.length) :
    ForgottenBetween (H ++ [event]) i j a ↔ ForgottenBetween H i j a :=
  forgottenBetween_append [event] hj

/-! What each sort of event adds. -/

section Snoc

variable {k : Header} {l : List Entry} {forgotten : List Artifact}

theorem mainAt_snoc_committed (hk : k.kind ≠ .leakProfiler) :
    MainAt (H ++ [.committed k l]) i header e ↔
      H.MainAt i header e ∨ (i = H.length ∧ header = k ∧ e ∈ l) := by
  rw [mainAt_snoc]
  refine or_congr_right (and_congr_right ?_)
  intro _
  constructor
  · rintro ⟨_, heq, -, he⟩
    cases heq
    exact ⟨rfl, he⟩
  · rintro ⟨rfl, he⟩
    exact ⟨l, rfl, hk, he⟩

/-- Of two entries in order, when a main segment is added, both were there before, or the second one
is in the segment, or both are. -/
theorem mainAt_pair_snoc_committed {header' : Header} {e' : Entry} (hk : k.kind ≠ .leakProfiler)
    (hij : i ≤ j) (hi : MainAt (H ++ [.committed k l]) i header e)
    (hj : MainAt (H ++ [.committed k l]) j header' e') :
    (H.MainAt i header e ∧ H.MainAt j header' e') ∨
      (H.MainAt i header e ∧ j = H.length ∧ e' ∈ l) ∨
      (i = H.length ∧ j = H.length ∧ e ∈ l ∧ e' ∈ l) := by
  rcases (mainAt_snoc_committed hk).mp hi with hi | ⟨rfl, -, he⟩ <;>
    rcases (mainAt_snoc_committed hk).mp hj with hj | ⟨rfl, -, he'⟩
  · exact .inl ⟨hi, hj⟩
  · exact .inr (.inl ⟨hi, rfl, he'⟩)
  · exact absurd hj.lt_length (Nat.not_lt_of_le hij)
  · exact .inr (.inr ⟨rfl, rfl, he, he'⟩)

theorem mainAt_snoc_leak (hk : k.kind = .leakProfiler) :
    MainAt (H ++ [.committed k l]) i header e ↔ H.MainAt i header e := by
  rw [mainAt_snoc]
  refine or_iff_left ?_
  rintro ⟨-, _, heq, hmain, -⟩
  cases heq
  exact hmain hk

@[simp] theorem mainAt_snoc_forgotten :
    MainAt (H ++ [.forgotten forgotten]) i header e ↔ H.MainAt i header e := by
  rw [mainAt_snoc]
  simp

@[simp] theorem mainAt_snoc_rotated :
    MainAt (H ++ [.rotated]) i header e ↔ H.MainAt i header e := by
  rw [mainAt_snoc]
  simp

@[simp] theorem forgottenAfter_snoc_committed :
    ForgottenAfter (H ++ [.committed k l]) i a ↔ H.ForgottenAfter i a := by
  rw [forgottenAfter_snoc]
  simp

@[simp] theorem forgottenAfter_snoc_rotated :
    ForgottenAfter (H ++ [.rotated]) i a ↔ H.ForgottenAfter i a := by
  rw [forgottenAfter_snoc]
  simp

theorem forgottenAfter_snoc_forgotten (hi : i < H.length) :
    ForgottenAfter (H ++ [.forgotten forgotten]) i a ↔ H.ForgottenAfter i a ∨ a ∈ forgotten := by
  rw [forgottenAfter_snoc]
  simp [hi]

@[simp] theorem rotatedAfter_snoc_committed :
    RotatedAfter (H ++ [.committed k l]) i ↔ H.RotatedAfter i := by
  rw [rotatedAfter_snoc]
  simp

@[simp] theorem rotatedAfter_snoc_forgotten :
    RotatedAfter (H ++ [.forgotten forgotten]) i ↔ H.RotatedAfter i := by
  rw [rotatedAfter_snoc]
  simp

theorem rotatedAfter_snoc_rotated (hi : i < H.length) : RotatedAfter (H ++ [.rotated]) i :=
  rotatedAfter_snoc.mpr (.inr ⟨hi, rfl⟩)

end Snoc

@[simp] theorem not_forgottenAfter_length : ¬ H.ForgottenAfter H.length a := by
  rintro ⟨n, _, hn, hget, -⟩
  exact Nat.lt_asymm hn (List.getElem?_eq_some_iff.mp hget).1

@[simp] theorem not_rotatedAfter_length : ¬ H.RotatedAfter H.length := by
  rintro ⟨n, hn, hget⟩
  exact Nat.lt_asymm hn (List.getElem?_eq_some_iff.mp hget).1

theorem not_forgottenBetween_self : ¬ H.ForgottenBetween i i a := by
  rintro ⟨n, _, h1, h2, -⟩
  exact Nat.lt_asymm h1 h2

theorem ForgottenBetween.after (h : ForgottenBetween H i j a) : ForgottenAfter H i a := by
  obtain ⟨k, l, hik, -, h, ha⟩ := h
  exact ⟨k, l, hik, h, ha⟩

theorem ForgottenBetween.mono {k : Nat} (h : ForgottenBetween H i j a) (hk : j ≤ k) :
    ForgottenBetween H i k a := by
  obtain ⟨n, l, hin, hnj, hget, ha⟩ := h
  exact ⟨n, l, hin, Nat.lt_of_lt_of_le hnj hk, hget, ha⟩

theorem ForgottenAfter.between (h : ForgottenAfter H i a) : ForgottenBetween H i H.length a := by
  obtain ⟨k, l, hik, h, ha⟩ := h
  exact ⟨k, l, hik, (List.getElem?_eq_some_iff.mp h).1, h, ha⟩

end History

namespace TypeSet

/-! ## The events of a call -/

/-- The artifacts that `forgetClasses` forgets, in order. -/
def forgottenBy (methods : TypeSet → Handle → List Handle) : TypeSet → List Handle → List Artifact
  | _, [] => []
  | t, n :: rest =>
      (methods t n).map Artifact.method ++ .cls n ::
        forgottenBy methods (t.forgetClass (methods t n) n) rest

section Serialize

variable {σ τ : Type} [Sink σ] [Sink τ]

/-- The header of the main segment of a pass. -/
def passHeader (t : TypeSet) (flags : PassFlags) : Header :=
  ⟨.typeSet, t.epoch.generation, flags.flushpoint⟩

/-- If the call gets past the commit of its main part: the planned pass, the type set behind the
plan and the sinks behind the commit. -/
def commits? (t : TypeSet) (g : MetadataGraph) (flags : PassFlags) (w : Sinks σ τ) :
    Option (Batch × TypeSet × Sinks σ τ) :=
  if t.isPoisoned then none
  else
    match t.plan g flags.classUnload w.leak.isSome with
    | .error _ _ => none
    | .ok b t' =>
      match (Sinks.commitMain (t'.passHeader flags) b : EStateM SinkError (Sinks σ τ) Nat) w with
      | .error _ _ => none
      | .ok _ w' => some (b, t', w')

/-- The entries of the leak segment of a pass. -/
def leakEntries (b : Batch) (p : PendingLeak) : List Entry :=
  List.zipWith (fun n e => ⟨some (.cls n), LeakEntry.record e⟩) b.leakClasses p.entries

/-- The event of the leak segment of a pass, if it is committed. -/
def leakEvents (t : TypeSet) (flags : PassFlags) (b : Batch) (w : Sinks σ τ) : History :=
  match b.leak with
  | none => []
  | some p =>
    match (Sinks.onLeak 0 (Sink.finish p.records) : EStateM SinkError (Sinks σ τ) Nat) w with
    | .error _ _ => []
    | .ok _ _ =>
      if w.leak.isSome then
        Event.ofSegment { t.passHeader flags with kind := .leakProfiler } (leakEntries b p)
      else []

/-- The events of a call that writes the tagged artifacts. -/
def serializeEvents (t : TypeSet) (g : MetadataGraph) (flags : PassFlags) (w : Sinks σ τ) :
    History :=
  match t.commits? g flags w with
  | none => []
  | some (b, t', w') =>
    Event.ofSegment (t'.passHeader flags) b.entries ++ t'.leakEvents flags b w' ++
      [.forgotten (forgottenBy registeredMethods t' b.unloading)]

end Serialize

section Capture

variable {σ : Type} [Sink σ]

/-- The header of a class-unload segment. -/
def captureHeader (t : TypeSet) : Header := ⟨.classUnload, t.epoch.generation, false⟩

/-- The entry of a captured class. -/
def captureEntry (c : CapturedClass) : Entry := ⟨some (.cls c.handle), c.record⟩

/-- If the call commits its segment: the captured classes, and the registries behind the
capture. -/
def captures? (t : TypeSet) (g : MetadataGraph) (w : σ) :
    Option (List CapturedClass × Registries) :=
  if t.isPoisoned then none
  else
    match UnloadCapture.capture g t.settings.bootstrapLoaderName t.registries with
    | .error _ _ => none
    | .ok l r =>
      if l.isEmpty then none
      else
        match Sink.send t.captureHeader (l.map CapturedClass.record) w with
        | .error _ _ => none
        | .ok _ _ => some (l, r)

/-- The events of a call that captures unloading classes. -/
def captureEvents (t : TypeSet) (g : MetadataGraph) (w : σ) : History :=
  match t.captures? g w with
  | none => []
  | some (l, r) =>
    [.committed t.captureHeader (l.map captureEntry),
      .forgotten (forgottenBy (fun t n => t.methodsOf g n) { t with registries := r }
        (l.map CapturedClass.handle))]

end Capture

end TypeSet

/-! ## Runs -/

/-- A type set that some run reaches, with the history of the run. The graph and the sinks may be
others in each call. -/
inductive Run (settings : Settings) : TypeSet → History → Prop
  | create : Run settings (.create settings) []
  | tag {t : TypeSet} {H : History} (a : Artifact) : Run settings t H → Run settings (t.tag a).2 H
  | tagLeak {t : TypeSet} {H : History} (n : Handle) :
      Run settings t H → Run settings (t.tagLeak n).2 H
  | clear {t : TypeSet} {H : History} : Run settings t H → Run settings t.clear H
  | rotate {t : TypeSet} {H : History} : Run settings t H → Run settings t.rotate (H ++ [.rotated])
  | serialize {t : TypeSet} {H : History} {σ τ : Type} [Sink σ] [Sink τ] (g : MetadataGraph)
      (flags : PassFlags) (w : Sinks σ τ) :
      Run settings t H →
      Run settings (t.serialize g flags w).types (H ++ t.serializeEvents g flags w)
  | captureUnloading {t : TypeSet} {H : History} {σ : Type} [Sink σ] (g : MetadataGraph) (w : σ) :
      Run settings t H → Run settings (t.captureUnloading g w).types (H ++ t.captureEvents g w)

/-! ## A graph for examples -/

/-- A class, and a subclass of it that is about to be reclaimed. -/
def sampleGraph : MetadataGraph where
  classLoader _ := none
  module _ := none
  package _ := none
  cls
    | 1 => some { name := "A" }
    | 2 => some { name := "B", superclass := some 1 }
    | _ => none
  method _ := none
  thread _ := none
  unloading := [2]

/-- A type set in which the class is tagged, and nothing else was done. -/
def sampleTypes : TypeSet := ((TypeSet.create {}).tag (.cls 1)).2

/-- An empty log for the main stream. -/
def sampleLog : Sinks SegmentLog SegmentLog := ⟨{}, none⟩

/-- Empty logs for both streams. -/
def sampleLogs : Sinks SegmentLog SegmentLog := ⟨{}, some {}⟩

theorem run_sampleTypes : Run {} sampleTypes [] := .tag (.cls 1) .create

/-- A pass is made, and then the subclass is tagged. -/
def sampleNext : TypeSet :=
  ((sampleTypes.serialize sampleGraph {} sampleLog).types.tag (.cls 2)).2

theorem run_sampleNext :
    Run {} sampleNext (sampleTypes.serializeEvents sampleGraph {} sampleLog) :=
  .tag (.cls 2) (.serialize sampleGraph {} sampleLog run_sampleTypes)

end TraceTypes
