import TraceTypes.Proofs.LeakLedger
import TraceTypes.Proofs.Recorded
/-!
# Runs and the logs behind their sinks

The history of a run has the segments that its calls commit. For calls on sinks
that keep logs, these are the segments that the logs have gained, call after
call, whatever sinks each call was given and whatever failed in it
(`LoggedRun.segments_eq`). So what is said of the segments of a history can be
read off the logs alone:

* `Sinks.Gains` — the segments by which the logs have grown in a call;
* `LoggedRun` — a run with all that the logs have gained in it;
* `LoggedRun.mem_main_iff`, `LoggedRun.mem_leak_iff` — the records in the logs
  are those of the entries in the history;
* `LoggedRun.record_of_id`, `LoggedRun.tag_eq_of_id_eq`,
  `LoggedRun.get?_retained` — the use of ids and the answers of look-ups, by the
  logs.
-/

namespace TraceTypes

open TypeSet

/-- The logs have grown by these segments: the main log, and the leak log, if there is one. -/
structure Sinks.Gains {σ τ : Type} [Sink σ] [Sink τ] [LawfulSink σ] [LawfulSink τ]
    (w w' : Sinks σ τ) (l l' : List Transcript) : Prop where
  main : committed w'.main = committed w.main ++ l
  leak : w'.leakLog = w.leakLog.map (· ++ l')
  without : w.leak = none → l' = []

/-- A type set that some run reaches on sinks that keep logs, with the history of the run and all
that the logs have gained in it, on the main stream and on the leak stream. The graph and the sinks
may be others in each call. -/
inductive LoggedRun (settings : Settings) :
    TypeSet → History → List Transcript → List Transcript → Prop
  | create : LoggedRun settings (.create settings) [] [] []
  | tag {t : TypeSet} {H : History} {main leak : List Transcript} (a : Artifact) :
      LoggedRun settings t H main leak → LoggedRun settings (t.tag a).2 H main leak
  | tagLeak {t : TypeSet} {H : History} {main leak : List Transcript} (n : Handle) :
      LoggedRun settings t H main leak → LoggedRun settings (t.tagLeak n).2 H main leak
  | clear {t : TypeSet} {H : History} {main leak : List Transcript} :
      LoggedRun settings t H main leak → LoggedRun settings t.clear H main leak
  | rotate {t : TypeSet} {H : History} {main leak : List Transcript} :
      LoggedRun settings t H main leak → LoggedRun settings t.rotate (H ++ [.rotated]) main leak
  | serialize {t : TypeSet} {H : History} {main leak main' leak' : List Transcript} {σ τ : Type}
      [Sink σ] [Sink τ] [LawfulSink σ] [LawfulSink τ] (g : MetadataGraph) (flags : PassFlags)
      (w : Sinks σ τ) :
      LoggedRun settings t H main leak →
      w.Gains (t.serialize g flags w).sinks main' leak' →
      LoggedRun settings (t.serialize g flags w).types (H ++ t.serializeEvents g flags w)
        (main ++ main') (leak ++ leak')
  | captureUnloading {t : TypeSet} {H : History} {main leak main' : List Transcript} {σ : Type}
      [Sink σ] [LawfulSink σ] (g : MetadataGraph) (w : σ) :
      LoggedRun settings t H main leak →
      committed (t.captureUnloading g w).sinks = committed w ++ main' →
      LoggedRun settings (t.captureUnloading g w).types (H ++ t.captureEvents g w)
        (main ++ main') leak

/-! ## One call -/

section Serialize

variable {σ τ : Type} [Sink σ] [Sink τ] {w w' : Sinks σ τ}

/-- Without a leak sink a pass commits nothing on the leak stream. -/
theorem TypeSet.segments_serializeEvents_of_none (t : TypeSet) (g : MetadataGraph)
    (flags : PassFlags) (hw : w.leak = none) :
    History.segments true (t.serializeEvents g flags w) = [] := by
  unfold serializeEvents
  cases hc : t.commits? g flags w with
  | none => rfl
  | some q =>
      obtain ⟨b, t', w'⟩ := q
      obtain ⟨-, bytes, hcommit, -⟩ := serialize_committed hc
      have hnone : w'.leak.isSome = false := by
        rw [Sinks.isSome_leak_commitMain hcommit, hw]
        rfl
      have hevents : t'.leakEvents flags b w' = [] := by
        unfold leakEvents
        split
        · rfl
        · split
          · rfl
          · rw [if_neg (by simp [hnone])]
      dsimp only
      rw [segments_append, segments_append, hevents,
        segments_ofSegment_of_ne true _ (by simp [passHeader])]
      rfl

variable [LawfulSink σ] [LawfulSink τ]

/-- There is one way only to say by what the logs have grown. -/
theorem Sinks.Gains.unique {l₁ l₂ l₁' l₂' : List Transcript} (h : w.Gains w' l₁ l₁')
    (h' : w.Gains w' l₂ l₂') : l₁ = l₂ ∧ l₁' = l₂' := by
  refine ⟨List.append_cancel_left (h.main.symm.trans h'.main), ?_⟩
  cases hw : w.leak with
  | none => rw [h.without hw, h'.without hw]
  | some x =>
      have hlog := h.leak.symm.trans h'.leak
      rw [leakLog, hw] at hlog
      exact List.append_cancel_left (Option.some.inj hlog)

/-- The logs gain the segments of a pass. -/
theorem TypeSet.gains_serialize (t : TypeSet) (g : MetadataGraph) (flags : PassFlags)
    (w : Sinks σ τ) :
    w.Gains (t.serialize g flags w).sinks (History.segments false (t.serializeEvents g flags w))
      (History.segments true (t.serializeEvents g flags w)) where
  main := (t.serialize_writes g flags w).1
  leak := (t.serialize_writes g flags w).2
  without := t.segments_serializeEvents_of_none g flags

end Serialize

/-- A capture commits nothing on the leak stream. -/
theorem TypeSet.segments_captureEvents {σ : Type} [Sink σ] (t : TypeSet) (g : MetadataGraph)
    (w : σ) : History.segments true (t.captureEvents g w) = [] := by
  unfold captureEvents
  split <;> rfl

/-! ## A run -/

namespace LoggedRun

variable {settings : Settings} {t : TypeSet} {H : History} {main leak : List Transcript}

theorem run (h : LoggedRun settings t H main leak) : Run settings t H := by
  induction h with
  | create => exact .create
  | tag a _ ih => exact .tag a ih
  | tagLeak n _ ih => exact .tagLeak n ih
  | clear _ ih => exact .clear ih
  | rotate _ ih => exact .rotate ih
  | serialize g flags w _ _ ih => exact .serialize g flags w ih
  | captureUnloading g w _ _ ih => exact .captureUnloading g w ih

/-- A run on sinks that keep logs can go on with any pass. -/
theorem exists_serialize {σ τ : Type} [Sink σ] [Sink τ] [LawfulSink σ] [LawfulSink τ]
    (h : LoggedRun settings t H main leak) (g : MetadataGraph) (flags : PassFlags)
    (w : Sinks σ τ) :
    ∃ main' leak', LoggedRun settings (t.serialize g flags w).types
      (H ++ t.serializeEvents g flags w) (main ++ main') (leak ++ leak') :=
  ⟨_, _, .serialize g flags w h (t.gains_serialize g flags w)⟩

/-- And with any capture. -/
theorem exists_captureUnloading {σ : Type} [Sink σ] [LawfulSink σ]
    (h : LoggedRun settings t H main leak) (g : MetadataGraph) (w : σ) :
    ∃ main', LoggedRun settings (t.captureUnloading g w).types (H ++ t.captureEvents g w)
      (main ++ main') leak :=
  ⟨_, .captureUnloading g w h (t.captureUnloading_writes g w)⟩

/-- Over any run on sinks that keep logs, whatever fails in it: what the logs have gained is the
segments of the history, stream by stream and in this order. -/
theorem segments_eq (h : LoggedRun settings t H main leak) :
    H.segments false = main ∧ H.segments true = leak := by
  induction h with
  | create => exact ⟨rfl, rfl⟩
  | tag _ _ ih | tagLeak _ _ ih | clear _ ih => exact ih
  | rotate _ ih =>
      rw [segments_append, segments_append, ih.1, ih.2]
      exact ⟨List.append_nil _, List.append_nil _⟩
  | @serialize t _ _ _ _ _ _ _ _ _ _ _ g flags w _ hgains ih =>
      obtain ⟨hmain, hleak⟩ := hgains.unique (t.gains_serialize g flags w)
      rw [segments_append, segments_append, ih.1, ih.2, hmain, hleak]
      exact ⟨rfl, rfl⟩
  | @captureUnloading t _ _ _ _ _ _ _ g w _ hmain ih =>
      have hevents := List.append_cancel_left (hmain.symm.trans (t.captureUnloading_writes g w))
      rw [segments_append, segments_append, ih.1, ih.2, hevents, t.segments_captureEvents g w]
      exact ⟨rfl, List.append_nil _⟩

end LoggedRun

/-! ## Records in the logs -/

/-- A record in the segments of a stream is that of an entry in the history. -/
theorem History.mem_record_segments {H : History} {stream : Bool} {header : Header} {r : Record} :
    (∃ records, (header, records) ∈ H.segments stream ∧ r ∈ records) ↔
      ∃ (i : Nat) (l : List Entry) (e : Entry), H[i]? = some (.committed header l) ∧
        decide (header.kind = .leakProfiler) = stream ∧ e ∈ l ∧ e.record = r := by
  simp only [mem_segments]
  constructor
  · rintro ⟨_, ⟨l, hl, hkind, rfl⟩, hr⟩
    obtain ⟨i, hi⟩ := List.mem_iff_getElem?.mp hl
    obtain ⟨e, he, rfl⟩ := List.mem_map.mp hr
    exact ⟨i, l, e, hi, hkind, he, rfl⟩
  · rintro ⟨i, l, e, hi, hkind, he, rfl⟩
    exact ⟨_, ⟨l, List.mem_of_getElem? hi, hkind, rfl⟩, List.mem_map_of_mem he⟩

namespace LoggedRun

variable {settings : Settings} {t : TypeSet} {H : History} {main leak : List Transcript}
  {header : Header} {r : Record}

/-- The main log has gained the records that the history has on the main stream. -/
theorem mem_main_iff (h : LoggedRun settings t H main leak) :
    (∃ records, (header, records) ∈ main ∧ r ∈ records) ↔
      ∃ i e, H.MainAt i header e ∧ e.record = r := by
  rw [← h.segments_eq.1, History.mem_record_segments]
  constructor
  · rintro ⟨i, l, e, hi, hkind, he, hr⟩
    exact ⟨i, e, ⟨l, hi, of_decide_eq_false hkind, he⟩, hr⟩
  · rintro ⟨i, e, ⟨l, hi, hkind, he⟩, hr⟩
    exact ⟨i, l, e, hi, decide_eq_false hkind, he, hr⟩

/-- The leak log has gained the records that the history has on the leak stream. -/
theorem mem_leak_iff (h : LoggedRun settings t H main leak) :
    (∃ records, (header, records) ∈ leak ∧ r ∈ records) ↔
      ∃ i e, H.LeakAt i header e ∧ e.record = r := by
  rw [← h.segments_eq.2, History.mem_record_segments]
  constructor
  · rintro ⟨i, l, e, hi, hkind, he, hr⟩
    exact ⟨i, e, ⟨l, hi, of_decide_eq_true hkind, he⟩, hr⟩
  · rintro ⟨i, e, ⟨l, hi, hkind, he⟩, hr⟩
    exact ⟨i, l, e, hi, decide_eq_true hkind, he, hr⟩

/-- The id of an artifact is that of a record which the main log has gained in a type-set
segment. -/
theorem record_of_id (h : LoggedRun settings t H main leak) {a : Artifact} {id : TraceId}
    (ha : t.id? a = some id) :
    ∃ header records, (header, records) ∈ main ∧ header.kind = .typeSet ∧
      ∃ r ∈ records, r.id = id := by
  obtain ⟨i, header, e, hi, hkind, -, hid, -⟩ := h.run.written_of_id ha
  obtain ⟨records, hmem, hr⟩ := h.mem_main_iff.mpr ⟨i, e, hi, rfl⟩
  exact ⟨header, records, hmem, hkind, e.record, hr, hid⟩

/-- Two records that the main log has gained in type-set segments are of one type if they have one
id. -/
theorem tag_eq_of_id_eq (h : LoggedRun settings t H main leak) {header' : Header}
    {l l' : List Record} {r' : Record} (hl : (header, l) ∈ main) (hl' : (header', l') ∈ main)
    (hkind : header.kind = .typeSet) (hkind' : header'.kind = .typeSet) (hr : r ∈ l)
    (hr' : r' ∈ l') (heq : r.id = r'.id) : r.tag = r'.tag := by
  obtain ⟨i, e, hi, rfl⟩ := h.mem_main_iff.mp ⟨l, hl, hr⟩
  obtain ⟨j, e', hj, rfl⟩ := h.mem_main_iff.mp ⟨l', hl', hr'⟩
  have hrec := h.run.recorded
  have hshaped := hrec.marks.shaped i header e hi hkind
  have hshaped' := hrec.marks.shaped j header' e' hj hkind'
  by_cases hne : e.record.id = bootstrapId
  · -- both are records of the bootstrap loader
    have hloader {k : Nat} {header : Header} {x : Entry} (hk : H.MainAt k header x)
        (hid : x.record.id = bootstrapId) : x.subject = none := by
      cases hsub : x.subject with
      | none => rfl
      | some a => exact absurd hid (hrec.ids.used k header x a hk hsub).1
    obtain ⟨name, hname⟩ := hshaped.bootstrap (hloader hi hne)
    obtain ⟨name', hname'⟩ := hshaped'.bootstrap (hloader hj (heq.symm.trans hne))
    rw [hname, hname']
    rfl
  · have ⟨a, hsub, hsub'⟩ : ∃ a, e.subject = some a ∧ e'.subject = some a := by
      rcases Nat.le_total i j with hij | hij
      · obtain ⟨a, hsub, hsub', -⟩ := hrec.ids.unique i j header header' e e' hij hi hj heq hne
        exact ⟨a, hsub, hsub'⟩
      · obtain ⟨a, hsub', hsub, -⟩ :=
          hrec.ids.unique j i header' header e' e hij hj hi heq.symm (heq ▸ hne)
        exact ⟨a, hsub, hsub'⟩
    rw [hshaped.tag a hsub, hshaped'.tag a hsub']

/-- What look-ups find under an id is the last entry for it that the leak log has gained, or nothing
if nothing is retained. -/
theorem get?_retained (h : LoggedRun settings t H main leak) (id : TraceId) :
    (LeakLookup.live.table t.leak).get? id = if settings.retainLeakRecords then
      LeakEntry.last? id (LeakEntry.written leak) else none := by
  rw [← h.segments_eq.2]
  exact h.run.get?_retained id

end LoggedRun

end TraceTypes
