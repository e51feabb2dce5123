import TraceTypes.Proofs.Acceptance
import TraceTypes.Proofs.LeakLedger
import TraceTypes.Proofs.Recorded
import TraceTypes.Proofs.Replanning
/-!
# A pass that is made again

A pass that a sink's error ended without a main segment can be made again. The
second attempt writes what the first one would have written, with the ids moved
up that the first attempt used up:

* `TypeSet.rolled_back_of_failure` — the plan of such a pass was taken back;
* `TypeSet.replan` — the plan after a plan that was taken back is the same plan
  under other ids;
* `Run.retry_transparent` — the two attempts, with sinks that accept everything.
-/

namespace TraceTypes

namespace TypeSet

variable {t t' : TypeSet} {g : MetadataGraph} {classUnload withLeak : Bool} {b : Batch} {s : Pass}

/-! ## The failed attempt -/

/-- Without tags the plan of the main segment has done nothing. -/
theorem eq_start_of_entries_eq_nil {c : PassScope} {r : Registries} {y : SymbolTable}
    (hready : Pass.Ready c r y) (hs : Pass.planAll c r y = .ok () s) (hnil : s.entries = []) :
    c.marks.allTagged = [] ∧ s = Pass.start r y c.settings := by
  have htagged : c.marks.allTagged = [] := by
    rw [List.eq_nil_iff_forall_not_mem]
    intro a ha
    have hmem := (Pass.planAll_ok hready hs).2 a (MarkTable.mem_allTagged.mp ha)
    rw [hnil] at hmem
    cases hmem
  unfold Pass.planAll at hs
  rw [htagged] at hs
  cases hs
  exact ⟨htagged, rfl⟩

/-- To commit a main segment that is not there changes nothing. -/
theorem commitMain_of_records_eq_nil {t₀ : TypeSet}
    (hready : Pass.Ready (t₀.scope g classUnload) t₀.registries t₀.symbols)
    (hplan : t₀.plan g classUnload withLeak = .ok b t') (hnil : b.records = []) (flushpoint : Bool)
    (t : TypeSet) : t.commitMain b flushpoint = t ∧ t.unregister b.fresh = t := by
  obtain ⟨s, hp⟩ := plan_ok hplan
  have hentries : b.entries = [] := List.map_eq_nil_iff.mp hnil
  rw [hp.entries] at hentries
  obtain ⟨htagged, rfl⟩ := eq_start_of_entries_eq_nil hready hp.plan hentries
  have hprocessed : b.processed = [] := hp.processed.trans htagged
  have hemitted : b.emitted = [] := by
    rw [Batch.emitted, hp.entries]
    rfl
  have hmarked : t.markWritten b flushpoint = t := by
    unfold markWritten
    rw [hemitted, hprocessed, hp.bootstrapEmitted]
    show { t with marks := if flushpoint then t.marks else t.marks,
                  bootstrapWritten := t.bootstrapWritten || false } = t
    rw [ite_self, Bool.or_false]
  constructor
  · unfold commitMain
    rw [hmarked, hp.unloading]
    rfl
  · rw [hp.fresh]
    rfl

/-- A pass that a sink's error ended without a main segment, because the segment was not committed
or there was nothing to write, was planned, and the plan was taken back. -/
theorem rolled_back_of_failure {σ τ : Type} [Sink σ] [Sink τ] {w : Sinks σ τ} {flags : PassFlags}
    {e : SinkError} (hready : Pass.Ready (t.scope g flags.classUnload) t.registries t.symbols)
    (hstop : ∀ b t' w', t.commits? g flags w = some (b, t', w') → b.records = [])
    (herr : (t.serialize g flags w).result = .error (.sink e)) :
    t.isPoisoned = false ∧ ∃ b t' n x,
      t.plan g flags.classUnload w.leak.isSome = .ok b t' ∧
      (t.serialize g flags w).types = { t'.rollback b with totals := n, lastSummary := x } := by
  cases hc : t.commits? g flags w with
  | none =>
      have hp : t.isPoisoned = false := by
        cases hp : t.isPoisoned with
        | false => rfl
        | true =>
            rw [TypeSet.serialize, if_pos hp] at herr
            cases herr
      rcases serialize_stopped hc with
        ⟨-, heq⟩ | ⟨v, t', -, heq⟩ | ⟨b, t', e', w', hplan, -, heq⟩
      · rw [heq] at herr
        cases herr
      · rw [heq] at herr
        cases herr
      · rw [heq]
        exact ⟨hp, b, t', _, _, hplan, rfl⟩
  | some q =>
      obtain ⟨b, t', w'⟩ := q
      obtain ⟨hplan, bytes, -, heq⟩ := serialize_committed hc
      refine ⟨by simpa using not_isPoisoned_of_commits hc, b, t', ?_⟩
      have hcommit := commitMain_of_records_eq_nil hready hplan (hstop b t' w' hc) flags.flushpoint
      rw [heq] at herr ⊢
      -- what failed is the commit of the leak segment
      rcases finishPass_cases t' flags b bytes w' with
        ⟨-, heq⟩ | ⟨p, hb, ⟨size, w'', -, heq⟩ | ⟨e', w'', -, heq⟩⟩
      · rw [heq] at herr
        cases herr
      · rw [heq] at herr
        cases herr
      · unfold rollback
        rw [heq, (hcommit t').2, hb, (hcommit { t' with leak := _ }).1]
        exact ⟨_, _, hplan, rfl⟩

/-! ## The plan made again -/

theorem MainKept.scope (h : MainKept t t') (g : MetadataGraph) (classUnload : Bool) :
    t'.scope g classUnload = t.scope g classUnload := by
  unfold TypeSet.scope
  rw [h.marks, h.settings, h.bootstrapWritten]

theorem registries_rollback (t : TypeSet) (b : Batch) :
    (t.rollback b).registries = t.registries.unregisterAll b.fresh.reverse := by
  unfold rollback
  dsimp only
  split <;> rfl

theorem symbols_rollback (t : TypeSet) (b : Batch) : (t.rollback b).symbols = t.symbols := by
  unfold rollback
  dsimp only
  split <;> rfl

/-- The renaming does not touch what was retained before the first plan. -/
theorem retained_of_used {u : LeakTable} {first : Nat} (gap : Nat)
    (hused : ∀ i e, u.get? i = some e → e.id = i ∧ i < first) :
    (∀ i, u.get? (shift first gap i) = (u.get? i).map (LeakEntry.rename (shift first gap))) ∧
      ∀ i e, u.get? i = some e → ∃ j, shift first gap j = i := by
  have hnone {i : TraceId} (hi : first ≤ i) : u.get? i = none := by
    cases h : u.get? i with
    | none => rfl
    | some e => exact absurd (hused i e h).2 (Nat.not_lt.mpr hi)
  refine ⟨?_, fun i e hi => ⟨i, shift_of_lt (hused i e hi).2⟩⟩
  intro i
  by_cases hi : i < first
  · rw [shift_of_lt hi]
    cases h : u.get? i with
    | none => rfl
    | some e =>
        have hid : shift first gap e.id = e.id := by
          rw [(hused i e h).1]
          exact shift_of_lt hi
        rw [Option.map_some, LeakEntry.rename, hid]
  · have hi : first ≤ i := Nat.le_of_not_lt hi
    rw [shift_of_le hi, hnone hi, hnone (Nat.le_add_right_of_le hi)]
    rfl

/-- The id that the main stream hands out next. -/
abbrev nextId (t : TypeSet) : TraceId := t.registries.ids.next

/-- The id that the leak stream hands out next. -/
abbrev nextLeakId (t : TypeSet) : TraceId := t.leak.ids.ids.next

section Replan

variable {t₁ : TypeSet} {gap gap' : Nat}

/-- What the second plan starts from: the first plan was taken back, but used up ids, interned texts
and noted owners. -/
structure TakenBack (t t' : TypeSet) (b : Batch) (gap gap' : Nat) (t₁ : TypeSet) : Prop
    extends MainKept t t₁ where
  leakIds : t.leak.ids.Similar t₁.leak.ids
  retain : t₁.leak.retain = t.leak.retain
  retained : t₁.leak.retained = t.leak.retained
  poisoned : t₁.poisoned = t.poisoned
  next : t₁.nextId = t.nextId + gap
  nextLeak : t₁.nextLeakId = t.nextLeakId + gap'
  registries_eq : t₁.registries = t'.registries.unregisterAll b.fresh.reverse
  symbols_eq : t₁.symbols = t'.symbols

/-- A plan that is rolled back is taken back, whatever is counted then. -/
theorem takenBack_of_plan (hplan : t.plan g classUnload withLeak = .ok b t') (n : Totals)
    (x : Option PassSummary) : ∃ gap gap',
    TakenBack t t' b gap gap' { t'.rollback b with totals := n, lastSummary := x } := by
  obtain ⟨s, hp⟩ := plan_ok hplan
  have h := hp.rollback
  obtain ⟨gap, hgap⟩ := Nat.exists_eq_add_of_le h.registries.next
  obtain ⟨gap', hgap'⟩ := Nat.exists_eq_add_of_le h.leakIds.next
  exact ⟨gap, gap', h.toMainKept.counted n x, h.leakIds, h.retain, h.retained, h.poisoned, hgap,
    hgap', registries_rollback t' b, symbols_rollback t' b⟩

/-- The second plan has done the same under other ids. -/
structure Replayed (f : TraceId → TraceId) (s s' : Pass) : Prop where
  registries : s.registries.Renamed f s'.registries
  symbols : s'.symbols = s.symbols
  entries : s'.entries = s.entries.map (Entry.rename f)
  fresh : s'.fresh = s.fresh
  unloading : s'.unloading = s.unloading
  classes : s'.classes = s.classes
  bootstrapEmitted : s'.bootstrapEmitted = s.bootstrapEmitted

/-- The main part of the second plan. -/
theorem TakenBack.replay (h : TakenBack t t' b gap gap' t₁) (hwf : t.registries.WF)
    (hs : Pass.planAll (t.scope g classUnload) t.registries t.symbols = .ok () s)
    (hr : t'.registries = s.registries) (hy : t'.symbols = s.symbols) :
    ∃ s', Pass.planAll (t₁.scope g classUnload) t₁.registries t₁.symbols = .ok () s' ∧
      Replayed (shift t.nextId gap) s s' := by
  have howners : Registries.OwnersAmong s.registries t.registries t₁.registries := by
    intro a e e' _ he'
    rw [h.registries_eq, Registries.entry?_unregisterAll, hr] at he'
    split at he'
    · cases he'
    · rw [he']
      exact .inr rfl
  let x : Replay := ⟨t.nextId, gap, s.registries, s.symbols, hwf.next_pos⟩
  obtain ⟨s', hs', hm⟩ := Replay.planAll (x := x) hs rfl rfl
    (Registries.shifted_of_similar hwf h.registries h.next) howners
  refine ⟨s', ?_, hm.registries.renamed hm.owners, hm.symbols, hm.entries, hm.fresh,
    hm.unloading, hm.classes, hm.bootstrapEmitted⟩
  rw [h.toMainKept.scope, h.symbols_eq, hy]
  exact hs'

variable {f f' : TraceId → TraceId} {s' : Pass}

theorem Replayed.batch (h : Replayed f s s') (hmarks : t₁.marks = t.marks) (f' : TraceId → TraceId)
    (classes : List (Handle × ClassInfo)) (leak : Option PendingLeak) :
    t₁.batchOf s' classes (leak.map (PendingLeak.rename f')) =
      (t.batchOf s classes leak).rename f f' := by
  unfold batchOf Batch.rename
  rw [h.entries, h.fresh, h.unloading, h.bootstrapEmitted, hmarks]

theorem Replayed.leakClasses (h : Replayed f s s') (c : PassScope) :
    s'.leakClasses c = s.leakClasses c := by
  unfold Pass.leakClasses
  rw [h.classes]

/-- The type sets behind the two plans. -/
theorem TakenBack.renamed (h : TakenBack t t' b gap gap' t₁) (hs : Replayed f s s')
    {leak leak' : LeakStream} (hids : ∀ a, leak'.ids.id? a = (leak.ids.id? a).map f')
    (hleak : leak.retain = t.leak.retain ∧ leak.retained = t.leak.retained)
    (hleak' : leak'.retain = t₁.leak.retain ∧ leak'.retained = t₁.leak.retained)
    (hretained : ∀ i, t.leak.retained.get? (f' i) =
      (t.leak.retained.get? i).map (LeakEntry.rename f'))
    (honly : ∀ i e, t.leak.retained.get? i = some e → ∃ j, f' j = i) :
    Renamed f f' { t.absorb s with leak := leak } { t₁.absorb s' with leak := leak' } where
  settings := h.settings
  marks := h.marks
  symbols := hs.symbols
  epochs := h.epochs
  bootstrapWritten := h.bootstrapWritten
  poisoned := h.poisoned
  registries := hs.registries
  leakIds n := hids (.cls n)
  retain := hleak'.1.trans (h.retain.trans hleak.1.symm)
  retained := by
    show ∀ i, leak'.retained.get? (f' i) = (leak.retained.get? i).map _
    rw [hleak'.2, hleak.2, h.retained]
    exact hretained
  retained_only := by
    show ∀ i e, leak'.retained.get? i = some e → _
    rw [hleak'.2, h.retained]
    exact honly

/-- The plan after a plan that was taken back is the same plan, with the ids moved up that the
first plan used up. -/
theorem replan (hwf : t.registries.WF) (hleakwf : t.leak.ids.WF)
    (hused : ∀ i e, t.leak.retained.get? i = some e → e.id = i ∧ i < t.nextLeakId)
    (hplan : t.plan g classUnload withLeak = .ok b t') (h : TakenBack t t' b gap gap' t₁) :
    ∃ t₂, t₁.plan g classUnload withLeak =
        .ok (b.rename (shift t.nextId gap) (shift t.nextLeakId gap')) t₂ ∧
      Renamed (shift t.nextId gap) (shift t.nextLeakId gap') t' t₂ := by
  have hshift := Registries.shifted_of_similar hleakwf h.leakIds h.nextLeak
  obtain ⟨hretained, honly⟩ := retained_of_used gap' hused
  obtain ⟨s, hs, ⟨rfl, rfl, rfl⟩ | ⟨rfl, classes, p, leak, hclasses, hprepare, rfl, rfl⟩⟩ :=
    plan_cases hplan
  · obtain ⟨s', hs', hreplayed⟩ := h.replay hwf hs rfl rfl
    refine ⟨_, (plan_without_leak hs').trans ?_,
      h.renamed hreplayed hshift.ids ⟨rfl, rfl⟩ ⟨rfl, rfl⟩ hretained honly⟩
    rw [← hreplayed.batch h.marks]
    rfl
  · obtain ⟨s', hs', hreplayed⟩ := h.replay hwf hs rfl rfl
    have hclasses' : s'.leakClasses (t₁.scope g classUnload) = .ok classes := by
      rw [hreplayed.leakClasses, h.toMainKept.scope]
      exact hclasses
    obtain ⟨leak', hprepare', hids⟩ := LeakStream.replay_prepare hshift hprepare
    have hepoch : t₁.epoch = t.epoch := by
      unfold TypeSet.epoch
      rw [h.epochs]
    rw [← h.settings, ← hepoch] at hprepare'
    have hp := (LeakStream.prepare_ok hprepare).1
    have hp' := (LeakStream.prepare_ok hprepare').1
    refine ⟨_, (plan_with_leak hs' hclasses' hprepare').trans ?_,
      h.renamed hreplayed hids.ids ⟨hp.retain, hp.retained⟩ ⟨hp'.retain, hp'.retained⟩ hretained
        honly⟩
    rw [← hreplayed.batch h.marks]
    rfl

end Replan

/-- The commit of both segments of a pass respects a renaming. -/
theorem Renamed.commitAll {f f' : TraceId → TraceId} (h : Renamed f f' t t')
    (hf : Function.Injective f') (b : Batch) (flushpoint : Bool) :
    Renamed f f' (t.commitAll b flushpoint) (t'.commitAll (b.rename f f') flushpoint) := by
  unfold TypeSet.commitAll
  have hleak : (b.rename f f').leak = b.leak.map (PendingLeak.rename f') := rfl
  rw [hleak]
  cases b.leak with
  | none => exact h.commitMain b flushpoint
  | some p => exact (h.commitLeak hf b p).commitMain b flushpoint

end TypeSet

/-! ## The leak stream before the first attempt -/

/-- What is retained stands under its own id, which was handed out. -/
theorem LeakLedger.retained_used {retaining : Bool} {s : LeakStream} {H : History}
    (h : LeakLedger retaining s H) {i : TraceId} {e : LeakEntry}
    (he : s.retained.get? i = some e) : e.id = i ∧ i < s.ids.ids.next := by
  rw [h.retained] at he
  split at he
  · unfold LeakEntry.last? at he
    have hid : e.id = i := by simpa using List.find?_some he
    refine ⟨hid, ?_⟩
    have hmem : e ∈ LeakEntry.written (H.segments true) :=
      List.mem_reverse.mp (List.mem_of_find?_eq_some he)
    obtain ⟨⟨header, records⟩, hsegment, hrecord⟩ := List.mem_flatMap.mp hmem
    obtain ⟨r, hr, hentry⟩ := List.mem_filterMap.mp hrecord
    obtain ⟨l, hcommitted, hkind, rfl⟩ := TypeSet.mem_segments.mp hsegment
    obtain ⟨x, hx, rfl⟩ := List.mem_map.mp hr
    have hxid : x.record.id = i := by
      unfold LeakEntry.ofRecord? at hentry
      split at hentry
      · rename_i hrec
        cases hentry
        rw [hrec]
        exact hid
      · cases hentry
    -- the entry stands at some place of the history
    obtain ⟨k, hk⟩ := List.mem_iff_getElem?.mp hcommitted
    have hat : H.LeakAt k header x := ⟨l, hk, of_decide_eq_true hkind, hx⟩
    rw [← hxid]
    cases hsub : x.subject with
    | none =>
        rw [h.ids.bootstrap k _ x hat.swap hsub]
        exact h.ids.wf.next_pos
    | some a => exact (h.ids.used k _ x a hat.swap hsub).2
  · cases he

/-! ## The two attempts -/

/-- A call that a sink's error ended without a main segment, because the segment was not committed or
because there was nothing to write in it, can be made again. From sinks that accept everything, the
second attempt commits what the call would have committed with them in the first place, on both
streams and in the same order, with the fresh ids of each stream moved up by as many as the failed
call had used up. But for that, both lead to the same state. -/
theorem Run.retry_transparent {settings : Settings} {t : TypeSet} {H : History}
    (h : Run settings t H) (g : MetadataGraph) (flags : PassFlags) {σ τ ρ υ : Type} [Sink ρ]
    [Sink υ] {failing : Sinks ρ υ} {e : SinkError}
    (hstop : ∀ b t' w', t.commits? g flags failing = some (b, t', w') → b.records = [])
    (herr : (t.serialize g flags failing).result = .error (.sink e)) [Sink σ] [Sink τ]
    [LawfulSink σ] [LawfulSink τ] {w : Sinks σ τ} (hmain : Willing w.main)
    (hleak : ∀ x, w.leak = some x → Willing x) (hsame : w.leak.isSome = failing.leak.isSome) :
    let t₁ := (t.serialize g flags failing).types
    let r := t.serialize g flags w
    let r' := t₁.serialize g flags w
    ∃ gap gap', t₁.nextId = t.nextId + gap ∧ t₁.nextLeakId = t.nextLeakId + gap' ∧
      (∃ bytes bytes', r.result = .ok bytes ∧ r'.result = .ok bytes') ∧
      (∃ l, committed r.sinks.main = committed w.main ++ l ∧
        committed r'.sinks.main =
          committed w.main ++ l.map (renameSegment (shift t.nextId gap))) ∧
      (∃ l, r.sinks.leakLog = w.leakLog.map (· ++ l) ∧
        r'.sinks.leakLog =
          w.leakLog.map (· ++ l.map (renameSegment (shift t.nextLeakId gap')))) ∧
      TypeSet.Renamed (shift t.nextId gap) (shift t.nextLeakId gap') r.types r'.types ∧
      ∀ i, r'.types.registries.ids.owners.get? (shift t.nextId gap i) =
        r.types.registries.ids.owners.get? i := by
  intro t₁ r r'
  obtain ⟨hp, b, t', n, x, hplan, htypes⟩ :=
    TypeSet.rolled_back_of_failure (h.recorded.ready g flags.classUnload) hstop herr
  obtain ⟨gap, gap', hback⟩ := TypeSet.takenBack_of_plan hplan n x
  have ht₁ : t₁ = _ := htypes
  rw [← ht₁] at hback
  have hledger := h.leakRecorded.sound (by simp [hp])
  obtain ⟨t₂, hplan₂, hrenamed⟩ := TypeSet.replan h.recorded.ids.wf hledger.ids.wf
    (fun i e => hledger.retained_used) hplan hback
  have hp₁ : t₁.isPoisoned = false := by
    rw [TypeSet.isPoisoned, hback.poisoned]
    exact hp
  rw [← hsame] at hplan hplan₂
  obtain ⟨hok, ⟨_, _, htypes⟩, hmainLog, hleakLog⟩ :=
    TypeSet.serialize_willing hp hplan hmain hleak
  obtain ⟨hok', ⟨_, _, htypes'⟩, hmainLog', hleakLog'⟩ :=
    TypeSet.serialize_willing hp₁ hplan₂ hmain hleak
  have hheader : t₂.passHeader flags = t'.passHeader flags := by
    unfold TypeSet.passHeader TypeSet.epoch
    rw [hrenamed.epochs]
  rw [hheader, Batch.records_rename, segmentOf_rename] at hmainLog'
  rw [hheader, Batch.leakRecords_rename, segmentOf_rename] at hleakLog'
  have hfinal : TypeSet.Renamed (shift t.nextId gap) (shift t.nextLeakId gap') r.types
      r'.types := by
    have hcommitted := hrenamed.commitAll (shift_injective _ _) b flags.flushpoint
    have hr : r.types = _ := htypes
    have hr' : r'.types = _ := htypes'
    rw [hr, hr']
    exact hcommitted.counted ..
  refine ⟨gap, gap', hback.next, hback.nextLeak, ?_, ⟨_, hmainLog, hmainLog'⟩,
    ⟨_, hleakLog, hleakLog'⟩, hfinal, ?_⟩
  · obtain ⟨bytes, hok⟩ := hok
    obtain ⟨bytes', hok'⟩ := hok'
    exact ⟨bytes, bytes', hok, hok'⟩
  · have hrun := h.serialize g flags w
    have hrun' := (h.serialize g flags failing).serialize g flags w
    exact hfinal.registries.ids_owner (shift_injective _ _) hrun.recorded.ids.wf
      hrun'.recorded.ids.wf

/-- Sinks of which the one for the main stream takes a single record. -/
def sampleFailing : Sinks (Flaky SegmentLog) SegmentLog :=
  ⟨{ inner := {}, schedule := .once .append 2 "disk full" }, some {}⟩

/-- The attempt that fails on its second record uses up three ids and a leak id, and the next one
writes what the first one would have written with these ids added. -/
theorem retry_transparent_second_record :
    let failed := sampleTypes.serialize sampleGraph {} sampleFailing
    let made := sampleTypes.serialize sampleGraph {} sampleLogs
    let again := failed.types.serialize sampleGraph {} sampleLogs
    failed.result = .error (.sink (.io "disk full")) ∧
      committed again.sinks.main = (committed made.sinks.main).map (renameSegment (shift 1 3)) ∧
      TypeSet.Renamed (shift 1 3) (shift 1 1) made.types again.types := by
  intro failed made again
  have herr : failed.result = .error (.sink (.io "disk full")) := by decide +kernel
  have hnone : sampleTypes.commits? sampleGraph {} sampleFailing = none := by decide +kernel
  have hstop : ∀ b t' w', sampleTypes.commits? sampleGraph {} sampleFailing = some (b, t', w') →
      b.records = [] := by
    intro b t' w' h
    rw [hnone] at h
    cases h
  have hnext : failed.types.nextId = 4 := by decide +kernel
  have hnextLeak : failed.types.nextLeakId = 2 := by decide +kernel
  obtain ⟨gap, gap', hgap, hgap', -, ⟨l, hlog, hlog'⟩, -, hrenamed, -⟩ :=
    run_sampleTypes.retry_transparent sampleGraph {} hstop herr
      (w := sampleLogs) (willing_segmentLog rfl rfl)
      (by rintro _ ⟨⟩; exact willing_segmentLog rfl rfl) rfl
  have hthree : 1 + 3 = 1 + gap := hnext.symm.trans hgap
  have hone : 1 + 1 = 1 + gap' := hnextLeak.symm.trans hgap'
  obtain rfl := Nat.add_left_cancel hthree
  obtain rfl := Nat.add_left_cancel hone
  refine ⟨herr, ?_, hrenamed⟩
  have hmade : committed made.sinks.main = l := hlog
  rw [hmade]
  exact hlog'

end TraceTypes
