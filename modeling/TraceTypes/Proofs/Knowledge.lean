import TraceTypes.Proofs.LeakLedger
import TraceTypes.Proofs.Progress
import TraceTypes.Proofs.Unloaded
/-!
# What a type set knows of an artifact

A type set knows an artifact by an id, a mark or an id on the leak stream
(`TypeSet.Knows`). Ids and serialized marks are read off the history: behind a
call, an artifact has one that it did not have before only if the call has
written an entry for it (`IdLedger.known_append`, `MarkLedger.marked_append`).
The other marks are never raised by a call.

So a pass makes known only what it writes (`TypeSet.Knows.of_serialize`), and a
capture brings no news at all (`TypeSet.noNews_captureUnloading`). What either
of them writes is in the graph.
-/

namespace TraceTypes

/-! ## The artifacts of a history -/

namespace History

variable {H E : History} {a : Artifact} {i : Nat} {header : Header} {e : Entry}

/-- The artifacts that have an entry in some segment, on either stream. -/
def subjects (H : History) : List Artifact :=
  H.flatMap fun
    | .committed _ l => Entry.subjects l
    | .rotated | .forgotten _ => []

theorem mem_subjects :
    a ∈ H.subjects ↔ ∃ header l, .committed header l ∈ H ∧ a ∈ Entry.subjects l := by
  unfold subjects
  rw [List.mem_flatMap]
  constructor
  · rintro ⟨event, hevent, ha⟩
    cases event with
    | committed header l => exact ⟨header, l, hevent, ha⟩
    | rotated | forgotten => cases ha
  · rintro ⟨header, l, hevent, ha⟩
    exact ⟨_, hevent, ha⟩

theorem subjects_append : (H ++ E).subjects = H.subjects ++ E.subjects := List.flatMap_append

theorem subjects_swap : H.swap.subjects = H.subjects := by
  unfold subjects swap
  rw [List.flatMap_map]
  congr 1
  funext event
  cases event <;> rfl

/-- An entry that is not in the first part of a history is in the second. -/
theorem MainAt.mem_subjects (h : (H ++ E).MainAt i header e) (hsub : e.subject = some a)
    (hi : H.length ≤ i) : a ∈ E.subjects := by
  obtain ⟨l, hget, -, he⟩ := h
  rw [List.getElem?_append_right hi] at hget
  exact History.mem_subjects.mpr
    ⟨header, l, List.mem_of_getElem? hget, Entry.mem_subjects.mpr ⟨e, he, hsub⟩⟩

end History

/-- An artifact with an id had it before these events, or they have an entry for it. -/
theorem IdLedger.known_append {r r' : Registries} {H E : History} (h : IdLedger r H)
    (h' : IdLedger r' (H ++ E)) {a : Artifact} {id : TraceId} (ha : r'.id? a = some id) :
    r.id? a = some id ∨ a ∈ E.subjects := by
  obtain ⟨i, header, e, hi, hsub, hnot⟩ := h'.known a id ha
  by_cases hlt : i < H.length
  · have hid := h'.live i header e a hi hsub hnot
    rw [ha] at hid
    rw [History.mainAt_append E hlt] at hi
    left
    rw [hid]
    exact h.live i header e a hi hsub fun hf => hnot (hf.append E)
  · exact .inr (hi.mem_subjects hsub (Nat.le_of_not_lt hlt))

/-- An artifact with a mark had it before these events, or they have an entry for it. -/
theorem MarkLedger.marked_append {marked marked' : Artifact → Prop} {y y' : SymbolTable}
    {generation generation' : Nat} {bootstrap bootstrap' : Prop} {H E : History}
    (h : MarkLedger marked y generation bootstrap H)
    (h' : MarkLedger marked' y' generation' bootstrap' (H ++ E)) {a : Artifact}
    (ha : marked' a) : marked a ∨ a ∈ E.subjects := by
  obtain ⟨i, header, e, ⟨hi, hkind, hrot⟩, hsub, hnot⟩ := (h'.marked_iff a).mp ha
  by_cases hlt : i < H.length
  · rw [History.mainAt_append E hlt] at hi
    left
    rw [h.marked_iff]
    exact ⟨i, header, e, ⟨hi, hkind, fun hr => hrot (hr.append E)⟩, hsub,
      fun hf => hnot (hf.append E)⟩
  · exact .inr (hi.mem_subjects hsub (Nat.le_of_not_lt hlt))

namespace TypeSet

/-- The type set knows the artifact: by an id, by a mark, or by an id on the leak stream. -/
inductive Knows (t : TypeSet) : Artifact → Prop
  | id {a : Artifact} {id : TraceId} : t.id? a = some id → Knows t a
  | mark {a : Artifact} {m : Mark} : t.marks.has m a = true → Knows t a
  | leakId {n : Handle} {id : TraceId} : t.leakId? n = some id → Knows t (.cls n)

variable {t t' : TypeSet} {g : MetadataGraph} {a : Artifact}

/-- Every id and every mark in the later type set was there before. -/
structure NoNews (t t' : TypeSet) : Prop where
  ids : ∀ a id, t'.id? a = some id → t.id? a = some id
  marks : ∀ m a, t'.marks.has m a = true → t.marks.has m a = true
  leakIds : ∀ n id, t'.leakId? n = some id → t.leakId? n = some id

theorem NoNews.knows (hn : t.NoNews t') (h : t'.Knows a) : t.Knows a := by
  cases h with
  | id h => exact .id (hn.ids _ _ h)
  | mark h => exact .mark (hn.marks _ _ h)
  | leakId h => exact .leakId (hn.leakIds _ _ h)

/-- A call that is undone brings no news. -/
theorem Kept.noNews (h : Kept t t') : t.NoNews t' where
  ids a id hid := by
    rw [← hid]
    exact (h.registries.ids a).symm
  marks m a hm := by
    rw [← h.marks]
    exact hm
  leakIds n id hid := by
    rw [← hid]
    exact (h.leakIds.ids _).symm

/-! ## A capture -/

theorem Unloaded.not_knows (h : t.Unloaded g t') (ha : t.GoesWith g g.unloading a) :
    ¬ t'.Knows a := by
  intro hknows
  cases hknows with
  | id hid =>
      rw [(h.gone a ha).1] at hid
      cases hid
  | @mark _ m hm =>
      rw [(h.gone a ha).2 m] at hm
      cases hm
  | @leakId n _ hid =>
      cases ha with
      | cls hn =>
          rw [h.leak_gone n hn] at hid
          cases hid

theorem Unloaded.noNews (h : t.Unloaded g t') : t.NoNews t' where
  ids a id hid := by
    rw [← h.id?_stays fun ha => h.not_knows ha (.id hid)]
    exact hid
  marks m a hm := by
    rw [← (h.stays a fun ha => h.not_knows ha (.mark hm)).2 m]
    exact hm
  leakIds n id hid := by
    rw [← h.leak_stays n fun hn => h.not_knows (.cls hn) (.leakId hid)]
    exact hid

/-- A capture brings no news, whatever becomes of it. -/
theorem noNews_captureUnloading {σ : Type} [Sink σ] (t : TypeSet) (g : MetadataGraph) (w : σ) :
    t.NoNews (t.captureUnloading g w).types := by
  cases hc : t.captures? g w with
  | none =>
      have h := (undone_of_captureUnloading_stopped hc).toKept.noNews
      exact ⟨h.ids, h.marks, h.leakIds⟩
  | some q =>
      obtain ⟨l, r⟩ := q
      obtain ⟨-, -, n, w', -, heq⟩ := captureUnloading_committed hc
      have hok : (t.captureUnloading g w).result = .ok l.length := by rw [heq]
      exact (unloaded_captureUnloading hok).noNews

/-- A capture writes entries for classes of the graph. -/
theorem has_of_mem_captureEvents {σ : Type} [Sink σ] {w : σ}
    (h : a ∈ (t.captureEvents g w).subjects) : g.Has a := by
  unfold captureEvents at h
  cases hc : t.captures? g w with
  | none =>
      rw [hc] at h
      cases h
  | some q =>
      obtain ⟨l, r⟩ := q
      obtain ⟨hcapture, -⟩ := captureUnloading_committed hc
      obtain ⟨hcaptured, -⟩ := UnloadCapture.capture_ok hcapture
      rw [hc] at h
      simp only [History.subjects, List.flatMap_cons, List.flatMap_nil, List.append_nil] at h
      obtain ⟨e, he, hsub⟩ := Entry.mem_subjects.mp h
      obtain ⟨c, hcl, rfl⟩ := List.mem_map.mp he
      cases hsub
      obtain ⟨i, hi, -⟩ := hcaptured.fields c hcl
      simp [MetadataGraph.Has, MetadataGraph.describe?, hi]

/-! ## A pass -/

/-- The leak segment of a pass has entries for classes of the graph. -/
theorem has_of_mem_leakEvents {σ τ : Type} [Sink τ] {classUnload withLeak : Bool} {b : Batch}
    (hplan : t.plan g classUnload withLeak = .ok b t') {flags : PassFlags} {w' : Sinks σ τ}
    (ha : a ∈ (t'.leakEvents flags b w').subjects) : g.Has a := by
  obtain ⟨k, l, hmem, ha⟩ := History.mem_subjects.mp ha
  obtain ⟨p, header, hb, -, heq⟩ := mem_leakEvents hmem
  cases heq
  rcases plan_leak hplan with ⟨-, hnone, -⟩ | ⟨-, s, classes, q, hpass, hl, -, -, hclasses⟩
  · rw [hnone] at hb
    cases hb
  · obtain ⟨e, he, hsub⟩ := Entry.mem_subjects.mp ha
    obtain ⟨c, x, hx, rfl⟩ := mem_leakEntries hclasses he
    cases hsub
    have hcls : g.cls c.1 = some c.2 :=
      Pass.cls_of_mem_leakClasses hpass hl c (List.of_mem_zip hx).1
    simp [MetadataGraph.Has, MetadataGraph.describe?, hcls]

section Pass

variable {σ τ : Type} [Sink σ] [Sink τ] {flags : PassFlags} {w : Sinks σ τ}

/-- A pass raises serialized marks only, whatever becomes of it. -/
theorem has_serialize {m : Mark} (hm : m ≠ .serialized)
    (h : (t.serialize g flags w).types.marks.has m a = true) : t.marks.has m a = true := by
  cases hc : t.commits? g flags w with
  | none =>
      rw [(mainKept_of_stopped hc).marks] at h
      exact h
  | some q =>
      obtain ⟨b, t', w'⟩ := q
      obtain ⟨hplan, bytes, -, heq⟩ := serialize_committed hc
      obtain ⟨s, hp⟩ := plan_ok hplan
      have hmarks := hp.marks
      have hcommit (t₁ : TypeSet) (h : (t₁.commitMain b flags.flushpoint).marks.has m a = true) :
          t₁.marks.has m a = true := by
        obtain ⟨-, h, -⟩ := (has_commitMain _ _ _ _ _).mp h
        exact h.resolve_right fun hx => hm hx.1
      rw [← hmarks]
      rw [heq] at h
      rcases finishPass_cases t' flags b bytes w' with
        ⟨-, heq⟩ | ⟨p, -, ⟨size, w'', -, heq⟩ | ⟨e, w'', -, heq⟩⟩
      · rw [heq] at h
        exact hcommit t' h
      · rw [heq] at h
        -- the leak commit has lowered leak marks before
        exact ((has_foldl_lower _ _ _ _ _ _).mp (hcommit (t'.commitLeak b p) h)).1
      · rw [heq] at h
        exact hcommit { t' with leak := t'.leak.rollback p } h

/-- In a closed graph a plan that meets a violation has left both streams as they were. -/
theorem kept_of_plan_error (hclosed : ∀ a d, Dependency.PointsAt g a d → g.Has d)
    (hwf : t.leak.ids.WF) {classUnload withLeak : Bool} {v : Violation}
    (h : t.plan g classUnload withLeak = .error v t') : Kept t t' := by
  rcases plan_stopped h with hm | ⟨-, s, classes, leak, hplan, hclasses, hprepare, -⟩
  · exact planMain_error hm
  · -- a write can be prepared for the classes that the pass has listed
    obtain ⟨p, leak', hprepare'⟩ : ∃ p leak, LeakStream.prepare g t.settings.bootstrapLoaderName
        t.epoch.generation classes t.leak = .ok p leak :=
      LeakStream.prepare_succeeds hwf hclosed (Pass.cls_of_mem_leakClasses hplan hclasses)
    rw [hprepare'] at hprepare
    cases hprepare

/-- What a pass writes entries for is in the graph, on both streams. -/
theorem has_of_mem_serializeEvents {settings : Settings} {H : History}
    (hrec : Recorded settings t H) (ha : a ∈ (t.serializeEvents g flags w).subjects)
    (hkind : a.kind ≠ .symbol) : g.Has a := by
  unfold serializeEvents at ha
  cases hc : t.commits? g flags w with
  | none =>
      rw [hc] at ha
      cases ha
  | some q =>
      obtain ⟨b, t', w'⟩ := q
      obtain ⟨hplan, -⟩ := serialize_committed hc
      obtain ⟨s, hp⟩ := plan_ok hplan
      rw [hc] at ha
      dsimp only at ha
      rw [History.subjects_append, History.subjects_append, List.mem_append, List.mem_append] at ha
      rcases ha with (ha | ha) | ha
      · -- the main segment
        obtain ⟨hs, -⟩ := Pass.planAll_ok (hrec.ready g flags.classUnload) hp.plan
        obtain ⟨header, l, hmem, ha⟩ := History.mem_subjects.mp ha
        cases Event.eq_of_mem_ofSegment hmem
        rw [hp.entries] at ha
        obtain ⟨-, -, -, -, i, -, hi, -⟩ := hs.recordOk ha hkind
        exact Option.isSome_iff_exists.mpr ⟨i, hi⟩
      · exact has_of_mem_leakEvents hplan ha
      · cases ha

end Pass

/-! ## The leak stream in a closed graph -/

section Leak

variable {settings : Settings} {H : History}

/-- As long as every graph is closed, the leak stream agrees with the history also behind a
violation. -/
theorem leakLedger_serialize {σ τ : Type} [Sink σ] [Sink τ]
    (h : LeakLedger settings.retainLeakRecords t.leak H)
    (hclosed : ∀ a d, Dependency.PointsAt g a d → g.Has d) (flags : PassFlags) (w : Sinks σ τ) :
    LeakLedger settings.retainLeakRecords (t.serialize g flags w).types.leak
      (H ++ t.serializeEvents g flags w) := by
  have hkept {t' : TypeSet} (hk : Kept t t') : LeakLedger settings.retainLeakRecords t'.leak H :=
    h.similar hk.leakIds hk.retain hk.retained
  cases hc : t.commits? g flags w with
  | none =>
      unfold serializeEvents
      rw [hc, List.append_nil]
      rcases serialize_stopped hc with
        ⟨-, heq⟩ | ⟨v, t', hplan, heq⟩ | ⟨b, t', e, w', hplan, -, heq⟩
      · rw [heq]
        exact h
      · rw [heq]
        have := hkept (kept_of_plan_error hclosed h.ids.wf hplan)
        exact this
      · rw [heq]
        obtain ⟨s, hplanned⟩ := plan_ok hplan
        have := hkept hplanned.rollback
        exact this
  | some q =>
      -- nothing was violated, before or in the call
      obtain ⟨b, t', w'⟩ := q
      obtain ⟨hplan, bytes, -, heq⟩ := serialize_committed hc
      obtain ⟨s, hplanned⟩ := plan_ok hplan
      have hp := not_isPoisoned_of_commits hc
      apply ((LeakRecorded.of_ledger h).serialize g flags w).sound
      rw [isPoisoned, heq, poisoned_finishPass, hplanned.types]
      exact hp

theorem leakLedger_captureUnloading {σ : Type} [Sink σ]
    (h : LeakLedger settings.retainLeakRecords t.leak H) (g : MetadataGraph) (w : σ) :
    LeakLedger settings.retainLeakRecords (t.captureUnloading g w).types.leak
      (H ++ t.captureEvents g w) := by
  cases hc : t.captures? g w with
  | none =>
      unfold captureEvents
      rw [hc, List.append_nil]
      have hu := undone_of_captureUnloading_stopped hc
      exact h.similar hu.leakIds hu.retain hu.retained
  | some q =>
      obtain ⟨l, r⟩ := q
      obtain ⟨-, -, n, w', -, heq⟩ := captureUnloading_committed hc
      have hp := not_isPoisoned_of_captures hc
      apply ((LeakRecorded.of_ledger h).captureUnloading g w).sound
      rw [isPoisoned, heq]
      show ¬ (forgetClasses _ _ _).poisoned.isSome = true
      rw [poisoned_forgetClasses]
      exact hp

/-- A pass makes known only what it writes, whatever becomes of it. -/
theorem Knows.of_serialize {σ τ : Type} [Sink σ] [Sink τ] (hrun : Run settings t H)
    (hleak : LeakLedger settings.retainLeakRecords t.leak H)
    (hclosed : ∀ a d, Dependency.PointsAt g a d → g.Has d) {flags : PassFlags} {w : Sinks σ τ}
    (h : (t.serialize g flags w).types.Knows a) :
    t.Knows a ∨ a ∈ (t.serializeEvents g flags w).subjects := by
  have hrun' := hrun.serialize g flags w
  have hleak' := leakLedger_serialize hleak hclosed flags w
  cases h with
  | id h => exact (hrun.recorded.ids.known_append hrun'.recorded.ids h).imp_left .id
  | @mark _ m h =>
      by_cases hm : m = .serialized
      · subst hm
        exact (hrun.recorded.marks.marked_append hrun'.recorded.marks h).imp_left .mark
      · exact .inl (.mark (has_serialize hm h))
  | leakId h =>
      have hids' := hleak'.ids
      rw [History.swap_append] at hids'
      have h := hleak.ids.known_append hids' h
      rw [History.subjects_swap] at h
      exact h.imp_left .leakId

end Leak

end TypeSet

end TraceTypes
