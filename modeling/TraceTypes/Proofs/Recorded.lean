import TraceTypes.Proofs.Calls
import TraceTypes.Proofs.IdLedger
import TraceTypes.Proofs.MarkLedger
import TraceTypes.Proofs.PassContent
/-!
# The invariant of runs

`Recorded` puts the two ledgers together and is kept by every call of a run,
also by calls that fail (`Run.recorded`). It gives a pass all that it relies on
(`Recorded.ready`).
-/

namespace TraceTypes

open TypeSet History

/-- Every class with a last record was forgotten behind it. -/
def History.CapturesForgotten (H : History) : Prop :=
  ∀ i header e a, H.MainAt i header e → header.kind = .classUnload → e.subject = some a →
    H.ForgottenAfter i a

namespace History.CapturesForgotten

variable {H : History}

/-- A later event leaves captured classes forgotten. -/
theorem snoc {event : Event} (h : H.CapturesForgotten)
    (hevent : ∀ header l, event = .committed header l → header.kind ≠ .classUnload) :
    CapturesForgotten (H ++ [event]) := by
  intro i header e a hi hkind hsub
  rcases mainAt_snoc.mp hi with hi | ⟨-, l, heq, -, -⟩
  · exact forgottenAfter_snoc.mpr (.inl (h i header e a hi hkind hsub))
  · exact absurd hkind (hevent header l heq)

/-- A capture forgets what it has committed. -/
theorem capture {header : Header} {l : List Entry} {forgotten : List Artifact}
    (h : H.CapturesForgotten) (hmain : header.kind ≠ .leakProfiler)
    (hl : ∀ a ∈ Entry.subjects l, a ∈ forgotten) :
    CapturesForgotten (H ++ [.committed header l] ++ [.forgotten forgotten]) := by
  intro i k e a hi hkind hsub
  rw [mainAt_snoc_forgotten] at hi
  rw [forgottenAfter_snoc_forgotten hi.lt_length, forgottenAfter_snoc_committed]
  rcases (mainAt_snoc_committed hmain).mp hi with hi | ⟨-, -, he⟩
  · exact .inl (h i k e a hi hkind hsub)
  · exact .inr (hl a (Entry.mem_subjects.mpr ⟨e, he, hsub⟩))

end History.CapturesForgotten

/-- A state and its history agree on ids and marks, and captured classes are forgotten. -/
structure Recorded (settings : Settings) (t : TypeSet) (H : History) : Prop where
  settings : t.settings = settings
  ids : IdLedger t.registries H
  marks : MarkLedger (fun a => t.marks.isSerialized a = true) t.symbols t.epochs.generation
    (t.bootstrapWritten = true) H
  captures : H.CapturesForgotten

namespace Recorded

variable {settings : Settings} {t t' : TypeSet} {H : History}

theorem create (settings : Settings) : Recorded settings (.create settings) [] where
  settings := rfl
  ids := .empty
  marks := .empty (fun a => by simp [TypeSet.create, MarkTable.has, MarkTable.marks,
    MarkTable.slot?]) (by simp [TypeSet.create]) _ _
  captures _ _ _ _ h := absurd h.lt_length (Nat.not_lt_zero _)

/-- A call that leaves the main stream as it was. -/
theorem kept (h : Recorded settings t H) (hk : MainKept t t') : Recorded settings t' H where
  settings := hk.settings.trans h.settings
  ids := h.ids.similar hk.registries
  marks := by
    rw [hk.epochs, hk.marks]
    exact h.marks.of_iff (fun _ => Iff.rfl) hk.symbols (by rw [hk.bootstrapWritten])
  captures := h.captures

/-- A call that changes tags only. -/
theorem tagged (h : Recorded settings t H) (marks : MarkTable)
    (hm : ∀ a, marks.isSerialized a = t.marks.isSerialized a) :
    Recorded settings { t with marks := marks } H where
  settings := h.settings
  ids := h.ids
  marks := h.marks.of_iff (fun a => by rw [hm a]) List.prefix_rfl Iff.rfl
  captures := h.captures

theorem rotate (h : Recorded settings t H) : Recorded settings t.rotate (H ++ [.rotated]) where
  settings := h.settings
  ids := (h.ids.idle (by simp) (by simp)).of_eq (fun _ => rfl) h.ids.wf.purge (Nat.le_refl _)
  marks := h.marks.rotate (fun a => by
    show ¬ MarkTable.has _ _ _ = true
    rw [TypeSet.rotate, MarkTable.has_lowerAll, if_pos rfl]
    simp) (by simp [TypeSet.rotate])
  captures := h.captures.snoc (by simp)

/-- What a pass relies on. -/
theorem ready (h : Recorded settings t H) (g : MetadataGraph) (classUnload : Bool) :
    Pass.Ready (t.scope g classUnload) t.registries t.symbols where
  wf := h.ids.wf
  -- a mark comes from an entry, and the entry has its id from the registries and its text from
  -- the symbols
  registered a ha := by
    obtain ⟨i, header, e, hi, hsub, hnot⟩ := (h.marks.marked_iff a).mp ha
    exact ⟨_, h.ids.live i header e a hi.1 hsub hnot⟩
  interned n hn := by
    obtain ⟨i, header, e, hi, hsub, -⟩ := (h.marks.marked_iff _).mp hn
    obtain ⟨id, text, -, htext⟩ := (h.marks.shaped i header e hi.1 hi.2.1).symbol n hsub
    exact ⟨text, htext⟩

end Recorded

/-! ## A pass -/

section Pass

variable {settings : Settings} {t t' t'' : TypeSet} {H : History} {g : MetadataGraph}
  {classUnload : Bool} {b : Batch} {s : Pass}

/-- The entries of a planned pass have the shape that the ledger asks for. -/
theorem Pass.Inv.shaped {c : PassScope} {r : Registries} {y : SymbolTable} (hs : s.Inv c r y []) :
    ∀ e ∈ s.entries, e.Shaped s.symbols := by
  intro e he
  refine ⟨fun a hsub => (hs.ids e he a hsub).2, fun n hsub => ?_, fun hsub => ?_⟩
  · obtain ⟨id, text, hrec, htext, -⟩ := hs.symbols e he n hsub
    exact ⟨id, text, hrec, htext⟩
  · obtain ⟨-, name, -, hrec, -⟩ := hs.bootstrapOk he hsub
    exact ⟨name, hrec⟩

/-- The ids of a planned pass are those that its entries are written under. -/
theorem Pass.Inv.enrolled {c : PassScope} {r : Registries} {y : SymbolTable}
    (hs : s.Inv c r y []) (hwf : r.WF) : Enrolled r s.registries s.fresh s.entries where
  registries := hs.grown.registries
  wf := hs.grown.wf hwf
  ids e he a hsub := (hs.ids e he a hsub).1
  fresh a ha := (hs.fresh a ha).resolve_right List.not_mem_nil
  bootstrap e he hsub := by
    obtain ⟨name, hrec⟩ := (hs.shaped e he).bootstrap hsub
    rw [hrec]
    rfl

/-- The main segment of a pass, in the history that ends with it: the ids and marks are those behind
the plan, before anything is forgotten. -/
theorem Recorded.planned (h : Recorded settings t H) (hp : Planned t g classUnload b t' s)
    (header : Header) (hkind : header.kind = .typeSet)
    (hgen : header.generation = t.epochs.generation) :
    IdLedger t'.registries (H ++ Event.ofSegment header b.entries) ∧
    MarkLedger (fun a => t.marks.isSerialized a = true ∨ a ∈ b.emitted) t'.symbols
      t.epochs.generation (t.bootstrapWritten = true ∨ b.bootstrapEmitted = true)
      (H ++ Event.ofSegment header b.entries) ∧
    CapturesForgotten (H ++ Event.ofSegment header b.entries) := by
  obtain ⟨hs, -⟩ := Pass.planAll_ok (h.ready g classUnload) hp.plan
  have hregistries : t'.registries = s.registries := by rw [hp.types]; rfl
  have hsymbols : t'.symbols = s.symbols := by rw [hp.types]; rfl
  rw [hregistries, hsymbols, Batch.emitted, hp.entries, hp.bootstrapEmitted]
  refine ⟨h.ids.commit_ofSegment (hs.enrolled h.ids.wf) (by simp [hkind]), ?_⟩
  unfold Event.ofSegment
  split
  · -- without entries there is no event
    rename_i hempty
    have hnil := List.isEmpty_iff.mp hempty
    rw [List.append_nil]
    refine ⟨h.marks.of_iff (fun a => ?_) hs.grown.texts ?_, h.captures⟩
    · rw [hnil]
      exact or_iff_left List.not_mem_nil
    · rw [hs.bootstrapEmitted_iff, hnil]
      simp
  · refine ⟨?_, h.captures.snoc ?_⟩
    · exact h.marks.commit hkind hgen hs.grown.texts hs.shaped (fun _ => Iff.rfl)
        (by rw [hs.bootstrapEmitted_iff])
    · rintro _ _ heq
      cases heq
      simp [hkind]

/-- The leak segment of a pass has no part in the ledgers. -/
theorem ledgers_leakEvents {r : Registries} {marked : Artifact → Prop} {y : SymbolTable}
    {generation : Nat} {bootstrap : Prop} {σ τ : Type} [Sink τ] (hids : IdLedger r H)
    (hmarks : MarkLedger marked y generation bootstrap H) (hcaptures : H.CapturesForgotten)
    (t : TypeSet) (flags : PassFlags) (b : Batch) (w : Sinks σ τ) :
    IdLedger r (H ++ t.leakEvents flags b w) ∧
      MarkLedger marked y generation bootstrap (H ++ t.leakEvents flags b w) ∧
      CapturesForgotten (H ++ t.leakEvents flags b w) := by
  rcases leakEvents_cases t flags b w with hnil | ⟨p, header, -, hkind, hone⟩
  · rw [hnil, List.append_nil]
    exact ⟨hids, hmarks, hcaptures⟩
  · rw [hone]
    refine ⟨hids.idle ?_ (by simp), hmarks.idle (by rw [hkind]; simp), hcaptures.snoc ?_⟩
    · rintro _ _ heq
      cases heq
      exact hkind
    · rintro _ _ heq
      cases heq
      rw [hkind]
      simp

theorem Recorded.serialize {σ τ : Type} [Sink σ] [Sink τ] (h : Recorded settings t H)
    (g : MetadataGraph) (flags : PassFlags) (w : Sinks σ τ) :
    Recorded settings (t.serialize g flags w).types (H ++ t.serializeEvents g flags w) := by
  unfold serializeEvents
  cases hc : t.commits? g flags w with
  | none =>
      rw [List.append_nil]
      exact h.kept (mainKept_of_stopped hc)
  | some q =>
      obtain ⟨b, t', w'⟩ := q
      obtain ⟨hplan, bytes, -, heq⟩ := serialize_committed hc
      obtain ⟨s, hp⟩ := plan_ok hplan
      have hepochs : t'.epochs = t.epochs := by rw [hp.types]; rfl
      have hmarks := hp.marks
      have hsettings : t'.settings = t.settings := by rw [hp.types]; rfl
      have hboot : t'.bootstrapWritten = t.bootstrapWritten := by rw [hp.types]; rfl
      have hgen : (t'.passHeader flags).generation = t.epochs.generation := by rw [← hepochs]; rfl
      have hwritten := written_finishPass t' flags b bytes w'
      rw [← heq] at hwritten
      -- the three events of the pass, one after the other
      obtain ⟨hids, hledger, hcaptures⟩ := h.planned hp (t'.passHeader flags) rfl hgen
      obtain ⟨hids, hledger, hcaptures⟩ :=
        ledgers_leakEvents hids hledger hcaptures t' flags b w'
      dsimp only
      rw [← List.append_assoc, ← List.append_assoc]
      refine ⟨by rw [hwritten.settings, hsettings, h.settings], ?_, ?_,
        hcaptures.snoc (by simp)⟩
      · rw [hwritten.registries]
        exact hids.forget _
      · rw [hwritten.symbols, hwritten.epochs, hepochs, hwritten.bootstrapWritten, hboot]
        refine (hledger.forget _ fun a => ?_).of_iff (fun _ => Iff.rfl) List.prefix_rfl
          (by rw [Bool.or_eq_true])
        rw [hwritten.serialized, hmarks, and_comm]

end Pass

/-! ## A capture -/

section Capture

variable {settings : Settings} {t : TypeSet} {H : History} {σ : Type} [Sink σ]

/-- The ids of a capture are those that its entries are written under. -/
theorem UnloadCapture.Captured.enrolled {g : MetadataGraph} {name : String} {r r' : Registries}
    {l : List CapturedClass} (h : UnloadCapture.Captured g name r r' l) (hwf : r.WF) :
    Enrolled r r' (UnloadCapture.freshClasses l) (l.map captureEntry) where
  registries := h.registries
  wf := h.wf hwf
  ids e he a hsub := by
    obtain ⟨c, hc, rfl⟩ := List.mem_map.mp he
    cases hsub
    exact h.ids c hc
  fresh a ha := by
    obtain ⟨c, hc, rfl⟩ := List.mem_map.mp ha
    exact Entry.mem_subjects.mpr
      ⟨captureEntry c, List.mem_map.mpr ⟨c, (List.mem_filter.mp hc).1, rfl⟩, rfl⟩
  bootstrap e he hsub := by
    obtain ⟨c, -, rfl⟩ := List.mem_map.mp he
    cases hsub

/-- The segment of a capture, in the history that ends with it: the ids are those behind the
capture, before anything is forgotten. -/
theorem Recorded.captured {g : MetadataGraph} {name : String} {r : Registries}
    {l : List CapturedClass} (h : Recorded settings t H)
    (hcaptured : UnloadCapture.Captured g name t.registries r l) :
    IdLedger r (H ++ [.committed t.captureHeader (l.map captureEntry)]) :=
  h.ids.commit (hcaptured.enrolled h.ids.wf) (by simp [captureHeader])

theorem Recorded.captureUnloading (h : Recorded settings t H) (g : MetadataGraph) (w : σ) :
    Recorded settings (t.captureUnloading g w).types (H ++ t.captureEvents g w) := by
  unfold captureEvents
  cases hc : t.captures? g w with
  | none =>
      rw [List.append_nil]
      exact h.kept (mainKept_of_captureUnloading_stopped hc)
  | some q =>
      obtain ⟨l, r⟩ := q
      obtain ⟨hcapture, -, n, w', -, heq⟩ := captureUnloading_committed hc
      obtain ⟨hcaptured, -⟩ := UnloadCapture.capture_ok hcapture
      have hforgot := forgot_forgetClasses (fun t n => t.methodsOf g n) { t with registries := r }
        (l.map CapturedClass.handle)
      dsimp only
      rw [heq, List.append_cons]
      generalize hl : forgottenBy (fun t n => t.methodsOf g n) { t with registries := r }
        (l.map CapturedClass.handle) = forgotten at hforgot
      refine ⟨?_, ?_, ?_, ?_⟩
      · exact hforgot.settings.trans h.settings
      · show IdLedger (forgetClasses _ _ _).registries _
        rw [hforgot.registries]
        exact (h.captured hcaptured).forget _
      · show MarkLedger _ (forgetClasses _ _ _).symbols (forgetClasses _ _ _).epochs.generation
          ((forgetClasses _ _ _).bootstrapWritten = true) _
        rw [hforgot.symbols, hforgot.epochs, hforgot.bootstrapWritten]
        refine (h.marks.idle (by simp [captureHeader])).forget _ ?_
        intro a
        show MarkTable.has (forgetClasses _ _ _).marks _ _ = true ↔ _
        rw [hforgot.marks]
        by_cases ha : a ∈ forgotten <;> simp [ha]
      · refine h.captures.capture (by simp [captureHeader]) ?_
        intro a ha
        obtain ⟨e, he, hsub⟩ := Entry.mem_subjects.mp ha
        obtain ⟨c, hc, rfl⟩ := List.mem_map.mp he
        cases hsub
        rw [← hl]
        exact (cls_mem_forgottenBy _ _).mpr (List.mem_map.mpr ⟨c, hc, rfl⟩)

end Capture

/-- Every state that a run reaches agrees with the history of the run. -/
theorem Run.recorded {settings : Settings} {t : TypeSet} {H : History} (h : Run settings t H) :
    Recorded settings t H := by
  induction h with
  | create => exact .create settings
  | tag a _ ih =>
      refine ih.tagged _ ?_
      intro b
      show MarkTable.has _ _ _ = _
      rw [MarkTable.has_raise, if_neg fun h => by cases h.2]
  | tagLeak n _ ih =>
      refine ih.tagged _ ?_
      intro b
      show MarkTable.has _ _ _ = _
      rw [MarkTable.has_raise, if_neg fun h => by cases h.2]
  | @clear t _ _ ih =>
      have := ih.tagged (t.marks.lowerAll .referenced) fun b => by
        show MarkTable.has _ _ _ = _
        rw [MarkTable.has_lowerAll, if_neg (by simp)]
      exact ⟨this.settings, this.ids, this.marks, this.captures⟩
  | rotate _ ih => exact ih.rotate
  | serialize g flags w _ ih => exact ih.serialize g flags w
  | captureUnloading g w _ ih => exact ih.captureUnloading g w

/-! ## The contract of ids -/

/-- An artifact with an id has a record under it in a type-set segment, and was not forgotten
since. -/
theorem Run.written_of_id {settings : Settings} {t : TypeSet} {H : History} (h : Run settings t H)
    {a : Artifact} {id : TraceId} (ha : t.id? a = some id) :
    ∃ i header e, H.MainAt i header e ∧ header.kind = .typeSet ∧ e.subject = some a ∧
      e.record.id = id ∧ ¬ H.ForgottenAfter i a := by
  have hr := h.recorded
  obtain ⟨i, header, e, hi, hsub, hnot⟩ := hr.ids.known a id ha
  have hlive := hr.ids.live i header e a hi hsub hnot
  have ⟨_, _, hmain, _⟩ := hi
  refine ⟨i, header, e, hi, ?_, hsub, Option.some.inj (hlive.symm.trans ha), hnot⟩
  -- a captured class is forgotten, and the leak stream has no part in this
  cases hkind : header.kind with
  | typeSet => rfl
  | classUnload => exact absurd (hr.captures i header e a hi hkind hsub) hnot
  | leakProfiler => exact absurd hkind hmain

/-- Over any run, whatever fails in it: an id other than that of the bootstrap loader is used for
one artifact only between two forgettings of it; an artifact keeps its id until it is forgotten;
and the artifacts with an id are those that some type-set segment has a record for and that were
not forgotten since, their ids being those of the records. -/
theorem Run.id_contract {settings : Settings} {t : TypeSet} {H : History} (h : Run settings t H) :
    (∀ i j header header' e e', i ≤ j → H.MainAt i header e → H.MainAt j header' e' →
      e.record.id = e'.record.id → e.record.id ≠ bootstrapId →
      ∃ a, e.subject = some a ∧ e'.subject = some a ∧ ¬ H.ForgottenBetween i j a) ∧
    (∀ i j header header' e e' a, i ≤ j → H.MainAt i header e → H.MainAt j header' e' →
      e.subject = some a → e'.subject = some a → ¬ H.ForgottenBetween i j a →
      e.record.id = e'.record.id) ∧
    (∀ a id, t.id? a = some id ↔ ∃ i header e, H.MainAt i header e ∧ header.kind = .typeSet ∧
      e.subject = some a ∧ e.record.id = id ∧ ¬ H.ForgottenAfter i a) := by
  have hr := h.recorded
  refine ⟨hr.ids.unique, hr.ids.same, ?_⟩
  intro a id
  constructor
  · exact h.written_of_id
  · rintro ⟨i, header, e, hi, -, hsub, rfl, hnot⟩
    exact hr.ids.live i header e a hi hsub hnot

/-- The class written in the first pass has the id of its record. -/
theorem id_contract_after_pass : sampleNext.id? (.cls 1) = some 3 ∧
    ∃ i header e,
      (sampleTypes.serializeEvents sampleGraph {} sampleLog).MainAt i header e ∧
      header.kind = .typeSet ∧ e.subject = some (.cls 1) ∧ e.record.id = 3 ∧
      ¬ (sampleTypes.serializeEvents sampleGraph {} sampleLog).ForgottenAfter i (.cls 1) := by
  have hid : sampleNext.id? (.cls 1) = some 3 := by decide +kernel
  exact ⟨hid, (run_sampleNext.id_contract.2.2 (.cls 1) 3).mp hid⟩

end TraceTypes
