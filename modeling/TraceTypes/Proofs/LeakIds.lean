import TraceTypes.Proofs.Retention
/-!
# Ids on the leak stream over a history

The ledger of the leak stream is the ledger of ids for the history with the two
streams swapped. This module reads it back for the history as it is:

* `History.leakAt_of_swap`, `History.forgottenAfter_swap` — an entry of a main
  segment of the swapped history is one of a leak segment, and the same is
  forgotten on both sides;
* `Run.ofLeakClass_of_leakAt` — what a run writes to the leak stream are classes;
* `Run.leak_id_contract` — an id names one class between two forgettings, a class
  keeps its id until it is forgotten, and the ids in use are those written.
-/

namespace TraceTypes

namespace History

variable {H : History} {i j : Nat} {header : Header} {e : Entry} {a : Artifact}

/-- Only leak segments become main segments when the streams are swapped. -/
theorem leakAt_of_swap (h : H.swap.MainAt i header e) : ∃ k, H.LeakAt i k e := by
  obtain ⟨l, hl, hkind, he⟩ := h
  rw [getElem?_swap, Option.map_eq_some_iff] at hl
  obtain ⟨event, hget, hevent⟩ := hl
  cases event with
  | rotated => cases hevent
  | forgotten l => cases hevent
  | committed k l =>
      cases hevent
      refine ⟨k, l, hget, ?_, he⟩
      cases hk : k.kind with
      | leakProfiler => rfl
      | typeSet | classUnload => simp [hk, SegmentKind.swap] at hkind

/-- The same artifacts are forgotten with the streams swapped. -/
theorem getElem?_swap_forgotten {l : List Artifact} :
    H.swap[i]? = some (.forgotten l) ↔ H[i]? = some (.forgotten l) := by
  rw [getElem?_swap, Option.map_eq_some_iff]
  constructor
  · rintro ⟨event, hget, hevent⟩
    cases event with
    | rotated => cases hevent
    | committed k l => cases hevent
    | forgotten l => exact hevent ▸ hget
  · intro hget
    exact ⟨_, hget, rfl⟩

theorem forgottenAfter_swap : H.swap.ForgottenAfter i a ↔ H.ForgottenAfter i a := by
  unfold ForgottenAfter
  simp only [getElem?_swap_forgotten]

theorem forgottenBetween_swap : H.swap.ForgottenBetween i j a ↔ H.ForgottenBetween i j a := by
  unfold ForgottenBetween
  simp only [getElem?_swap_forgotten]

end History

/-! ## What is written to the leak stream -/

/-- The entry of a class on the leak stream. -/
def Entry.OfLeakClass (e : Entry) : Prop := ∃ n x, e = ⟨some (.cls n), LeakEntry.record x⟩

namespace TypeSet

variable {σ τ : Type} [Sink σ] [Sink τ]

/-- The leak segment of a pass has entries of classes only. -/
theorem ofLeakClass_of_mem_serializeEvents {t : TypeSet} {g : MetadataGraph} {flags : PassFlags}
    {w : Sinks σ τ} {header : Header} {l : List Entry}
    (h : .committed header l ∈ t.serializeEvents g flags w) (hkind : header.kind = .leakProfiler) :
    ∀ e ∈ l, e.OfLeakClass := by
  obtain ⟨b, t', w', -, heq | ⟨p, k, -, -, heq⟩ | heq⟩ := mem_serializeEvents h
  · cases heq
    cases hkind
  · cases heq
    intro e he
    unfold leakEntries at he
    rw [← List.map_uncurry_zip_eq_zipWith] at he
    obtain ⟨⟨n, x⟩, -, rfl⟩ := List.mem_map.mp he
    exact ⟨n, x, rfl⟩
  · cases heq

/-- A capture writes to the main stream only. -/
theorem kind_of_mem_captureEvents {t : TypeSet} {g : MetadataGraph} {w : σ} {header : Header}
    {l : List Entry} (h : .committed header l ∈ t.captureEvents g w) :
    header.kind = .classUnload := by
  unfold captureEvents at h
  split at h
  · cases h
  · rcases List.mem_cons.mp h with h | h
    · cases h
      rfl
    · cases List.mem_singleton.mp h

end TypeSet

namespace Run

variable {settings : Settings} {t : TypeSet} {H : History}

/-- All that a run writes to the leak stream are records of classes. -/
theorem ofLeakClass_of_leakAt (h : Run settings t H) {i : Nat} {header : Header} {e : Entry}
    (hi : H.LeakAt i header e) : e.OfLeakClass := by
  have hall : ∀ header l, .committed header l ∈ H → header.kind = .leakProfiler →
      ∀ e ∈ l, e.OfLeakClass := by
    clear hi
    induction h with
    | create =>
        intro _ _ hmem
        cases hmem
    | tag _ _ ih | tagLeak _ _ ih | clear _ ih => exact ih
    | rotate _ ih =>
        intro header l hmem hkind
        rcases List.mem_append.mp hmem with hmem | hmem
        · exact ih header l hmem hkind
        · cases List.mem_singleton.mp hmem
    | serialize g flags w _ ih =>
        intro header l hmem hkind
        rcases List.mem_append.mp hmem with hmem | hmem
        · exact ih header l hmem hkind
        · exact TypeSet.ofLeakClass_of_mem_serializeEvents hmem hkind
    | captureUnloading g w _ ih =>
        intro header l hmem hkind
        rcases List.mem_append.mp hmem with hmem | hmem
        · exact ih header l hmem hkind
        · rw [TypeSet.kind_of_mem_captureEvents hmem] at hkind
          cases hkind
  obtain ⟨l, hget, hkind, he⟩ := hi
  exact hall header l (List.mem_of_getElem? hget) hkind e he

/-- Whatever violation a run met, ids on the leak stream are used over its history as a ledger of
ids has it. -/
theorem leakIdLedger (h : Run settings t H) : ∃ r, IdLedger r H.swap := by
  obtain ⟨s, hs, -⟩ := h.leakRecorded.ledger
  exact ⟨s.ids, hs.ids⟩

/-! ## The contract of leak ids -/

/-- Over any run, whatever fails in it: the leak segments have records of classes; an id is used
there for one class only between two forgettings of it; a class keeps its id until it is
forgotten; and unless a violation was met, the classes with a leak id are those that some leak
segment has a record for and that were not forgotten since, their ids being those of the
records. -/
theorem leak_id_contract (h : Run settings t H) :
    (∀ i header e, H.LeakAt i header e →
      ∃ n id name loader, e = ⟨some (.cls n), .leakClass id name loader⟩) ∧
    (∀ i j header header' e e', i ≤ j → H.LeakAt i header e → H.LeakAt j header' e' →
      e.record.id = e'.record.id →
      ∃ n, e.subject = some (.cls n) ∧ e'.subject = some (.cls n) ∧
        ¬ H.ForgottenBetween i j (.cls n)) ∧
    (∀ i j header header' e e' n, i ≤ j → H.LeakAt i header e → H.LeakAt j header' e' →
      e.subject = some (.cls n) → e'.subject = some (.cls n) →
      ¬ H.ForgottenBetween i j (.cls n) → e.record.id = e'.record.id) ∧
    (t.isPoisoned = false → ∀ n id, t.leakId? n = some id ↔
      ∃ i header e, H.LeakAt i header e ∧ e.subject = some (.cls n) ∧ e.record.id = id ∧
        ¬ H.ForgottenAfter i (.cls n)) := by
  obtain ⟨r, hr⟩ := h.leakIdLedger
  refine ⟨?_, ?_, ?_, ?_⟩
  · intro i header e hi
    obtain ⟨n, x, rfl⟩ := h.ofLeakClass_of_leakAt hi
    exact ⟨n, x.id, x.name, x.loaderName, rfl⟩
  · intro i j header header' e e' hij hi hj heq
    obtain ⟨n, x, rfl⟩ := h.ofLeakClass_of_leakAt hi
    -- the id of the bootstrap loader is not used on this stream
    have hne := (hr.used i _ _ (.cls n) hi.swap rfl).1
    obtain ⟨a, ha, ha', hnot⟩ := hr.unique i j _ _ _ _ hij hi.swap hj.swap heq hne
    cases ha
    exact ⟨n, rfl, ha', fun hf => hnot (History.forgottenBetween_swap.mpr hf)⟩
  · intro i j header header' e e' n hij hi hj hsub hsub' hnot
    exact hr.same i j _ _ e e' _ hij hi.swap hj.swap hsub hsub' fun hf =>
      hnot (History.forgottenBetween_swap.mp hf)
  · intro hp n id
    have hids := (h.leakRecorded.sound (by simp [hp])).ids
    constructor
    · intro hid
      obtain ⟨i, header, e, hi, hsub, hnot⟩ := hids.known (.cls n) id hid
      have hlive := hids.live i header e (.cls n) hi hsub hnot
      obtain ⟨k, hk⟩ := History.leakAt_of_swap hi
      refine ⟨i, k, e, hk, hsub, ?_, fun hf => hnot (History.forgottenAfter_swap.mpr hf)⟩
      exact Option.some.inj (hlive.symm.trans hid)
    · rintro ⟨i, header, e, hi, hsub, rfl, hnot⟩
      exact hids.live i _ e (.cls n) hi.swap hsub fun hf =>
        hnot (History.forgottenAfter_swap.mp hf)

end Run

/-- A class that is written in two epochs keeps its leak id, which a committed record has. -/
theorem leak_id_contract_rotated :
    (sampleRotated.serialize sampleRenamed {} sampleLogs).types.leakId? 1 = some 1 ∧
    ∃ i header e, sampleHistory.LeakAt i header e ∧ e.subject = some (.cls 1) ∧
      e.record.id = 1 ∧ ¬ sampleHistory.ForgottenAfter i (.cls 1) := by
  have hid : (sampleRotated.serialize sampleRenamed {} sampleLogs).types.leakId? 1 = some 1 := by
    decide +kernel
  have hp : (sampleRotated.serialize sampleRenamed {} sampleLogs).types.isPoisoned = false := by
    decide +kernel
  exact ⟨hid, (run_sampleHistory.leak_id_contract.2.2.2 hp 1 1).mp hid⟩

end TraceTypes
