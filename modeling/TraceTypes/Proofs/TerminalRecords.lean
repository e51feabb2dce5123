import TraceTypes.Proofs.CommittedContent
import TraceTypes.Proofs.Unloaded
/-!
# The last records of a class

A class has two ways to go. A pass for unloading writes it with the unloading
marker, and a capture writes its last record; either of them is a terminal
record, and the class is forgotten with its id before anything else is written
on the main stream (`History.Bracketed`).

So a last record has the id of an earlier record of the class unless the class
has had a terminal record in between (`Run.last_record_id`). Within one
safepoint that can happen: the runtime still has the class, but its id is gone.
-/

namespace TraceTypes

open TypeSet

/-- The entry is the last that is written of its artifact under its id: a record of a capture, or
one with the unloading marker. -/
def Entry.Terminal (header : Header) (e : Entry) : Prop :=
  header.kind = .classUnload ∨ e.record.saysUnloading = true

namespace History

variable {H E : History} {i j k m : Nat} {n : Handle} {header : Header} {e : Entry}

/-- The class has a terminal record at or behind the `i`-th event and before the `j`-th. -/
def TerminalIn (H : History) (i j : Nat) (n : Handle) : Prop :=
  ∃ k header e, i ≤ k ∧ k < j ∧ H.MainAt k header e ∧ e.Terminal header ∧
    e.subject = some (.cls n)

/-- The `k`-th event has a terminal record of the class, and the `m`-th forgets the class, before
anything else is written on the main stream. -/
structure Closes (H : History) (k m : Nat) (n : Handle) : Prop where
  lt : k < m
  terminal : ∃ header e, H.MainAt k header e ∧ e.Terminal header ∧ e.subject = some (.cls n)
  forgotten : ∃ l, H[m]? = some (.forgotten l) ∧ .cls n ∈ l
  quiet : ∀ i header e, k < i → i < m → ¬ H.MainAt i header e

/-- Classes are forgotten behind their terminal records, and only there. -/
structure Bracketed (H : History) : Prop where
  forgotten : ∀ m l n, H[m]? = some (.forgotten l) → .cls n ∈ l → ∃ k, H.Closes k m n
  terminal : ∀ k header e n, H.MainAt k header e → e.Terminal header →
    e.subject = some (.cls n) → ∃ m, H.Closes k m n

/-! ## Histories behind each other -/

theorem mainAt_append_right : (H ++ E).MainAt (H.length + i) header e ↔ E.MainAt i header e := by
  unfold MainAt
  rw [List.getElem?_append_right (Nat.le_add_right ..), Nat.add_sub_cancel_left]

theorem Closes.append (h : H.Closes k m n) : (H ++ E).Closes k m n := by
  obtain ⟨l, hget, hmem⟩ := h.forgotten
  obtain ⟨header, e, hk, hterminal, hsub⟩ := h.terminal
  have hlt : m < H.length := (List.getElem?_eq_some_iff.mp hget).1
  refine ⟨h.lt, ⟨header, e, hk.append E, hterminal, hsub⟩, ⟨l, ?_, hmem⟩, ?_⟩
  · rw [List.getElem?_append_left hlt]
    exact hget
  · intro i header e hki him hi
    exact h.quiet i header e hki him ((mainAt_append E (Nat.lt_trans him hlt)).mp hi)

theorem Closes.append_right (h : E.Closes k m n) :
    (H ++ E).Closes (H.length + k) (H.length + m) n := by
  obtain ⟨l, hget, hmem⟩ := h.forgotten
  obtain ⟨header, e, hk, hterminal, hsub⟩ := h.terminal
  refine ⟨Nat.add_lt_add_left h.lt _,
    ⟨header, e, mainAt_append_right.mpr hk, hterminal, hsub⟩, ⟨l, ?_, hmem⟩, ?_⟩
  · rw [List.getElem?_append_right (Nat.le_add_right ..), Nat.add_sub_cancel_left]
    exact hget
  · intro i header e hki him hi
    obtain ⟨d, rfl⟩ : ∃ d, i = H.length + d := ⟨i - H.length, by omega⟩
    exact h.quiet d header e (by omega) (by omega) (mainAt_append_right.mp hi)

/-- What closes itself off can be put together. -/
theorem Bracketed.append (h : H.Bracketed) (hE : E.Bracketed) : (H ++ E).Bracketed := by
  constructor
  case forgotten =>
    intro m l n hget hmem
    by_cases hm : m < H.length
    · rw [List.getElem?_append_left hm] at hget
      obtain ⟨k, hk⟩ := h.forgotten m l n hget hmem
      exact ⟨k, hk.append⟩
    · obtain ⟨d, rfl⟩ : ∃ d, m = H.length + d := ⟨m - H.length, by omega⟩
      rw [List.getElem?_append_right (Nat.le_add_right ..), Nat.add_sub_cancel_left] at hget
      obtain ⟨k, hk⟩ := hE.forgotten d l n hget hmem
      exact ⟨_, hk.append_right⟩
  case terminal =>
    intro k header e n hk hterminal hsub
    by_cases hlt : k < H.length
    · obtain ⟨m, hm⟩ := h.terminal k header e n ((mainAt_append E hlt).mp hk) hterminal hsub
      exact ⟨m, hm.append⟩
    · obtain ⟨d, rfl⟩ : ∃ d, k = H.length + d := ⟨k - H.length, by omega⟩
      obtain ⟨m, hm⟩ := hE.terminal d header e n (mainAt_append_right.mp hk) hterminal hsub
      exact ⟨_, hm.append_right⟩

/-- Events that neither write on the main stream nor forget a class. -/
theorem bracketed_of_idle
    (hmain : ∀ header l, .committed header l ∈ E → header.kind = .leakProfiler)
    (hforgot : ∀ l n, .forgotten l ∈ E → .cls n ∉ l) : E.Bracketed where
  forgotten _ l n hget hmem := absurd hmem (hforgot l n (List.mem_of_getElem? hget))
  terminal _ header _ _ hk _ _ := by
    obtain ⟨l, hget, hkind, -⟩ := hk
    exact absurd (hmain header l (List.mem_of_getElem? hget)) hkind

/-- A main segment, then segments of the leak stream, then the classes with a terminal record are
forgotten. -/
theorem bracketed_call {header : Header} {l : List Entry} {forgotten : List Artifact}
    (hkind : header.kind ≠ .leakProfiler)
    (hleak : ∀ event ∈ E, ∃ k x, event = .committed k x ∧ k.kind = .leakProfiler)
    (hforgot : ∀ n, .cls n ∈ forgotten ↔
      ∃ e ∈ l, e.Terminal header ∧ e.subject = some (.cls n)) :
    Bracketed (.committed header l :: (E ++ [.forgotten forgotten])) := by
  -- only the first event is on the main stream
  have hquiet {i : Nat} {k : Header} {e : Entry}
      (hi : MainAt (.committed header l :: (E ++ [.forgotten forgotten])) i k e) : i = 0 := by
    obtain ⟨x, hget, hmain, -⟩ := hi
    cases i with
    | zero => rfl
    | succ i =>
        rw [List.getElem?_cons_succ] at hget
        rcases List.mem_append.mp (List.mem_of_getElem? hget) with hmem | hmem
        · obtain ⟨_, _, heq, hk⟩ := hleak _ hmem
          cases heq
          exact absurd hk hmain
        · cases List.mem_singleton.mp hmem
  have hfirst {k : Header} {e : Entry} :
      MainAt (.committed header l :: (E ++ [.forgotten forgotten])) 0 k e ↔
        k = header ∧ e ∈ l := by
    constructor
    · rintro ⟨x, hget, -, he⟩
      cases hget
      exact ⟨rfl, he⟩
    · rintro ⟨rfl, he⟩
      exact ⟨l, rfl, hkind, he⟩
  constructor
  case forgotten =>
    intro m f n hget hmem
    cases m with
    | zero => cases hget
    | succ m =>
        have hf : f = forgotten := by
          rw [List.getElem?_cons_succ] at hget
          rcases List.mem_append.mp (List.mem_of_getElem? hget) with hmem | hmem
          · obtain ⟨_, _, heq, -⟩ := hleak _ hmem
            cases heq
          · cases List.mem_singleton.mp hmem
            rfl
        subst hf
        obtain ⟨e, he, hterminal, hsub⟩ := (hforgot n).mp hmem
        refine ⟨0, Nat.succ_pos m, ⟨header, e, hfirst.mpr ⟨rfl, he⟩, hterminal, hsub⟩,
          ⟨f, hget, hmem⟩, ?_⟩
        intro i k e hi _ hmain
        exact absurd (hquiet hmain) (Nat.ne_of_gt hi)
  case terminal =>
    intro i k e n hi hterminal hsub
    obtain rfl := hquiet hi
    obtain ⟨rfl, he⟩ := hfirst.mp hi
    refine ⟨E.length + 1, Nat.succ_pos _, ⟨k, e, hi, hterminal, hsub⟩,
      ⟨forgotten, ?_, (hforgot n).mpr ⟨e, he, hterminal, hsub⟩⟩, ?_⟩
    · rw [List.getElem?_cons_succ, List.getElem?_append_right (Nat.le_refl _), Nat.sub_self]
      rfl
    · intro i k e hi _ hmain
      exact absurd (hquiet hmain) (Nat.ne_of_gt hi)

/-! ## Between two records -/

/-- Between two entries on the main stream a class is forgotten iff it has a terminal record
there, that of the first entry included. -/
theorem Bracketed.forgottenBetween_iff {header' : Header} {e' : Entry} (h : H.Bracketed)
    (hi : H.MainAt i header e) (hj : H.MainAt j header' e') :
    H.ForgottenBetween i j (.cls n) ↔ H.TerminalIn i j n := by
  constructor
  · rintro ⟨m, l, him, hmj, hget, hmem⟩
    obtain ⟨k, hk⟩ := h.forgotten m l n hget hmem
    obtain ⟨k', e', hmain, hterminal, hsub⟩ := hk.terminal
    refine ⟨k, k', e', ?_, Nat.lt_trans hk.lt hmj, hmain, hterminal, hsub⟩
    exact Nat.le_of_not_lt fun hki => hk.quiet i header e hki him hi
  · rintro ⟨k, k', x, hik, hkj, hmain, hterminal, hsub⟩
    obtain ⟨m, hm⟩ := h.terminal k k' x n hmain hterminal hsub
    obtain ⟨l, hget, hmem⟩ := hm.forgotten
    refine ⟨m, l, Nat.lt_of_le_of_lt hik hm.lt, ?_, hget, hmem⟩
    -- the later entry is not before the forgetting, and not at it
    rcases Nat.lt_trichotomy m j with hlt | rfl | hgt
    · exact hlt
    · obtain ⟨_, hget', -⟩ := hj
      rw [hget] at hget'
      cases hget'
    · exact absurd hj (hm.quiet j header' e' hkj hgt)

end History

/-! ## Runs are bracketed -/

namespace Run

open History

variable {settings : Settings} {t t' : TypeSet} {H : History} {g : MetadataGraph}

/-- A committed pass forgets the classes that it has written terminal records for. -/
theorem forgets_iff_terminal {σ τ : Type} [Sink σ] [Sink τ] {flags : PassFlags} {w w' : Sinks σ τ}
    {b : Batch} (h : Run settings t H) (hc : t.commits? g flags w = some (b, t', w')) (n : Handle) :
    .cls n ∈ forgottenBy registeredMethods t' b.unloading ↔
      ∃ e ∈ b.entries, e.Terminal (t'.passHeader flags) ∧ e.subject = some (.cls n) := by
  rw [cls_mem_forgottenBy, h.unloading_iff hc, Entry.mem_subjects]
  have hmarker := (h.content hc).unloading
  constructor
  · rintro ⟨hflag, hunloading, e, he, hsub⟩
    refine ⟨e, he, .inr ?_, hsub⟩
    rw [hmarker e he n hsub]
    exact Bool.and_eq_true_iff.mpr ⟨hflag, hunloading⟩
  · rintro ⟨e, he, hkind | hsays, hsub⟩
    · cases hkind
    · rw [hmarker e he n hsub] at hsays
      obtain ⟨hflag, hunloading⟩ := Bool.and_eq_true_iff.mp hsays
      exact ⟨hflag, hunloading, e, he, hsub⟩

/-- So its events are bracketed. -/
theorem bracketed_serializeEvents {σ τ : Type} [Sink σ] [Sink τ] (h : Run settings t H)
    (g : MetadataGraph) (flags : PassFlags) (w : Sinks σ τ) :
    (t.serializeEvents g flags w).Bracketed := by
  unfold serializeEvents
  cases hc : t.commits? g flags w with
  | none => exact bracketed_of_idle (fun _ _ hmem => nomatch hmem) fun _ _ hmem => nomatch hmem
  | some q =>
      obtain ⟨b, t', w'⟩ := q
      have hleak : ∀ event ∈ t'.leakEvents flags b w', ∃ k x, event = .committed k x ∧
          k.kind = .leakProfiler := by
        intro event hmem
        obtain ⟨p, header, -, hkind, heq⟩ := mem_leakEvents hmem
        exact ⟨_, _, heq, hkind⟩
      have hforgot := h.forgets_iff_terminal hc
      dsimp only
      unfold Event.ofSegment
      split
      · -- without entries there is nothing to forget
        rename_i hempty
        have hnil := List.isEmpty_iff.mp hempty
        refine bracketed_of_idle ?_ ?_
        · intro header l hmem
          rcases List.mem_append.mp hmem with hmem | hmem
          · obtain ⟨_, _, heq, hkind⟩ := hleak _ hmem
            cases heq
            exact hkind
          · cases List.mem_singleton.mp hmem
        · intro l n hmem hn
          rcases List.mem_append.mp hmem with hmem | hmem
          · obtain ⟨_, _, heq, -⟩ := hleak _ hmem
            cases heq
          · cases List.mem_singleton.mp hmem
            obtain ⟨e, he, -⟩ := (hforgot n).mp hn
            rw [hnil] at he
            cases he
      · exact bracketed_call (by simp [passHeader]) hleak hforgot

/-- A capture forgets the classes that it has captured. -/
theorem bracketed_captureEvents {σ : Type} [Sink σ] (t : TypeSet) (g : MetadataGraph) (w : σ) :
    (t.captureEvents g w).Bracketed := by
  unfold captureEvents
  split
  · exact bracketed_of_idle (fun _ _ hmem => nomatch hmem) fun _ _ hmem => nomatch hmem
  · rename_i l r _
    refine bracketed_call (E := []) (by simp [captureHeader]) (fun _ hmem => nomatch hmem) ?_
    intro n
    rw [cls_mem_forgottenBy, List.mem_map]
    constructor
    · rintro ⟨c, hc, rfl⟩
      exact ⟨captureEntry c, List.mem_map.mpr ⟨c, hc, rfl⟩, .inl rfl, rfl⟩
    · rintro ⟨e, he, -, hsub⟩
      obtain ⟨c, hc, rfl⟩ := List.mem_map.mp he
      cases hsub
      exact ⟨c, hc, rfl⟩

/-- Over any run, classes are forgotten behind their terminal records, and only there. -/
theorem bracketed (h : Run settings t H) : H.Bracketed := by
  induction h with
  | create => exact bracketed_of_idle (fun _ _ hmem => nomatch hmem) fun _ _ hmem => nomatch hmem
  | tag _ _ ih | tagLeak _ _ ih | clear _ ih => exact ih
  | rotate _ ih => exact ih.append (bracketed_of_idle (by simp) (by simp))
  | serialize g flags w h ih => exact ih.append (h.bracketed_serializeEvents g flags w)
  | captureUnloading g w _ ih => exact ih.append (bracketed_captureEvents _ g w)

/-! ## The id of a last record -/

/-- A record of a class, be it a last one or not, has the id of an earlier record of the class iff
the class had no terminal record from that one on. So it has an id that was never used iff each
earlier record of the class was terminal or had a terminal one behind it. -/
theorem class_record_id (h : Run settings t H) {j : Nat} {header : Header} {e : Entry} {n : Handle}
    (hj : H.MainAt j header e) (hsub : e.subject = some (.cls n)) :
    (∀ i header' e', i < j → H.MainAt i header' e' → header'.kind = .typeSet →
      e'.subject = some (.cls n) →
      (e.record.id = e'.record.id ↔ ¬ H.TerminalIn i j n)) ∧
    ((∀ i header' e', i < j → H.MainAt i header' e' → e'.record.id ≠ e.record.id) ↔
      ∀ i header' e', i < j → H.MainAt i header' e' → header'.kind = .typeSet →
        e'.subject = some (.cls n) → H.TerminalIn i j n) := by
  have hids := h.recorded.ids
  have hne : e.record.id ≠ bootstrapId := (hids.used j header e _ hj hsub).1
  have hsame : ∀ i header' e', i < j → H.MainAt i header' e' → header'.kind = .typeSet →
      e'.subject = some (.cls n) → (e.record.id = e'.record.id ↔ ¬ H.TerminalIn i j n) := by
    intro i header' e' hij hi _ hsub'
    rw [← h.bracketed.forgottenBetween_iff hi hj]
    constructor
    · intro heq
      obtain ⟨a, ha, -, hnot⟩ := hids.unique i j header' header e' e (Nat.le_of_lt hij) hi hj
        heq.symm (heq ▸ hne)
      rw [hsub'] at ha
      cases ha
      exact hnot
    · intro hnot
      exact (hids.same i j header' header e' e _ (Nat.le_of_lt hij) hi hj hsub' hsub hnot).symm
  refine ⟨hsame, ?_, ?_⟩
  · intro hfresh i header' e' hij hi hkind' hsub'
    refine Classical.byContradiction fun hnot => ?_
    exact hfresh i header' e' hij hi ((hsame i header' e' hij hi hkind' hsub').mpr hnot).symm
  · intro hall i header' e' hij hi heq
    -- an earlier entry with the id is one of the class, and has no terminal record from it on
    obtain ⟨a, hsub', ha, hnot⟩ := hids.unique i j header' header e' e (Nat.le_of_lt hij) hi hj
      heq (heq ▸ hne)
    rw [hsub] at ha
    cases ha
    rw [h.bracketed.forgottenBetween_iff hi hj] at hnot
    have ⟨_, _, hmain, _⟩ := hi
    cases hkind' : header'.kind with
    | typeSet => exact hnot (hall i header' e' hij hi hkind' hsub')
    | classUnload => exact hnot ⟨i, header', e', Nat.le_refl i, hij, hi, .inl hkind', hsub'⟩
    | leakProfiler => exact hmain hkind'

end Run

/-- The entries of a pass that commits stand at the first event of the call. -/
theorem History.mainAt_of_commits {t t' : TypeSet} {g : MetadataGraph} {flags : PassFlags}
    {σ τ : Type} [Sink σ] [Sink τ] {w w' : Sinks σ τ} {b : Batch} (H : History)
    (hc : t.commits? g flags w = some (b, t', w')) {e : Entry} (he : e ∈ b.entries) :
    (H ++ t.serializeEvents g flags w).MainAt H.length (t'.passHeader flags) e := by
  have hne : b.entries.isEmpty = false := by
    cases hl : b.entries with
    | nil =>
        rw [hl] at he
        cases he
    | cons => rfl
  refine ⟨b.entries, ?_, by simp [passHeader], he⟩
  unfold serializeEvents Event.ofSegment
  rw [hc]
  simp [hne]

/-- The entries of a capture that commits stand at the first event of the call. -/
theorem History.mainAt_of_captures {t : TypeSet} {g : MetadataGraph} {σ : Type} [Sink σ] {w : σ}
    {l : List CapturedClass} {r : Registries} (H : History)
    (hc : t.captures? g w = some (l, r)) {c : CapturedClass} (hmem : c ∈ l) :
    (H ++ t.captureEvents g w).MainAt H.length t.captureHeader (captureEntry c) := by
  refine ⟨l.map captureEntry, ?_, by simp [captureHeader], List.mem_map.mpr ⟨c, hmem, rfl⟩⟩
  unfold captureEvents
  rw [hc]
  simp

/-- The class of the first pass keeps its id up to its last record. -/
theorem class_record_id_captured :
    let H := sampleTypes.serializeEvents sampleGraph {} sampleLog
    let H' := H ++ sampleNext.captureEvents sampleUnloading ({} : SegmentLog)
    ∃ header e header' e', H'.MainAt 0 header e ∧ e.subject = some (.cls 1) ∧ e.record.id = 3 ∧
      H'.MainAt H.length header' e' ∧ header'.kind = .classUnload ∧
      e'.subject = some (.cls 1) ∧ e'.record.id = 3 ∧ ¬ H'.TerminalIn 0 H.length 1 := by
  obtain ⟨⟨b, t', w'⟩, hc, e, he, hsub, hid⟩ :
      ∃ q, sampleTypes.commits? sampleGraph {} sampleLog = some q ∧
        ∃ e ∈ q.1.entries, e.subject = some (.cls 1) ∧ e.record.id = 3 := by
    have hany : (sampleTypes.commits? sampleGraph {} sampleLog).any (fun q =>
        q.1.entries.any fun e => e.subject = some (.cls 1) ∧ e.record.id = 3) = true := by
      decide +kernel
    simpa [Option.any_eq_true] using hany
  obtain ⟨⟨l, r⟩, hcaptured, c, hmem, hhandle, hid'⟩ :
      ∃ q, sampleNext.captures? sampleUnloading ({} : SegmentLog) = some q ∧
        ∃ c ∈ q.1, c.handle = 1 ∧ c.id = 3 := by
    have hany : (sampleNext.captures? sampleUnloading ({} : SegmentLog)).any (fun q =>
        q.1.any fun c => c.handle = 1 ∧ c.id = 3) = true := by decide +kernel
    simpa [Option.any_eq_true] using hany
  have hrun := run_sampleNext.captureUnloading sampleUnloading ({} : SegmentLog)
  have hi := (History.mainAt_of_commits [] hc he).append
    (sampleNext.captureEvents sampleUnloading ({} : SegmentLog))
  have hj := History.mainAt_of_captures (sampleTypes.serializeEvents sampleGraph {} sampleLog)
    hcaptured hmem
  have hsub' : (captureEntry c).subject = some (.cls 1) := by rw [← hhandle]; rfl
  have hlt : 0 < (sampleTypes.serializeEvents sampleGraph {} sampleLog).length :=
    (History.mainAt_of_commits [] hc he).lt_length
  refine ⟨_, e, _, captureEntry c, hi, hsub, hid, hj, rfl, hsub', hid', ?_⟩
  exact ((hrun.class_record_id hj hsub').1 0 _ e hlt hi rfl hsub).mp (hid'.trans hid.symm)

/-- A type set in which only the class is tagged that is about to be reclaimed. -/
def sampleLeaving : TypeSet := ((TypeSet.create {}).tag (.cls 2)).2

/-- A capture in the same safepoint as a pass for unloading. The runtime still has the class and
still announces it, but its last record does not have the id of the only record before it. -/
theorem last_record_renamed :
    let first := (sampleLeaving.serialize sampleGraph { classUnload := true } sampleLog).types
    let H := sampleLeaving.serializeEvents sampleGraph { classUnload := true } sampleLog
    let H' := H ++ first.captureEvents sampleGraph ({} : SegmentLog)
    Run {} (first.captureUnloading sampleGraph ({} : SegmentLog)).types H' ∧
    ∃ header e header' e', H'.MainAt 0 header e ∧ header.kind = .typeSet ∧
      e.subject = some (.cls 2) ∧ H'.MainAt H.length header' e' ∧ header'.kind = .classUnload ∧
      e'.subject = some (.cls 2) ∧ e'.record.id ≠ e.record.id := by
  obtain ⟨⟨b, t', w'⟩, hc, e, he, hsub, hid⟩ :
      ∃ q, sampleLeaving.commits? sampleGraph { classUnload := true } sampleLog = some q ∧
        ∃ e ∈ q.1.entries, e.subject = some (.cls 2) ∧ e.record.id = 5 := by
    have hany : (sampleLeaving.commits? sampleGraph { classUnload := true } sampleLog).any
        (fun q => q.1.entries.any fun e => e.subject = some (.cls 2) ∧ e.record.id = 5) = true := by
      decide +kernel
    simpa [Option.any_eq_true] using hany
  obtain ⟨⟨l, r⟩, hcaptured, c, hmem, hhandle, hid'⟩ :
      ∃ q, (sampleLeaving.serialize sampleGraph { classUnload := true } sampleLog).types.captures?
          sampleGraph ({} : SegmentLog) = some q ∧ ∃ c ∈ q.1, c.handle = 2 ∧ c.id = 6 := by
    have hany : ((sampleLeaving.serialize sampleGraph { classUnload := true }
        sampleLog).types.captures? sampleGraph ({} : SegmentLog)).any (fun q =>
        q.1.any fun c => c.handle = 2 ∧ c.id = 6) = true := by decide +kernel
    simpa [Option.any_eq_true] using hany
  have hrun : Run {} sampleLeaving [] := .tag (.cls 2) .create
  have hi := (History.mainAt_of_commits [] hc he).append
    ((sampleLeaving.serialize sampleGraph { classUnload := true } sampleLog).types.captureEvents
      sampleGraph ({} : SegmentLog))
  have hj := History.mainAt_of_captures
    (sampleLeaving.serializeEvents sampleGraph { classUnload := true } sampleLog) hcaptured hmem
  have hsub' : (captureEntry c).subject = some (.cls 2) := by rw [← hhandle]; rfl
  refine ⟨(hrun.serialize sampleGraph { classUnload := true } sampleLog).captureUnloading _ _,
    _, e, _, captureEntry c, hi, rfl, hsub, hj, rfl, hsub', ?_⟩
  show c.id ≠ e.record.id
  rw [hid, hid']
  decide

end TraceTypes
