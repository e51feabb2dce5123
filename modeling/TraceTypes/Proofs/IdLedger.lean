import TraceTypes.Proofs.Recording
/-!
# Ids over a history

`IdLedger r H` ties registries to the history that led to them:

* **live** — an artifact that was written and not forgotten since has the id
  that it was written under, and only such artifacts have an id;
* **dead** — the id of an artifact that was forgotten has no owner and lies
  below the next one, so it is never handed out again.

From these follow the two laws on the history alone: an id names one artifact
between two forgettings, and an artifact keeps its id until it is forgotten
(`unique`, `same`). There is one lemma for each event that a run can add. A
segment can be added if its entries are written under the ids that their
artifacts have behind it (`Enrolled`), whatever call has written it.
-/

namespace TraceTypes

/-- The registries and the history agree on the use of ids. -/
structure IdLedger (r : Registries) (H : History) : Prop where
  wf : r.WF
  live : ∀ i header e a, H.MainAt i header e → e.subject = some a → ¬ H.ForgottenAfter i a →
    r.id? a = some e.record.id
  known : ∀ a id, r.id? a = some id →
    ∃ i header e, H.MainAt i header e ∧ e.subject = some a ∧ ¬ H.ForgottenAfter i a
  dead : ∀ i header e a, H.MainAt i header e → e.subject = some a → H.ForgottenAfter i a →
    ∀ b, r.id? b ≠ some e.record.id
  used : ∀ i header e a, H.MainAt i header e → e.subject = some a →
    e.record.id ≠ bootstrapId ∧ e.record.id < r.ids.next
  bootstrap : ∀ i header e, H.MainAt i header e → e.subject = none → e.record.id = bootstrapId
  unique : ∀ i j header header' e e', i ≤ j → H.MainAt i header e → H.MainAt j header' e' →
    e.record.id = e'.record.id → e.record.id ≠ bootstrapId →
    ∃ a, e.subject = some a ∧ e'.subject = some a ∧ ¬ H.ForgottenBetween i j a
  same : ∀ i j header header' e e' a, i ≤ j → H.MainAt i header e → H.MainAt j header' e' →
    e.subject = some a → e'.subject = some a → ¬ H.ForgottenBetween i j a →
    e.record.id = e'.record.id

/-- What the registries before and behind a segment have to do with its entries: they are written
under the ids that their artifacts have behind it, and the artifacts that got their ids in between
are all written. -/
structure Enrolled (r r' : Registries) (fresh : List Artifact) (l : List Entry) : Prop where
  registries : r.Extends r' fresh
  wf : r'.WF
  ids : ∀ e ∈ l, ∀ a, e.subject = some a → r'.id? a = some e.record.id
  fresh : ∀ a ∈ fresh, a ∈ Entry.subjects l
  bootstrap : ∀ e ∈ l, e.subject = none → e.record.id = bootstrapId

namespace Enrolled

variable {r r' : Registries} {fresh : List Artifact} {l : List Entry} {e : Entry} {a : Artifact}

/-- An id that was in use before is not handed out. -/
theorem id_of_lt {id : TraceId} (h : Enrolled r r' fresh l) (ha : r'.id? a = some id)
    (hlt : id < r.ids.next) : r.id? a = some id := by
  rcases h.registries.known ha with ha | ⟨-, -, hle⟩
  · exact ha
  · exact absurd hlt (Nat.not_lt_of_le hle)

theorem used (h : Enrolled r r' fresh l) (he : e ∈ l) (hsub : e.subject = some a) :
    e.record.id ≠ bootstrapId ∧ e.record.id < r'.ids.next := by
  obtain ⟨hpos, hlt⟩ := h.wf.bounds a _ (h.ids e he a hsub)
  exact ⟨Nat.ne_of_gt hpos, hlt⟩

theorem exists_subject (h : Enrolled r r' fresh l) (he : e ∈ l) (hne : e.record.id ≠ bootstrapId) :
    ∃ a, e.subject = some a ∧ r'.id? a = some e.record.id := by
  cases hsub : e.subject with
  | none => exact absurd (h.bootstrap e he hsub) hne
  | some a => exact ⟨a, rfl, h.ids e he a hsub⟩

/-- The artifact that has the id of an entry is the artifact of the entry. -/
theorem subject_of_id (h : Enrolled r r' fresh l) (he : e ∈ l) (hne : e.record.id ≠ bootstrapId)
    (ha : r'.id? a = some e.record.id) : e.subject = some a := by
  obtain ⟨b, hsub, hb⟩ := h.exists_subject he hne
  rw [hsub, h.wf.id?_inj hb ha]

/-- Without entries nothing got an id. -/
theorem id_of_empty (h : Enrolled r r' fresh l) (hl : l = []) (a : Artifact) :
    r'.id? a = r.id? a := by
  refine h.registries.other_id a fun ha => ?_
  have hmem := h.fresh a ha
  rw [hl] at hmem
  cases hmem

end Enrolled

namespace IdLedger

variable {r r' : Registries} {H : History}

open History

theorem empty : IdLedger {} [] where
  wf := Registries.wf_empty
  live _ _ _ _ h := absurd h.lt_length (Nat.not_lt_zero _)
  known a id h := by simp [Registries.id?, Registries.entry?] at h
  dead _ _ _ _ h := absurd h.lt_length (Nat.not_lt_zero _)
  used _ _ _ _ h := absurd h.lt_length (Nat.not_lt_zero _)
  bootstrap _ _ _ h := absurd h.lt_length (Nat.not_lt_zero _)
  unique _ _ _ _ _ _ _ h := absurd h.lt_length (Nat.not_lt_zero _)
  same _ _ _ _ _ _ _ _ h := absurd h.lt_length (Nat.not_lt_zero _)

/-- Registries with the same ids can take the place of the others. -/
theorem of_eq (h : IdLedger r H) (hid : ∀ a, r'.id? a = r.id? a) (hwf : r'.WF)
    (hnext : r.ids.next ≤ r'.ids.next) : IdLedger r' H where
  wf := hwf
  live i header e a hmain hsub hnot := by rw [hid]; exact h.live i header e a hmain hsub hnot
  known a id ha := by rw [hid] at ha; exact h.known a id ha
  dead i header e a hmain hsub hafter b := by
    rw [hid]
    exact h.dead i header e a hmain hsub hafter b
  used i header e a hmain hsub := by
    obtain ⟨hne, hlt⟩ := h.used i header e a hmain hsub
    exact ⟨hne, Nat.lt_of_lt_of_le hlt hnext⟩
  bootstrap := h.bootstrap
  unique := h.unique
  same := h.same

theorem similar (h : IdLedger r H) (hs : r.Similar r') : IdLedger r' H :=
  h.of_eq hs.ids (h.wf.similar hs) hs.next

/-- The artifact that has the id of an earlier entry is the artifact of that entry. -/
theorem subject_of_id (h : IdLedger r H) {i : Nat} {header : Header} {e : Entry} {a : Artifact}
    (hi : H.MainAt i header e) (hne : e.record.id ≠ bootstrapId)
    (ha : r.id? a = some e.record.id) : e.subject = some a ∧ ¬ H.ForgottenAfter i a := by
  cases hsub : e.subject with
  | none => exact absurd (h.bootstrap i header e hi hsub) hne
  | some b =>
      have hnot : ¬ H.ForgottenAfter i b := fun hf => h.dead i header e b hi hsub hf a ha
      obtain rfl := h.wf.id?_inj (h.live i header e b hi hsub hnot) ha
      exact ⟨rfl, hnot⟩

/-- What is said of two entries stays so behind one more event. -/
theorem unique_snoc {i j : Nat} {header header' : Header} {e e' : Entry} (h : IdLedger r H)
    (event : Event) (hij : i ≤ j) (hi : H.MainAt i header e) (hj : H.MainAt j header' e')
    (heq : e.record.id = e'.record.id) (hne : e.record.id ≠ bootstrapId) :
    ∃ a, e.subject = some a ∧ e'.subject = some a ∧ ¬ ForgottenBetween (H ++ [event]) i j a := by
  obtain ⟨a, hsub, hsub', hnot⟩ := h.unique i j header header' e e' hij hi hj heq hne
  refine ⟨a, hsub, hsub', ?_⟩
  rwa [forgottenBetween_snoc (Nat.le_of_lt hj.lt_length)]

theorem same_snoc {i j : Nat} {header header' : Header} {e e' : Entry} {a : Artifact}
    {event : Event} (h : IdLedger r H) (hij : i ≤ j) (hi : H.MainAt i header e)
    (hj : H.MainAt j header' e') (hsub : e.subject = some a) (hsub' : e'.subject = some a)
    (hnot : ¬ ForgottenBetween (H ++ [event]) i j a) : e.record.id = e'.record.id := by
  rw [forgottenBetween_snoc (Nat.le_of_lt hj.lt_length)] at hnot
  exact h.same i j header header' e e' a hij hi hj hsub hsub' hnot

/-- An event that neither commits on the main stream nor forgets. -/
theorem idle {event : Event} (h : IdLedger r H)
    (hmain : ∀ header l, event = .committed header l → header.kind = .leakProfiler)
    (hforgot : ∀ l, event ≠ .forgotten l) : IdLedger r (H ++ [event]) := by
  have hat {i : Nat} {header : Header} {e : Entry} :
      MainAt (H ++ [event]) i header e ↔ H.MainAt i header e := by
    cases event with
    | rotated => exact mainAt_snoc_rotated
    | forgotten l => exact absurd rfl (hforgot l)
    | committed k l => exact mainAt_snoc_leak (hmain k l rfl)
  have hafter {i : Nat} {a : Artifact} :
      ForgottenAfter (H ++ [event]) i a ↔ H.ForgottenAfter i a := by
    cases event with
    | rotated => exact forgottenAfter_snoc_rotated
    | forgotten l => exact absurd rfl (hforgot l)
    | committed k l => exact forgottenAfter_snoc_committed
  constructor
  case wf => exact h.wf
  case live => simpa only [hat, hafter] using h.live
  case known => simpa only [hat, hafter] using h.known
  case dead => simpa only [hat, hafter] using h.dead
  case used => simpa only [hat] using h.used
  case bootstrap => simpa only [hat] using h.bootstrap
  case unique =>
    exact fun i j _ _ _ _ hij hi hj => h.unique_snoc event hij (hat.mp hi) (hat.mp hj)
  case same =>
    exact fun i j _ _ _ _ a hij hi hj => h.same_snoc hij (hat.mp hi) (hat.mp hj)

/-! ## A committed segment -/

section Commit

variable {header : Header} {l : List Entry} {fresh : List Artifact}

/-- An artifact keeps its id in a segment. -/
theorem id_enrolled {i : Nat} {header : Header} {e : Entry} {a : Artifact} (h : IdLedger r H)
    (hl : Enrolled r r' fresh l) (hi : H.MainAt i header e) (hsub : e.subject = some a)
    (hnot : ¬ H.ForgottenAfter i a) : r'.id? a = some e.record.id :=
  hl.registries.keeps (h.live i header e a hi hsub hnot)

/-- The id of an earlier entry is not handed out anew: who has it behind the segment is the artifact
of the entry. -/
theorem subject_enrolled {i : Nat} {header : Header} {e : Entry} {a : Artifact} (h : IdLedger r H)
    (hl : Enrolled r r' fresh l) (hi : H.MainAt i header e) (hne : e.record.id ≠ bootstrapId)
    (ha : r'.id? a = some e.record.id) : e.subject = some a ∧ ¬ H.ForgottenAfter i a := by
  refine h.subject_of_id hi hne (hl.id_of_lt ha ?_)
  cases hsub : e.subject with
  | none => exact absurd (h.bootstrap i header e hi hsub) hne
  | some b => exact (h.used i header e b hi hsub).2

/-- Two entries under one id are for one artifact, also if one of them or both are in the segment. -/
theorem unique_committed {i j : Nat} {k k' : Header} {e e' : Entry} (h : IdLedger r H)
    (hl : Enrolled r r' fresh l) (hkind : header.kind ≠ .leakProfiler) (hij : i ≤ j)
    (hi : MainAt (H ++ [.committed header l]) i k e)
    (hj : MainAt (H ++ [.committed header l]) j k' e') (heq : e.record.id = e'.record.id)
    (hne : e.record.id ≠ bootstrapId) :
    ∃ a, e.subject = some a ∧ e'.subject = some a ∧
      ¬ ForgottenBetween (H ++ [.committed header l]) i j a := by
  rcases mainAt_pair_snoc_committed hkind hij hi hj with
    ⟨hi, hj⟩ | ⟨hi, rfl, he'⟩ | ⟨rfl, rfl, he, he'⟩
  · exact h.unique_snoc _ hij hi hj heq hne
  · obtain ⟨a, hsub', hid⟩ := hl.exists_subject he' (heq ▸ hne)
    obtain ⟨hsub, hnot⟩ := h.subject_enrolled hl hi hne (heq ▸ hid)
    exact ⟨a, hsub, hsub', fun hf => hnot ((forgottenBetween_snoc (Nat.le_refl _)).mp hf).after⟩
  · obtain ⟨a, hsub', hid⟩ := hl.exists_subject he' (heq ▸ hne)
    exact ⟨a, hl.subject_of_id he hne (heq ▸ hid), hsub', not_forgottenBetween_self⟩

/-- Two entries for one artifact that is not forgotten in between have one id. -/
theorem same_committed {i j : Nat} {k k' : Header} {e e' : Entry} {a : Artifact}
    (h : IdLedger r H) (hl : Enrolled r r' fresh l) (hkind : header.kind ≠ .leakProfiler)
    (hij : i ≤ j) (hi : MainAt (H ++ [.committed header l]) i k e)
    (hj : MainAt (H ++ [.committed header l]) j k' e') (hsub : e.subject = some a)
    (hsub' : e'.subject = some a)
    (hnot : ¬ ForgottenBetween (H ++ [.committed header l]) i j a) :
    e.record.id = e'.record.id := by
  rcases mainAt_pair_snoc_committed hkind hij hi hj with
    ⟨hi, hj⟩ | ⟨hi, rfl, he'⟩ | ⟨rfl, rfl, he, he'⟩
  · exact h.same_snoc hij hi hj hsub hsub' hnot
  · have hid := h.id_enrolled hl hi hsub fun hf =>
      hnot ((forgottenBetween_snoc (Nat.le_refl _)).mpr hf.between)
    exact Option.some.inj (hid.symm.trans (hl.ids e' he' a hsub'))
  · exact Option.some.inj ((hl.ids e he a hsub).symm.trans (hl.ids e' he' a hsub'))

/-- A committed main segment. -/
theorem commit (h : IdLedger r H) (hl : Enrolled r r' fresh l)
    (hkind : header.kind ≠ .leakProfiler) : IdLedger r' (H ++ [.committed header l]) := by
  have hat {i : Nat} {k : Header} {e : Entry} :
      MainAt (H ++ [.committed header l]) i k e ↔
        H.MainAt i k e ∨ (i = H.length ∧ k = header ∧ e ∈ l) := mainAt_snoc_committed hkind
  constructor
  case wf => exact hl.wf
  case live =>
    intro i k e a hi hsub hnot
    rw [forgottenAfter_snoc_committed] at hnot
    rcases hat.mp hi with hi | ⟨-, -, he⟩
    · exact h.id_enrolled hl hi hsub hnot
    · exact hl.ids e he a hsub
  case known =>
    intro a id ha
    rcases hl.registries.known ha with ha | ⟨hmem, -, -⟩
    · obtain ⟨i, k, e, hi, hsub, hnot⟩ := h.known a id ha
      exact ⟨i, k, e, hat.mpr (.inl hi), hsub, fun hf => hnot (forgottenAfter_snoc_committed.mp hf)⟩
    · obtain ⟨e, he, hsub⟩ := Entry.mem_subjects.mp (hl.fresh a hmem)
      refine ⟨_, header, e, hat.mpr (.inr ⟨rfl, rfl, he⟩), hsub, ?_⟩
      intro hf
      exact not_forgottenAfter_length (forgottenAfter_snoc_committed.mp hf)
  case dead =>
    intro i k e a hi hsub hf b hb
    rw [forgottenAfter_snoc_committed] at hf
    rcases hat.mp hi with hi | ⟨rfl, -, -⟩
    · exact h.dead i k e a hi hsub hf b (hl.id_of_lt hb (h.used i k e a hi hsub).2)
    · exact absurd hf not_forgottenAfter_length
  case used =>
    intro i k e a hi hsub
    rcases hat.mp hi with hi | ⟨-, -, he⟩
    · obtain ⟨hne, hlt⟩ := h.used i k e a hi hsub
      exact ⟨hne, Nat.lt_of_lt_of_le hlt hl.registries.next⟩
    · exact hl.used he hsub
  case bootstrap =>
    intro i k e hi hsub
    rcases hat.mp hi with hi | ⟨-, -, he⟩
    · exact h.bootstrap i k e hi hsub
    · exact hl.bootstrap e he hsub
  case unique => exact fun i j _ _ _ _ => h.unique_committed hl hkind
  case same => exact fun i j _ _ _ _ a => h.same_committed hl hkind

/-- A main segment that is committed only if it has entries. -/
theorem commit_ofSegment (h : IdLedger r H) (hl : Enrolled r r' fresh l)
    (hkind : header.kind ≠ .leakProfiler) : IdLedger r' (H ++ Event.ofSegment header l) := by
  unfold Event.ofSegment
  split
  · rename_i hempty
    rw [List.append_nil]
    exact h.of_eq (hl.id_of_empty (List.isEmpty_iff.mp hempty)) hl.wf hl.registries.next
  · exact h.commit hl hkind

end Commit

/-- Artifacts are forgotten. -/
theorem forget (h : IdLedger r H) (l : List Artifact) :
    IdLedger (r.forgetAll l) (H ++ [.forgotten l]) := by
  constructor
  case wf => exact h.wf.forgetAll l
  case live =>
    intro i k e a hi hsub hnot
    rw [mainAt_snoc_forgotten] at hi
    rw [forgottenAfter_snoc_forgotten hi.lt_length, not_or] at hnot
    rw [Registries.id?_forgetAll, if_neg hnot.2]
    exact h.live i k e a hi hsub hnot.1
  case known =>
    intro a id ha
    rw [Registries.id?_forgetAll] at ha
    split at ha
    · cases ha
    · rename_i hmem
      obtain ⟨i, k, e, hi, hsub, hnot⟩ := h.known a id ha
      refine ⟨i, k, e, mainAt_snoc_forgotten.mpr hi, hsub, ?_⟩
      intro hf
      exact ((forgottenAfter_snoc_forgotten hi.lt_length).mp hf).elim hnot hmem
  case dead =>
    intro i k e a hi hsub hf b hb
    rw [mainAt_snoc_forgotten] at hi
    rw [Registries.id?_forgetAll] at hb
    split at hb
    · cases hb
    · rename_i hmem
      by_cases hf' : H.ForgottenAfter i a
      · exact h.dead i k e a hi hsub hf' b hb
      · -- the artifact is forgotten now, and only it had the id
        have ha : a ∈ l := ((forgottenAfter_snoc_forgotten hi.lt_length).mp hf).resolve_left hf'
        rw [h.wf.id?_inj hb (h.live i k e a hi hsub hf')] at hmem
        exact hmem ha
  case used =>
    intro i k e a hi hsub
    rw [Registries.next_forgetAll]
    exact h.used i k e a (mainAt_snoc_forgotten.mp hi) hsub
  case bootstrap => exact fun i k e hi hsub => h.bootstrap i k e (mainAt_snoc_forgotten.mp hi) hsub
  case unique =>
    intro i j k k' e e' hij hi hj
    rw [mainAt_snoc_forgotten] at hi hj
    exact h.unique_snoc _ hij hi hj
  case same =>
    intro i j k k' e e' a hij hi hj
    rw [mainAt_snoc_forgotten] at hi hj
    exact h.same_snoc hij hi hj

end IdLedger

end TraceTypes
