import TraceTypes.Proofs.Recording
/-!
# Serialized marks over a history

`MarkLedger` ties the serialized marks and the bootstrap flag to the history:
an artifact is marked iff a type-set segment committed since the last rotation
has an entry for it and it was not forgotten since. With the marks come the
shape of all entries written so far and the generation of the segments since
the last rotation, so that an entry that a mark stands for can be referred to.

As for the ids, there is one lemma for each event that a run can add. The state
enters by what the ledger says about it only: which artifacts are marked, the
symbols, the generation and the bootstrap flag.
-/

namespace TraceTypes

/-- The record has the type of its artifact, a symbol's record has the symbol's text, and the only
record without an artifact is that of the bootstrap loader. -/
structure Entry.Shaped (y : SymbolTable) (e : Entry) : Prop where
  tag : ∀ a, e.subject = some a → e.record.tag = a.kind.index + 1
  symbol : ∀ n, e.subject = some (.symbol n) →
    ∃ id text, e.record = .symbol id text ∧ y.text? n = some text
  bootstrap : e.subject = none → ∃ name, e.record = .classLoader bootstrapId (some name) name

theorem Entry.Shaped.grow {y y' : SymbolTable} {e : Entry} (h : e.Shaped y)
    (hle : y.texts <+: y'.texts) : e.Shaped y' where
  tag := h.tag
  symbol n hsub := by
    obtain ⟨id, text, hrec, htext⟩ := h.symbol n hsub
    exact ⟨id, text, hrec, SymbolTable.text?_of_prefix hle htext⟩
  bootstrap := h.bootstrap

namespace History

/-- The `i`-th event commits the entry in a type-set segment, and the trace was not rotated
since. -/
def CurrentAt (H : History) (i : Nat) (header : Header) (e : Entry) : Prop :=
  H.MainAt i header e ∧ header.kind = .typeSet ∧ ¬ H.RotatedAfter i

section Snoc

variable {H : History} {i : Nat} {header k : Header} {e : Entry} {l : List Entry}
  {forgotten : List Artifact}

theorem currentAt_snoc_committed (hk : k.kind = .typeSet) :
    CurrentAt (H ++ [.committed k l]) i header e ↔
      H.CurrentAt i header e ∨ (i = H.length ∧ header = k ∧ e ∈ l) := by
  unfold CurrentAt
  rw [mainAt_snoc_committed (by rw [hk]; simp), rotatedAfter_snoc_committed]
  constructor
  · rintro ⟨hi | hi, hkind, hrot⟩
    · exact .inl ⟨hi, hkind, hrot⟩
    · exact .inr hi
  · rintro (⟨hi, hkind, hrot⟩ | ⟨rfl, rfl, he⟩)
    · exact ⟨.inl hi, hkind, hrot⟩
    · exact ⟨.inr ⟨rfl, rfl, he⟩, hk, not_rotatedAfter_length⟩

/-- A segment of another kind has no current entries. -/
theorem currentAt_snoc_of_ne (hk : k.kind ≠ .typeSet) :
    CurrentAt (H ++ [.committed k l]) i header e ↔ H.CurrentAt i header e := by
  unfold CurrentAt
  rw [mainAt_snoc, rotatedAfter_snoc_committed]
  constructor
  · rintro ⟨hi | ⟨-, _, heq, -⟩, hkind, hrot⟩
    · exact ⟨hi, hkind, hrot⟩
    · cases heq
      exact absurd hkind hk
  · rintro ⟨hi, hkind, hrot⟩
    exact ⟨.inl hi, hkind, hrot⟩

@[simp] theorem currentAt_snoc_forgotten :
    CurrentAt (H ++ [.forgotten forgotten]) i header e ↔ H.CurrentAt i header e := by
  unfold CurrentAt
  rw [mainAt_snoc_forgotten, rotatedAfter_snoc_forgotten]

theorem not_currentAt_snoc_rotated : ¬ CurrentAt (H ++ [.rotated]) i header e := by
  rintro ⟨hi, -, hrot⟩
  exact hrot (rotatedAfter_snoc_rotated (mainAt_snoc_rotated.mp hi).lt_length)

end Snoc

end History

/-- Marks, symbols, generation and bootstrap flag agree with the history. -/
structure MarkLedger (marked : Artifact → Prop) (y : SymbolTable) (generation : Nat)
    (bootstrap : Prop) (H : History) : Prop where
  marked_iff : ∀ a, marked a ↔ ∃ i header e, H.CurrentAt i header e ∧ e.subject = some a ∧
    ¬ H.ForgottenAfter i a
  bootstrap_iff : bootstrap ↔ ∃ i header e, H.CurrentAt i header e ∧ e.subject = none
  generation_eq : ∀ i header e, H.CurrentAt i header e → header.generation = generation
  shaped : ∀ i header e, H.MainAt i header e → header.kind = .typeSet → e.Shaped y

namespace MarkLedger

variable {marked marked' : Artifact → Prop} {y y' : SymbolTable} {generation : Nat}
  {bootstrap bootstrap' : Prop} {H : History}

open History

theorem empty (h : ∀ a, ¬ marked a) (hb : ¬ bootstrap) (y : SymbolTable) (generation : Nat) :
    MarkLedger marked y generation bootstrap [] where
  marked_iff a := by
    refine iff_of_false (h a) ?_
    rintro ⟨_, _, _, hc, -⟩
    exact Nat.not_lt_zero _ hc.1.lt_length
  bootstrap_iff := by
    refine iff_of_false hb ?_
    rintro ⟨_, _, _, hc, -⟩
    exact Nat.not_lt_zero _ hc.1.lt_length
  generation_eq _ _ _ hc := absurd hc.1.lt_length (Nat.not_lt_zero _)
  shaped _ _ _ h := absurd h.lt_length (Nat.not_lt_zero _)

theorem of_iff (h : MarkLedger marked y generation bootstrap H) (hm : ∀ a, marked' a ↔ marked a)
    (hy : y.texts <+: y'.texts) (hb : bootstrap' ↔ bootstrap) :
    MarkLedger marked' y' generation bootstrap' H where
  marked_iff a := (hm a).trans (h.marked_iff a)
  bootstrap_iff := hb.trans h.bootstrap_iff
  generation_eq := h.generation_eq
  shaped i header e hi hkind := (h.shaped i header e hi hkind).grow hy

/-- A segment of another kind. -/
theorem idle {header : Header} {l : List Entry} (h : MarkLedger marked y generation bootstrap H)
    (hkind : header.kind ≠ .typeSet) :
    MarkLedger marked y generation bootstrap (H ++ [.committed header l]) := by
  constructor
  case marked_iff =>
    simpa only [currentAt_snoc_of_ne hkind, forgottenAfter_snoc_committed] using h.marked_iff
  case bootstrap_iff => simpa only [currentAt_snoc_of_ne hkind] using h.bootstrap_iff
  case generation_eq => simpa only [currentAt_snoc_of_ne hkind] using h.generation_eq
  case shaped =>
    intro i k e hi hk
    rcases mainAt_snoc.mp hi with hi | ⟨-, _, heq, -⟩
    · exact h.shaped i k e hi hk
    · cases heq
      exact absurd hk hkind

/-- A committed type-set segment of the current generation marks its artifacts. -/
theorem commit {header : Header} {l : List Entry} (h : MarkLedger marked y generation bootstrap H)
    (hkind : header.kind = .typeSet) (hgen : header.generation = generation)
    (hy : y.texts <+: y'.texts) (hl : ∀ e ∈ l, e.Shaped y')
    (hm : ∀ a, marked' a ↔ marked a ∨ a ∈ Entry.subjects l)
    (hb : bootstrap' ↔ bootstrap ∨ ∃ e ∈ l, e.subject = none) :
    MarkLedger marked' y' generation bootstrap' (H ++ [.committed header l]) := by
  have hcurrent {i : Nat} {k : Header} {e : Entry} :
      CurrentAt (H ++ [.committed header l]) i k e ↔
        H.CurrentAt i k e ∨ (i = H.length ∧ k = header ∧ e ∈ l) := currentAt_snoc_committed hkind
  constructor
  case marked_iff =>
    intro a
    simp only [forgottenAfter_snoc_committed]
    rw [hm, h.marked_iff, Entry.mem_subjects]
    constructor
    · rintro (⟨i, k, e, hi, hsub, hnot⟩ | ⟨e, he, hsub⟩)
      · exact ⟨i, k, e, hcurrent.mpr (.inl hi), hsub, hnot⟩
      · exact ⟨_, header, e, hcurrent.mpr (.inr ⟨rfl, rfl, he⟩), hsub, not_forgottenAfter_length⟩
    · rintro ⟨i, k, e, hi, hsub, hnot⟩
      rcases hcurrent.mp hi with hi | ⟨-, -, he⟩
      · exact .inl ⟨i, k, e, hi, hsub, hnot⟩
      · exact .inr ⟨e, he, hsub⟩
  case bootstrap_iff =>
    rw [hb, h.bootstrap_iff]
    constructor
    · rintro (⟨i, k, e, hi, hsub⟩ | ⟨e, he, hsub⟩)
      · exact ⟨i, k, e, hcurrent.mpr (.inl hi), hsub⟩
      · exact ⟨_, header, e, hcurrent.mpr (.inr ⟨rfl, rfl, he⟩), hsub⟩
    · rintro ⟨i, k, e, hi, hsub⟩
      rcases hcurrent.mp hi with hi | ⟨-, -, he⟩
      · exact .inl ⟨i, k, e, hi, hsub⟩
      · exact .inr ⟨e, he, hsub⟩
  case generation_eq =>
    intro i k e hi
    rcases hcurrent.mp hi with hi | ⟨-, rfl, -⟩
    · exact h.generation_eq i k e hi
    · exact hgen
  case shaped =>
    intro i k e hi hk
    rcases (mainAt_snoc_committed (by rw [hkind]; simp)).mp hi with hi | ⟨-, -, he⟩
    · exact (h.shaped i k e hi hk).grow hy
    · exact hl e he

/-- Forgotten artifacts lose their marks. -/
theorem forget (h : MarkLedger marked y generation bootstrap H) (l : List Artifact)
    (hm : ∀ a, marked' a ↔ marked a ∧ a ∉ l) :
    MarkLedger marked' y generation bootstrap (H ++ [.forgotten l]) := by
  constructor
  case marked_iff =>
    intro a
    rw [hm, h.marked_iff]
    constructor
    · rintro ⟨⟨i, k, e, hi, hsub, hnot⟩, ha⟩
      refine ⟨i, k, e, currentAt_snoc_forgotten.mpr hi, hsub, ?_⟩
      intro hf
      exact ((forgottenAfter_snoc_forgotten hi.1.lt_length).mp hf).elim hnot ha
    · rintro ⟨i, k, e, hi, hsub, hnot⟩
      rw [currentAt_snoc_forgotten] at hi
      rw [forgottenAfter_snoc_forgotten hi.1.lt_length, not_or] at hnot
      exact ⟨⟨i, k, e, hi, hsub, hnot.1⟩, hnot.2⟩
  case bootstrap_iff => simpa only [currentAt_snoc_forgotten] using h.bootstrap_iff
  case generation_eq => simpa only [currentAt_snoc_forgotten] using h.generation_eq
  case shaped => exact fun i k e hi hk => h.shaped i k e (mainAt_snoc_forgotten.mp hi) hk

/-- At a rotation everything counts as unwritten. -/
theorem rotate (h : MarkLedger marked y generation bootstrap H) (hm : ∀ a, ¬ marked' a)
    (hb : ¬ bootstrap') :
    MarkLedger marked' y (generation + 1) bootstrap' (H ++ [.rotated]) := by
  constructor
  case marked_iff =>
    refine fun a => iff_of_false (hm a) ?_
    rintro ⟨_, _, _, hi, -⟩
    exact not_currentAt_snoc_rotated hi
  case bootstrap_iff =>
    refine iff_of_false hb ?_
    rintro ⟨_, _, _, hi, -⟩
    exact not_currentAt_snoc_rotated hi
  case generation_eq => exact fun _ _ _ hi => absurd hi not_currentAt_snoc_rotated
  case shaped => exact fun i k e hi hk => h.shaped i k e (mainAt_snoc_rotated.mp hi) hk

end MarkLedger

end TraceTypes
