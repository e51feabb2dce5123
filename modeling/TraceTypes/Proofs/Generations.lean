import TraceTypes.Proofs.CommittedContent
import TraceTypes.Proofs.Knowledge
/-!
# What is written in one generation

The segments between two rotations have one generation, and a reader takes them
together. `History.ofGeneration` lists what they have entries for, and this
module says how often an artifact stands there.

* `History.Dated` — segments from before a rotation are of an earlier
  generation, so the segments of the generation now are the ones since the last
  rotation;
* `Run.not_serialized_of_untagged` — a pass writes an artifact that is not
  tagged only if it is not marked as written;
* `RunTagging.atMostOnce` — what a pass writes only if the generation has no
  entry of it yet, and then once, is written at most once in each generation.

What is marked can lose its mark only by a rotation or by being forgotten, and
only classes and methods are ever forgotten.
-/

namespace TraceTypes

open TypeSet

/-! ## The entries of a generation -/

/-- The entries of the event's segment, if it is a type-set segment of this generation. -/
def Event.entriesOf (generation : Nat) : Event → List Entry
  | committed header l =>
      if header.kind = .typeSet ∧ header.generation = generation then l else []
  | rotated | forgotten _ => []

namespace History

/-- The entries of the type-set segments of one generation, oldest first. -/
def ofGeneration (H : History) (generation : Nat) : List Entry :=
  H.flatMap (Event.entriesOf generation)

variable {H E : History} {generation now i : Nat} {header : Header} {e : Entry}

theorem ofGeneration_append :
    (H ++ E).ofGeneration generation = H.ofGeneration generation ++ E.ofGeneration generation :=
  List.flatMap_append

/-- A segment of another kind counts for no generation. -/
theorem ofGeneration_committed_of_ne {l : List Entry} (h : header.kind ≠ .typeSet) :
    ofGeneration [.committed header l] generation = [] := by
  simp [ofGeneration, Event.entriesOf, h]

theorem ofGeneration_ofSegment {l : List Entry} (h : header.kind = .typeSet) :
    (Event.ofSegment header l).ofGeneration generation =
      if header.generation = generation then l else [] := by
  unfold Event.ofSegment
  split
  · rename_i hempty
    rw [List.isEmpty_iff.mp hempty, ite_self]
    rfl
  · simp [ofGeneration, Event.entriesOf, h]

theorem mem_ofGeneration : e ∈ H.ofGeneration generation ↔
    ∃ i header, H.MainAt i header e ∧ header.kind = .typeSet ∧ header.generation = generation := by
  unfold ofGeneration
  rw [List.mem_flatMap]
  constructor
  · rintro ⟨event, hevent, he⟩
    cases event with
    | rotated | forgotten => cases he
    | committed header l =>
        change e ∈ if _ then l else [] at he
        split at he
        · rename_i hh
          obtain ⟨i, hi⟩ := List.getElem?_of_mem hevent
          exact ⟨i, header, ⟨l, hi, by rw [hh.1]; simp, he⟩, hh⟩
        · cases he
  · rintro ⟨i, header, ⟨l, hi, -, he⟩, hh⟩
    exact ⟨_, List.mem_of_getElem? hi, by rwa [Event.entriesOf, if_pos hh]⟩

/-! ## Rotations date the segments -/

/-- A type-set segment from before a rotation is of an earlier generation. -/
def Dated (H : History) (now : Nat) : Prop :=
  ∀ i header e, H.MainAt i header e → header.kind = .typeSet → H.RotatedAfter i →
    header.generation < now

theorem RotatedAfter.of_append (h : RotatedAfter (H ++ E) i) (hE : .rotated ∉ E) :
    H.RotatedAfter i := by
  obtain ⟨k, hik, hget⟩ := h
  refine ⟨k, hik, ?_⟩
  by_cases hk : k < H.length
  · rwa [List.getElem?_append_left hk] at hget
  · rw [List.getElem?_append_right (Nat.le_of_not_lt hk)] at hget
    exact absurd (List.mem_of_getElem? hget) hE

theorem Dated.append (h : H.Dated now) (hE : .rotated ∉ E) : (H ++ E).Dated now := by
  intro i header e hi hkind hrot
  have hrot := hrot.of_append hE
  obtain ⟨k, hik, hget⟩ := hrot
  have hlt : i < H.length := Nat.lt_trans hik (List.getElem?_eq_some_iff.mp hget).1
  exact h i header e ((mainAt_append E hlt).mp hi) hkind ⟨k, hik, hget⟩

/-- At a rotation the segments of the last generation join the earlier ones. -/
theorem Dated.rotate (h : H.Dated now)
    (hnow : ∀ i header e, H.CurrentAt i header e → header.generation = now) :
    Dated (H ++ [.rotated]) (now + 1) := by
  intro i header e hi hkind _
  rw [mainAt_snoc_rotated] at hi
  by_cases hrot : H.RotatedAfter i
  · exact Nat.lt_succ_of_lt (h i header e hi hkind hrot)
  · rw [hnow i header e ⟨hi, hkind, hrot⟩]
    exact Nat.lt_succ_self now

end History

namespace TypeSet

variable {t : TypeSet} {g : MetadataGraph} {event : Event}

theorem mem_captureEvents {σ : Type} [Sink σ] {w : σ} (h : event ∈ t.captureEvents g w) :
    (∃ header l, event = .committed header l) ∨
      ∃ t' l, event = .forgotten (forgottenBy (fun t n => t.methodsOf g n) t' l) := by
  unfold captureEvents at h
  split at h
  · cases h
  · rcases List.mem_cons.mp h with h | h
    · exact .inl ⟨_, _, h⟩
    · exact .inr ⟨_, _, List.mem_singleton.mp h⟩

/-- A pass does not rotate. -/
theorem epochs_serialize {σ τ : Type} [Sink σ] [Sink τ] (t : TypeSet) (g : MetadataGraph)
    (flags : PassFlags) (w : Sinks σ τ) : (t.serialize g flags w).types.epochs = t.epochs := by
  cases hc : t.commits? g flags w with
  | none => exact (mainKept_of_stopped hc).epochs
  | some q =>
      obtain ⟨b, t', w'⟩ := q
      obtain ⟨hplan, bytes, -, heq⟩ := serialize_committed hc
      obtain ⟨s, hp⟩ := plan_ok hplan
      rw [heq, (written_finishPass t' flags b bytes w').epochs, hp.types]
      rfl

/-- A capture does not rotate. -/
theorem epochs_captureUnloading {σ : Type} [Sink σ] (t : TypeSet) (g : MetadataGraph) (w : σ) :
    (t.captureUnloading g w).types.epochs = t.epochs := by
  cases hc : t.captures? g w with
  | none => exact (mainKept_of_captureUnloading_stopped hc).epochs
  | some q =>
      obtain ⟨l, r⟩ := q
      obtain ⟨-, -, n, w', -, heq⟩ := captureUnloading_committed hc
      rw [heq]
      exact (forgot_forgetClasses _ _ _).epochs

/-- Only classes and methods go with classes. -/
theorem not_mem_forgottenBy_symbol (methods : TypeSet → Handle → List Handle) (t : TypeSet)
    (l : List Handle) (n : Handle) : .symbol n ∉ forgottenBy methods t l := by
  induction l generalizing t with
  | nil => exact List.not_mem_nil
  | cons k rest ih =>
      unfold forgottenBy
      simp [ih]

/-- The entries that a pass adds to a generation. -/
theorem ofGeneration_serializeEvents {σ τ : Type} [Sink σ] [Sink τ] {flags : PassFlags}
    {w w' : Sinks σ τ} {b : Batch} {t' : TypeSet}
    (hc : t.commits? g flags w = some (b, t', w')) (generation : Nat) :
    (t.serializeEvents g flags w).ofGeneration generation =
      if t.epochs.generation = generation then b.entries else [] := by
  obtain ⟨hplan, -⟩ := serialize_committed hc
  obtain ⟨s, hp⟩ := plan_ok hplan
  have hgen : (t'.passHeader flags).generation = t.epochs.generation := by
    rw [hp.types]
    rfl
  have hleak : (t'.leakEvents flags b w').ofGeneration generation = [] := by
    rcases leakEvents_cases t' flags b w' with hnil | ⟨p, header, -, hkind, hone⟩
    · rw [hnil]
      rfl
    · rw [hone, History.ofGeneration_committed_of_ne (by rw [hkind]; simp)]
  unfold serializeEvents
  rw [hc]
  dsimp only
  rw [History.ofGeneration_append, History.ofGeneration_append, hleak, List.append_nil,
    History.ofGeneration_ofSegment rfl, hgen]
  exact List.append_nil _

/-- A capture adds nothing to a generation. -/
theorem ofGeneration_captureEvents {σ : Type} [Sink σ] (t : TypeSet) (g : MetadataGraph) (w : σ)
    (generation : Nat) : (t.captureEvents g w).ofGeneration generation = [] := by
  unfold captureEvents
  split
  · rfl
  · simp [History.ofGeneration, Event.entriesOf, captureHeader]

end TypeSet

namespace Run

variable {settings : Settings} {t : TypeSet} {H : History}

/-- Over any run, rotations date the segments. -/
theorem dated (h : Run settings t H) : H.Dated t.epochs.generation := by
  induction h with
  | create =>
      intro i _ _ hi
      exact absurd hi.lt_length (Nat.not_lt_zero i)
  | tag _ _ ih | tagLeak _ _ ih | clear _ ih => exact ih
  | rotate h ih => exact ih.rotate h.recorded.marks.generation_eq
  | serialize g flags w _ ih =>
      rw [epochs_serialize]
      refine ih.append ?_
      intro hmem
      obtain ⟨_, _, _, -, heq | ⟨_, _, -, -, heq⟩ | heq⟩ := mem_serializeEvents hmem <;> cases heq
  | captureUnloading g w _ ih =>
      rw [epochs_captureUnloading]
      refine ih.append ?_
      intro hmem
      rcases mem_captureEvents hmem with ⟨_, _, heq⟩ | ⟨_, _, heq⟩ <;> cases heq

/-- A segment of the generation now is one since the last rotation. -/
theorem currentAt_iff (h : Run settings t H) {i : Nat} {header : Header} {e : Entry} :
    H.CurrentAt i header e ↔ H.MainAt i header e ∧ header.kind = .typeSet ∧
      header.generation = t.epochs.generation := by
  constructor
  · intro hi
    exact ⟨hi.1, hi.2.1, h.recorded.marks.generation_eq i header e hi⟩
  · rintro ⟨hi, hkind, hgen⟩
    exact ⟨hi, hkind, fun hrot => absurd hgen (Nat.ne_of_lt (h.dated i header e hi hkind hrot))⟩

/-- Symbols are never forgotten. -/
theorem not_forgottenAfter_symbol (h : Run settings t H) (i : Nat) (n : Handle) :
    ¬ H.ForgottenAfter i (.symbol n) := by
  have hall : ∀ l, .forgotten l ∈ H → .symbol n ∉ l := by
    induction h with
    | create =>
        intro l hl
        cases hl
    | tag _ _ ih | tagLeak _ _ ih | clear _ ih => exact ih
    | rotate _ ih =>
        intro l hl
        rcases List.mem_append.mp hl with hl | hl
        · exact ih l hl
        · cases List.mem_singleton.mp hl
    | serialize g flags w _ ih =>
        intro l hl
        rcases List.mem_append.mp hl with hl | hl
        · exact ih l hl
        · obtain ⟨_, _, _, -, heq | ⟨_, _, -, -, heq⟩ | heq⟩ := mem_serializeEvents hl <;> cases heq
          exact not_mem_forgottenBy_symbol _ _ _ n
    | captureUnloading g w _ ih =>
        intro l hl
        rcases List.mem_append.mp hl with hl | hl
        · exact ih l hl
        · rcases mem_captureEvents hl with ⟨_, _, heq⟩ | ⟨t', k, heq⟩ <;> cases heq
          exact not_mem_forgottenBy_symbol _ t' k n
  rintro ⟨k, l, -, hget, hmem⟩
  exact hall l (List.mem_of_getElem? hget) hmem

section Pass

variable {g : MetadataGraph} {flags : PassFlags} {σ τ : Type} [Sink σ] [Sink τ]
  {w w' : Sinks σ τ} {b : Batch} {t' : TypeSet}

/-- An artifact that a pass writes without a tag is not marked as written. -/
theorem not_serialized_of_untagged (h : Run settings t H)
    (hc : t.commits? g flags w = some (b, t', w')) {a : Artifact}
    (ha : a ∈ Entry.subjects b.entries) (htag : t.marks.isTagged a = false) :
    t.marks.isSerialized a = false := by
  obtain ⟨hplan, -⟩ := serialize_committed hc
  obtain ⟨s, hp⟩ := plan_ok hplan
  obtain ⟨hs, -⟩ := Pass.planAll_ok (h.recorded.ready g flags.classUnload) hp.plan
  rw [hp.entries] at ha
  by_cases hkind : a.kind = .symbol
  · obtain ⟨e, he, hsub⟩ := Entry.mem_subjects.mp ha
    obtain ⟨k, n⟩ := a
    cases hkind
    obtain ⟨_, _, -, -, htagged | ⟨hnot, -⟩⟩ := hs.symbols e he n hsub
    · exact absurd (htag.symm.trans htagged) Bool.false_ne_true
    · exact hnot
  · cases hs.needed a ha hkind with
    | root hroot => exact absurd (htag.symm.trans hroot.1) Bool.false_ne_true
    | dependency _ _ hnot =>
        -- an untagged dependency with the mark would have been passed over
        rw [Bool.eq_false_iff]
        intro hser
        apply hnot
        show (t.marks.isSerialized a && !t.marks.isTagged a) = true
        rw [hser, htag]
        rfl

/-- An artifact that a pass writes without a tag was forgotten behind each earlier entry of it in
the same generation. -/
theorem forgotten_of_rewritten (h : Run settings t H)
    (hc : t.commits? g flags w = some (b, t', w')) {a : Artifact}
    (ha : a ∈ Entry.subjects b.entries) (htag : t.marks.isTagged a = false) {i : Nat}
    {header : Header} {e : Entry} (hi : H.MainAt i header e) (hkind : header.kind = .typeSet)
    (hgen : header.generation = t.epochs.generation) (hsub : e.subject = some a) :
    H.ForgottenAfter i a := by
  by_contra hnot
  have hmarked : t.marks.isSerialized a = true :=
    (h.recorded.marks.marked_iff a).mpr
      ⟨i, header, e, h.currentAt_iff.mpr ⟨hi, hkind, hgen⟩, hsub, hnot⟩
  rw [h.not_serialized_of_untagged hc ha htag] at hmarked
  cases hmarked

/-- The record of the bootstrap loader is the only one with its id. -/
theorem subject_eq_none_iff (h : Run settings t H) {i : Nat} {header : Header} {e : Entry}
    (hi : H.MainAt i header e) : e.subject = none ↔ e.record.id = bootstrapId := by
  constructor
  · exact h.recorded.ids.bootstrap i header e hi
  · intro hid
    cases hsub : e.subject with
    | none => rfl
    | some a => exact absurd hid (h.recorded.ids.used i header e a hi hsub).1

end Pass

end Run

/-! ## Runs that tag some artifacts only -/

/-- A type set that is reached by a run which tags no artifacts but those that `tags` allows, with
the history of the run. -/
inductive RunTagging (settings : Settings) (tags : Artifact → Prop) : TypeSet → History → Prop
  | create : RunTagging settings tags (.create settings) []
  | tag {t : TypeSet} {H : History} (a : Artifact) : tags a → RunTagging settings tags t H →
      RunTagging settings tags (t.tag a).2 H
  | tagLeak {t : TypeSet} {H : History} (n : Handle) :
      RunTagging settings tags t H → RunTagging settings tags (t.tagLeak n).2 H
  | clear {t : TypeSet} {H : History} :
      RunTagging settings tags t H → RunTagging settings tags t.clear H
  | rotate {t : TypeSet} {H : History} :
      RunTagging settings tags t H → RunTagging settings tags t.rotate (H ++ [.rotated])
  | serialize {t : TypeSet} {H : History} {σ τ : Type} [Sink σ] [Sink τ] (g : MetadataGraph)
      (flags : PassFlags) (w : Sinks σ τ) :
      RunTagging settings tags t H →
      RunTagging settings tags (t.serialize g flags w).types (H ++ t.serializeEvents g flags w)
  | captureUnloading {t : TypeSet} {H : History} {σ : Type} [Sink σ] (g : MetadataGraph) (w : σ) :
      RunTagging settings tags t H →
      RunTagging settings tags (t.captureUnloading g w).types (H ++ t.captureEvents g w)

/-- Every run is one that may tag anything. -/
theorem Run.tagging {settings : Settings} {t : TypeSet} {H : History} (h : Run settings t H) :
    RunTagging settings (fun _ => True) t H := by
  induction h with
  | create => exact .create
  | tag a _ ih => exact .tag a trivial ih
  | tagLeak n _ ih => exact .tagLeak n ih
  | clear _ ih => exact .clear ih
  | rotate _ ih => exact .rotate ih
  | serialize g flags w _ ih => exact .serialize g flags w ih
  | captureUnloading g w _ ih => exact .captureUnloading g w ih

namespace RunTagging

variable {settings : Settings} {tags : Artifact → Prop} {t : TypeSet} {H : History}

theorem run (h : RunTagging settings tags t H) : Run settings t H := by
  induction h with
  | create => exact .create
  | tag a _ _ ih => exact .tag a ih
  | tagLeak n _ ih => exact .tagLeak n ih
  | clear _ ih => exact .clear ih
  | rotate _ ih => exact .rotate ih
  | serialize g flags w _ ih => exact .serialize g flags w ih
  | captureUnloading g w _ ih => exact .captureUnloading g w ih

/-- No call tags anything but the ones that are made to. -/
theorem tags_of_tagged (h : RunTagging settings tags t H) {a : Artifact}
    (ha : t.marks.isTagged a = true) : tags a := by
  induction h with
  | create => simp [TypeSet.create, MarkTable.has, MarkTable.marks, MarkTable.slot?] at ha
  | tag b hb _ ih =>
      rw [TypeSet.tag, MarkTable.isTagged, MarkTable.has_raise] at ha
      split at ha
      · rename_i heq
        rw [heq.1]
        exact hb
      · exact ih ha
  | tagLeak n _ ih =>
      rw [TypeSet.tagLeak, MarkTable.isTagged, MarkTable.has_raise, if_neg (by simp)] at ha
      exact ih ha
  | clear _ _ =>
      rw [TypeSet.clear, MarkTable.isTagged, MarkTable.has_lowerAll, if_pos rfl] at ha
      cases ha
  | rotate _ ih =>
      rw [TypeSet.rotate, MarkTable.isTagged, MarkTable.has_lowerAll, if_neg (by simp)] at ha
      exact ih ha
  | serialize g flags w _ ih => exact ih (has_serialize (by simp) ha)
  | captureUnloading g w _ ih => exact ih ((noNews_captureUnloading _ g w).marks _ _ ha)

/-- If a pass has at most one entry of some sort, and none unless the generation has none yet, then
each generation has at most one. -/
theorem atMostOnce (p : Entry → Bool)
    (hpass : ∀ {t : TypeSet} {H : History} {σ τ : Type} [Sink σ] [Sink τ] {g : MetadataGraph}
      {flags : PassFlags} {w w' : Sinks σ τ} {b : Batch} {t' : TypeSet},
      RunTagging settings tags t H → t.commits? g flags w = some (b, t', w') →
      b.entries.countP p ≤ 1 ∧
      ((∃ e ∈ b.entries, p e = true) → ∀ e ∈ H.ofGeneration t.epochs.generation, p e = false))
    (h : RunTagging settings tags t H) (generation : Nat) :
    (H.ofGeneration generation).countP p ≤ 1 := by
  induction h with
  | create => exact Nat.zero_le 1
  | tag _ _ _ ih | tagLeak _ _ ih | clear _ ih => exact ih
  | rotate _ ih =>
      rw [History.ofGeneration_append]
      simpa [History.ofGeneration, Event.entriesOf] using ih
  | @serialize t H σ τ _ _ g flags w h ih =>
      rw [History.ofGeneration_append, List.countP_append]
      cases hc : t.commits? g flags w with
      | none =>
          unfold serializeEvents
          rw [hc]
          exact ih
      | some q =>
          obtain ⟨b, t', w'⟩ := q
          rw [ofGeneration_serializeEvents hc]
          by_cases hgen : t.epochs.generation = generation
          · obtain ⟨hone, hfirst⟩ := hpass h hc
            rw [if_pos hgen]
            -- either the pass has no such entry, or the generation had none
            by_cases hany : ∃ e ∈ b.entries, p e = true
            · have hnone : (H.ofGeneration generation).countP p = 0 := by
                rw [List.countP_eq_zero]
                intro e he
                rw [← hgen] at he
                rw [hfirst hany e he]
                simp
              rw [hnone, Nat.zero_add]
              exact hone
            · have hnone : b.entries.countP p = 0 := by
                rw [List.countP_eq_zero]
                exact fun e he hp => hany ⟨e, he, hp⟩
              rw [hnone]
              exact ih
          · rw [if_neg hgen]
            exact ih
  | captureUnloading g w _ ih =>
      rw [History.ofGeneration_append, ofGeneration_captureEvents, List.append_nil]
      exact ih

/-- A list of entries with distinct artifacts has at most one entry of each. -/
theorem countP_subject_le {l : List Entry} (h : (Entry.subjects l).Nodup) (a : Artifact) :
    l.countP (fun e => e.subject = some a) ≤ 1 := by
  have hcount : l.countP (fun e => e.subject = some a) = (Entry.subjects l).count a := by
    unfold Entry.subjects
    rw [List.count, List.countP_filterMap]
    congr 1
    funext e
    cases e.subject <;> simp [beq_eq_decide]
  rw [hcount]
  exact List.nodup_iff_count_le_one.mp h a

/-- A symbol that is never tagged is written at most once in each generation. -/
theorem symbol_once (h : RunTagging settings tags t H) {n : Handle} (hn : ¬ tags (.symbol n))
    (generation : Nat) :
    (H.ofGeneration generation).countP (fun e => e.subject = some (.symbol n)) ≤ 1 := by
  refine h.atMostOnce _ ?_ generation
  intro t H σ τ _ _ g flags w w' b t' h hc
  refine ⟨countP_subject_le (h.run.content hc).subjects_nodup _, ?_⟩
  rintro ⟨e, he, hsub⟩ x hx
  have htag : t.marks.isTagged (.symbol n) = false := by
    rw [Bool.eq_false_iff]
    exact fun htag => hn (h.tags_of_tagged htag)
  obtain ⟨i, header, hi, hkind, hgen⟩ := History.mem_ofGeneration.mp hx
  rw [decide_eq_false_iff_not]
  intro hx
  exact h.run.not_forgottenAfter_symbol i n (h.run.forgotten_of_rewritten hc
    (Entry.mem_subjects.mpr ⟨e, he, of_decide_eq_true hsub⟩) htag hi hkind hgen hx)

/-- The record of the bootstrap loader is written at most once in each generation. -/
theorem bootstrap_once (h : RunTagging settings tags t H) (generation : Nat) :
    (H.ofGeneration generation).countP (fun e => e.subject.isNone) ≤ 1 := by
  refine h.atMostOnce _ ?_ generation
  intro t H σ τ _ _ g flags w w' b t' h hc
  have hcontent := h.run.content hc
  refine ⟨?_, ?_⟩
  · rw [List.countP_eq_length_filter]
    exact hcontent.bootstrap_once
  · rintro ⟨e, he, hsub⟩ x hx
    have hneeds := hcontent.bootstrap.mp ⟨e, he, Option.isNone_iff_eq_none.mp hsub⟩
    have hnot : t.bootstrapWritten = false := hneeds.2.1
    obtain ⟨i, header, hi, hkind, hgen⟩ := History.mem_ofGeneration.mp hx
    rw [Bool.eq_false_iff]
    intro hx
    have hwritten := h.run.recorded.marks.bootstrap_iff.mpr
      ⟨i, header, x, h.run.currentAt_iff.mpr ⟨hi, hkind, hgen⟩, Option.isNone_iff_eq_none.mp hx⟩
    rw [hnot] at hwritten
    cases hwritten

/-! ## The marks are exact -/

/-- Over any run, whatever fails in it: an artifact is marked as written iff a type-set segment
committed since the last rotation has a record for it and it was not forgotten since, and the
bootstrap loader is noted as written iff such a segment has the record with its id. So a pass
writes no artifact twice, and one that is not tagged only if it was forgotten behind each earlier
record of it in the generation; and in each generation there is at most one record of a symbol
that is never tagged, and at most one of the bootstrap loader. -/
theorem marks_exact (h : RunTagging settings tags t H) :
    (∀ a, t.marks.isSerialized a = true ↔ ∃ i header e, H.MainAt i header e ∧
      header.kind = .typeSet ∧ ¬ H.RotatedAfter i ∧ e.subject = some a ∧
      ¬ H.ForgottenAfter i a) ∧
    (t.bootstrapWritten = true ↔ ∃ i header e, H.MainAt i header e ∧ header.kind = .typeSet ∧
      ¬ H.RotatedAfter i ∧ e.record.id = bootstrapId) ∧
    (∀ {σ τ : Type} [Sink σ] [Sink τ] {g : MetadataGraph} {flags : PassFlags}
      {w w' : Sinks σ τ} {b : Batch} {t' : TypeSet}, t.commits? g flags w = some (b, t', w') →
      (Entry.subjects b.entries).Nodup ∧
      ∀ a ∈ Entry.subjects b.entries, t.marks.isTagged a = false →
        ∀ i header e, H.MainAt i header e → header.kind = .typeSet →
          header.generation = t.epoch.generation → e.subject = some a → H.ForgottenAfter i a) ∧
    (∀ generation n, ¬ tags (.symbol n) →
      (H.ofGeneration generation).countP (fun e => e.subject = some (.symbol n)) ≤ 1) ∧
    (∀ generation,
      (H.ofGeneration generation).countP (fun e => e.record.id = bootstrapId) ≤ 1) := by
  have hr := h.run.recorded
  refine ⟨?_, ?_, ?_, fun generation n hn => h.symbol_once hn generation, ?_⟩
  · intro a
    rw [hr.marks.marked_iff]
    constructor
    · rintro ⟨i, header, e, ⟨hi, hkind, hrot⟩, hsub, hnot⟩
      exact ⟨i, header, e, hi, hkind, hrot, hsub, hnot⟩
    · rintro ⟨i, header, e, hi, hkind, hrot, hsub, hnot⟩
      exact ⟨i, header, e, ⟨hi, hkind, hrot⟩, hsub, hnot⟩
  · rw [hr.marks.bootstrap_iff]
    constructor
    · rintro ⟨i, header, e, ⟨hi, hkind, hrot⟩, hsub⟩
      exact ⟨i, header, e, hi, hkind, hrot, (h.run.subject_eq_none_iff hi).mp hsub⟩
    · rintro ⟨i, header, e, hi, hkind, hrot, hid⟩
      exact ⟨i, header, e, ⟨hi, hkind, hrot⟩, (h.run.subject_eq_none_iff hi).mpr hid⟩
  · intro σ τ _ _ g flags w w' b t' hc
    refine ⟨(h.run.content hc).subjects_nodup, ?_⟩
    intro a ha htag i header e hi hkind hgen hsub
    exact h.run.forgotten_of_rewritten hc ha htag hi hkind hgen hsub
  · intro generation
    refine Nat.le_trans (Nat.le_of_eq (List.countP_congr ?_)) (h.bootstrap_once generation)
    intro e he
    obtain ⟨i, header, hi, -⟩ := History.mem_ofGeneration.mp he
    rw [decide_eq_true_iff, ← h.run.subject_eq_none_iff hi, Option.isNone_iff_eq_none]

end RunTagging

/-- A second pass in the same generation. Only classes are tagged, and the class of the first pass
still counts as written. -/
theorem marks_exact_second_pass :
    let H := sampleTypes.serializeEvents sampleGraph {} sampleLog ++
      sampleNext.serializeEvents sampleGraph {} sampleLog
    (∃ i header e, H.MainAt i header e ∧ header.kind = .typeSet ∧ ¬ H.RotatedAfter i ∧
      e.subject = some (.cls 1) ∧ ¬ H.ForgottenAfter i (.cls 1)) ∧
    (H.ofGeneration 0).countP (fun e => e.subject = some (.symbol 0)) ≤ 1 := by
  have hfirst : RunTagging {} (fun a => a.kind = .cls) sampleTypes [] :=
    .tag (.cls 1) rfl .create
  have hnext : RunTagging {} (fun a => a.kind = .cls) sampleNext
      (sampleTypes.serializeEvents sampleGraph {} sampleLog) :=
    .tag (.cls 2) rfl (.serialize sampleGraph {} sampleLog hfirst)
  have h := hnext.serialize sampleGraph {} sampleLog
  obtain ⟨hmarked, -, -, hsymbol, -⟩ := h.marks_exact
  exact ⟨(hmarked (.cls 1)).mp (by decide +kernel), hsymbol 0 0 (by simp)⟩

end TraceTypes
