import TraceTypes.Proofs.Recorded
/-!
# The content of a committed pass

Behind any run, the main segment of a pass has exactly the records that tags,
marks and graph ask for (`PassContent`), and two passes over the same tags, set
in whatever order, have records of the same artifacts and texts.
-/

namespace TraceTypes

open TypeSet

/-! ## Tags in a row -/

/-- Tag artifacts one after the other. -/
def TypeSet.tagAll (t : TypeSet) (l : List Artifact) : TypeSet :=
  l.foldl (fun t a => (t.tag a).2) t

theorem Run.tagAll {settings : Settings} {t : TypeSet} {H : History} (h : Run settings t H)
    (l : List Artifact) : Run settings (t.tagAll l) H := by
  induction l generalizing t with
  | nil => exact h
  | cons a rest ih => exact ih (.tag a h)

theorem TypeSet.tagAll_eq (t : TypeSet) (l : List Artifact) :
    ∃ marks : MarkTable, t.tagAll l = { t with marks := marks } ∧
      (∀ a, marks.isTagged a = (t.marks.isTagged a || decide (a ∈ l))) ∧
      ∀ a, marks.isSerialized a = t.marks.isSerialized a := by
  induction l generalizing t with
  | nil => exact ⟨t.marks, rfl, fun a => by simp, fun _ => rfl⟩
  | cons b rest ih =>
      obtain ⟨marks, heq, htagged, hserialized⟩ := ih (t.tag b).2
      refine ⟨marks, heq, fun a => ?_, fun a => ?_⟩
      · rw [htagged]
        show (MarkTable.has _ _ _ || _) = _
        rw [TypeSet.tag, MarkTable.has_raise]
        by_cases hb : a = b <;> simp [hb]
      · rw [hserialized]
        show MarkTable.has _ _ _ = _
        rw [TypeSet.tag, MarkTable.has_raise, if_neg fun h => by cases h.2]

/-- The order in which artifacts are tagged makes no difference to what a pass reads. -/
theorem TypeSet.alike_tagAll (t : TypeSet) {l l' : List Artifact} (h : ∀ a, a ∈ l ↔ a ∈ l')
    (g : MetadataGraph) (classUnload : Bool) :
    ((t.tagAll l).scope g classUnload).Alike ((t.tagAll l').scope g classUnload) := by
  obtain ⟨marks, heq, htagged, hserialized⟩ := t.tagAll_eq l
  obtain ⟨marks', heq', htagged', hserialized'⟩ := t.tagAll_eq l'
  rw [heq, heq']
  refine ⟨rfl, rfl, rfl, fun a => ?_, fun a => ?_⟩
  · show marks'.isTagged a = marks.isTagged a
    rw [htagged, htagged']
    simp only [h a]
  · show marks'.isSerialized a = marks.isSerialized a
    rw [hserialized, hserialized']

theorem TypeSet.symbols_tagAll (t : TypeSet) (l : List Artifact) :
    (t.tagAll l).symbols = t.symbols := by
  obtain ⟨_, heq, -⟩ := t.tagAll_eq l
  rw [heq]

/-! ## A committed pass -/

section Pass

variable {settings : Settings} {t t' : TypeSet} {H : History} {g : MetadataGraph}
  {flags : PassFlags} {σ τ : Type} [Sink σ] [Sink τ] {w w' : Sinks σ τ} {b : Batch}

theorem Run.content (h : Run settings t H) (hc : t.commits? g flags w = some (b, t', w')) :
    PassContent (t.scope g flags.classUnload) t.symbols b.entries := by
  obtain ⟨hplan, -⟩ := serialize_committed hc
  obtain ⟨s, hp⟩ := plan_ok hplan
  rw [hp.entries]
  exact Pass.content_of_planAll (h.recorded.ready g flags.classUnload) hp.plan

/-- The classes that go with a pass are the announced ones that it writes. -/
theorem Run.unloading_iff (h : Run settings t H) (hc : t.commits? g flags w = some (b, t', w'))
    (n : Handle) : n ∈ b.unloading ↔ flags.classUnload = true ∧ g.isUnloading n = true ∧
      .cls n ∈ Entry.subjects b.entries := by
  obtain ⟨hplan, -⟩ := serialize_committed hc
  obtain ⟨s, hp⟩ := plan_ok hplan
  obtain ⟨hs, htagged⟩ := Pass.planAll_ok (h.recorded.ready g flags.classUnload) hp.plan
  rw [hp.unloading, hp.entries]
  constructor
  · intro hn
    obtain ⟨h1, h2, hneed⟩ := hs.unloading n hn
    exact ⟨h1, h2, hs.mem_of_needed htagged hneed⟩
  · rintro ⟨h1, h2, hmem⟩
    exact hs.unloaded n hmem h1 h2

/-- Behind a pass the classes that go with it have no id and no marks. -/
theorem forgotten_of_unloading (hc : t.commits? g flags w = some (b, t', w')) {n : Handle}
    (hn : n ∈ b.unloading) :
    (t.serialize g flags w).types.id? (.cls n) = none ∧
      (t.serialize g flags w).types.marks.isSerialized (.cls n) = false := by
  obtain ⟨-, bytes, -, heq⟩ := serialize_committed hc
  have hwritten := written_finishPass t' flags b bytes w'
  have hmem := (cls_mem_forgottenBy registeredMethods t').mpr hn
  rw [heq]
  constructor
  · show (t'.finishPass flags b bytes w').types.registries.id? _ = none
    rw [hwritten.registries, Registries.id?_forgetAll, if_pos hmem]
  · rw [Bool.eq_false_iff]
    exact fun hser => ((hwritten.serialized _).mp hser).1 hmem

variable [LawfulSink σ] [LawfulSink τ]

/-- Behind any run, the main segment of a committed pass has exactly the records that are asked for:
one for each needed artifact, one for each text that is tagged or used and has no earlier record,
one of the bootstrap loader if it is needed and there is none since the last rotation. No id is
defined twice. The announced classes among them are written as unloading if the pass asks for
it, and are forgotten then. Which artifacts and texts are written does not depend on the order of
the tags. -/
theorem Run.pass_content (h : Run settings t H) (g : MetadataGraph) (flags : PassFlags) :
    (∀ (w w' : Sinks σ τ) (b : Batch) (t' : TypeSet), t.commits? g flags w = some (b, t', w') →
      committed (t.serialize g flags w).sinks.main =
        committed w.main ++ segmentOf (t.passHeader flags) (b.entries.map Entry.record) ∧
      PassContent (t.scope g flags.classUnload) t.symbols b.entries ∧
      (∀ n, .cls n ∈ Entry.subjects b.entries → flags.classUnload = true →
        g.isUnloading n = true → (t.serialize g flags w).types.id? (.cls n) = none)) ∧
    (t.bootstrapWritten = true ↔ ∃ i header e, H.CurrentAt i header e ∧ e.subject = none) ∧
    (∀ (l l' : List Artifact) (w w' w₁ w₁' : Sinks σ τ) (b b' : Batch) (t₁ t₁' : TypeSet),
      (∀ a, a ∈ l ↔ a ∈ l') →
      (t.tagAll l).commits? g flags w = some (b, t₁, w₁) →
      (t.tagAll l').commits? g flags w' = some (b', t₁', w₁') →
      (∀ a, a.kind ≠ .symbol → (a ∈ Entry.subjects b.entries ↔ a ∈ Entry.subjects b'.entries)) ∧
      (∀ text, text ∈ Entry.texts b.entries ↔ text ∈ Entry.texts b'.entries) ∧
      ((∃ e ∈ b.entries, e.subject = none) ↔ ∃ e ∈ b'.entries, e.subject = none)) := by
  refine ⟨fun w w' b t' hc => ⟨main_serialize hc, h.content hc, fun n hn h1 h2 => ?_⟩,
    h.recorded.marks.bootstrap_iff, fun l l' w w' w₁ w₁' b b' t₁ t₁' hl hc hc' => ?_⟩
  · exact (forgotten_of_unloading hc ((h.unloading_iff hc n).mpr ⟨h1, h2, hn⟩)).1
  · -- the content of each pass is fixed by scopes that are alike
    have hcontent := (h.tagAll l).content hc
    have hcontent' := (h.tagAll l').content hc'
    rw [t.symbols_tagAll] at hcontent hcontent'
    have halike := t.alike_tagAll hl g flags.classUnload
    obtain ⟨h1, h2, h3⟩ := hcontent.subset hcontent' halike
    obtain ⟨h1', h2', h3'⟩ := hcontent'.subset hcontent halike.symm
    exact ⟨fun a ha => ⟨h1 a ha, h1' a ha⟩, fun text => ⟨h2 text, h2' text⟩, h3, h3'⟩

end Pass

/-- The second pass writes the subclass and its name, and forgets it. -/
theorem pass_content_second_pass : ∃ (b : Batch) (t' : TypeSet) (w' : Sinks _ _),
    sampleNext.commits? sampleGraph { classUnload := true } sampleLog = some (b, t', w') ∧
    b.entries.length = 2 ∧
    PassContent (sampleNext.scope sampleGraph true) sampleNext.symbols b.entries := by
  obtain ⟨⟨b, t', w'⟩, hc⟩ := Option.isSome_iff_exists.mp
    (by decide +kernel :
      (sampleNext.commits? sampleGraph { classUnload := true } sampleLog).isSome = true)
  have hlength : (sampleNext.commits? sampleGraph { classUnload := true } sampleLog).map
      (fun q => q.1.entries.length) = some 2 := by decide +kernel
  rw [hc] at hlength
  have hcontent := (run_sampleNext.pass_content sampleGraph { classUnload := true }).1
    sampleLog w' b t' hc
  exact ⟨b, t', w', hc, Option.some.inj hlength, hcontent.2.1⟩

end TraceTypes
