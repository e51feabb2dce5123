import TraceTypes.Proofs.Recorded
/-!
# A reader can follow every reference

Whatever a run has done before, and whatever fails in it, each id in a record
of a type-set segment is defined by a record in front of it: earlier in the
segment, or in an earlier type-set segment of the same generation. That record
was written for just the text or artifact that the graph has in the field.

`Pass.EntryOk` has this for a single pass, in terms of the registries and marks
at its beginning. The ledgers turn what stands since before the pass into
entries of the history.
-/

namespace TraceTypes

open Dependency TypeSet

/-- The fields of an artifact that name the artifact itself are those of a class that is its own
superclass or element class. -/
theorem ArtifactInfo.self_of_mentions {g : MetadataGraph} {a : Artifact} {i : ArtifactInfo}
    (hi : g.describe? a = some i) (h : .artifact a ∈ i.mentions) :
    ∃ n c, a = .cls n ∧ i = .cls c ∧ g.cls n = some c ∧
      (c.superclass = some n ∨ c.element = some n) := by
  have hkind := MetadataGraph.kind_of_describe? hi
  cases i with
  | cls c =>
      obtain ⟨n, rfl, hn⟩ := MetadataGraph.cls_of_describe? hi
      refine ⟨n, c, rfl, rfl, hn, ?_⟩
      have hloader : Target.artifact (.cls n) ≠ .loader c.loader := by
        cases c.loader <;> simp [Target.loader]
      simpa [mentions, hloader] using h
  | classLoader c => simp [mentions] at h
  | module c => simp [mentions] at h
  | thread c => simp [mentions] at h
  | method c =>
      obtain ⟨k, n⟩ := a
      cases hkind
      simp [mentions] at h
  | package c =>
      obtain ⟨k, n⟩ := a
      cases hkind
      simp [mentions] at h

namespace History

/-- An entry in front defines the id as that of the target: one of `before`, or one in a type-set
segment of the history with the same generation. -/
def Defined (H : History) (generation : Nat) (before : List Entry) (id : TraceId) (x : Target) :
    Prop :=
  (∃ e ∈ before, e.Defines id x) ∨
  ∃ i header e, H.MainAt i header e ∧ header.kind = .typeSet ∧ header.generation = generation ∧
    e.Defines id x

/-- The id leads a reader to the target. The bootstrap loader has its id for good, and a record to
lead to unless that is switched off. -/
def Resolves (H : History) (settings : Settings) (generation : Nat) (before : List Entry)
    (id : TraceId) : Target → Prop
  | .bootstrap => id = bootstrapId ∧
      (settings.emitBootstrapLoader = true → H.Defined generation before id .bootstrap)
  | x => H.Defined generation before id x

end History

namespace Recorded

variable {settings : Settings} {t : TypeSet} {H : History} {g : MetadataGraph}
  {classUnload : Bool} {id : TraceId} {x : Target} {before : List Entry}

/-- What a marked artifact has its mark from. -/
theorem entry_of_serialized (h : Recorded settings t H) {a : Artifact}
    (ha : t.marks.isSerialized a = true) (hid : t.registries.id? a = some id) :
    ∃ i header e, H.MainAt i header e ∧ header.kind = .typeSet ∧
      header.generation = t.epochs.generation ∧ e.subject = some a ∧ e.record.id = id ∧
      e.Shaped t.symbols := by
  obtain ⟨i, header, e, hi, hsub, hnot⟩ := (h.marks.marked_iff a).mp ha
  have hlive := h.ids.live i header e a hi.1 hsub hnot
  rw [hid] at hlive
  exact ⟨i, header, e, hi.1, hi.2.1, h.marks.generation_eq i header e hi, hsub,
    (Option.some.inj hlive).symm, h.marks.shaped i header e hi.1 hi.2.1⟩

/-- What an id stands for since before a pass, an entry of the history defines. -/
theorem resolves_of_prior (h : Recorded settings t H)
    (hp : Pass.Prior (t.scope g classUnload) t.registries t.symbols id x) :
    H.Resolves settings t.epochs.generation before id x := by
  cases x with
  | text s =>
      obtain ⟨n, hser, htext, hid⟩ := hp
      obtain ⟨i, header, e, hi, hkind, hgen, hsub, rfl, hshape⟩ := h.entry_of_serialized hser hid
      obtain ⟨id', text, hrec, htext'⟩ := hshape.symbol n hsub
      have htext : t.symbols.text? n = some s := htext
      rw [htext] at htext'
      cases htext'
      exact .inr ⟨i, header, e, hi, hkind, hgen, ⟨n, hsub⟩, by rw [hrec]; rfl⟩
  | artifact a =>
      obtain ⟨hvalid, hid⟩ := hp
      have hser : t.marks.isSerialized a = true := (Bool.and_eq_true_iff.mp hvalid).1
      obtain ⟨i, header, e, hi, hkind, hgen, hsub, hrec, hshape⟩ := h.entry_of_serialized hser hid
      exact .inr ⟨i, header, e, hi, hkind, hgen, hsub, hrec, hshape.tag a hsub⟩
  | bootstrap =>
      obtain ⟨rfl, hwritten⟩ := hp
      refine ⟨rfl, ?_⟩
      intro hemit
      have hb : t.bootstrapWritten = true := hwritten (by rw [← h.settings] at hemit; exact hemit)
      obtain ⟨i, header, e, hi, hsub⟩ := h.marks.bootstrap_iff.mp hb
      obtain ⟨name, hrec⟩ := (h.marks.shaped i header e hi.1 hi.2.1).bootstrap hsub
      exact .inr ⟨i, header, e, hi.1, hi.2.1, h.marks.generation_eq i header e hi, hsub, rfl, name,
        hrec⟩

/-- What an id stands for in a pass, an entry in front of it defines. -/
theorem resolves_of_stands (h : Recorded settings t H)
    (hs : Pass.Stands (t.scope g classUnload) t.registries t.symbols before id x) :
    H.Resolves settings t.epochs.generation before id x := by
  rcases hs with ⟨e, he, hd⟩ | hp
  · cases x with
    | text s => exact .inl ⟨e, he, hd⟩
    | artifact a => exact .inl ⟨e, he, hd⟩
    | bootstrap => exact ⟨hd.2.1, fun _ => .inl ⟨e, he, hd⟩⟩
  · exact h.resolves_of_prior hp

end Recorded

/-- The entry can be read by one who has read the history and the entries before it: its record has
the fields that the graph has for its artifact, and every id in it leads to what the graph has
there. -/
structure Entry.Readable (settings : Settings) (g : MetadataGraph) (H : History)
    (generation : Nat) (before : List Entry) (e : Entry) : Prop where
  artifact : ∀ a, e.subject = some a → a.kind ≠ .symbol → ∃ i, g.describe? a = some i ∧
    e.record.Shows (H.Resolves settings generation before) i ∧
    ∀ id ∈ e.record.references, ∃ x ∈ i.mentions, H.Resolves settings generation before id x
  symbol : ∀ n, e.subject = some (.symbol n) → e.record.references = []
  bootstrap : e.subject = none → ∃ name, e.record = .classLoader bootstrapId (some name) name ∧
    H.Resolves settings generation before name (.text settings.bootstrapLoaderName)

/-- The entries of a planned pass can be read one after the other. -/
theorem Recorded.readable {settings : Settings} {t : TypeSet} {H : History} {g : MetadataGraph}
    {classUnload : Bool} {s : Pass} (h : Recorded settings t H)
    (hself : ∀ n c, g.cls n = some c → c.superclass ≠ some n ∧ c.element ≠ some n)
    (hplan : Pass.planAll (t.scope g classUnload) t.registries t.symbols = .ok () s) :
    Entry.Grounded (Entry.Readable settings g H t.epoch.generation) s.entries := by
  obtain ⟨hs, -⟩ := Pass.planAll_ok (h.ready g classUnload) hplan
  refine hs.grounded.imp fun before e _ he hok => ⟨?_, ?_, ?_⟩
  · intro a hsub hkind
    unfold Pass.EntryOk at hok
    rw [hsub] at hok
    obtain ⟨i, hi, hok⟩ := hok hkind
    have hshows : e.record.Shows (H.Resolves settings t.epoch.generation before) i := by
      refine hok.shows.imp ?_
      intro x hx id hmeans
      -- only the record of a self-referring class could mean itself
      rcases hmeans with hstands | rfl
      · exact h.resolves_of_stands hstands
      · obtain ⟨n, c, -, -, hn, hor⟩ := ArtifactInfo.self_of_mentions hi hx
        exact (hor.elim (hself n c hn).1 (hself n c hn).2).elim
    exact ⟨i, hi, hshows, fun id hid => hshows.of_mem_references hid⟩
  · intro n hsub
    obtain ⟨id, text, hrec, -⟩ := hs.symbols e he n hsub
    rw [hrec]
    rfl
  · intro hsub
    unfold Pass.EntryOk at hok
    rw [hsub] at hok
    obtain ⟨name, hrec, hstands⟩ := hok
    refine ⟨name, hrec, ?_⟩
    have := h.resolves_of_stands hstands
    rw [show (t.scope g classUnload).settings = settings from h.settings] at this
    exact this

/-- In every type-set segment that a pass commits, behind any run, each entry can be read by one who
has read what stands in front of it. No class may be its own superclass or element class. -/
theorem Run.references_resolve {settings : Settings} {t : TypeSet} {H : History}
    (h : Run settings t H) {σ τ : Type} [Sink σ] [Sink τ] [LawfulSink σ] [LawfulSink τ]
    (g : MetadataGraph) (flags : PassFlags) (w : Sinks σ τ)
    (hself : ∀ n c, g.cls n = some c → c.superclass ≠ some n ∧ c.element ≠ some n) :
    ∃ segments, committed (t.serialize g flags w).sinks.main = committed w.main ++ segments ∧
      ∀ segment ∈ segments, ∃ entries,
        .committed segment.1 entries ∈ t.serializeEvents g flags w ∧
        segment.2 = entries.map Entry.record ∧
        segment.1.kind = .typeSet ∧ segment.1.generation = t.epoch.generation ∧
        Entry.Grounded (Entry.Readable settings g H segment.1.generation) entries := by
  refine ⟨_, (serialize_writes t g flags w).1, ?_⟩
  rintro ⟨header, records⟩ hmem
  obtain ⟨l, hl, hkind, rfl⟩ := mem_segments.mp hmem
  obtain ⟨b, t', w', hc, rfl, rfl⟩ := main_of_mem_serializeEvents hl (by simpa using hkind)
  obtain ⟨hplan, -⟩ := serialize_committed hc
  obtain ⟨s, hp⟩ := plan_ok hplan
  have hepoch : t'.epoch = t.epoch := by rw [hp.types]; rfl
  have hgen : (t'.passHeader flags).generation = t.epoch.generation := by rw [← hepoch]; rfl
  refine ⟨b.entries, hl, rfl, rfl, hgen, ?_⟩
  dsimp only
  rw [hgen, hp.entries]
  exact h.recorded.readable hself hp.plan

theorem sampleGraph_ne_self {n : Handle} {c : ClassInfo} (h : sampleGraph.cls n = some c) :
    c.superclass ≠ some n ∧ c.element ≠ some n := by
  simp only [sampleGraph] at h
  split at h <;> cases h <;> simp

/-- The second pass refers to the superclass that the first one wrote. -/
theorem references_resolve_across_passes :
    ∃ segments : List Transcript, segments.length = 1 ∧
      committed (sampleNext.serialize sampleGraph {} sampleLog).sinks.main = segments ∧
      ∀ segment ∈ segments, ∃ entries, segment.2 = entries.map Entry.record ∧
        Entry.Grounded (Entry.Readable {} sampleGraph
          (sampleTypes.serializeEvents sampleGraph {} sampleLog) segment.1.generation) entries := by
  obtain ⟨segments, hlog, h⟩ := run_sampleNext.references_resolve sampleGraph {} sampleLog
    fun _ _ => sampleGraph_ne_self
  have hlog : committed (sampleNext.serialize sampleGraph {} sampleLog).sinks.main = segments :=
    hlog
  refine ⟨segments, ?_, hlog, fun segment hmem => ?_⟩
  · rw [← hlog]
    decide +kernel
  · obtain ⟨entries, -, hrecords, -, -, hread⟩ := h segment hmem
    exact ⟨entries, hrecords, hread⟩

end TraceTypes
