import TraceTypes.Proofs.CommittedContent
import TraceTypes.Proofs.LeakLedger
import TraceTypes.Proofs.Receipts
import TraceTypes.Proofs.Unloaded
/-!
# Leak segments and leak marks

The leak segment of a pass has one record for each class that the pass writes on
the main stream or that carries the leak mark (`LeakAnswered`). The classes come
from the notes of the pass and from the marks, and those with both are taken
once (`Pass.mem_leakClasses`, `Pass.nodup_leakClasses`).

A leak mark is a promise that the class will be described on the leak stream. It
is redeemed by the commit of a leak segment and by nothing else: every other
call keeps it, unless the class is reclaimed (`TypeSet.KeepsLeakMarks`,
`Run.leak_marks`).
-/

namespace TraceTypes

open TypeSet

/-! ## The classes of a leak segment -/

/-- No artifact stands in two slots. -/
theorem MarkTable.nodup_carrying (t : MarkTable) (m : Mark) (k : Kind) : (t.carrying m k).Nodup :=
  (t.slots.get k).nodup_keys.sublist (List.filter_sublist.map Prod.fst)

namespace Pass

variable {c : PassScope} {s : Pass} {classes : List (Handle × ClassInfo)}

theorem map_fst_describeClasses {g : MetadataGraph} {l : List Handle}
    (h : describeClasses g l = .ok classes) : classes.map Prod.fst = l := by
  induction l generalizing classes with
  | nil =>
      cases h
      rfl
  | cons n rest ih =>
      unfold describeClasses at h
      cases hn : g.cls n with
      | none => rw [hn] at h; cases h
      | some i =>
          rw [hn] at h
          cases hrest : describeClasses g rest with
          | error v => rw [hrest] at h; cases h
          | ok described =>
              rw [hrest] at h
              cases h
              exact congrArg (n :: ·) (ih hrest)

/-- The classes that a pass writes come first, and then those that are left of the marked ones. -/
theorem map_fst_leakClasses (hs : s.ClassesNoted c) (h : s.leakClasses c = .ok classes) :
    classes.map Prod.fst = s.writtenClasses ++
      (c.marks.carrying .leak .cls).filter fun n => !s.writtenClasses.contains n := by
  unfold leakClasses at h
  dsimp only at h
  rw [hs.classes] at h
  cases hd : describeClasses c.graph
      ((c.marks.carrying .leak .cls).filter fun n => !s.writtenClasses.contains n) with
  | error v => rw [hd] at h; cases h
  | ok marked =>
      rw [hd] at h
      cases h
      rw [List.map_append, hs.classes, map_fst_describeClasses hd]

theorem mem_leakClasses (hs : s.ClassesNoted c) (h : s.leakClasses c = .ok classes) {n : Handle} :
    n ∈ classes.map Prod.fst ↔
      .cls n ∈ Entry.subjects s.entries ∨ c.marks.has .leak (.cls n) = true := by
  rw [map_fst_leakClasses hs h, List.mem_append, List.mem_filter, MarkTable.mem_carrying,
    writtenClasses, mem_classHandles]
  by_cases hn : .cls n ∈ Entry.subjects s.entries <;> simp [hn, mem_classHandles, Artifact.cls]

theorem nodup_leakClasses (hs : s.ClassesNoted c) (hentries : (Entry.subjects s.entries).Nodup)
    (h : s.leakClasses c = .ok classes) : (classes.map Prod.fst).Nodup := by
  rw [map_fst_leakClasses hs h, List.nodup_append]
  refine ⟨nodup_classHandles hentries, (MarkTable.nodup_carrying ..).filter _, ?_⟩
  rintro n hn _ hmem rfl
  have := (List.mem_filter.mp hmem).2
  simp [hn] at this

end Pass

/-! ## What a leak segment says -/

/-- What the leak stream says of a class: its name in the graph and that of its loader. A loader
without a name of its own goes by that of its type, and a class without a loader names the bootstrap
loader. -/
inductive LeakRecordOf (g : MetadataGraph) (bootstrapName : String) (n : Handle) : Record → Prop
  | bootstrap {i : ClassInfo} {id : TraceId} : g.cls n = some i → i.loader = none →
      LeakRecordOf g bootstrapName n (.leakClass id i.name bootstrapName)
  | named {i : ClassInfo} {l : Handle} {j : LoaderInfo} {name : String} {id : TraceId} :
      g.cls n = some i → i.loader = some l → g.classLoader l = some j → j.name = some name →
      LeakRecordOf g bootstrapName n (.leakClass id i.name name)
  | unnamed {i : ClassInfo} {l : Handle} {j : LoaderInfo} {id : TraceId} :
      g.cls n = some i → i.loader = some l → g.classLoader l = some j → j.name = none →
      LeakRecordOf g bootstrapName n (.leakClass id i.name j.typeName)

namespace LeakStream

variable {g : MetadataGraph} {name : String} {generation : Nat} {s : LeakStream}

theorem Describes.recordOf {n : Handle} {i : ClassInfo} {e : LeakEntry}
    (h : Describes g name generation s (n, i) e) (hi : g.cls n = some i) :
    LeakRecordOf g name n e.record := by
  have hloader := h.loader
  unfold LeakEntry.record
  rw [h.name]
  unfold loaderName at hloader
  dsimp only at hloader ⊢
  cases hl : i.loader with
  | none =>
      rw [hl] at hloader
      injection hloader with hname
      rw [← hname]
      exact .bootstrap hi hl
  | some l =>
      rw [hl] at hloader
      dsimp only at hloader
      cases hj : g.classLoader l with
      | none => rw [hj] at hloader; cases hloader
      | some j =>
          rw [hj] at hloader
          injection hloader with hname
          rw [← hname, LoaderInfo.displayName]
          cases hown : j.name with
          | none => exact .unnamed hi hl hj hown
          | some own => exact .named hi hl hj hown

variable {classes : List (Handle × ClassInfo)} {p : PendingLeak}

theorem Answered.forall₂ (h : Answered g name generation s classes p) :
    List.Forall₂ (Describes g name generation s) classes p.entries :=
  List.forall₂_iff_zip.mpr ⟨h.length, fun hx => h.describes _ hx⟩

/-- A write answers its classes in their order. -/
theorem Answered.recordsOf (h : Answered g name generation s classes p)
    (hclasses : ∀ x ∈ classes, g.cls x.1 = some x.2) :
    List.Forall₂ (LeakRecordOf g name) (classes.map Prod.fst) p.records := by
  unfold PendingLeak.records
  rw [List.forall₂_map_left_iff, List.forall₂_map_right_iff, List.forall₂_iff_zip]
  refine ⟨h.length, fun {x e} hx => ?_⟩
  exact (h.describes _ hx).recordOf (hclasses x (List.of_mem_zip hx).1)

/-- The records of a write have ids of their own. -/
theorem Answered.nodup_ids (h : Answered g name generation s classes p) (hwf : s.ids.WF)
    (hnodup : (classes.map Prod.fst).Nodup) : (p.records.map Record.id).Nodup := by
  have hids : classes.map (fun x => s.ids.id? (.cls x.1)) =
      (p.records.map Record.id).map some := by
    unfold PendingLeak.records
    rw [List.map_map, List.map_map, ← List.forall₂_eq_eq_eq, List.forall₂_map_left_iff,
      List.forall₂_map_right_iff]
    exact h.forall₂.imp fun _ _ hd => hd.id
  have hsome : ((p.records.map Record.id).map some).Nodup := by
    rw [← hids]
    refine List.Nodup.map_on ?_ hnodup.of_map
    intro x hx y hy heq
    -- each class of the write has an id, and no other class has it
    have hmem : s.ids.id? (.cls x.1) ∈ (p.records.map Record.id).map some := by
      rw [← hids]
      exact List.mem_map.mpr ⟨x, hx, rfl⟩
    obtain ⟨id, -, hid⟩ := List.mem_map.mp hmem
    have hsame : Artifact.cls x.1 = .cls y.1 := hwf.id?_inj hid.symm (heq ▸ hid.symm)
    exact List.inj_on_of_nodup_map hnodup hx hy (congrArg Artifact.handle hsame)
  exact hsome.of_map

end LeakStream

/-! ## What becomes of leak marks -/

namespace TypeSet

/-- Each class has its leak mark as before, except for those that were forgotten: they have none. -/
def KeepsLeakMarks (t t' : TypeSet) (forgotten : List Handle) : Prop :=
  ∀ n, t'.marks.has .leak (.cls n) = (t.marks.has .leak (.cls n) && !forgotten.contains n)

variable {t t' : TypeSet} {g : MetadataGraph} {flags : PassFlags} {b : Batch}

theorem KeepsLeakMarks.of_eq
    (h : ∀ n, t'.marks.has .leak (.cls n) = t.marks.has .leak (.cls n)) :
    KeepsLeakMarks t t' [] := by
  intro n
  rw [h n, List.contains_nil, Bool.not_false, Bool.and_true]

theorem KeepsLeakMarks.of_marks {t₁ : TypeSet} {l : List Handle} (h : KeepsLeakMarks t₁ t' l)
    (hmarks : t₁.marks = t.marks) : KeepsLeakMarks t t' l := by
  intro n
  rw [← hmarks]
  exact h n

theorem keepsLeakMarks_tag (t : TypeSet) (a : Artifact) : KeepsLeakMarks t (t.tag a).2 [] := by
  refine .of_eq fun n => ?_
  exact (t.marks.has_raise ..).trans (if_neg fun h => by cases h.2)

theorem keepsLeakMarks_clear (t : TypeSet) : KeepsLeakMarks t t.clear [] :=
  .of_eq fun _ => t.marks.has_lowerAll ..

theorem keepsLeakMarks_rotate (t : TypeSet) : KeepsLeakMarks t t.rotate [] :=
  .of_eq fun _ => t.marks.has_lowerAll ..

theorem keepsLeakMarks_commitMain (t : TypeSet) (b : Batch) (flushpoint : Bool) :
    KeepsLeakMarks t (t.commitMain b flushpoint) b.unloading := by
  intro n
  rw [Bool.eq_iff_iff, has_commitMain, cls_mem_forgottenBy]
  simp [and_comm]

/-- The commit of a leak segment redeems the marks of its classes. -/
theorem has_leak_commitLeak (t : TypeSet) (b : Batch) (p : PendingLeak) (n : Handle) :
    (t.commitLeak b p).marks.has .leak (.cls n) = true ↔
      t.marks.has .leak (.cls n) = true ∧ n ∉ b.leakClasses := by
  unfold commitLeak
  rw [has_foldl_lower]
  simp

section Pass

variable {σ τ : Type} [Sink σ] [Sink τ] {w w' : Sinks σ τ}

/-- A pass that answers no leak segment keeps the leak marks. -/
theorem keepsLeakMarks_serialize
    (h : w.leak = none ∨ ∃ e, (t.serialize g flags w).result = .error e) :
    KeepsLeakMarks t (t.serialize g flags w).types
      (t.serializeEvents g flags w).forgottenClasses := by
  cases hc : t.commits? g flags w with
  | none =>
      rw [forgottenClasses_stopped hc]
      refine .of_eq fun n => ?_
      rw [(mainKept_of_stopped hc).marks]
  | some q =>
      obtain ⟨b, t', w'⟩ := q
      obtain ⟨hplan, bytes, -, heq⟩ := serialize_committed hc
      obtain ⟨s, hp⟩ := plan_ok hplan
      rw [forgottenClasses_serializeEvents hc]
      rw [heq] at h ⊢
      rcases finishPass_cases t' flags b bytes w' with
        ⟨-, hfinish⟩ | ⟨p, hb, ⟨size, w₁, -, hfinish⟩ | ⟨e, w₁, -, hfinish⟩⟩ <;>
        rw [hfinish] at h ⊢
      · exact (keepsLeakMarks_commitMain t' b flags.flushpoint).of_marks hp.marks
      · -- a leak segment was committed, so there is a leak sink and no error
        rcases h with hnone | ⟨e, herr⟩
        · have := isSome_leak_of_plan hplan
          rw [hb, hnone] at this
          cases this
        · cases herr
      · have hkept := keepsLeakMarks_commitMain { t' with leak := t'.leak.rollback p } b
          flags.flushpoint
        exact hkept.of_marks hp.marks

/-- Behind a leak segment no class of it carries the mark. -/
theorem leakMarks_committed (hc : t.commits? g flags w = some (b, t', w')) {bytes : Nat}
    (hok : (t.serialize g flags w).result = .ok bytes) (hleak : b.leak.isSome = true) {n : Handle}
    (hn : t.marks.has .leak (.cls n) = true → n ∈ b.leakClasses) :
    (t.serialize g flags w).types.marks.has .leak (.cls n) = false := by
  obtain ⟨hplan, size, -, heq⟩ := serialize_committed hc
  obtain ⟨s, hp⟩ := plan_ok hplan
  rw [heq] at hok ⊢
  rcases finishPass_cases t' flags b size w' with
    ⟨hb, -⟩ | ⟨p, -, ⟨_, _, -, hfinish⟩ | ⟨e, _, -, hfinish⟩⟩
  · rw [hb] at hleak
    cases hleak
  · rw [hfinish, Bool.eq_false_iff]
    intro hmark
    have hkept := keepsLeakMarks_commitMain (t'.commitLeak b p) b flags.flushpoint n
    have hmark := ((Bool.and_eq_true _ _).mp (hkept.symm.trans hmark)).1
    obtain ⟨hbefore, hnot⟩ := (has_leak_commitLeak t' b p n).mp hmark
    exact hnot (hn (hp.marks ▸ hbefore))
  · rw [hfinish] at hok
    cases hok

end Pass

section Capture

variable {σ : Type} [Sink σ] {w : σ}

theorem keepsLeakMarks_capture_error {e : TypeSetError}
    (herr : (t.captureUnloading g w).result = .error e) :
    KeepsLeakMarks t (t.captureUnloading g w).types [] := by
  cases hc : t.captures? g w with
  | none =>
      refine .of_eq fun n => ?_
      rw [(mainKept_of_captureUnloading_stopped hc).marks]
  | some q =>
      obtain ⟨-, -, n, w', -, heq⟩ := captureUnloading_committed hc
      rw [heq] at herr
      cases herr

theorem keepsLeakMarks_capture_ok {k : Nat} (hok : (t.captureUnloading g w).result = .ok k) :
    KeepsLeakMarks t (t.captureUnloading g w).types g.unloading := by
  have hunloaded := unloaded_captureUnloading hok
  intro n
  by_cases hn : n ∈ g.unloading
  · rw [(hunloaded.gone _ (.cls hn)).2 .leak]
    simp [hn]
  · have hstays : ¬ t.GoesWith g g.unloading (.cls n) := by
      rintro (hmem | _ | _)
      exact hn hmem
    rw [(hunloaded.stays _ hstays).2 .leak]
    simp [hn]

end Capture

end TypeSet

/-! ## Along a run -/

section Run

variable {settings : Settings} {t t' : TypeSet} {H : History} {g : MetadataGraph}
  {flags : PassFlags} {σ τ : Type} [Sink σ] [Sink τ] {w w' : Sinks σ τ} {b : Batch}

/-- What a pass has planned for its leak segment. -/
structure LeakPlan (t : TypeSet) (g : MetadataGraph) (b : Batch) : Prop where
  /-- The classes answered are those with a record in the main segment and those with a leak
  mark. -/
  classes : ∀ n, n ∈ b.leakClasses ↔
    .cls n ∈ b.emitted ∨ t.marks.has .leak (.cls n) = true
  /-- Each of them is answered once. -/
  nodup : b.leakClasses.Nodup
  described :
    List.Forall₂ (LeakRecordOf g t.settings.bootstrapLoaderName) b.leakClasses b.leakRecords
  ids : (b.leakRecords.map Record.id).Nodup

theorem Run.leakPlan (h : Run settings t H) (hc : t.commits? g flags w = some (b, t', w'))
    (hleak : w.leak.isSome = true) : LeakPlan t g b := by
  obtain ⟨hplan, -⟩ := serialize_committed hc
  obtain ⟨s, hp⟩ := plan_ok hplan
  rcases plan_leak hplan with
    ⟨hnone, -⟩ | ⟨-, _, classes, p, hplanned, hclasses, hprepare, hb, hlist⟩
  · rw [hleak] at hnone
    cases hnone
  cases hp.plan.symm.trans hplanned
  have hnoted := Pass.classesNoted_planAll hp.plan
  have hanswered := LeakStream.answered_prepare hprepare
  have hrecords := Batch.leakRecords_of_some hb
  have hnodup : (classes.map Prod.fst).Nodup :=
    Pass.nodup_leakClasses hnoted (hp.entries ▸ (h.content hc).subjects_nodup) hclasses
  have hwf : t'.leak.ids.WF := by
    have hdrafted := LeakStream.drafted_prepare g t.settings.bootstrapLoaderName
      t.epoch.generation classes t.leak
    rw [hprepare] at hdrafted
    exact hdrafted.wf (h.leakRecorded.sound (not_isPoisoned_of_commits hc)).ids.wf
  refine ⟨fun n => ?_, hlist ▸ hnodup, ?_, ?_⟩
  · rw [hlist, Batch.emitted, hp.entries]
    exact Pass.mem_leakClasses hnoted hclasses
  · rw [hlist, hrecords]
    exact hanswered.recordsOf (Pass.cls_of_mem_leakClasses hp.plan hclasses)
  · rw [hrecords]
    exact hanswered.nodup_ids hwf hnodup

variable [LogBacked σ] [LogBacked τ]

/-- What a pass has done that has answered the leak marks. -/
structure LeakAnswered (t : TypeSet) (g : MetadataGraph) (flags : PassFlags) (w : Sinks σ τ)
    (b : Batch) : Prop extends LeakPlan t g b where
  /-- Both segments are committed, each if it has records. -/
  logs : (t.serialize g flags w).sinks.logs =
    ⟨(log w.main).adding (t.passHeader flags) b.records,
      w.logs.leak.map (·.adding (t.leakHeader flags) b.leakRecords)⟩
  /-- No class carries the leak mark any more. -/
  redeemed : ∀ n, (t.serialize g flags w).types.marks.has .leak (.cls n) = false

theorem Run.leakAnswered (h : Run settings t H) {k : Nat} (hleak : w.leak.isSome = true)
    (hok : (t.serialize g flags w).result = .ok k) :
    ∃ b t' w', t.commits? g flags w = some (b, t', w') ∧ LeakAnswered t g flags w b := by
  cases hc : t.commits? g flags w with
  | none =>
      obtain ⟨e, herr, -⟩ := serialize_stopped_logs hc
      rw [herr] at hok
      cases hok
  | some q =>
      obtain ⟨b, t', w'⟩ := q
      have hplan := h.leakPlan hc hleak
      refine ⟨b, t', w', rfl, hplan, ?_, fun n => ?_⟩
      · obtain ⟨_, _, -, hlogs, -, ⟨-, rfl, -⟩ | ⟨e, herr, -⟩⟩ := serialize_committed_logs hc
        · exact hlogs
        · rw [herr] at hok
          cases hok
      · have hb := isSome_leak_of_plan (serialize_committed hc).1
        exact leakMarks_committed hc hok (hb.trans hleak) fun hn => (hplan.classes n).mpr (.inr hn)

/-- Behind any run, a pass with a leak sink that succeeds answers in its leak segment exactly the
classes that it writes and those that carry the leak mark, each once and by its names in the graph,
and no class carries the mark then. Until such a pass, every class keeps its leak mark over every
call, unless the call succeeds in forgetting it as reclaimed. -/
theorem Run.leak_marks (h : Run settings t H) :
    (∀ (g : MetadataGraph) (flags : PassFlags) (w : Sinks σ τ) (k : Nat),
      w.leak.isSome = true → (t.serialize g flags w).result = .ok k →
      ∃ b t' w', t.commits? g flags w = some (b, t', w') ∧ LeakAnswered t g flags w b) ∧
    (∀ a, KeepsLeakMarks t (t.tag a).2 []) ∧
    (∀ m n, (t.tagLeak m).2.marks.has .leak (.cls n) =
      (t.marks.has .leak (.cls n) || decide (n = m))) ∧
    KeepsLeakMarks t t.clear [] ∧
    KeepsLeakMarks t t.rotate [] ∧
    (∀ (g : MetadataGraph) (flags : PassFlags) (w : Sinks σ τ),
      (w.leak = none ∨ ∃ e, (t.serialize g flags w).result = .error e) →
      KeepsLeakMarks t (t.serialize g flags w).types
        (t.serializeEvents g flags w).forgottenClasses ∧
      ∀ n ∈ (t.serializeEvents g flags w).forgottenClasses,
        flags.classUnload = true ∧ g.isUnloading n = true) ∧
    (∀ (g : MetadataGraph) (w : σ) (e : TypeSetError),
      (t.captureUnloading g w).result = .error e →
      KeepsLeakMarks t (t.captureUnloading g w).types []) ∧
    (∀ (g : MetadataGraph) (w : σ) (k : Nat), (t.captureUnloading g w).result = .ok k →
      KeepsLeakMarks t (t.captureUnloading g w).types g.unloading) := by
  refine ⟨fun g flags w k hleak hok => h.leakAnswered hleak hok, keepsLeakMarks_tag t,
    fun m n => ?_, keepsLeakMarks_clear t, keepsLeakMarks_rotate t,
    fun g flags w hnone => ⟨keepsLeakMarks_serialize hnone, fun n hn => ?_⟩,
    fun g w e => keepsLeakMarks_capture_error, fun g w k => keepsLeakMarks_capture_ok⟩
  · show MarkTable.has _ _ _ = _
    rw [TypeSet.tagLeak, MarkTable.has_raise]
    by_cases hn : n = m <;> simp [hn, Artifact.cls]
  · cases hc : t.commits? g flags w with
    | none =>
        rw [forgottenClasses_stopped hc] at hn
        cases hn
    | some q =>
        rw [forgottenClasses_serializeEvents hc] at hn
        obtain ⟨h1, h2, -⟩ := (h.unloading_iff hc n).mp hn
        exact ⟨h1, h2⟩

end Run

/-- A class keeps its leak mark while the leak stream refuses it, and the next pass describes it
there, though it has no record on the main stream. -/
theorem leak_marks_refused_first :
    let t := (sampleNext.tagLeak 1).2
    let refused := t.serialize sampleGraph {} refusingLogs
    let answered := refused.types.serialize sampleGraph {} sampleLogs
    (refused.result = .error (.sink (.io "disk full")) ∧
      refused.types.marks.has .leak (.cls 1) = true) ∧
    (∃ record, LeakRecordOf sampleGraph "bootstrap" 1 record ∧
      answered.sinks.logs = ⟨{}, some (({} : SegmentLog).adding
        ⟨.leakProfiler, 0, false⟩ [record])⟩) ∧
    answered.types.marks.has .leak (.cls 1) = false := by
  intro t refused answered
  have hrun : Run {} t _ := .tagLeak 1 run_sampleNext
  have herr : refused.result = .error (.sink (.io "disk full")) := by decide +kernel
  obtain ⟨-, -, -, -, -, hkeeps, -⟩ := hrun.leak_marks (σ := Flaky SegmentLog)
    (τ := Flaky SegmentLog)
  have hkept := (hkeeps sampleGraph {} refusingLogs (.inr ⟨_, herr⟩)).1 1
  have hforgotten : (t.serializeEvents sampleGraph {} refusingLogs).forgottenClasses = [] := by
    decide +kernel
  have hmark : t.marks.has .leak (.cls 1) = true := by decide +kernel
  rw [hforgotten, hmark] at hkept
  refine ⟨⟨herr, hkept⟩, ?_⟩
  have hok : answered.result = .ok 0 := by decide +kernel
  obtain ⟨b, t', w', hc, h⟩ :=
    ((hrun.serialize sampleGraph {} refusingLogs).leak_marks (σ := SegmentLog)
      (τ := SegmentLog)).1 sampleGraph {} sampleLogs 0 rfl hok
  have hplanned : (refused.types.commits? sampleGraph {} sampleLogs).map
      (fun q => (q.1.records, q.1.leakClasses)) = some ([], [1]) := by decide +kernel
  rw [hc] at hplanned
  injection hplanned with hplanned
  obtain ⟨hmain, hclasses⟩ := Prod.mk.inj hplanned
  have hname : refused.types.settings.bootstrapLoaderName = "bootstrap" := by decide +kernel
  have hheader : refused.types.leakHeader {} = ⟨.leakProfiler, 0, false⟩ := by decide +kernel
  have hdescribed := h.described
  have hlogs := h.logs
  rw [hname, hclasses] at hdescribed
  rw [hmain, hheader] at hlogs
  generalize b.leakRecords = records at hdescribed hlogs
  cases hdescribed with
  | cons hrecord hnil =>
      cases hnil
      exact ⟨⟨_, hrecord, hlogs⟩, h.redeemed 1⟩

end TraceTypes
