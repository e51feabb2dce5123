import TraceTypes.Proofs.CommittedContent
import TraceTypes.Proofs.Owners
import TraceTypes.Proofs.Unloaded
/-!
# A pass for unloading

A pass that is made for unloading retires announced classes: it writes them
with the unloading marker and forgets them with the methods that are registered
as theirs. But it retires those only that it writes. These are the announced
classes among the needed ones: a class that is tagged, or that a needed artifact
depends on without an earlier record of it to refer to. An announced class that
was written before and is not tagged again is passed over, and keeps its id.

* `TypeSet.Retired` — nothing is left of a class;
* `TypeSet.MethodOf` — the methods that may go with a class;
* `Run.unloading_pass` — what becomes of the announced classes of either sort,
  and of all other artifacts.
-/

namespace TraceTypes

open LawfulSink

namespace TypeSet

variable {t t' : TypeSet} {g : MetadataGraph} {a : Artifact} {n m : Handle} {l : List Handle}

/-- Nothing is left of the class: no id, no mark, no id on the leak stream and no method. -/
structure Retired (t : TypeSet) (n : Handle) : Prop where
  id : t.id? (.cls n) = none
  marks : ∀ m, t.marks.has m (.cls n) = false
  leakId : t.leakId? n = none
  methods : t.registeredMethods n = []

/-- The methods of a class: those that are registered as its own, and those that the graph says it
declares. -/
inductive MethodOf (t : TypeSet) (g : MetadataGraph) (n : Handle) : Artifact → Prop
  | registered {m : Handle} {e : RegistryEntry} :
      t.registries.entry? (.method m) = some e → e.owner = some n → MethodOf t g n (.method m)
  | declared {m : Handle} {i : MethodInfo} :
      g.method m = some i → i.holder = n → MethodOf t g n (.method m)

/-! ## What goes with the written classes -/

/-- A method is forgotten iff it is registered as one of a forgotten class. -/
theorem method_mem_forgottenBy : .method m ∈ forgottenBy registeredMethods t l ↔
    ∃ e n, t.registries.entry? (.method m) = some e ∧ e.owner = some n ∧ n ∈ l := by
  -- where the graph declares no methods, the registered ones are all there are
  let g : MetadataGraph := ⟨fun _ => none, fun _ => none, fun _ => none, fun _ => none,
    fun _ => none, fun _ => none, []⟩
  have hmethods : registeredMethods = fun t n => t.methodsOf g n := by
    funext t n
    simp [methodsOf, g]
  rw [hmethods, mem_forgottenBy]
  constructor
  · intro h
    cases h with
    | registered he howner hn => exact ⟨_, _, he, howner, hn⟩
    | tagged _ hi _ => cases hi
  · rintro ⟨e, n, he, howner, hn⟩
    exact .registered he howner hn

/-- Only classes and methods are forgotten. -/
theorem kind_of_mem_forgottenBy (h : a ∈ forgottenBy registeredMethods t l) :
    (∃ n ∈ l, a = .cls n) ∨ ∃ m, a = .method m := by
  induction l generalizing t with
  | nil => cases h
  | cons k rest ih =>
      unfold forgottenBy at h
      rcases List.mem_append.mp h with h | h
      · obtain ⟨m, -, rfl⟩ := List.mem_map.mp h
        exact .inr ⟨m, rfl⟩
      · rcases List.mem_cons.mp h with rfl | h
        · exact .inl ⟨k, List.mem_cons_self, rfl⟩
        · rcases ih h with ⟨n, hn, rfl⟩ | hm
          · exact .inl ⟨n, List.mem_cons_of_mem k hn, rfl⟩
          · exact .inr hm

/-- Behind a plan, a method has the owner that it had, or the one that the graph says. -/
theorem owner_of_planned {classUnload : Bool} {b : Batch} {s : Pass}
    (hp : Planned t g classUnload b t' s) {e : RegistryEntry}
    (he : t'.registries.entry? (.method m) = some e) (howner : e.owner = some n) :
    t.MethodOf g n (.method m) := by
  have hstable := PassM.stable_methodsHave (t.scope g classUnload)
    (P := fun m e => ∀ n, e.owner = some n → t.MethodOf g n (.method m))
    (fun m i id hi n hn => .declared hi (Option.some.inj hn))
  have hplanned := hstable.planAll (y := t.symbols)
    (show t.registries.MethodsHave _ from fun m e he n hn => .registered he hn)
  rw [hp.plan] at hplanned
  rw [hp.types] at he
  exact hplanned m e he n howner

/-! ## Behind the commit of the main segment -/

section Finish

variable {σ τ : Type} [Sink τ] {flags : PassFlags} {b : Batch} {bytes : Nat} {w : Sinks σ τ}

/-- The written classes have no marks, whatever becomes of the leak segment. -/
theorem has_finishPass_of_unloading (hn : n ∈ b.unloading) (mark : Mark) :
    (t.finishPass flags b bytes w).types.marks.has mark (.cls n) = false := by
  have hcommit (t : TypeSet) :
      (t.commitMain b flags.flushpoint).marks.has mark (.cls n) = false := by
    rw [Bool.eq_false_iff]
    intro h
    exact ((has_commitMain t b _ mark _).mp h).1 ((cls_mem_forgottenBy _ t).mpr hn)
  rcases finishPass_cases t flags b bytes w with
    ⟨-, heq⟩ | ⟨p, -, ⟨size, w', -, heq⟩ | ⟨e, w', -, heq⟩⟩ <;>
  · rw [heq]
    exact hcommit _

/-- If the pass succeeds, the written classes have lost their leak ids and no others have. -/
theorem leakId?_finishPass {k : Nat} (hok : (t.finishPass flags b bytes w).result = .ok k)
    (n : Handle) : (t.finishPass flags b bytes w).types.leakId? n =
      if n ∈ b.unloading then none else t.leakId? n := by
  have hforget (s : LeakStream) :
      (s.forgetAll b.unloading).id? n = if n ∈ b.unloading then none else s.id? n := by
    show Registries.id? (Registries.forgetAll _ _) _ = _
    rw [Registries.id?_forgetAll]
    simp [LeakStream.id?]
  have hcommit (t : TypeSet) :
      (t.commitMain b flags.flushpoint).leak = t.leak.forgetAll b.unloading := by
    rw [commitMain_eq]
  rcases finishPass_cases t flags b bytes w with
    ⟨-, heq⟩ | ⟨p, -, ⟨size, w', -, heq⟩ | ⟨e, w', -, heq⟩⟩
  · rw [heq]
    show LeakStream.id? (commitMain _ _ _).leak n = _
    rw [hcommit]
    exact hforget t.leak
  · rw [heq]
    show LeakStream.id? (commitMain _ _ _).leak n = _
    rw [hcommit, hforget]
    -- to commit what was prepared adds to the retained records only
    show (if _ then _ else (t.leak.commit p).ids.id? _) = _
    rw [LeakStream.ids_commit]
    rfl
  · rw [heq] at hok
    cases hok

end Finish

end TypeSet

/-! ## The whole call -/

section Pass

variable {settings : Settings} {t t' : TypeSet} {H : History} {g : MetadataGraph}
  {flags : PassFlags} {σ τ : Type} [Sink σ] [Sink τ] {w w' : Sinks σ τ} {b : Batch}

/-- A pass that succeeds has committed its main segment. -/
theorem TypeSet.commits?_of_ok {k : Nat} (hok : (t.serialize g flags w).result = .ok k) :
    ∃ b t' w', t.commits? g flags w = some (b, t', w') := by
  cases hc : t.commits? g flags w with
  | some q => exact ⟨q.1, q.2.1, q.2.2, rfl⟩
  | none =>
      rcases serialize_stopped hc with ⟨-, heq⟩ | ⟨v, t', -, heq⟩ | ⟨b, t', e, w', -, -, heq⟩ <;>
        rw [heq] at hok <;> cases hok

/-- An announced class goes with a pass for unloading iff it is needed. -/
theorem Run.unloading_iff_needed (h : Run settings t H) (hflag : flags.classUnload = true)
    (hc : t.commits? g flags w = some (b, t', w')) {n : Handle} (hn : n ∈ g.unloading) :
    n ∈ b.unloading ↔ (t.scope g true).Needed (.cls n) := by
  have hann : g.isUnloading n = true := List.contains_iff_mem.mpr hn
  rw [h.unloading_iff hc, (h.content hc).artifacts _ (by simp), hflag]
  simp [hann]

/-- Behind a committed pass nothing is left of the classes that were written as unloading. -/
theorem TypeSet.retired_of_unloading {k : Nat} (hc : t.commits? g flags w = some (b, t', w'))
    (hok : (t.serialize g flags w).result = .ok k) {n : Handle} (hn : n ∈ b.unloading) :
    (t.serialize g flags w).types.Retired n := by
  obtain ⟨-, bytes, -, heq⟩ := serialize_committed hc
  have hwritten := written_finishPass t' flags b bytes w'
  have hid := (forgotten_of_unloading hc hn).1
  rw [heq] at hok hid ⊢
  refine ⟨hid, has_finishPass_of_unloading hn, ?_, ?_⟩
  · rw [leakId?_finishPass hok, if_pos hn]
  · rw [List.eq_nil_iff_forall_not_mem]
    intro m hm
    obtain ⟨e, he, howner⟩ := Registries.mem_ownedBy.mp hm
    -- a method of the class would have been forgotten with it
    rw [hwritten.registries, Registries.entry?_forgetAll] at he
    split at he
    · cases he
    · rename_i hnot
      exact hnot (method_mem_forgottenBy.mpr ⟨e, n, he, howner, hn⟩)

/-- What is not forgotten with a class keeps its id over a committed pass. -/
theorem Run.keeps_id (h : Run settings t H) (hc : t.commits? g flags w = some (b, t', w'))
    {a : Artifact} {id : TraceId} (hid : t.id? a = some id)
    (ha : ∀ n ∈ b.unloading, a ≠ .cls n ∧ ¬ t.MethodOf g n a) :
    (t.serialize g flags w).types.id? a = some id := by
  obtain ⟨hplan, bytes, -, heq⟩ := TypeSet.serialize_committed hc
  obtain ⟨s, hp⟩ := TypeSet.plan_ok hplan
  obtain ⟨hs, -⟩ := Pass.planAll_ok (h.recorded.ready g flags.classUnload) hp.plan
  have hkept : t'.registries.id? a = some id := by
    rw [hp.types]
    exact hs.grown.registries.keeps hid
  show (t.serialize g flags w).types.registries.id? a = some id
  rw [heq, (TypeSet.written_finishPass t' flags b bytes w').registries, Registries.id?_forgetAll,
    if_neg, hkept]
  intro hmem
  rcases TypeSet.kind_of_mem_forgottenBy hmem with ⟨n, hn, rfl⟩ | ⟨m, rfl⟩
  · exact (ha n hn).1 rfl
  · obtain ⟨e, n, he, howner, hn⟩ := TypeSet.method_mem_forgottenBy.mp hmem
    exact (ha n hn).2 (TypeSet.owner_of_planned hp he howner)

/-- A class that a committed pass has no record for is left as it was. -/
theorem Run.passed_over (h : Run settings t H) (hc : t.commits? g flags w = some (b, t', w'))
    {n : Handle} (hn : .cls n ∉ Entry.subjects b.entries) :
    (t.serialize g flags w).types.id? (.cls n) = t.id? (.cls n) ∧
      (t.serialize g flags w).types.marks.isSerialized (.cls n) =
        t.marks.isSerialized (.cls n) := by
  obtain ⟨hplan, bytes, -, heq⟩ := TypeSet.serialize_committed hc
  obtain ⟨s, hp⟩ := TypeSet.plan_ok hplan
  obtain ⟨hs, -⟩ := Pass.planAll_ok (h.recorded.ready g flags.classUnload) hp.plan
  have hwritten := TypeSet.written_finishPass t' flags b bytes w'
  have hnot : .cls n ∉ TypeSet.forgottenBy TypeSet.registeredMethods t' b.unloading := by
    rw [TypeSet.cls_mem_forgottenBy, h.unloading_iff hc]
    exact fun hmem => hn hmem.2.2
  constructor
  · show (t.serialize g flags w).types.registries.id? _ = t.registries.id? _
    rw [heq, hwritten.registries, Registries.id?_forgetAll, if_neg hnot, hp.types]
    refine hs.grown.registries.other_id _ ?_
    intro hfresh
    rw [hp.entries] at hn
    exact hn ((hs.fresh _ hfresh).resolve_right List.not_mem_nil)
  · rw [heq, Bool.eq_iff_iff, hwritten.serialized, hp.marks]
    constructor
    · rintro ⟨-, hser | hmem⟩
      · exact hser
      · exact absurd hmem hn
    · exact fun hser => ⟨hnot, .inl hser⟩

variable [LawfulSink σ] [LawfulSink τ]

/-- Behind any run, a pass for unloading that succeeds retires the announced classes that are
needed, and has written each of them with the unloading marker, under the id that it had if it had
one. The other announced classes are not tagged; the pass has no record of them, and they keep
their ids and marks. So does every artifact that is not an announced class or a method of one keep
its id. -/
theorem Run.unloading_pass (h : Run settings t H) (g : MetadataGraph) (flags : PassFlags)
    (w : Sinks σ τ) {k : Nat} (hflag : flags.classUnload = true)
    (hok : (t.serialize g flags w).result = .ok k) :
    ∃ entries, committed (t.serialize g flags w).sinks.main = committed w.main ++
        segmentOf (t.passHeader flags) (entries.map Entry.record) ∧
      (∀ n ∈ g.unloading, (t.scope g true).Needed (.cls n) →
        (t.serialize g flags w).types.Retired n ∧
        ∃ e ∈ entries, e.subject = some (.cls n) ∧ e.record.saysUnloading = true ∧
          ∀ id, t.id? (.cls n) = some id → e.record.id = id) ∧
      (∀ n ∈ g.unloading, ¬ (t.scope g true).Needed (.cls n) →
        t.marks.isTagged (.cls n) = false ∧ .cls n ∉ Entry.subjects entries ∧
        (t.serialize g flags w).types.id? (.cls n) = t.id? (.cls n) ∧
        (t.serialize g flags w).types.marks.isSerialized (.cls n) =
          t.marks.isSerialized (.cls n) ∧
        ∀ id, t.leakId? n = some id → (t.serialize g flags w).types.leakId? n = some id) ∧
      (∀ a id, t.id? a = some id → (∀ n ∈ g.unloading, a ≠ .cls n ∧ ¬ t.MethodOf g n a) →
        (t.serialize g flags w).types.id? a = some id) := by
  obtain ⟨b, t', w', hc⟩ := TypeSet.commits?_of_ok hok
  obtain ⟨hplan, bytes, -, heq⟩ := TypeSet.serialize_committed hc
  obtain ⟨s, hp⟩ := TypeSet.plan_ok hplan
  obtain ⟨hs, -⟩ := Pass.planAll_ok (h.recorded.ready g flags.classUnload) hp.plan
  have hcontent := h.content hc
  have hneeded (n : Handle) : .cls n ∈ Entry.subjects b.entries ↔
      (t.scope g true).Needed (.cls n) := by
    rw [hcontent.artifacts _ (by simp), hflag]
  refine ⟨b.entries, TypeSet.main_serialize hc, ?_, ?_, ?_⟩
  · intro n hn hneed
    have hunloading := (h.unloading_iff_needed hflag hc hn).mpr hneed
    refine ⟨TypeSet.retired_of_unloading hc hok hunloading, ?_⟩
    obtain ⟨e, he, hsub⟩ := Entry.mem_subjects.mp ((hneeded n).mpr hneed)
    refine ⟨e, he, hsub, ?_, ?_⟩
    · rw [hcontent.unloading e he n hsub]
      exact Bool.and_eq_true_iff.mpr ⟨hflag, List.contains_iff_mem.mpr hn⟩
    · intro id hid
      rw [hp.entries] at he
      have hwritten := (hs.ids e he _ hsub).1
      have hkept := hs.grown.registries.keeps hid
      exact Option.some.inj (hwritten.symm.trans hkept)
  · intro n hn hneed
    have hnot := mt (hneeded n).mp hneed
    obtain ⟨hid, hser⟩ := h.passed_over hc hnot
    refine ⟨?_, hnot, hid, hser, ?_⟩
    · rw [Bool.eq_false_iff]
      exact fun htag => hneed (.root ⟨htag, by simp⟩)
    · intro id hleak
      have hunloading := mt (h.unloading_iff_needed hflag hc hn).mp hneed
      rw [heq] at hok ⊢
      rw [TypeSet.leakId?_finishPass hok, if_neg hunloading]
      exact hp.leak.ids.keeps hleak
  · intro a id hid ha
    refine h.keeps_id hc hid fun n hn => ha n ?_
    exact List.contains_iff_mem.mp ((h.unloading_iff hc n).mp hn).2.1

end Pass

/-- The tagged class is announced and goes with the pass. -/
theorem unloading_pass_sampleNext :
    (sampleNext.serialize sampleGraph { classUnload := true } sampleLog).types.Retired 2 := by
  have hok : (sampleNext.serialize sampleGraph { classUnload := true } sampleLog).result =
      .ok 17 := by decide +kernel
  obtain ⟨entries, -, hretired, -⟩ :=
    run_sampleNext.unloading_pass sampleGraph { classUnload := true } sampleLog rfl hok
  exact (hretired 2 (by decide) (.root ⟨by decide +kernel, by simp⟩)).1

/-- The class that was written in the first pass is announced, but not tagged again. The pass
succeeds without a record of it, and the class keeps its id and its mark. -/
theorem unloading_pass_passes_over :
    let g : MetadataGraph := { sampleGraph with unloading := [1] }
    let first := (sampleTypes.serialize sampleGraph {} sampleLog).types
    let second := first.serialize g { classUnload := true } sampleLog
    Run {} first (sampleTypes.serializeEvents sampleGraph {} sampleLog) ∧ 1 ∈ g.unloading ∧
      second.result = .ok 0 ∧ second.types.id? (.cls 1) = some 3 ∧
      second.types.marks.isSerialized (.cls 1) = true := by
  refine ⟨.serialize sampleGraph {} sampleLog run_sampleTypes, by decide, ?_, ?_, ?_⟩ <;>
    decide +kernel

end TraceTypes
