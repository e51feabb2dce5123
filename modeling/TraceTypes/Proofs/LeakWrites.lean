import TraceTypes.Proofs.Forgetting
/-!
# What the calls do to the leak stream

Only the writing calls touch the leak stream. This module says what each of them
leaves there, apart from anything that was recorded before:

* `LeakStream.Drafted`, `LeakStream.Answered` — a prepared write: which ids were
  handed out, and what the entries say of their classes;
* `Pass.cls_of_mem_leakClasses` — the classes of a write are those of the graph;
* `TypeSet.plan_leak`, `TypeSet.plan_leak_error` — the leak part of a plan;
* `TypeSet.leak_finishPass` — the write is committed or rolled back, and then
  the classes written as unloading are forgotten;
* `TypeSet.leak_forgetClasses` — to forget classes on the leak stream takes
  their ids and nothing that was retained.
-/

namespace TraceTypes

namespace LeakStream

variable {g : MetadataGraph} {name : String} {generation : Nat}
  {classes l : List (Handle × ClassInfo)} {s s' : LeakStream} {p p' : PendingLeak}

/-! ## A prepared write -/

/-- To prepare a write has handed out ids to some of the classes, and has done nothing else. -/
structure Drafted (s s' : LeakStream) (classes : List (Handle × ClassInfo)) : Prop where
  ids : ∃ fresh, s.ids.Extends s'.ids fresh ∧ ∀ a ∈ fresh, ∃ c ∈ classes, a = .cls c.1
  wf : s.ids.WF → s'.ids.WF
  retain : s'.retain = s.retain
  retained : s'.retained = s.retained

theorem drafted_nil (s : LeakStream) : Drafted s s [] :=
  ⟨⟨[], .refl _, fun _ ha => absurd ha List.not_mem_nil⟩, id, rfl, rfl⟩

theorem Drafted.register {s₀ : LeakStream} {n : Handle} {c : ClassInfo} {id : TraceId}
    {fresh : Bool} {ids : Registries} (h : Drafted s₀ s l)
    (hr : s.ids.register (.cls n) = .ok ((id, fresh), ids)) :
    Drafted s₀ { s with ids := ids } (l ++ [(n, c)]) := by
  obtain ⟨old, hext, hold⟩ := h.ids
  refine ⟨⟨_, hext.register hr, ?_⟩, fun hwf => (h.wf hwf).register hr, h.retain, h.retained⟩
  have hgrow : ∀ a ∈ old, ∃ e ∈ l ++ [(n, c)], a = .cls e.1 := by
    intro a ha
    obtain ⟨e, he, hae⟩ := hold a ha
    exact ⟨e, List.mem_append_left _ he, hae⟩
  intro a ha
  split at ha
  · rcases List.mem_append.mp ha with ha | ha
    · exact hgrow a ha
    · exact ⟨(n, c), by simp, List.mem_singleton.mp ha⟩
  · exact hgrow a ha

theorem drafted_prepareOnto {s₀ : LeakStream} (h : Drafted s₀ s l) :
    Drafted s₀ (endState (prepareOnto g name generation classes p s)) (l ++ classes) := by
  have hgrow {s : LeakStream} {k k' : List (Handle × ClassInfo)} (h : Drafted s₀ s k)
      (hk : k ⊆ k') : Drafted s₀ s k' := by
    obtain ⟨fresh, hext, hfresh⟩ := h.ids
    refine ⟨⟨fresh, hext, fun a ha => ?_⟩, h.wf, h.retain, h.retained⟩
    obtain ⟨c, hc, hac⟩ := hfresh a ha
    exact ⟨c, hk hc, hac⟩
  induction classes generalizing p s l with
  | nil =>
      rw [List.append_nil]
      exact h
  | cons e rest ih =>
      obtain ⟨n, c⟩ := e
      unfold prepareOnto
      cases hr : s.ids.register (.cls n) with
      | error v => exact hgrow h (by simp)
      | ok q =>
          obtain ⟨⟨id, fresh⟩, ids⟩ := q
          have hone := h.register (c := c) hr
          dsimp only
          cases loaderName g name c with
          | error v => exact hgrow hone (by simp)
          | ok loader =>
              dsimp only
              rw [List.append_cons l]
              exact ih hone

/-- However the preparation of a write ends, it has handed out ids to classes of the write only. -/
theorem drafted_prepare (g : MetadataGraph) (name : String) (generation : Nat)
    (classes : List (Handle × ClassInfo)) (s : LeakStream) :
    Drafted s (endState (prepare g name generation classes s)) classes :=
  drafted_prepareOnto (l := []) (drafted_nil s)

/-- What an entry of a write says of its class. -/
structure Describes (g : MetadataGraph) (bootstrapName : String) (generation : Nat)
    (s : LeakStream) (c : Handle × ClassInfo) (e : LeakEntry) : Prop where
  id : s.ids.id? (.cls c.1) = some e.id
  name : e.name = c.2.name
  loader : loaderName g bootstrapName c.2 = .ok e.loaderName
  current : e.generation = generation

/-- The entries of a write describe the classes, in their order, and only these classes got their
id for it. -/
structure Answered (g : MetadataGraph) (name : String) (generation : Nat) (s : LeakStream)
    (classes : List (Handle × ClassInfo)) (p : PendingLeak) : Prop where
  length : classes.length = p.entries.length
  describes : ∀ x ∈ classes.zip p.entries, Describes g name generation s x.1 x.2
  fresh : ∀ a ∈ p.fresh, ∃ c ∈ classes, a = .cls c.1

theorem answered_prepareOnto (h : Answered g name generation s l p)
    (hok : prepareOnto g name generation classes p s = .ok p' s') :
    Answered g name generation s' (l ++ classes) p' := by
  induction classes generalizing p s l with
  | nil =>
      cases hok
      rw [List.append_nil]
      exact h
  | cons e rest ih =>
      obtain ⟨n, c⟩ := e
      unfold prepareOnto at hok
      cases hr : s.ids.register (.cls n) with
      | error v => rw [hr] at hok; cases hok
      | ok q =>
          obtain ⟨⟨id, fresh⟩, ids⟩ := q
          rw [hr] at hok
          dsimp only at hok
          cases hl : LeakStream.loaderName g name c with
          | error v => rw [hl] at hok; cases hok
          | ok loader =>
              rw [hl] at hok
              rw [List.append_cons l]
              refine ih ⟨?_, ?_, ?_⟩ hok
              · simp [h.length]
              · -- the classes before keep their ids, and this one has the id of its entry
                intro x hx
                rw [List.zip_append h.length] at hx
                rcases List.mem_append.mp hx with hx | hx
                · have hd := h.describes x hx
                  exact ⟨Registries.id?_register_of_some hr hd.id, hd.name, hd.loader, hd.current⟩
                · rw [List.mem_singleton.mp hx]
                  exact ⟨Registries.id?_of_register hr, rfl, hl, rfl⟩
              · intro a ha
                have hold : a ∈ p.fresh → ∃ x ∈ l ++ [(n, c)], a = .cls x.1 := by
                  intro ha
                  obtain ⟨x, hx, hax⟩ := h.fresh a ha
                  exact ⟨x, List.mem_append_left _ hx, hax⟩
                dsimp only at ha
                split at ha
                · rcases List.mem_append.mp ha with ha | ha
                  · exact hold ha
                  · exact ⟨(n, c), by simp, List.mem_singleton.mp ha⟩
                · exact hold ha

/-- A prepared write describes its classes. -/
theorem answered_prepare (h : prepare g name generation classes s = .ok p s') :
    Answered g name generation s' classes p := by
  refine answered_prepareOnto (l := []) (p := {}) ⟨rfl, fun x hx => ?_, fun a ha => ?_⟩ h
  · cases hx
  · cases ha

/-- All entries of a write are of one generation. -/
theorem Answered.current (h : Answered g name generation s classes p) :
    ∀ e ∈ p.entries, e.generation = generation := by
  intro e he
  obtain ⟨n, hn, rfl⟩ := List.getElem_of_mem he
  have hn' : n < classes.length := by rw [h.length]; exact hn
  have hmem : (classes[n], p.entries[n]) ∈ classes.zip p.entries :=
    List.mem_iff_getElem.mpr ⟨n, by rw [List.length_zip]; omega, List.getElem_zip⟩
  exact (h.describes _ hmem).current

end LeakStream

/-! ## The classes of a write -/

namespace Pass

variable {c : PassScope} {s : Pass} {classes : List (Handle × ClassInfo)}

theorem mem_describeClasses {g : MetadataGraph} {l : List Handle}
    (h : describeClasses g l = .ok classes) {x : Handle × ClassInfo} (hx : x ∈ classes) :
    x.1 ∈ l ∧ g.cls x.1 = some x.2 := by
  induction l generalizing classes with
  | nil =>
      cases h
      cases hx
  | cons n rest ih =>
      unfold describeClasses at h
      cases hn : g.cls n with
      | none => rw [hn] at h; cases h
      | some i =>
          rw [hn] at h
          cases hrest : describeClasses g rest with
          | error v => rw [hrest] at h; cases h
          | ok l =>
              rw [hrest] at h
              cases h
              rcases List.mem_cons.mp hx with rfl | hx
              · exact ⟨List.mem_cons_self, hn⟩
              · obtain ⟨hmem, hcls⟩ := ih hrest hx
                exact ⟨List.mem_cons_of_mem _ hmem, hcls⟩

/-- A pass notes classes with the fields that the graph has for them. -/
theorem stable_classes (c : PassScope) :
    PassM.Stable c fun s => ∀ x ∈ s.classes, c.graph.cls x.1 = some x.2 := by
  refine PassM.stable_of_classes (fun s s' heq _ hs => heq ▸ hs) ?_
  intro a i h
  cases i with
  | cls i =>
      obtain ⟨n, rfl, hn⟩ := MetadataGraph.cls_of_describe? h
      refine .modify fun s hs x hx => ?_
      rcases List.mem_append.mp hx with hx | hx
      · exact hs x hx
      · rw [List.mem_singleton.mp hx]
        exact hn
  | classLoader | module | package | method | thread => exact .pure _

/-- The classes that a pass writes to the leak stream come with the fields that the graph has for
them. -/
theorem cls_of_mem_leakClasses {r : Registries} {y : SymbolTable} (h : planAll c r y = .ok () s)
    (hl : s.leakClasses c = .ok classes) : ∀ x ∈ classes, c.graph.cls x.1 = some x.2 := by
  have hs := (stable_classes c).planAll (r := r) (y := y) fun x hx => absurd hx List.not_mem_nil
  rw [h] at hs
  unfold leakClasses at hl
  dsimp only at hl
  generalize (c.marks.carrying .leak .cls).filter _ = marked at hl
  cases hd : describeClasses c.graph marked with
  | error v => rw [hd] at hl; cases hl
  | ok l =>
      rw [hd] at hl
      cases hl
      intro x hx
      rcases List.mem_append.mp hx with hx | hx
      · exact hs x hx
      · exact (mem_describeClasses hd hx).2

end Pass

namespace TypeSet

variable {t t' : TypeSet} {g : MetadataGraph} {classUnload withLeak : Bool}

/-- On the leak stream the classes are forgotten, whatever methods go with them. -/
theorem leak_forgetClasses (methods : TypeSet → Handle → List Handle) (t : TypeSet)
    (l : List Handle) : (t.forgetClasses methods l).leak = t.leak.forgetAll l := by
  rw [forgetClasses_eq]

theorem poisoned_forgetClasses (methods : TypeSet → Handle → List Handle) (t : TypeSet)
    (l : List Handle) : (t.forgetClasses methods l).poisoned = t.poisoned := by
  rw [forgetClasses_eq]

/-! ## The leak part of a plan -/

/-- The plan of a pass has prepared a write for the leak stream if there is a leak sink, and else
has not touched the leak stream. -/
theorem plan_leak {b : Batch} (h : t.plan g classUnload withLeak = .ok b t') :
    (withLeak = false ∧ b.leak = none ∧ t'.leak = t.leak) ∨
    (withLeak = true ∧ ∃ s classes p,
      Pass.planAll (t.scope g classUnload) t.registries t.symbols = .ok () s ∧
      s.leakClasses (t.scope g classUnload) = .ok classes ∧
      LeakStream.prepare g t.settings.bootstrapLoaderName t.epoch.generation classes t.leak =
        .ok p t'.leak ∧
      b.leak = some p ∧ b.leakClasses = classes.map Prod.fst) := by
  obtain ⟨s, hplan, ⟨rfl, rfl, rfl⟩ | ⟨rfl, classes, p, leak, hclasses, hprepare, rfl, rfl⟩⟩ :=
    plan_cases h
  · exact .inl ⟨rfl, rfl, rfl⟩
  · exact .inr ⟨rfl, s, classes, p, hplan, hclasses, hprepare, rfl, rfl⟩

/-- A plan that meets a violation leaves the leak stream as it was, or as a preparation that met
it. -/
theorem plan_leak_error {v : Violation} (h : t.plan g classUnload withLeak = .error v t') :
    t'.leak = t.leak ∨ ∃ s classes,
      Pass.planAll (t.scope g classUnload) t.registries t.symbols = .ok () s ∧
      s.leakClasses (t.scope g classUnload) = .ok classes ∧
      LeakStream.prepare g t.settings.bootstrapLoaderName t.epoch.generation classes t.leak =
        .error v t'.leak := by
  rcases plan_stopped h with hm | ⟨-, s, classes, leak, hplan, hclasses, hprepare, rfl⟩
  · -- the registrations that are undone are those of the main stream
    rw [planMain_stopped hm]
    exact .inl rfl
  · exact .inr ⟨s, classes, hplan, hclasses, hprepare⟩

/-! ## The entries of a leak segment -/

section Entries

variable {classes : List (Handle × ClassInfo)} {b : Batch} {p : PendingLeak}

/-- An entry of the segment is for one of the classes and has the record that was prepared for
it. -/
theorem mem_leakEntries {e : Entry} (hb : b.leakClasses = classes.map Prod.fst)
    (he : e ∈ leakEntries b p) :
    ∃ c x, (c, x) ∈ classes.zip p.entries ∧ e = ⟨some (.cls c.1), LeakEntry.record x⟩ := by
  unfold leakEntries at he
  rw [hb, List.zipWith_map_left, ← List.map_uncurry_zip_eq_zipWith] at he
  obtain ⟨⟨c, x⟩, hx, rfl⟩ := List.mem_map.mp he
  exact ⟨c, x, hx, rfl⟩

theorem subjects_leakEntries (h : p.entries.length = b.leakClasses.length) :
    Entry.subjects (leakEntries b p) = b.leakClasses.map Artifact.cls := by
  unfold leakEntries Entry.subjects
  generalize b.leakClasses = l at h
  generalize p.entries = entries at h
  induction entries generalizing l with
  | nil =>
      rw [List.length_eq_zero_iff.mp h.symm]
      rfl
  | cons e rest ih =>
      cases l with
      | nil => cases h
      | cons n l => exact congrArg (_ :: ·) (ih l (Nat.succ.inj h))

end Entries

/-! ## Behind the commit of the main segment -/

section Pass

variable {σ τ : Type} [Sink τ]

theorem poisoned_finishPass (t : TypeSet) (flags : PassFlags) (b : Batch) (bytes : Nat)
    (w : Sinks σ τ) : (t.finishPass flags b bytes w).types.poisoned = t.poisoned := by
  rcases finishPass_cases t flags b bytes w with
    ⟨-, heq⟩ | ⟨p, -, ⟨size, w', -, heq⟩ | ⟨e, w', -, heq⟩⟩ <;>
  · rw [heq]
    exact poisoned_forgetClasses ..

/-- What becomes of the write to the leak stream: there was none, or it is committed with its
segment, or rolled back without one. In each case the classes written as unloading are forgotten
then. -/
theorem leak_finishPass (t : TypeSet) (flags : PassFlags) (b : Batch) (bytes : Nat)
    (w : Sinks σ τ) (hsink : b.leak.isSome = true → w.leak.isSome = true) :
    (b.leak = none ∧ t.leakEvents flags b w = [] ∧
      (t.finishPass flags b bytes w).types.leak = t.leak.forgetAll b.unloading) ∨
    ∃ p, b.leak = some p ∧
      ((t.leakEvents flags b w =
          Event.ofSegment { t.passHeader flags with kind := .leakProfiler } (leakEntries b p) ∧
        (t.finishPass flags b bytes w).types.leak = (t.leak.commit p).forgetAll b.unloading) ∨
      (t.leakEvents flags b w = [] ∧
        (t.finishPass flags b bytes w).types.leak = (t.leak.rollback p).forgetAll b.unloading)) := by
  unfold leakEvents
  rcases finishPass_cases t flags b bytes w with
    ⟨hb, heq⟩ | ⟨p, hb, ⟨size, w', hfinish, heq⟩ | ⟨e, w', hfinish, heq⟩⟩
  · rw [heq, hb]
    exact .inl ⟨rfl, rfl, leak_forgetClasses ..⟩
  · rw [heq, hb]
    refine .inr ⟨p, rfl, .inl ⟨?_, leak_forgetClasses registeredMethods _ b.unloading⟩⟩
    dsimp only
    rw [hfinish]
    exact if_pos (hsink (by rw [hb]; rfl))
  · rw [heq, hb]
    refine .inr ⟨p, rfl, .inr ⟨?_, leak_forgetClasses registeredMethods _ b.unloading⟩⟩
    dsimp only
    rw [hfinish]

end Pass

end TypeSet

/-- The commit of the main segment neither adds nor drops a leak sink. -/
theorem Sinks.isSome_leak_commitMain {σ τ : Type} [Sink σ] [Sink τ] {h : Header} {b : Batch}
    {n : Nat} {w w' : Sinks σ τ} (hok : commitMain h b w = .ok n w') :
    w'.leak.isSome = w.leak.isSome := by
  obtain ⟨_, w₁, hstage, hok⟩ := ok_of_bind hok
  obtain ⟨_, w₂, hleak, hfinish⟩ := ok_of_bind hok
  rw [(onMain_ok hfinish).2, ← (onMain_ok hstage).2]
  obtain ⟨-, ⟨hx, hx', -⟩ | ⟨x, x', hx, hx', -⟩⟩ := onLeak_ok hleak
  · rw [hx, hx']
  · rw [hx, hx']
    rfl

end TraceTypes
