import TraceTypes.Proofs.Expandable
import TraceTypes.Proofs.LeakLedger
import TraceTypes.Proofs.Recorded
import TraceTypes.Proofs.Traversal
/-!
# No violation without a defect

On a sound graph (`GraphSound`) a pass is planned without a violation, in every
state that a run reaches. Its main stream could fail for the depth limit only
(`GraphWhole.traversable`), and no chain of the graph is longer than that. On the
leak stream the next id has no owner either, and the graph has the fields of the
classes and the names of their loaders.
-/

namespace TraceTypes

open Dependency

/-- What is tagged is in the graph, or interned. The edges of the graph lead to what the graph has,
and nothing leads back to itself. -/
structure GraphWhole (marks : MarkTable) (y : SymbolTable) (g : MetadataGraph) : Prop where
  has : ∀ a, marks.has .referenced a = true → a.kind ≠ .symbol → g.Has a
  interned : ∀ n, marks.has .referenced (.symbol n) = true → (y.text? n).isSome = true
  closed : ∀ a d, PointsAt g a d → g.Has d
  acyclic : ∀ a, ¬ Relation.TransGen (PointsAt g) a a

/-- Everything that the tags need in such a graph is in order. -/
theorem GraphWhole.traversable {c : PassScope} {r : Registries} {y : SymbolTable}
    (hg : GraphWhole c.marks y c.graph) : c.Traversable r y where
  interned := hg.interned
  described a ha := by
    have hhas : c.graph.Has a := by
      cases ha with
      | root h => exact hg.has a h.1 h.2
      | dependency _ hd _ => exact hg.closed _ a hd.pointsAt
    obtain ⟨i, hi⟩ := Option.isSome_iff_exists.mp hhas
    obtain ⟨l, hl⟩ := exists_direct hi fun d hd => hg.closed a d hd
    exact ⟨i, l, hi, hl⟩
  acyclic a _ h := hg.acyclic a (Relation.TransGen.mono (fun _ _ h => h.1.pointsAt) _ _ h)
  known a i _ hi hself := absurd (.single (.field hi hself)) (hg.acyclic a)

/-- What is tagged or marked for the leak stream is in the graph, or interned. The edges of the
graph lead to what the graph has, nothing leads back to itself, and no chain of edges is longer than
the limit. -/
structure GraphSound (marks : MarkTable) (y : SymbolTable) (limit : Nat) (g : MetadataGraph) :
    Prop where
  has : ∀ a, marks.has .referenced a = true ∨ marks.has .leak a = true → a.kind ≠ .symbol → g.Has a
  interned : ∀ n, marks.has .referenced (.symbol n) = true → (y.text? n).isSome = true
  closed : ∀ a d, PointsAt g a d → g.Has d
  acyclic : ∀ a, ¬ Relation.TransGen (PointsAt g) a a
  chains : ∀ a l, g.Has a → List.IsChain (PointsAt g) (a :: l) → (a :: l).length ≤ limit

namespace GraphSound

variable {marks : MarkTable} {y : SymbolTable} {limit : Nat} {g : MetadataGraph} {a : Artifact}

/-- All that the graph has can be expanded. -/
theorem expandable (hg : GraphSound marks y limit g) (ha : g.Has a) : Expandable g limit a where
  has b hb := by
    cases hb with
    | refl => exact ha
    | tail _ hedge => exact hg.closed _ b hedge
  acyclic b _ := hg.acyclic b
  chains l hl := hg.chains a l ha hl

/-- All but the limit, as a pass over the graph needs it. -/
theorem whole (hg : GraphSound marks y limit g) : GraphWhole marks y g where
  has a ha := hg.has a (.inl ha)
  interned := hg.interned
  closed := hg.closed
  acyclic := hg.acyclic

end GraphSound

/-! ## The main stream -/

namespace Pass

variable {c : PassScope} {r : Registries} {y : SymbolTable} {s : Pass}

/-- A pass over a sound graph is planned without a violation. -/
theorem planAll_succeeds (hready : Ready c r y)
    (hg : GraphSound c.marks y c.settings.maxDependencyDepth c.graph) :
    ∃ s, planAll c r y = .ok () s := by
  have htag : ∀ a ∈ c.marks.allTagged, c.marks.isTagged a = true :=
    fun a ha => MarkTable.mem_allTagged.mp ha
  rcases visitAll_cases hready hg.whole.traversable (inv_start c r y) htag with
    ⟨_, s, h⟩ | ⟨earlier, root, later, s₁, p, s', hl, hkind, hok, hexp, -⟩
  · exact ⟨s, h⟩
  · -- the limit of the plan is that of the settings, and the root can be expanded within it
    exfalso
    have hdepth := ((stable_maxDepth c c.settings.maxDependencyDepth).visitAll earlier).ok rfl hok
    have hroot := hg.expandable (hg.has root (.inl (htag root (by simp [hl]))) hkind)
    rw [← hdepth] at hroot
    obtain ⟨order, p', hsucceeds⟩ := EmissionPlan.expand_succeeds c.stillValid hroot
    rw [hsucceeds] at hexp
    cases hexp

/-! ## The leak stream -/

theorem describeClasses_succeeds {g : MetadataGraph} {l : List Handle}
    (h : ∀ n ∈ l, g.Has (.cls n)) : ∃ classes, describeClasses g l = .ok classes := by
  induction l with
  | nil => exact ⟨[], rfl⟩
  | cons n rest ih =>
      obtain ⟨i, hi⟩ := Option.isSome_iff_exists.mp (h n List.mem_cons_self)
      obtain ⟨j, hj, -⟩ := Option.map_eq_some_iff.mp hi
      obtain ⟨classes, hrest⟩ := ih fun k hk => h k (List.mem_cons_of_mem _ hk)
      exact ⟨(n, j) :: classes, by simp only [describeClasses, hj, hrest]; rfl⟩

/-- What keeps the classes of a pass from being listed is a class that is missing. -/
theorem leakClasses_error {v : Violation} (h : s.leakClasses c = .error v) :
    ∃ a, v = .danglingArtifact a := by
  have hdescribe : ∀ l, describeClasses c.graph l = .error v → ∃ a, v = .danglingArtifact a := by
    intro l hl
    induction l with
    | nil => cases hl
    | cons n rest ih =>
        unfold describeClasses at hl
        split at hl
        · cases hl
          exact ⟨_, rfl⟩
        · cases hrest : describeClasses c.graph rest with
          | error v' =>
              rw [hrest] at hl
              cases hl
              exact ih hrest
          | ok classes => rw [hrest] at hl; cases hl
  unfold leakClasses at h
  dsimp only at h
  cases hd : describeClasses c.graph
      ((c.marks.carrying .leak .cls).filter fun n => !(s.classes.map Prod.fst).contains n) with
  | error v' =>
      rw [hd] at h
      cases h
      exact hdescribe _ hd
  | ok classes => rw [hd] at h; cases h

theorem leakClasses_succeeds (hg : GraphSound c.marks y c.settings.maxDependencyDepth c.graph) :
    ∃ classes, s.leakClasses c = .ok classes := by
  unfold leakClasses
  dsimp only
  have hmarked : ∀ n ∈ (c.marks.carrying .leak .cls).filter
      fun h => !(s.classes.map Prod.fst).contains h, c.graph.Has (.cls n) := by
    intro n hn
    exact hg.has _ (.inr (MarkTable.mem_carrying.mp (List.mem_filter.mp hn).1)) (by simp)
  obtain ⟨classes, h⟩ := describeClasses_succeeds hmarked
  rw [h]
  exact ⟨_, rfl⟩

end Pass

namespace LeakStream

variable {g : MetadataGraph} {name : String} {generation : Nat}

theorem prepareOnto_succeeds {classes : List (Handle × ClassInfo)} {p : PendingLeak}
    {s : LeakStream} (hwf : s.ids.WF)
    (h : ∀ c ∈ classes, ∃ loader, loaderName g name c.2 = .ok loader) :
    Succeeds (prepareOnto g name generation classes p) s := by
  induction classes generalizing p s with
  | nil => exact ⟨p, s, rfl⟩
  | cons e rest ih =>
      obtain ⟨n, c⟩ := e
      obtain ⟨id, fresh, ids, hr⟩ := hwf.exists_register (.cls n)
      obtain ⟨loader, hl⟩ := h (n, c) List.mem_cons_self
      unfold Succeeds prepareOnto
      simp only [hr, hl]
      exact ih (hwf.register hr) fun x hx => h x (List.mem_cons_of_mem _ hx)

/-- What keeps a write from being prepared is a loader that is missing. -/
theorem prepareOnto_error {classes : List (Handle × ClassInfo)} {p : PendingLeak}
    {s s' : LeakStream} {v : Violation} (hwf : s.ids.WF)
    (h : prepareOnto g name generation classes p s = .error v s') :
    ∃ a, v = .danglingArtifact a := by
  induction classes generalizing p s with
  | nil => cases h
  | cons e rest ih =>
      obtain ⟨n, c⟩ := e
      obtain ⟨id, fresh, ids, hr⟩ := hwf.exists_register (.cls n)
      unfold prepareOnto at h
      simp only [hr] at h
      split at h
      · rename_i hl
        cases h
        unfold loaderName at hl
        split at hl
        · cases hl
        · split at hl <;> cases hl
          exact ⟨_, rfl⟩
      · exact ih (hwf.register hr) h

/-- A write can be prepared for classes of a graph whose edges lead to what it has. -/
theorem prepare_succeeds {classes : List (Handle × ClassInfo)} {s : LeakStream}
    (hwf : s.ids.WF) (hclosed : ∀ a d, PointsAt g a d → g.Has d)
    (hclasses : ∀ c ∈ classes, g.cls c.1 = some c.2) :
    ∃ p s', prepare g name generation classes s = .ok p s' := by
  refine prepareOnto_succeeds hwf fun c hc => ?_
  cases hl : c.2.loader with
  | none => exact ⟨name, by simp only [loaderName, hl]⟩
  | some l =>
      have hdesc : g.describe? (.cls c.1) = some (.cls c.2) := by
        simp [MetadataGraph.describe?, hclasses c hc]
      have hedge : PointsAt g (.cls c.1) (.classLoader l) :=
        .field hdesc (by simp [ArtifactInfo.mentions, Target.loader, hl])
      obtain ⟨i, hi⟩ := Option.isSome_iff_exists.mp (hclosed _ _ hedge)
      obtain ⟨j, hj, -⟩ := Option.map_eq_some_iff.mp hi
      exact ⟨j.displayName, by simp only [loaderName, hl, hj]⟩

end LeakStream

/-! ## The whole plan -/

/-- What a pass relies on, both streams included, is enough to plan it. -/
theorem TypeSet.plan_succeeds {t : TypeSet} {g : MetadataGraph} {classUnload withLeak : Bool}
    (hready : Pass.Ready (t.scope g classUnload) t.registries t.symbols) (hleak : t.leak.ids.WF)
    (hg : GraphSound t.marks t.symbols t.settings.maxDependencyDepth g) :
    ∃ b t', t.plan g classUnload withLeak = .ok b t' := by
  obtain ⟨s, hs⟩ := Pass.planAll_succeeds hready hg
  cases withLeak with
  | false => exact ⟨_, _, plan_without_leak hs⟩
  | true =>
      obtain ⟨classes, hl⟩ := Pass.leakClasses_succeeds (c := t.scope g classUnload) (s := s) hg
      obtain ⟨p, leak, hp⟩ := LeakStream.prepare_succeeds hleak hg.closed
        (Pass.cls_of_mem_leakClasses hs hl)
      exact ⟨_, _, plan_with_leak hs hl hp⟩

/-- When the main stream is planned, what may still be missing is a class or loader for the leak
stream. -/
theorem TypeSet.violation_of_planned {t t' : TypeSet} {g : MetadataGraph}
    {classUnload withLeak : Bool} {s : Pass} {v : Violation} (hleak : t.leak.ids.WF)
    (hs : Pass.planAll (t.scope g classUnload) t.registries t.symbols = .ok () s)
    (h : t.plan g classUnload withLeak = .error v t') :
    withLeak = true ∧ ∃ a, v = .danglingArtifact a := by
  rcases plan_stopped h with hm | ⟨rfl, _, _, _, -, -, hprepare, -⟩
  · unfold planMain at hm
    simp only [hs] at hm
    split at hm
    · cases hl : s.leakClasses (t.scope g classUnload) with
      | error v' =>
          rw [hl] at hm
          cases hm
          exact ⟨‹_›, Pass.leakClasses_error hl⟩
      | ok classes => rw [hl] at hm; cases hm
    · cases hm
  · exact ⟨rfl, LeakStream.prepareOnto_error hleak hprepare⟩

/-- In every state that a run reaches and that no violation has poisoned, a call that writes the
tagged artifacts of a sound graph meets no violation: its plan succeeds, with whatever flags, so
neither an id of a dependency nor a loader is found missing, and no id collides. The call then
succeeds, or a sink refuses it. -/
theorem Run.no_spurious_violation {settings : Settings} {t : TypeSet} {H : History}
    (h : Run settings t H) (hp : t.isPoisoned = false) {g : MetadataGraph}
    (hg : GraphSound t.marks t.symbols t.settings.maxDependencyDepth g) (flags : PassFlags)
    {σ τ : Type} [Sink σ] [Sink τ] (w : Sinks σ τ) :
    (∃ b t', t.plan g flags.classUnload w.leak.isSome = .ok b t') ∧
    ((∃ n, (t.serialize g flags w).result = .ok n) ∨
      ∃ e, (t.serialize g flags w).result = .error (.sink e)) ∧
    (t.serialize g flags w).types.isPoisoned = false := by
  have hplan : ∃ b t', t.plan g flags.classUnload w.leak.isSome = .ok b t' :=
    TypeSet.plan_succeeds (h.recorded.ready g flags.classUnload)
      (h.leakRecorded.sound (by simp [hp])).ids.wf hg
  refine ⟨hplan, ?_⟩
  obtain ⟨b, t', hplan⟩ := hplan
  obtain ⟨s, hplanned⟩ := TypeSet.plan_ok hplan
  have hpoisoned : t'.poisoned = t.poisoned := by rw [hplanned.types]; rfl
  unfold TypeSet.isPoisoned at hp ⊢
  cases hc : t.commits? g flags w with
  | none =>
      rcases TypeSet.serialize_stopped hc with
        ⟨hp', -⟩ | ⟨v, t₁, hplan', -⟩ | ⟨b₁, t₁, e, w', hplan', -, heq⟩
      · rw [TypeSet.isPoisoned, hp] at hp'
        cases hp'
      · rw [hplan] at hplan'
        cases hplan'
      · rw [hplan] at hplan'
        cases hplan'
        rw [heq]
        refine ⟨.inr ⟨e, rfl⟩, ?_⟩
        rw [← hplanned.rollback.poisoned] at hp
        exact hp
  | some q =>
      obtain ⟨b₁, t₁, w'⟩ := q
      obtain ⟨hplan', bytes, -, heq⟩ := TypeSet.serialize_committed hc
      rw [hplan] at hplan'
      cases hplan'
      rw [heq, TypeSet.poisoned_finishPass, hpoisoned]
      refine ⟨?_, hp⟩
      unfold TypeSet.finishPass
      dsimp only
      split
      · exact .inl ⟨_, rfl⟩
      · split
        · exact .inl ⟨_, rfl⟩
        · exact .inr ⟨_, rfl⟩

/-! ## A sound graph -/

/-- The one edge of the example graph leads from the subclass to its superclass. -/
theorem pointsAt_sampleGraph {a d : Artifact} (h : PointsAt sampleGraph a d) :
    a = .cls 2 ∧ d = .cls 1 := by
  have hcls : ∀ n i, sampleGraph.cls n = some i →
      n = 1 ∧ i = { name := "A" } ∨ n = 2 ∧ i = { name := "B", superclass := some 1 } := by
    intro n i hi
    dsimp only [sampleGraph] at hi
    split at hi <;> cases hi <;> simp
  cases h with
  | @field _ _ i hi hd =>
      cases i with
      | cls i =>
          obtain ⟨n, rfl, hn⟩ := MetadataGraph.cls_of_describe? hi
          rcases hcls n i hn with ⟨rfl, rfl⟩ | ⟨rfl, rfl⟩
          · simp [ArtifactInfo.mentions, Target.loader] at hd
          · simpa [ArtifactInfo.mentions, Target.loader] using hd
      | classLoader | module | package | method | thread =>
          -- the graph has classes only
          have hk := MetadataGraph.kind_of_describe? hi
          obtain ⟨k, n⟩ := a
          cases hk
          cases hi
  | packageModule hn hp hj hm => cases hj

/-- The example graph is sound when the class was written and the subclass is tagged. -/
theorem graphSound_sampleNext : GraphSound sampleNext.marks sampleNext.symbols
    sampleNext.settings.maxDependencyDepth sampleGraph where
  has a := by
    have hreferenced : ∀ k, sampleNext.marks.carrying .referenced k =
        if k = .cls then [2] else [] := by
      intro k
      cases k <;> decide +kernel
    have hleak : ∀ k, sampleNext.marks.carrying .leak k = [] := by
      intro k
      cases k <;> decide +kernel
    obtain ⟨k, n⟩ := a
    rw [← MarkTable.mem_carrying, ← MarkTable.mem_carrying, hreferenced, hleak]
    rintro (h | h) -
    · split at h
      · subst k
        cases List.mem_singleton.mp h
        rfl
      · cases h
    · cases h
  interned n h := by
    have hnone : sampleNext.marks.carrying .referenced .symbol = [] := by decide +kernel
    rw [Artifact.symbol, ← MarkTable.mem_carrying, hnone] at h
    cases h
  closed a d h := by
    obtain ⟨-, rfl⟩ := pointsAt_sampleGraph h
    rfl
  acyclic a h := by
    -- a path ends at the superclass, which has no edge to start from
    obtain ⟨b, hb, -⟩ := Relation.TransGen.head'_iff.mp h
    obtain ⟨c, -, hc⟩ := Relation.TransGen.tail'_iff.mp h
    rw [(pointsAt_sampleGraph hb).1] at hc
    cases (pointsAt_sampleGraph hc).2
  chains a l _ hl := by
    have hlimit : 2 ≤ sampleNext.settings.maxDependencyDepth := by decide +kernel
    match l with
    | [] => exact Nat.le_trans (by simp) hlimit
    | [_] => exact hlimit
    | b :: c :: _ =>
      -- two edges in a row would have to meet at the superclass
      obtain ⟨hab, hrest⟩ := List.isChain_cons_cons.mp hl
      obtain ⟨hbc, -⟩ := List.isChain_cons_cons.mp hrest
      rw [(pointsAt_sampleGraph hab).2] at hbc
      cases (pointsAt_sampleGraph hbc).1

/-- The tagged subclass is written on both streams without a violation. -/
theorem no_spurious_violation_sampleNext :
    sampleNext.isPoisoned = false ∧
    (∃ b t', sampleNext.plan sampleGraph true true = .ok b t') ∧
    (sampleNext.serialize sampleGraph ⟨true, false⟩ sampleLogs).types.isPoisoned = false := by
  have hp : sampleNext.isPoisoned = false := by decide +kernel
  have h := run_sampleNext.no_spurious_violation hp graphSound_sampleNext ⟨true, false⟩ sampleLogs
  exact ⟨hp, h.1, h.2.2⟩

end TraceTypes
