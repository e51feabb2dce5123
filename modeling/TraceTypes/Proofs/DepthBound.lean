import TraceTypes.Proofs.PassContent
import TraceTypes.Proofs.Progress
/-!
# What the depth bound judges

The limit is on the height of the stack of an expansion. How high the stack gets
below a tagged artifact depends on what the pass has reached before from the tags
in front of it, and on what an earlier record still stands for: such artifacts
are passed over, and so is all that only they lead to.

* `PassScope.Reached` — what a pass reaches from the tags in front of another,
  and `Pass.done_visitAll`, that this is what it has placed;
* `PassScope.OverLimit` — by some first path from a tag, the pass gets deeper
  than the limit;
* `Pass.planAll_cases`, `Pass.not_overLimit` — on a graph where all is in order,
  that is when the plan is given up;
* `Run.tooDeep_iff` — and so is the call, which poisons the type set.

So a chain of dependencies that is longer than the limit is needed for the
violation, but not enough. The example at the end tags the same two classes in
either order, and once more after a rotation.
-/

namespace TraceTypes

open Dependency

namespace PassScope

variable (c : PassScope)

/-- What a pass reaches from these artifacts: they and what they need. -/
def Reached (l : List Artifact) : Artifact → Prop :=
  Closure c.graph (fun a => a ∈ l ∧ a.kind ≠ .symbol) fun d => c.stillValid d = true

/-- A path by which the pass first comes to an artifact, when it has come to `root` and has visited
the tagged artifacts `earlier`, is longer than the limit. A single artifact is never too deep. -/
def OverLimit : Prop :=
  ∃ earlier root later path, c.marks.allTagged = earlier ++ root :: later ∧ root.kind ≠ .symbol ∧
    FirstPath c.graph (fun d => c.stillValid d = true) (c.Reached earlier) (root :: path) ∧
    max c.settings.maxDependencyDepth 1 < (root :: path).length

variable {c} {l : List Artifact} {a d : Artifact}

theorem Reached.kind_ne (h : c.Reached l a) : a.kind ≠ .symbol := by
  cases h with
  | root h => exact h.2
  | dependency _ hd _ => exact hd.kind_ne

/-- A chain of dependencies from an artifact that is no symbol has no symbol on it. -/
theorem kind_ne_of_chain {g : MetadataGraph} {covered : Artifact → Prop} {p : List Artifact}
    (ha : a.kind ≠ .symbol) (h : List.IsChain (Pulls g covered) (a :: p)) :
    ∀ b ∈ a :: p, b.kind ≠ .symbol := by
  induction p generalizing a with
  | nil => exact fun b hb => List.mem_singleton.mp hb ▸ ha
  | cons d p ih =>
      obtain ⟨hpull, h⟩ := List.isChain_cons_cons.mp h
      exact List.forall_mem_cons.mpr ⟨ha, ih hpull.1.kind_ne h⟩

end PassScope

/-- A path remains a first path when other artifacts were reached too that are not on it. -/
theorem Dependency.FirstPath.or {g : MetadataGraph} {covered before q : Artifact → Prop}
    {p : List Artifact} (h : FirstPath g covered before p) (hq : ∀ a ∈ p, ¬ q a) :
    FirstPath g covered (fun a => before a ∨ q a) p := by
  induction h with
  | last ha => exact .last fun h => h.elim ha (hq _ List.mem_cons_self)
  | step ha hi hl hd _ ih =>
      obtain ⟨hqa, hqp⟩ := List.forall_mem_cons.mp hq
      refine .step (fun h => h.elim ha hqa) hi hl hd ((ih hqp).anti fun x hx => ?_)
      rcases hx with (hx | hx) | hx
      · exact .inl (.inl hx)
      · exact .inr hx
      · exact .inl (.inr hx)

/-! ## What a pass has placed -/

namespace PassM

variable {c : PassScope} {a b : Artifact}

theorem keeps_done_register : Keeps (fun s => a ∉ s.plan.done) (register b) := by
  intro s hs
  unfold register
  cases s.registries.register b <;> exact hs

/-- What is done for symbols and notes places no other artifact. -/
theorem symbolStable_done (ha : a.kind ≠ .symbol) : SymbolStable fun s => a ∉ s.plan.done where
  register _ _ := keeps_done_register
  intern _ _ hs := hs
  writeSymbol b _ _ hb := by
    refine .bind (.modify fun s hs hmem => ?_) fun _ => .modify fun _ hs => hs
    rcases List.mem_insert_iff.mp hmem with rfl | hmem
    · exact ha hb
    · exact hs hmem
  writeBootstrap _ := .bind (.modify fun _ hs => hs) fun _ => .modify fun _ hs => hs
  noteUnloading _ _ := .modify fun _ hs => hs

/-- The emission of a list places symbols only, since the list itself is placed already. -/
theorem keeps_done_emitAll (ha : a.kind ≠ .symbol) {l : List (Artifact × ArtifactInfo)}
    (hl : ∀ b i, (b, i) ∈ l → c.graph.describe? b = some i) :
    Keeps (fun s => a ∉ s.plan.done) (emitAll c l) := by
  induction l with
  | nil => exact .pure _
  | cons p rest ih =>
      obtain ⟨b, i⟩ := p
      have hnote : Keeps (fun s => a ∉ s.plan.done) (noteClass b i) := by
        cases i with
        | cls i => exact .modify fun _ hs => hs
        | classLoader | module | package | method | thread => exact .pure _
      have hbuild : Keeps (fun s => a ∉ s.plan.done) (buildRecord c b i) :=
        (symbolStable_done ha).buildRecord
          (MetadataGraph.kind_of_describe? (hl b i List.mem_cons_self)).symm
          (fun _ => keeps_done_register) fun _ _ _ =>
            .bind keeps_done_register fun _ => .bind (.modify fun _ hs => hs) fun _ => .pure _
      refine .bind hnote fun _ => .bind hbuild fun _ => ?_
      have htail := ih fun d j hd => hl d j (List.mem_cons_of_mem _ hd)
      exact .bind (.modify fun _ hs => hs) fun _ => htail

end PassM

namespace Pass

variable {c : PassScope} {r : Registries} {y : SymbolTable} {s s' : Pass} {a b d : Artifact}
  {l earlier later : List Artifact} {root : Artifact}

/-- What is placed between expansions is closed under uncovered dependencies. -/
theorem Inv.closed (hs : s.Inv c r y []) (ha : a ∈ s.plan.done)
    (h : Pulls c.graph (fun d => c.stillValid d = true) a d) : d ∈ s.plan.done := by
  have hsub := ((hs.done a).mp ha).resolve_right List.not_mem_nil
  exact (hs.done d).mpr (.inl (hs.mem_of_dependsOn hsub h.1 h.2))

/-- A visit places what it reaches. -/
theorem done_visit (h : PassM.visit c b s = .ok () s') (ha : a.kind ≠ .symbol)
    (hmem : a ∈ s'.plan.done) : a ∈ s.plan.done ∨ c.Reached [b] a := by
  unfold PassM.visit at h
  split at h
  · rename_i hkind
    rcases (taggedSymbol_cases h).2.1 a hmem with hmem | rfl
    · exact .inl hmem
    · exact absurd hkind ha
  · rename_i hkind
    obtain ⟨order, s₁, hexp, h⟩ := ok_of_bind h
    have hmem₁ : a ∈ s₁.plan.done := by
      by_contra hnot
      exact (PassM.keeps_done_emitAll ha fun _ _ hb => PassM.describe?_of_expand hexp hb).ok hnot h
        hmem
    unfold PassM.expand at hexp
    cases he : s.plan.expand c.graph c.stillValid b with
    | error v p => rw [he] at hexp; cases hexp
    | ok l p =>
        rw [he] at hexp
        cases hexp
        rcases EmissionPlan.expand_cases he with ⟨-, -, rfl⟩ | ⟨-, -, hdone, -, hclosure⟩
        · exact .inl hmem₁
        · refine ((hdone a).mp hmem₁).imp_right fun horder => (hclosure a horder).mono ?_ ?_
          · rintro _ rfl
            exact .root ⟨List.mem_singleton_self _, hkind⟩
          · exact fun _ => .inl

/-- Visits place what they reach. -/
theorem done_visitAll (h : PassM.visitAll c l s = .ok () s') (ha : a.kind ≠ .symbol)
    (hmem : a ∈ s'.plan.done) : a ∈ s.plan.done ∨ c.Reached l a := by
  induction l generalizing s with
  | nil =>
      obtain ⟨-, rfl⟩ := ok_of_pure h
      exact .inl hmem
  | cons b rest ih =>
      obtain ⟨_, s₁, hvisit, h⟩ := ok_of_bind h
      have hsub : ∀ l', (∀ x ∈ l', x ∈ b :: rest) → c.Reached l' a → c.Reached (b :: rest) a :=
        fun l' hl' ha => ha.mono (fun x hx => .root ⟨hl' x hx.1, hx.2⟩) fun _ hx => hx
      rcases ih h with hmem | hrest
      · exact (done_visit hvisit ha hmem).imp_right (hsub _ (by simp))
      · exact .inr (hsub _ (fun _ => List.mem_cons_of_mem _) hrest)

/-- What stands behind the visits of the first tags: their plan has placed, beside symbols, what
they reach. -/
theorem mem_done_iff (hready : Ready c r y) (htag : ∀ b ∈ l, c.marks.isTagged b = true)
    (h : PassM.visitAll c l (start r y c.settings) = .ok () s) (ha : a.kind ≠ .symbol) :
    a ∈ s.plan.done ↔ c.Reached l a := by
  obtain ⟨hs, -, hall⟩ := visitAll_ok hready (inv_start c r y) htag h
  constructor
  · exact fun hmem => (done_visitAll h ha hmem).resolve_left List.not_mem_nil
  · refine fun hreached => hreached.subset (fun b hb => ?_) fun _ _ => hs.closed
    exact (hs.done b).mpr (.inl (hall b hb.1))

/-! ## The verdict -/

/-- A plan that succeeds did not get deeper than the limit. -/
theorem not_overLimit (hready : Ready c r y) (h : planAll c r y = .ok () s) : ¬ c.OverLimit := by
  rintro ⟨earlier, root, later, path, hl, hkind, hpath, hlong⟩
  have htag : ∀ b ∈ earlier, c.marks.isTagged b = true :=
    fun b hb => MarkTable.mem_allTagged.mp (by simp [hl, hb])
  unfold planAll at h
  rw [hl] at h
  obtain ⟨s₁, h₁, h⟩ := visitAll_append h
  obtain ⟨_, s₂, hvisit, -⟩ := ok_of_bind h
  have hdepth := ((stable_maxDepth c c.settings.maxDependencyDepth).visitAll earlier).ok rfl h₁
  obtain ⟨order, p, hexp⟩ : ∃ order p, s₁.plan.expand c.graph c.stillValid root = .ok order p := by
    unfold PassM.visit at hvisit
    rw [if_neg hkind] at hvisit
    obtain ⟨order, s₃, hexp, -⟩ := ok_of_bind hvisit
    unfold PassM.expand at hexp
    cases he : s₁.plan.expand c.graph c.stillValid root with
    | error v p => rw [he] at hexp; cases hexp
    | ok order p => exact ⟨order, p, rfl⟩
  -- on the path there is no symbol, so it does not matter which symbols were placed
  have hnosymbol := hpath.or (q := fun a => a.kind = .symbol)
    (PassScope.kind_ne_of_chain hkind hpath.chain)
  have hshort := EmissionPlan.length_firstPath_le hexp ?_ ?_ hnosymbol
  · rw [hdepth] at hshort
    omega
  · rintro x d (hx | hx) hpull
    · exact .inl (.dependency hx hpull.1 hpull.2)
    · obtain ⟨⟨i, -, hi, -⟩, -⟩ := hpull
      exact absurd hx (MetadataGraph.kind_ne_of_describe? hi)
  · intro x hx
    by_cases hsymbol : x.kind = .symbol
    · exact .inr hsymbol
    · exact .inl ((mem_done_iff hready htag h₁ hsymbol).mp hx)

/-- Where all is in order, a pass is planned, or it gets deeper than the limit and that is the
violation. -/
theorem planAll_cases (hready : Ready c r y) (ht : c.Traversable r y) :
    (∃ s, planAll c r y = .ok () s) ∨
      c.OverLimit ∧ ∃ root path s, c.marks.isTagged root = true ∧ root.kind ≠ .symbol ∧
        List.IsChain (DependsOn c.graph) (root :: path) ∧
        max c.settings.maxDependencyDepth 1 < (root :: path).length ∧
        planAll c r y = .error (.dependencyTooDeep root c.settings.maxDependencyDepth) s := by
  have htag : ∀ a ∈ c.marks.allTagged, c.marks.isTagged a = true :=
    fun a ha => MarkTable.mem_allTagged.mp ha
  rcases visitAll_cases hready ht (inv_start c r y) htag with
    ⟨_, s, h⟩ | ⟨earlier, root, later, s₁, p, s', hl, hkind, h₁, hexp, h⟩
  · exact .inl ⟨s, h⟩
  · have htag₁ : ∀ b ∈ earlier, c.marks.isTagged b = true := fun b hb => htag b (by simp [hl, hb])
    have hroot : c.marks.isTagged root = true := htag root (by simp [hl])
    have hdepth := ((stable_maxDepth c c.settings.maxDependencyDepth).visitAll earlier).ok rfl h₁
    obtain ⟨hs₁, -, -⟩ := visitAll_ok hready (inv_start c r y) htag₁ h₁
    obtain ⟨-, path, hchain, hlong, hfirst⟩ := ht.expand_error (.root ⟨hroot, hkind⟩) hexp
    rw [hdepth] at hlong h
    refine .inr ⟨⟨earlier, root, later, path, hl, hkind, ?_, hlong⟩, root, path, s', hroot, hkind,
      hchain.imp fun _ _ hpull => hpull.1, hlong, h⟩
    refine (hfirst fun x d => hs₁.closed).anti fun x hx => ?_
    exact (mem_done_iff hready htag₁ h₁ hx.kind_ne).mpr hx

end Pass

/-! ## A whole call -/

/-- On a graph in which all that is tagged and all edges are there and nothing leads back to itself,
a call ends in a violation of the depth bound iff its pass gets deeper than the limit. Then some
chain of dependencies from a tagged artifact is longer than the limit; the type set is poisoned and
nothing is written. -/
theorem Run.tooDeep_iff {settings : Settings} {t : TypeSet} {H : History} (h : Run settings t H)
    (hp : t.isPoisoned = false) {g : MetadataGraph} (hg : GraphWhole t.marks t.symbols g)
    (flags : PassFlags) {σ τ : Type} [Sink σ] [Sink τ] (w : Sinks σ τ) :
    ((∃ root limit,
        (t.serialize g flags w).result = .error (.violation (.dependencyTooDeep root limit))) ↔
      (t.scope g flags.classUnload).OverLimit) ∧
    ∀ root limit,
      (t.serialize g flags w).result = .error (.violation (.dependencyTooDeep root limit)) →
      limit = t.settings.maxDependencyDepth ∧
      (∃ path, t.marks.isTagged root = true ∧ root.kind ≠ .symbol ∧
        List.IsChain (DependsOn g) (root :: path) ∧ max limit 1 < (root :: path).length) ∧
      (t.serialize g flags w).types.poisoned = some (.dependencyTooDeep root limit) ∧
      (t.serialize g flags w).sinks = w := by
  have hready := h.recorded.ready g flags.classUnload
  have hleak := (h.leakRecorded.sound (by simp [hp])).ids.wf
  rcases Pass.planAll_cases hready hg.traversable with
    ⟨s, hs⟩ | ⟨hover, root, path, s, htag, hkind, hchain, hlong, hs⟩
  · -- a violation behind a plan of the main stream is another one
    have hnone : ∀ root limit, (t.serialize g flags w).result ≠
        .error (.violation (.dependencyTooDeep root limit)) := by
      intro root limit hv
      obtain ⟨t', hplan, -⟩ := TypeSet.plan_of_violation_reported hv
      obtain ⟨-, a, ha⟩ := TypeSet.violation_of_planned hleak hs hplan
      cases ha
    refine ⟨⟨fun ⟨root, limit, hv⟩ => absurd hv (hnone root limit), fun hover => ?_⟩,
      fun root limit hv => absurd hv (hnone root limit)⟩
    exact absurd hover (Pass.not_overLimit hready hs)
  · have heq : t.serialize g flags w = ⟨.error (.violation _), _, w⟩ :=
      TypeSet.serialize_of_violation hp (TypeSet.plan_of_violation hs)
    rw [heq]
    refine ⟨⟨fun _ => hover, fun _ => ⟨root, _, rfl⟩⟩, ?_⟩
    rintro _ _ ⟨⟩
    exact ⟨rfl, ⟨path, htag, hkind, hchain, hlong⟩, rfl, rfl⟩

/-! ## A chain of three classes -/

/-- Three classes, each the superclass of the next one. -/
def chainGraph : MetadataGraph where
  classLoader _ := none
  module _ := none
  package _ := none
  cls
    | 1 => some { name := "A" }
    | 2 => some { name := "B", superclass := some 1 }
    | 3 => some { name := "C", superclass := some 2 }
    | _ => none
  method _ := none
  thread _ := none
  unloading := []

/-- A type set that accepts chains of two, with a class tagged. -/
def shallowTypes (n : Handle) : TypeSet :=
  ((TypeSet.create { maxDependencyDepth := 2 }).tag (.cls n)).2

theorem run_shallowTypes (n : Handle) : Run { maxDependencyDepth := 2 } (shallowTypes n) [] :=
  .tag (.cls n) .create

theorem tagged_shallowTypes {n : Handle} {a : Artifact}
    (h : (shallowTypes n).marks.has .referenced a = true) : a = .cls n := by
  by_contra hne
  have hcreate : (TypeSet.create { maxDependencyDepth := 2 }).marks.has .referenced a = true := by
    simpa [shallowTypes, TypeSet.tag, MarkTable.has_raise, hne] using h
  obtain ⟨k, m⟩ := a
  cases k <;> cases hcreate

theorem pointsAt_chainGraph {a d : Artifact} (h : PointsAt chainGraph a d) :
    ∃ n, (n = 1 ∨ n = 2) ∧ a = .cls (n + 1) ∧ d = .cls n := by
  have hcls : ∀ n i, chainGraph.cls n = some i → n = 1 ∧ i = { name := "A" } ∨
      n = 2 ∧ i = { name := "B", superclass := some 1 } ∨
      n = 3 ∧ i = { name := "C", superclass := some 2 } := by
    intro n i hi
    dsimp only [chainGraph] at hi
    split at hi <;> cases hi <;> simp
  cases h with
  | @field _ _ i hi hd =>
      cases i with
      | cls i =>
          obtain ⟨n, rfl, hn⟩ := MetadataGraph.cls_of_describe? hi
          rcases hcls n i hn with ⟨rfl, rfl⟩ | ⟨rfl, rfl⟩ | ⟨rfl, rfl⟩
          · simp [ArtifactInfo.mentions, Target.loader] at hd
          · exact ⟨1, .inl rfl, rfl, by simpa [ArtifactInfo.mentions, Target.loader] using hd⟩
          · exact ⟨2, .inr rfl, rfl, by simpa [ArtifactInfo.mentions, Target.loader] using hd⟩
      | classLoader | module | package | method | thread =>
          -- the graph has classes only
          have hk := MetadataGraph.kind_of_describe? hi
          obtain ⟨k, n⟩ := a
          cases hk
          cases hi
  | packageModule hn hp hj hm => cases hj

/-- The chain is in order wherever its classes are what is tagged. -/
theorem graphWhole_chainGraph {marks : MarkTable} {y : SymbolTable}
    (h : ∀ a, marks.has .referenced a = true → ∃ n, a = .cls n ∧ n ∈ [1, 2, 3]) :
    GraphWhole marks y chainGraph where
  has a ha _ := by
    obtain ⟨n, rfl, hn⟩ := h a ha
    simp only [List.mem_cons, List.not_mem_nil, or_false] at hn
    rcases hn with rfl | rfl | rfl <;> rfl
  interned n hn := by
    obtain ⟨m, hm, -⟩ := h _ hn
    cases hm
  closed a d hd := by
    obtain ⟨n, rfl | rfl, -, rfl⟩ := pointsAt_chainGraph hd <;> rfl
  acyclic a ha := by
    -- the handles grow smaller along the edges
    have hlt : ∀ d, Relation.TransGen (PointsAt chainGraph) a d → d.handle < a.handle := by
      intro d hd
      induction hd with
      | single hd =>
          obtain ⟨n, -, rfl, rfl⟩ := pointsAt_chainGraph hd
          exact Nat.lt_succ_self n
      | tail _ hd ih =>
          obtain ⟨n, -, rfl, rfl⟩ := pointsAt_chainGraph hd
          exact Nat.lt_trans (Nat.lt_succ_self n) ih
    exact Nat.lt_irrefl _ (hlt a ha)

/-- The tag of the third class, on its own, gets a pass deeper than the limit. -/
theorem tooDeep_iff_shallowTypes : (shallowTypes 3).isPoisoned = false ∧
    ((shallowTypes 3).scope chainGraph false).OverLimit := by
  have hwhole : GraphWhole (shallowTypes 3).marks (shallowTypes 3).symbols chainGraph := by
    exact graphWhole_chainGraph fun a ha => ⟨3, tagged_shallowTypes ha, by simp⟩
  refine ⟨rfl, ((run_shallowTypes 3).tooDeep_iff rfl hwhole {} sampleLog).1.mp ⟨.cls 3, 2, ?_⟩⟩
  decide +kernel

/-- The same two classes are tagged in either order. With the first one tagged first, the chain of
three is accepted although the limit is two; in the other order it is a violation, and so it is when
the classes are tagged anew after a rotation. -/
theorem tooDeep_order :
    let t := ((shallowTypes 1).tag (.cls 3)).2
    let pass := t.serialize chainGraph {} sampleLog
    (Run { maxDependencyDepth := 2 } t [] ∧ t.isPoisoned = false ∧
      GraphWhole t.marks t.symbols chainGraph ∧ t.marks.isTagged (.cls 3) = true ∧
      List.IsChain (DependsOn chainGraph) [.cls 3, .cls 2, .cls 1]) ∧
    pass.result = .ok 59 ∧
    (((shallowTypes 3).tag (.cls 1)).2.serialize chainGraph {} sampleLog).result =
      .error (.violation (.dependencyTooDeep (.cls 3) 2)) ∧
    ((pass.types.rotate.tag (.cls 3)).2.serialize chainGraph {} pass.sinks).result =
      .error (.violation (.dependencyTooDeep (.cls 3) 2)) := by
  refine ⟨⟨.tag (.cls 3) (run_shallowTypes 1), rfl, ?_, ?_, ?_⟩, ?_, ?_, ?_⟩
  · refine graphWhole_chainGraph fun a ha => ?_
    by_cases hne : a = .cls 3
    · exact ⟨3, hne, by simp⟩
    · refine ⟨1, tagged_shallowTypes ?_, by simp⟩
      simpa [TypeSet.tag, MarkTable.has_raise, hne] using ha
  · decide +kernel
  · have hedge : ∀ n, n = 1 ∨ n = 2 → DependsOn chainGraph (.cls (n + 1)) (.cls n) := by
      rintro n (rfl | rfl) <;> exact ⟨_, [.cls _], rfl, rfl, List.mem_singleton_self _⟩
    exact .cons_cons (hedge 2 (.inr rfl)) (.cons_cons (hedge 1 (.inl rfl)) (.singleton _))
  · decide +kernel
  · decide +kernel
  · decide +kernel

end TraceTypes
