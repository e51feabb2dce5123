import TraceTypes.Proofs.FirstPaths
import TraceTypes.Proofs.Planning
/-!
# Plans that only a path can stop

If all that the tags need is there and in order (`PassScope.Traversable`), a pass
is planned without a violation, unless a path is longer than the limit. Where
planning could meet another violation, something stands against it:

* an expansion — everything has its fields and dependencies, and nothing leads
  back to itself;
* the id of a dependency (`Building.dependency_succeeds`) — the dependency has
  its record in this pass, or its mark stands for one, and what is marked is
  registered;
* a fresh id — the next id has no owner.

Each action of planning gets a lemma that it succeeds, beside the one in
`Planning` on what it has done when it does. `Pass.visitAll_cases` is the end of
it: the plan succeeds, or an expansion stops it at its limit.
-/

namespace TraceTypes

open Dependency

/-- What the tags need has its fields and direct dependencies in the graph and does not lead back to
itself. Where fields name their own artifact, it has an id from before. Tagged symbols are
interned. -/
structure PassScope.Traversable (c : PassScope) (r : Registries) (y : SymbolTable) : Prop where
  interned : ∀ n, c.marks.isTagged (.symbol n) = true → (y.text? n).isSome = true
  described : ∀ a, c.Needed a → ∃ i l, c.graph.describe? a = some i ∧ direct c.graph a i = .ok l
  acyclic : ∀ a, c.Needed a →
    ¬ Relation.TransGen (Pulls c.graph fun d => c.stillValid d = true) a a
  known : ∀ a i, c.Needed a → c.graph.describe? a = some i → .artifact a ∈ i.mentions →
    ∃ id, r.id? a = some id

/-- What the dependencies of a needed artifact lead to is needed. -/
theorem PassScope.Needed.reaches {c : PassScope} {a d : Artifact} (ha : c.Needed a)
    (h : Relation.ReflTransGen (Pulls c.graph fun d => c.stillValid d = true) a d) :
    c.Needed d := by
  induction h with
  | refl => exact ha
  | tail _ hpull ih => exact .dependency ih hpull.1 hpull.2

/-- An expansion of what the tags need fails only at the end of a path that is too long. -/
theorem PassScope.Traversable.expand_error {c : PassScope} {r : Registries} {y : SymbolTable}
    {a : Artifact} {p p' : EmissionPlan} {v : Violation} (h : c.Traversable r y) (ha : c.Needed a)
    (hexp : p.expand c.graph c.stillValid a = .error v p') :
    v = .dependencyTooDeep a p.maxDepth ∧ ∃ path,
      List.IsChain (Pulls c.graph fun d => c.stillValid d = true) (a :: path) ∧
      max p.maxDepth 1 < (a :: path).length ∧
      ((∀ x d, x ∈ p.done → Pulls c.graph (fun d => c.stillValid d = true) x d → d ∈ p.done) →
        FirstPath c.graph (fun d => c.stillValid d = true) (· ∈ p.done) (a :: path)) := by
  rcases EmissionPlan.expand_error_cases hexp with
    ⟨b, hb, hframe⟩ | ⟨b, hb, hcycle, -⟩ | ⟨path, hchain, hlong, hv, hfirst⟩
  · obtain ⟨i, l, hi, hl⟩ := h.described b (ha.reaches hb)
    simp only [Expansion.frame, describe, hi, hl] at hframe
    cases hframe
  · exact absurd hcycle (h.acyclic b (ha.reaches hb))
  · exact ⟨hv, path, hchain, hlong, hfirst⟩

namespace Pass

variable {c : PassScope} {r : Registries} {y : SymbolTable} {pending : List Artifact}
  {s : Pass} {a : Artifact} {i : ArtifactInfo}

theorem register_succeeds (hready : Ready c r y) (hs : s.Inv c r y pending) (a : Artifact) :
    Succeeds (PassM.register a) s := by
  obtain ⟨id, fresh, r', h⟩ := (hs.grown.wf hready.wf).exists_register a
  unfold Succeeds PassM.register
  rw [h]
  exact ⟨id, _, rfl⟩

theorem symbol_succeeds (hready : Ready c r y) (hs : s.Inv c r y pending) (text : String) :
    Succeeds (PassM.symbol c text) s := by
  refine Succeeds.bind ⟨_, _, rfl⟩ fun n s₁ hintern => ?_
  obtain ⟨hs₁, -, -⟩ := intern_ok hs hintern
  refine (register_succeeds hready hs₁ n).bind fun id s₂ _ => ?_
  refine Succeeds.bind ?_ fun _ s₃ _ => .pure id s₃
  unfold Succeeds PassM.announce
  split <;> exact ⟨_, _, rfl⟩

theorem optionalSymbol_succeeds (hready : Ready c r y) (hs : s.Inv c r y pending)
    (text : Option String) : Succeeds (PassM.optionalSymbol c text) s := by
  cases text with
  | none => exact .pure none s
  | some t => exact (symbol_succeeds hready hs t).bind fun id s₁ _ => .pure (some id) s₁

theorem bootstrap_succeeds (hready : Ready c r y) (hs : s.Inv c r y pending) :
    Succeeds (PassM.bootstrap c) s := by
  unfold Succeeds PassM.bootstrap
  split
  · exact (symbol_succeeds hready hs _).bind fun name s₁ _ =>
      Succeeds.bind ⟨_, _, rfl⟩ fun _ s₂ _ => .pure bootstrapId s₂
  · exact ⟨_, _, rfl⟩

/-- What the fields name has an id when the record is built. The artifact itself is no dependency
of its own, so it must have had its id before. -/
theorem Building.dependency_succeeds (hready : Ready c r y) (hb : s.Building c r y pending a i)
    (hself : .artifact a ∈ i.mentions → ∃ id, r.id? a = some id) {d : Artifact}
    (hd : .artifact d ∈ i.mentions) : Succeeds (PassM.dependency d) s := by
  obtain ⟨l, hl, hplaced⟩ := hb.placed
  obtain ⟨t, ht, hmem⟩ := direct_eq_ok hl
  have hid : ∃ id, s.registries.id? d = some id := by
    by_cases hda : d = a
    · subst hda
      obtain ⟨id, hid⟩ := hself hd
      exact ⟨id, hb.inv.grown.registries.keeps hid⟩
    · rcases hplaced d ((hmem d).mpr ⟨mem_targets_of_mentions ht hd, hda⟩) with hvalid | hsub
      · obtain ⟨id, hid⟩ := hready.registered d (Bool.and_eq_true_iff.mp hvalid).1
        exact ⟨id, hb.inv.grown.registries.keeps hid⟩
      · obtain ⟨e, he, hsub⟩ := Entry.mem_subjects.mp hsub
        exact ⟨_, (hb.inv.ids e he d hsub).1⟩
  obtain ⟨id, hid⟩ := hid
  exact ⟨id, s, by simp only [PassM.dependency, hid]⟩

theorem Building.optionalDependency_succeeds (hready : Ready c r y)
    (hb : s.Building c r y pending a i)
    (hself : .artifact a ∈ i.mentions → ∃ id, r.id? a = some id) {o : Option Artifact}
    (ho : ∀ d ∈ o, .artifact d ∈ i.mentions) : Succeeds (PassM.optionalDependency o) s := by
  cases o with
  | none => exact .pure none s
  | some d =>
      exact (hb.dependency_succeeds hready hself (ho d rfl)).bind fun id s₁ _ => .pure (some id) s₁

theorem Building.loader_succeeds (hready : Ready c r y) {i : ClassInfo}
    (hb : s.Building c r y pending a (.cls i))
    (hself : .artifact a ∈ (ArtifactInfo.cls i).mentions → ∃ id, r.id? a = some id) :
    Succeeds (PassM.loader c i.loader) s := by
  cases hl : i.loader with
  | none => exact bootstrap_succeeds hready hb.inv
  | some l =>
      exact hb.dependency_succeeds hready hself (by simp [ArtifactInfo.mentions, hl, Target.loader])

/-- Whatever its kind, the record of an artifact can be built once its dependencies have theirs. -/
theorem buildRecord_succeeds (hready : Ready c r y)
    (hself : .artifact a ∈ i.mentions → ∃ id, r.id? a = some id)
    (hb : s.Building c r y pending a i) : Succeeds (PassM.buildRecord c a i) s := by
  cases i with
  | cls i =>
      refine (symbol_succeeds hready hb.inv _).bind fun _ s₁ h => ?_
      obtain ⟨hb, -, -⟩ := hb.symbol hready (by simp [ArtifactInfo.mentions]) h
      refine (hb.loader_succeeds hready hself).bind fun _ s₂ h => ?_
      obtain ⟨hb, -, -⟩ := hb.loader hready h
      -- the three dependencies that may be absent
      have hpackage : ∀ d ∈ i.package.map Artifact.package,
          .artifact d ∈ (ArtifactInfo.cls i).mentions := by
        simp +contextual [ArtifactInfo.mentions]
      have helement : ∀ d ∈ i.element.map Artifact.cls,
          .artifact d ∈ (ArtifactInfo.cls i).mentions := by
        simp +contextual [ArtifactInfo.mentions]
      have hsuper : ∀ d ∈ i.superclass.map Artifact.cls,
          .artifact d ∈ (ArtifactInfo.cls i).mentions := by
        simp +contextual [ArtifactInfo.mentions]
      refine (hb.optionalDependency_succeeds hready hself hpackage).bind fun _ s₃ h => ?_
      obtain ⟨rfl, -⟩ := hb.optionalDependency hready hpackage h
      refine (hb.optionalDependency_succeeds hready hself helement).bind fun _ s₄ h => ?_
      obtain ⟨rfl, -⟩ := hb.optionalDependency hready helement h
      refine (hb.optionalDependency_succeeds hready hself hsuper).bind fun _ s₅ h => ?_
      obtain ⟨rfl, -⟩ := hb.optionalDependency hready hsuper h
      refine Succeeds.bind ⟨_, _, rfl⟩ fun _ s₆ h => ?_
      obtain ⟨hb, -, -⟩ := hb.noteUnloading h
      exact (register_succeeds hready hb.inv a).bind fun _ s₇ _ => .pure _ s₇
  | method i =>
      have hholder : .artifact (.cls i.holder) ∈ (ArtifactInfo.method i).mentions := by
        simp [ArtifactInfo.mentions]
      refine (hb.dependency_succeeds hready hself hholder).bind fun _ s₁ h => ?_
      obtain ⟨rfl, -⟩ := hb.dependency hready hholder h
      refine (symbol_succeeds hready hb.inv _).bind fun _ s₂ h => ?_
      obtain ⟨hb, -, -⟩ := hb.symbol hready (by simp [ArtifactInfo.mentions]) h
      refine (symbol_succeeds hready hb.inv _).bind fun _ s₃ h => ?_
      obtain ⟨hb, -, -⟩ := hb.symbol hready (by simp [ArtifactInfo.mentions]) h
      refine (register_succeeds hready hb.inv a).bind fun _ s₄ _ => ?_
      exact Succeeds.bind ⟨_, _, rfl⟩ fun _ s₅ _ => .pure _ s₅
  | package i =>
      have howner : ∀ d ∈ i.module.map Artifact.module,
          .artifact d ∈ (ArtifactInfo.package i).mentions := by
        simp +contextual [ArtifactInfo.mentions]
      refine (symbol_succeeds hready hb.inv _).bind fun _ s₁ h => ?_
      obtain ⟨hb, -, -⟩ := hb.symbol hready (by simp [ArtifactInfo.mentions]) h
      refine (hb.optionalDependency_succeeds hready hself howner).bind fun _ s₂ h => ?_
      obtain ⟨rfl, -⟩ := hb.optionalDependency hready howner h
      exact (register_succeeds hready hb.inv a).bind fun _ s₃ _ => .pure _ s₃
  | module i =>
      refine (symbol_succeeds hready hb.inv _).bind fun _ s₁ h => ?_
      obtain ⟨hb, -, -⟩ := hb.symbol hready (by simp [ArtifactInfo.mentions]) h
      refine (optionalSymbol_succeeds hready hb.inv _).bind fun _ s₂ h => ?_
      obtain ⟨hb, -, -⟩ := hb.optionalSymbol hready (by simp +contextual [ArtifactInfo.mentions]) h
      refine (optionalSymbol_succeeds hready hb.inv _).bind fun _ s₃ h => ?_
      obtain ⟨hb, -, -⟩ := hb.optionalSymbol hready (by simp +contextual [ArtifactInfo.mentions]) h
      exact (register_succeeds hready hb.inv a).bind fun _ s₄ _ => .pure _ s₄
  | classLoader i =>
      refine (optionalSymbol_succeeds hready hb.inv _).bind fun _ s₁ h => ?_
      obtain ⟨hb, -, -⟩ := hb.optionalSymbol hready (by simp +contextual [ArtifactInfo.mentions]) h
      refine (symbol_succeeds hready hb.inv _).bind fun _ s₂ h => ?_
      obtain ⟨hb, -, -⟩ := hb.symbol hready (by simp [ArtifactInfo.mentions]) h
      exact (register_succeeds hready hb.inv a).bind fun _ s₃ _ => .pure _ s₃
  | thread i =>
      refine (symbol_succeeds hready hb.inv _).bind fun _ s₁ h => ?_
      obtain ⟨hb, -, -⟩ := hb.symbol hready (by simp [ArtifactInfo.mentions]) h
      exact (register_succeeds hready hb.inv a).bind fun _ s₂ _ => .pure _ s₂

theorem emitAll_succeeds (hready : Ready c r y) {l : List (Artifact × ArtifactInfo)}
    {placed : Artifact → Prop}
    (hself : ∀ a i, (a, i) ∈ l → .artifact a ∈ i.mentions → ∃ id, r.id? a = some id)
    (hs : s.Inv c r y (l.map Prod.fst))
    (hl : Placeable c.graph (fun d => c.stillValid d = true) placed l)
    (hplaced : ∀ d, placed d → d ∈ Entry.subjects s.entries) :
    Succeeds (PassM.emitAll c l) s := by
  induction l generalizing s placed with
  | nil => exact .pure _ s
  | cons p rest ih =>
      obtain ⟨a, i⟩ := p
      obtain ⟨hfields, -, ⟨deps, hdeps, hcovered⟩, hrest⟩ := hl
      have hdirect : ∃ l, direct c.graph a i = .ok l ∧
          ∀ d ∈ l, c.stillValid d = true ∨ d ∈ Entry.subjects s.entries :=
        ⟨deps, hdeps, fun d hd => (hcovered d hd).imp_right (hplaced d)⟩
      have hnote : Succeeds (PassM.noteClass a i) s := by cases i <;> exact ⟨_, _, rfl⟩
      refine hnote.bind fun _ s₁ h₁ => ?_
      obtain ⟨hs₁, heq⟩ := noteClass_ok hs h₁
      have hb : s₁.Building c r y _ a i := ⟨hs₁, List.mem_cons_self, hfields, heq ▸ hdirect⟩
      refine (buildRecord_succeeds hready (hself a i List.mem_cons_self) hb).bind
        fun record s₂ h₂ => ?_
      refine Succeeds.bind ⟨_, _, rfl⟩ fun _ s₃ h₃ => ?_
      -- the artifact has its entry now, and the rest of the list follows
      obtain ⟨hs₃, hle, ha⟩ := emit_ok hready hs hfields hdirect h₁ h₂ h₃
      refine ih (fun b j hb => hself b j (List.mem_cons_of_mem _ hb)) hs₃ hrest ?_
      rintro d (hd | rfl)
      · exact Entry.subjects_subset hle (hplaced d hd)
      · exact ha

theorem stable_maxDepth (c : PassScope) (n : Nat) :
    PassM.Stable c fun s => s.plan.maxDepth = n := by
  refine PassM.stable_of_classes (fun s s' _ hdepth hs => hdepth.trans hs) ?_
  intro a i _
  cases i with
  | cls i => exact .modify fun s hs => hs
  | classLoader | module | package | method | thread => exact .pure _

/-- At some place in the list, an expansion comes to its limit, and that ends the plan. -/
def StopsTooDeep (c : PassScope) (l : List Artifact) (s : Pass) : Prop :=
  ∃ earlier root later s₁ p s', l = earlier ++ root :: later ∧ root.kind ≠ .symbol ∧
    PassM.visitAll c earlier s = .ok () s₁ ∧
    s₁.plan.expand c.graph c.stillValid root =
      .error (.dependencyTooDeep root s₁.plan.maxDepth) p ∧
    PassM.visitAll c l s = .error (.dependencyTooDeep root s₁.plan.maxDepth) s'

theorem visit_cases (hready : Ready c r y) (ht : c.Traversable r y) (hs : s.Inv c r y [])
    (htag : c.marks.isTagged a = true) :
    Succeeds (PassM.visit c a) s ∨
      a.kind ≠ .symbol ∧ ∃ p s', s.plan.expand c.graph c.stillValid a =
          .error (.dependencyTooDeep a s.plan.maxDepth) p ∧
        PassM.visit c a s = .error (.dependencyTooDeep a s.plan.maxDepth) s' := by
  unfold PassM.visit
  split
  · rename_i hkind
    obtain ⟨k, n⟩ := a
    cases hkind
    refine .inl ?_
    unfold Succeeds PassM.taggedSymbol
    split
    · exact ⟨_, _, rfl⟩
    · -- the text was interned before the pass, so it is interned still
      obtain ⟨text, htext⟩ := Option.isSome_iff_exists.mp (ht.interned n htag)
      rw [SymbolTable.text?_of_prefix hs.grown.texts htext]
      exact (register_succeeds hready hs _).bind fun id s₁ _ => ⟨_, _, rfl⟩
  · rename_i hkind
    have hneeded : c.Needed a := .root ⟨htag, hkind⟩
    cases hexp : s.plan.expand c.graph c.stillValid a with
    | ok order p =>
        refine .inl ?_
        have hexpand : PassM.expand c a s = .ok order { s with plan := p } := by
          unfold PassM.expand
          rw [hexp]
        refine Succeeds.bind ⟨_, _, hexpand⟩ fun order s₁ h => ?_
        obtain ⟨hs₁, heq, hplace, -⟩ := expand_ok hs hkind htag h
        rw [← heq] at hplace
        refine emitAll_succeeds hready (fun b j hb => ?_) hs₁ hplace fun _ hd => hd
        exact ht.known b j (hs₁.pending b (List.mem_map_of_mem hb)) (hplace.mem hb).1
    | error v p =>
        obtain ⟨rfl, -⟩ := ht.expand_error hneeded hexp
        refine .inr ⟨hkind, p, { s with plan := p }, rfl, ?_⟩
        show (PassM.expand c a >>= PassM.emitAll c) s = _
        have hexpand : PassM.expand c a s =
            .error (.dependencyTooDeep a s.plan.maxDepth) { s with plan := p } := by
          unfold PassM.expand
          rw [hexp]
        simp only [bind, EStateM.bind, hexpand]

/-- What is visited in turn is planned, but for a path that is too long. -/
theorem visitAll_cases (hready : Ready c r y) (ht : c.Traversable r y) {l : List Artifact}
    (hs : s.Inv c r y []) (htag : ∀ a ∈ l, c.marks.isTagged a = true) :
    Succeeds (PassM.visitAll c l) s ∨ StopsTooDeep c l s := by
  induction l generalizing s with
  | nil => exact .inl (.pure _ s)
  | cons a rest ih =>
      have ha := htag a List.mem_cons_self
      rcases visit_cases hready ht hs ha with ⟨⟨⟩, s₁, hvisit⟩ | ⟨hkind, p, s', hexp, hvisit⟩
      · obtain ⟨hs₁, -, -⟩ := visit_ok hready hs ha hvisit
        rcases ih hs₁ fun b hb => htag b (List.mem_cons_of_mem _ hb) with
          ⟨⟨⟩, s', hrest⟩ | ⟨earlier, root, later, s₂, p, s', rfl, hkind, hok, hexp, hrest⟩
        · exact .inl (Succeeds.bind ⟨_, _, hvisit⟩ fun _ s₂ h => by
            rw [hvisit] at h
            cases h
            exact ⟨_, _, hrest⟩)
        · refine .inr ⟨a :: earlier, root, later, s₂, p, s', rfl, hkind, ?_, hexp, ?_⟩
          · simpa only [PassM.visitAll, bind, EStateM.bind, hvisit] using hok
          · simpa only [PassM.visitAll, List.append_eq, bind, EStateM.bind, hvisit] using hrest
      · refine .inr ⟨[], a, rest, s, p, s', rfl, hkind, rfl, hexp, ?_⟩
        simp only [PassM.visitAll, bind, EStateM.bind, hvisit]

end Pass

end TraceTypes
