import TraceTypes.Proofs.Growth
import TraceTypes.TypeSet.Unloading
/-!
# What a plan that is given up leaves behind

Planning hands out ids on the main stream and on the leak stream, and so does
the capture of unloading classes. This module says what each of the three has
done when it succeeds, and that its undoing leads back to the old look-ups:

* `LeakStream.prepare_ok`, `UnloadCapture.capture_ok` — the registries were
  extended by the fresh ids;
* `TypeSet.MainKept`, `TypeSet.Kept` — a state differs from an earlier one in
  the next ids, in interned texts and in owners of methods only;
* `TypeSet.plan_cases`, `TypeSet.plan_stopped` — the ways in which the plan of a
  pass succeeds or meets a violation;
* `TypeSet.plan_ok`, `TypeSet.plan_error`, `TypeSet.Planned.rollback` — what it
  comes to then, and when it is rolled back.
-/

namespace TraceTypes

/-! ## The leak stream -/

namespace LeakStream

variable {g : MetadataGraph} {name : String} {generation : Nat}
  {classes : List (Handle × ClassInfo)} {s s' : LeakStream}

/-- The fresh ids of a pending write are those that the stream has beyond `s`. -/
structure Prepared (s s' : LeakStream) (fresh : List Artifact) : Prop where
  ids : s.ids.Extends s'.ids fresh
  retain : s'.retain = s.retain
  retained : s'.retained = s.retained

theorem prepareOnto_ok {s₀ : LeakStream} {p p' : PendingLeak} (hs : Prepared s₀ s p.fresh)
    (h : prepareOnto g name generation classes p s = .ok p' s') :
    Prepared s₀ s' p'.fresh := by
  induction classes generalizing p s with
  | nil =>
      cases h
      exact hs
  | cons e rest ih =>
      obtain ⟨n, c⟩ := e
      unfold prepareOnto at h
      cases hr : s.ids.register (.cls n) with
      | error v => rw [hr] at h; cases h
      | ok q =>
          obtain ⟨⟨id, fresh⟩, ids⟩ := q
          rw [hr] at h
          dsimp only at h
          cases hl : loaderName g name c with
          | error v => rw [hl] at h; cases h
          | ok loader =>
              rw [hl] at h
              exact ih (s := { s with ids := ids }) ⟨hs.ids.register hr, hs.retain, hs.retained⟩ h

theorem length_prepareOnto {p p' : PendingLeak}
    (h : prepareOnto g name generation classes p s = .ok p' s') :
    p'.entries.length = p.entries.length + classes.length := by
  induction classes generalizing p s with
  | nil =>
      cases h
      rfl
  | cons e rest ih =>
      obtain ⟨n, c⟩ := e
      unfold prepareOnto at h
      split at h
      · cases h
      · split at h
        · cases h
        · rw [ih h, List.length_append, List.length_singleton, List.length_cons]
          omega

/-- A prepared write has one entry for each class. -/
theorem prepare_ok {p : PendingLeak} (h : prepare g name generation classes s = .ok p s') :
    Prepared s s' p.fresh ∧ p.entries.length = classes.length := by
  refine ⟨prepareOnto_ok (s := s) (p := {}) ⟨.refl _, rfl, rfl⟩ h, ?_⟩
  rw [length_prepareOnto h]
  exact Nat.zero_add _

/-- To roll a write back leads back to the look-ups before it was prepared. -/
theorem Prepared.rollback {p : PendingLeak} (h : Prepared s s' p.fresh) :
    s.ids.Similar (s'.rollback p).ids := h.ids.undo fun _ => Iff.rfl

end LeakStream

/-! ## The capture of unloading classes -/

namespace UnloadCapture

variable {g : MetadataGraph} {name : String} {r r' : Registries} {l l' : List CapturedClass}

/-- The classes whose id a capture handed out. -/
def freshClasses (l : List CapturedClass) : List Artifact :=
  (l.filter CapturedClass.fresh).map fun c => .cls c.handle

/-- What a capture has made of the registries `r`, and what it has copied of each class. -/
structure Captured (g : MetadataGraph) (name : String) (r r' : Registries)
    (l : List CapturedClass) : Prop where
  registries : r.Extends r' (freshClasses l)
  others : ∀ a, a.kind ≠ .cls → r'.entry? a = r.entry? a
  wf : r.WF → r'.WF
  ids : ∀ c ∈ l, r'.id? (.cls c.handle) = some c.id
  fields : ∀ c ∈ l, ∃ i, g.cls c.handle = some i ∧ c.name = i.name ∧
    (c.loader, c.loaderName) = loader g r name i

theorem captured_nil (g : MetadataGraph) (name : String) (r : Registries) :
    Captured g name r r [] where
  registries := .refl r
  others _ _ := rfl
  wf := id
  ids _ hc := absurd hc List.not_mem_nil
  fields _ hc := absurd hc List.not_mem_nil

/-- The loader of a class is found by the registered loaders alone. -/
theorem loader_congr {i : ClassInfo} (h : ∀ a, a.kind ≠ .cls → r'.entry? a = r.entry? a) :
    loader g r' name i = loader g r name i := by
  unfold loader
  split
  · rfl
  · rw [Registries.id?, h _ (by simp)]
    rfl

theorem Captured.captureOne {r₀ : Registries} {n : Handle} {c : CapturedClass}
    (hc : Captured g name r₀ r l) (h : captureOne g name n r = .ok (c, r')) :
    Captured g name r₀ r' (l ++ [c]) ∧ c.handle = n := by
  unfold UnloadCapture.captureOne at h
  cases hi : g.cls n with
  | none => rw [hi] at h; cases h
  | some i =>
      rw [hi] at h
      dsimp only at h
      cases hr : r.register (.cls n) with
      | error v => rw [hr] at h; cases h
      | ok q =>
          obtain ⟨⟨id, fresh⟩, r₁⟩ := q
          rw [hr] at h
          cases h
          have hothers : ∀ a, a.kind ≠ .cls → r'.entry? a = r₀.entry? a := by
            intro a ha
            rw [← hc.others a ha]
            rcases Registries.register_cases hr with ⟨-, -, rfl⟩ | ⟨-, -, -, -, rfl⟩
            · rfl
            · rw [Registries.entry?_enroll, if_neg]
              rintro rfl
              exact ha rfl
          refine ⟨⟨?_, hothers, fun hwf => (hc.wf hwf).register hr, ?_, ?_⟩, rfl⟩
          · have := hc.registries.register hr
            unfold freshClasses
            rw [List.filter_append, List.map_append]
            cases fresh <;> simpa [freshClasses] using this
          · intro d hd
            rcases List.mem_append.mp hd with hd | hd
            · exact Registries.id?_register_of_some hr (hc.ids d hd)
            · rw [List.mem_singleton.mp hd]
              exact Registries.id?_of_register hr
          · intro d hd
            rcases List.mem_append.mp hd with hd | hd
            · exact hc.fields d hd
            · rw [List.mem_singleton.mp hd]
              exact ⟨i, hi, rfl, loader_congr hothers⟩

theorem Captured.rollback (h : Captured g name r r' l) : r.Similar (UnloadCapture.rollback l r') :=
  h.registries.undo fun _ => Iff.rfl

/-- An undone capture leaves the entries of methods alone too. -/
theorem Captured.entry?_rollback (h : Captured g name r r' l) (a : Artifact) :
    Registries.entry? (UnloadCapture.rollback l r') a = r.entry? a := by
  by_cases ha : a.kind = .method
  · unfold UnloadCapture.rollback
    rw [Registries.entry?_unregisterAll, if_neg]
    · exact h.others a (by simp [ha])
    · intro hmem
      obtain ⟨c, -, rfl⟩ := List.mem_map.mp hmem
      cases ha
  · exact h.rollback.entries a ha

theorem captureOnto_ok {r₀ : Registries} {handles : List Handle} (hc : Captured g name r₀ r l)
    (h : captureOnto g name handles l r = .ok l' r') :
    Captured g name r₀ r' l' ∧ l'.map CapturedClass.handle = l.map CapturedClass.handle ++ handles := by
  induction handles generalizing l r with
  | nil =>
      cases h
      exact ⟨hc, (List.append_nil _).symm⟩
  | cons n rest ih =>
      unfold captureOnto at h
      cases h₁ : UnloadCapture.captureOne g name n r with
      | error v => rw [h₁] at h; cases h
      | ok q =>
          obtain ⟨c, r₁⟩ := q
          rw [h₁] at h
          obtain ⟨hc₁, rfl⟩ := hc.captureOne h₁
          obtain ⟨hc', hhandles⟩ := ih hc₁ h
          exact ⟨hc', by simpa using hhandles⟩

/-- Each announced class is captured once, under the id that it has now. -/
theorem capture_ok (h : capture g name r = .ok l r') :
    Captured g name r r' l ∧ l.map CapturedClass.handle = g.unloading.eraseDups :=
  captureOnto_ok (captured_nil g name r) h

theorem captureOnto_error {r₀ : Registries} {handles : List Handle} {v : Violation}
    (hc : Captured g name r₀ r l) (h : captureOnto g name handles l r = .error v r') :
    r₀.Similar r' ∧ ∀ a, r'.entry? a = r₀.entry? a := by
  induction handles generalizing l r with
  | nil => cases h
  | cons n rest ih =>
      unfold captureOnto at h
      cases h₁ : UnloadCapture.captureOne g name n r with
      | error v =>
          -- the classes captured so far lose their fresh ids
          rw [h₁] at h
          cases h
          exact ⟨hc.rollback, hc.entry?_rollback⟩
      | ok q =>
          obtain ⟨c, r₁⟩ := q
          rw [h₁] at h
          obtain ⟨hc₁, rfl⟩ := hc.captureOne h₁
          exact ih hc₁ h

/-- A capture that meets a violation has left the look-ups as they were. -/
theorem capture_error {v : Violation} (h : capture g name r = .error v r') :
    r.Similar r' ∧ ∀ a, r'.entry? a = r.entry? a :=
  captureOnto_error (captured_nil g name r) h

end UnloadCapture

/-! ## The plan of a pass -/

namespace TypeSet

variable {t t' : TypeSet} {g : MetadataGraph} {classUnload withLeak : Bool}

/-- The main stream is as before up to the next id, the owners of methods and interned texts. -/
structure MainKept (t t' : TypeSet) : Prop where
  settings : t'.settings = t.settings
  marks : t'.marks = t.marks
  registries : t.registries.Similar t'.registries
  symbols : t.symbols.texts <+: t'.symbols.texts
  epochs : t'.epochs = t.epochs
  bootstrapWritten : t'.bootstrapWritten = t.bootstrapWritten

/-- Both streams are as before up to that, and no pass was counted. -/
structure Kept (t t' : TypeSet) : Prop extends MainKept t t' where
  leakIds : t.leak.ids.Similar t'.leak.ids
  retain : t'.leak.retain = t.leak.retain
  retained : t'.leak.retained = t.leak.retained
  lastSummary : t'.lastSummary = t.lastSummary
  totals : t'.totals = t.totals
  poisoned : t'.poisoned = t.poisoned

/-- All entries are as before, those of methods included. -/
structure Undone (t t' : TypeSet) : Prop extends Kept t t' where
  entries : ∀ a, t'.registries.entry? a = t.registries.entry? a

theorem Kept.refl (t : TypeSet) : Kept t t :=
  ⟨⟨rfl, rfl, .refl _, List.prefix_rfl, rfl, rfl⟩, .refl _, rfl, rfl, rfl, rfl, rfl⟩

theorem MainKept.poison (h : MainKept t t') (v : Violation) : MainKept t (t'.poison v) :=
  ⟨h.settings, h.marks, h.registries, h.symbols, h.epochs, h.bootstrapWritten⟩

/-- To count something is not seen. -/
theorem MainKept.counted (h : MainKept t t') (n : Totals) (x : Option PassSummary) :
    MainKept t { t' with totals := n, lastSummary := x } :=
  ⟨h.settings, h.marks, h.registries, h.symbols, h.epochs, h.bootstrapWritten⟩

/-- To undo the registrations of a plan leads back to the type set before it. -/
theorem kept_unregister {s : Pass} (h : s.Grown t.registries t.symbols) :
    Kept t ((t.absorb s).unregister s.fresh) where
  settings := rfl
  marks := rfl
  registries := h.registries.undo fun _ => List.mem_reverse
  symbols := h.texts
  epochs := rfl
  bootstrapWritten := rfl
  leakIds := .refl _
  retain := rfl
  retained := rfl
  lastSummary := rfl
  totals := rfl
  poisoned := rfl

/-! ### What a plan has done -/

/-- When the main segment is planned, the classes of the leak segment are listed if there is a leak
sink. -/
theorem planMain_cases {s : Pass} {classes : List (Handle × ClassInfo)}
    (h : t.planMain g classUnload withLeak = .ok (s, classes) t') :
    Pass.planAll (t.scope g classUnload) t.registries t.symbols = .ok () s ∧ t' = t.absorb s ∧
      ((withLeak = false ∧ classes = []) ∨
        (withLeak = true ∧ s.leakClasses (t.scope g classUnload) = .ok classes)) := by
  unfold planMain at h
  dsimp only at h
  cases hp : Pass.planAll (t.scope g classUnload) t.registries t.symbols with
  | error v s => rw [hp] at h; cases h
  | ok _ s =>
      rw [hp] at h
      dsimp only at h
      cases withLeak with
      | false =>
          cases h
          exact ⟨rfl, rfl, .inl ⟨rfl, rfl⟩⟩
      | true =>
          rw [if_pos rfl] at h
          cases hl : s.leakClasses (t.scope g classUnload) with
          | error v => rw [hl] at h; cases h
          | ok l => rw [hl] at h; cases h; exact ⟨rfl, rfl, .inr ⟨rfl, hl⟩⟩

/-- When it meets a violation, its registrations are undone. -/
theorem planMain_stopped {v : Violation} (h : t.planMain g classUnload withLeak = .error v t') :
    let s := endState (Pass.planAll (t.scope g classUnload) t.registries t.symbols)
    t' = (t.absorb s).unregister s.fresh := by
  unfold planMain at h
  dsimp only at h ⊢
  cases hp : Pass.planAll (t.scope g classUnload) t.registries t.symbols with
  | error v s =>
      rw [hp] at h
      cases h
      rfl
  | ok _ s =>
      rw [hp] at h
      dsimp only at h
      split at h
      · cases hl : s.leakClasses (t.scope g classUnload) with
        | error v => rw [hl] at h; cases h; rfl
        | ok classes => rw [hl] at h; cases h
      · cases h

/-- The batch of a planned pass, with the classes of its leak segment. -/
def batchOf (t : TypeSet) (s : Pass) (classes : List (Handle × ClassInfo))
    (leak : Option PendingLeak) : Batch where
  entries := s.entries
  fresh := s.fresh
  processed := t.marks.allTagged
  unloading := s.unloading
  bootstrapEmitted := s.bootstrapEmitted
  leakClasses := classes.map Prod.fst
  leak := leak

/-- When a pass is planned, the write for the leak stream is prepared if there is a leak sink. -/
theorem plan_cases {b : Batch} (h : t.plan g classUnload withLeak = .ok b t') :
    ∃ s, Pass.planAll (t.scope g classUnload) t.registries t.symbols = .ok () s ∧
      ((withLeak = false ∧ b = t.batchOf s [] none ∧ t' = t.absorb s) ∨
      (withLeak = true ∧ ∃ classes p leak, s.leakClasses (t.scope g classUnload) = .ok classes ∧
        LeakStream.prepare g t.settings.bootstrapLoaderName t.epoch.generation classes t.leak =
          .ok p leak ∧ b = t.batchOf s classes (some p) ∧ t' = { t.absorb s with leak := leak })) := by
  unfold plan at h
  cases hm : t.planMain g classUnload withLeak with
  | error v t₁ => rw [hm] at h; cases h
  | ok q t₁ =>
      obtain ⟨s, classes⟩ := q
      obtain ⟨hplan, rfl, ⟨rfl, rfl⟩ | ⟨rfl, hclasses⟩⟩ := planMain_cases hm
      · rw [hm] at h
        cases h
        exact ⟨s, hplan, .inl ⟨rfl, rfl, rfl⟩⟩
      · rw [hm] at h
        dsimp only at h
        rw [if_pos rfl] at h
        split at h
        · cases h
        · rename_i p leak hprepare
          cases h
          exact ⟨s, hplan, .inr ⟨rfl, classes, p, leak, hclasses, hprepare, rfl, rfl⟩⟩

/-- When it meets a violation, it was met on the main stream, or when the write was prepared. The
registrations of the main stream are undone in either case. -/
theorem plan_stopped {v : Violation} (h : t.plan g classUnload withLeak = .error v t') :
    t.planMain g classUnload withLeak = .error v t' ∨
    (withLeak = true ∧ ∃ s classes leak,
      Pass.planAll (t.scope g classUnload) t.registries t.symbols = .ok () s ∧
      s.leakClasses (t.scope g classUnload) = .ok classes ∧
      LeakStream.prepare g t.settings.bootstrapLoaderName t.epoch.generation classes t.leak =
        .error v leak ∧ t' = { t.absorb s with leak := leak }.unregister s.fresh) := by
  unfold plan at h
  cases hm : t.planMain g classUnload withLeak with
  | error v t₁ =>
      rw [hm] at h
      cases h
      exact .inl rfl
  | ok q t₁ =>
      obtain ⟨s, classes⟩ := q
      obtain ⟨hplan, rfl, ⟨rfl, rfl⟩ | ⟨rfl, hclasses⟩⟩ := planMain_cases hm
      · rw [hm] at h
        cases h
      · rw [hm] at h
        dsimp only at h
        rw [if_pos rfl] at h
        split at h
        · rename_i leak hprepare
          cases h
          exact .inr ⟨rfl, s, classes, leak, hplan, hclasses, hprepare, rfl⟩
        · cases h

/-- Without a leak sink, a pass is planned when its main segment is. -/
theorem plan_without_leak {s : Pass}
    (hplan : Pass.planAll (t.scope g classUnload) t.registries t.symbols = .ok () s) :
    t.plan g classUnload false = .ok (t.batchOf s [] none) (t.absorb s) := by
  unfold plan planMain
  dsimp only
  rw [hplan]
  rfl

/-- A main segment that cannot be planned ends the plan, with or without a leak sink. -/
theorem plan_of_violation {v : Violation} {s : Pass}
    (hplan : Pass.planAll (t.scope g classUnload) t.registries t.symbols = .error v s) :
    t.plan g classUnload withLeak = .error v ((t.absorb s).unregister s.fresh) := by
  unfold plan planMain
  dsimp only
  rw [hplan]

/-- With a leak sink, its segment has to be prepared too. -/
theorem plan_with_leak {s : Pass} {classes : List (Handle × ClassInfo)} {p : PendingLeak}
    {leak : LeakStream}
    (hplan : Pass.planAll (t.scope g classUnload) t.registries t.symbols = .ok () s)
    (hclasses : s.leakClasses (t.scope g classUnload) = .ok classes)
    (hprepare : LeakStream.prepare g t.settings.bootstrapLoaderName t.epoch.generation classes
      t.leak = .ok p leak) :
    t.plan g classUnload true =
      .ok (t.batchOf s classes (some p)) { t.absorb s with leak := leak } := by
  have hmain : t.planMain g classUnload true = .ok (s, classes) (t.absorb s) := by
    unfold planMain
    dsimp only
    rw [hplan]
    dsimp only
    rw [if_pos rfl, hclasses]
  have hleak : LeakStream.prepare g t.settings.bootstrapLoaderName t.epoch.generation classes
      (t.absorb s).leak = .ok p leak := hprepare
  unfold plan
  rw [hmain]
  dsimp only
  rw [if_pos rfl, hleak]
  rfl

/-! ### What a plan comes to -/

/-- What a successful plan comes to: the batch has what the pass planned, and the type set has the
registrations of both streams. -/
structure Planned (t : TypeSet) (g : MetadataGraph) (classUnload : Bool) (b : Batch)
    (t' : TypeSet) (s : Pass) : Prop where
  plan : Pass.planAll (t.scope g classUnload) t.registries t.symbols = .ok () s
  entries : b.entries = s.entries
  fresh : b.fresh = s.fresh
  processed : b.processed = t.marks.allTagged
  unloading : b.unloading = s.unloading
  bootstrapEmitted : b.bootstrapEmitted = s.bootstrapEmitted
  types : t' = { t.absorb s with leak := t'.leak }
  leak : t.leak.Prepared t'.leak ((b.leak.map PendingLeak.fresh).getD [])
  leak_length : ∀ p, b.leak = some p → p.entries.length = b.leakClasses.length

/-- A plan reads the marks and does not change them. -/
theorem Planned.marks {b : Batch} {s : Pass} (h : Planned t g classUnload b t' s) :
    t'.marks = t.marks := by
  rw [h.types]
  rfl

theorem plan_ok {b : Batch} (h : t.plan g classUnload withLeak = .ok b t') :
    ∃ s, Planned t g classUnload b t' s := by
  obtain ⟨s, hplan, ⟨-, rfl, rfl⟩ | ⟨-, classes, p, leak, -, hprepare, rfl, rfl⟩⟩ := plan_cases h
  · refine ⟨s, hplan, rfl, rfl, rfl, rfl, rfl, rfl, ⟨.refl _, rfl, rfl⟩, ?_⟩
    intro q hq
    cases hq
  · obtain ⟨hleak, hlength⟩ := LeakStream.prepare_ok hprepare
    refine ⟨s, hplan, rfl, rfl, rfl, rfl, rfl, rfl, hleak, ?_⟩
    intro q hq
    cases hq
    exact hlength.trans (List.length_map _).symm

/-- A main segment that meets a violation leaves both streams as they were. -/
theorem planMain_error {v : Violation} (h : t.planMain g classUnload withLeak = .error v t') :
    Kept t t' := by
  rw [planMain_stopped h]
  exact kept_unregister (Pass.grown_planAll _ _ _)

/-- A plan that meets a violation keeps the main stream, and the leak stream too if the violation
was met on the main stream. -/
theorem plan_error {v : Violation} (h : t.plan g classUnload withLeak = .error v t') :
    MainKept t t' ∧ (t.planMain g classUnload withLeak = .error v t' → Kept t t') := by
  refine ⟨?_, planMain_error⟩
  rcases plan_stopped h with hm | ⟨-, s, classes, leak, hplan, -, -, rfl⟩
  · exact (planMain_error hm).toMainKept
  · -- met on the leak stream, where the ids handed out so far stay
    have hgrown := Pass.grown_planAll (t.scope g classUnload) t.registries t.symbols
    rw [hplan] at hgrown
    have hkept := (kept_unregister hgrown).toMainKept
    exact ⟨rfl, rfl, hkept.registries, hkept.symbols, rfl, rfl⟩

/-- To roll back a planned pass leads back to the type set before it. -/
theorem Planned.rollback {b : Batch} {s : Pass} (h : Planned t g classUnload b t' s) :
    Kept t (t'.rollback b) := by
  have hgrown := Pass.grown_planAll (t.scope g classUnload) t.registries t.symbols
  rw [h.plan] at hgrown
  have hkept := kept_unregister hgrown
  have hleak := h.leak
  rw [h.types, TypeSet.rollback, h.fresh]
  cases hb : b.leak with
  | none =>
      rw [hb] at hleak
      exact ⟨⟨rfl, rfl, hkept.registries, hkept.symbols, rfl, rfl⟩,
        hleak.rollback (p := {}), hleak.retain, hleak.retained, rfl, rfl, rfl⟩
  | some p =>
      rw [hb] at hleak
      exact ⟨⟨rfl, rfl, hkept.registries, hkept.symbols, rfl, rfl⟩,
        hleak.rollback, hleak.retain, hleak.retained, rfl, rfl, rfl⟩

end TypeSet

end TraceTypes
