import TraceTypes.Proofs.Calls
/-!
# Owners of methods

A registered method has its declaring class as its owner, because a plan
registers a method together with its owner (`PassM.stable_methodsHave`), and
what undoes or forgets registrations takes away whole entries. So if all
registered methods have the owner that the graph says, they have it behind
every call that reads this graph, also behind one that fails.
-/

namespace TraceTypes

namespace Registries

/-- The entries of registered methods have the property. -/
def MethodsHave (P : Handle → RegistryEntry → Prop) (r : Registries) : Prop :=
  ∀ m e, r.entry? (.method m) = some e → P m e

namespace MethodsHave

variable {P : Handle → RegistryEntry → Prop} {r r' : Registries}

/-- To register anything but a method leaves the entries of methods alone. -/
theorem register (h : r.MethodsHave P) {a : Artifact} (ha : a.kind ≠ .method) {id : TraceId}
    {fresh : Bool} (hr : r.register a = .ok ((id, fresh), r')) : r'.MethodsHave P := by
  intro m e he
  apply h m e
  rcases register_cases hr with ⟨-, -, rfl⟩ | ⟨-, -, -, -, rfl⟩
  · exact he
  · rw [entry?_enroll, if_neg] at he
    · exact he
    · rintro rfl
      exact ha rfl

/-- A method that is registered together with its owner. -/
theorem method (h : r.MethodsHave P) {n owner : Handle} (hP : ∀ id, P n ⟨id, some owner⟩)
    {id : TraceId} {fresh : Bool} (hr : r.register (.method n) = .ok ((id, fresh), r')) :
    (r'.setOwner (.method n) owner).MethodsHave P := by
  intro m e he
  rw [entry?_setOwner] at he
  split at he
  · rename_i hm
    cases hm
    obtain ⟨e', -, rfl⟩ := Option.map_eq_some_iff.mp he
    exact hP e'.id
  · rename_i hm
    rcases register_cases hr with ⟨-, -, rfl⟩ | ⟨-, -, -, -, rfl⟩
    · exact h m e he
    · rw [entry?_enroll, if_neg hm] at he
      exact h m e he

end MethodsHave

/-- Every registered method has the class that declares it in the graph as its owner. -/
def OwnersMatch (g : MetadataGraph) (r : Registries) : Prop :=
  ∀ m e, r.entry? (.method m) = some e → ∃ i, g.method m = some i ∧ e.owner = some i.holder

namespace OwnersMatch

variable {g : MetadataGraph} {r r' : Registries}

/-- It is enough that no entry of a method was added or changed. -/
theorem of_entries (h : r.OwnersMatch g)
    (hsub : ∀ m e, r'.entry? (.method m) = some e → r.entry? (.method m) = some e) :
    r'.OwnersMatch g := by
  intro m e he
  exact h m e (hsub m e he)

/-- It is enough that the registered methods keep their fields. -/
theorem of_methods {g' : MetadataGraph} (h : r.OwnersMatch g)
    (hstays : ∀ m e i, r.entry? (.method m) = some e → g.method m = some i → g'.method m = some i) :
    r.OwnersMatch g' := by
  intro m e he
  obtain ⟨i, hi, howner⟩ := h m e he
  exact ⟨i, hstays m e i he hi, howner⟩

theorem unregisterAll (h : r.OwnersMatch g) (l : List Artifact) :
    (r.unregisterAll l).OwnersMatch g := by
  apply h.of_entries
  intro m e he
  rw [entry?_unregisterAll] at he
  split at he
  · cases he
  · exact he

theorem forgetAll (h : r.OwnersMatch g) (l : List Artifact) : (r.forgetAll l).OwnersMatch g := by
  apply h.of_entries
  intro m e he
  rw [entry?_forgetAll] at he
  split at he
  · cases he
  · exact he

end OwnersMatch

end Registries

/-! ## A plan -/

/-- A plan gives a method the owner that the graph says, and changes nothing else about entries of
methods. -/
theorem PassM.stable_methodsHave (c : PassScope) {P : Handle → RegistryEntry → Prop}
    (hP : ∀ m i id, c.graph.method m = some i → P m ⟨id, some i.holder⟩) :
    PassM.Stable c fun s => s.registries.MethodsHave P where
  register a ha := by
    intro s hs
    unfold PassM.register
    cases hr : s.registries.register a with
    | error v => exact hs
    | ok q =>
        obtain ⟨⟨id, fresh⟩, r⟩ := q
        exact hs.register ha hr
  method a i f h := by
    intro s hs
    -- in between, the entry has no owner yet
    show Registries.MethodsHave _ (endState (EStateM.bind _ _ s)).registries
    unfold EStateM.bind PassM.register
    cases hr : s.registries.register a with
    | error v => exact hs
    | ok q =>
        obtain ⟨⟨id, fresh⟩, r⟩ := q
        obtain ⟨k, n⟩ := a
        have hk := MetadataGraph.kind_of_describe? h
        dsimp only [ArtifactInfo.kind] at hk
        subst hk
        obtain ⟨j, hj, heq⟩ := Option.map_eq_some_iff.mp h
        cases heq
        exact hs.method (fun id => hP n i id hj) hr
  intern _ _ hs := hs
  write _ _ _ hs := hs
  writeSymbol _ _ _ _ hs := hs
  writeBootstrap _ _ hs := hs
  noteUnloading _ _ _ hs := hs
  noteClass a i _ := by
    cases i with
    | cls i => exact .modify fun s hs => hs
    | classLoader | module | package | method | thread => exact .pure _
  expand a := by
    intro s hs
    unfold PassM.expand
    cases s.plan.expand c.graph c.stillValid a <;> exact hs

/-- No change that planning makes gives a method another owner than the graph. -/
theorem PassM.stable_ownersMatch (c : PassScope) :
    PassM.Stable c fun s => s.registries.OwnersMatch c.graph :=
  stable_methodsHave c fun _ i _ hi => ⟨i, hi, rfl⟩

namespace TypeSet

variable {t t' : TypeSet} {g : MetadataGraph}

/-- However a plan ends, the registered methods have their owners from the graph. -/
theorem ownersMatch_plan (h : t.registries.OwnersMatch g) (classUnload withLeak : Bool) :
    (endState (t.plan g classUnload withLeak)).registries.OwnersMatch g := by
  have hpass := (PassM.stable_ownersMatch (t.scope g classUnload)).planAll (y := t.symbols) h
  cases hp : t.plan g classUnload withLeak with
  | error v t' =>
      rcases plan_stopped hp with hm | ⟨-, s, classes, leak, hplan, -, -, rfl⟩
      · rw [planMain_stopped hm]
        exact hpass.unregisterAll _
      · rw [hplan] at hpass
        exact hpass.unregisterAll _
  | ok b t' =>
      obtain ⟨s, hplan, ⟨-, -, rfl⟩ | ⟨-, classes, p, leak, -, -, -, rfl⟩⟩ := plan_cases hp
      · rw [hplan] at hpass
        exact hpass
      · rw [hplan] at hpass
        exact hpass

/-- Behind a pass, whatever became of it, the registered methods have their owners from the
graph. -/
theorem ownersMatch_serialize {σ τ : Type} [Sink σ] [Sink τ] (h : t.registries.OwnersMatch g)
    (flags : PassFlags) (w : Sinks σ τ) :
    (t.serialize g flags w).types.registries.OwnersMatch g := by
  have hplanned := ownersMatch_plan h flags.classUnload w.leak.isSome
  cases hc : t.commits? g flags w with
  | none =>
      rcases serialize_stopped hc with
        ⟨-, heq⟩ | ⟨v, t', hplan, heq⟩ | ⟨b, t', e, w', hplan, -, heq⟩
      · rw [heq]
        exact h
      · rw [heq]
        rw [hplan] at hplanned
        exact hplanned
      · rw [heq]
        rw [hplan] at hplanned
        show (t'.rollback b).registries.OwnersMatch g
        unfold rollback
        cases b.leak <;> exact hplanned.unregisterAll _
  | some q =>
      obtain ⟨b, t', w'⟩ := q
      obtain ⟨hplan, bytes, -, heq⟩ := serialize_committed hc
      rw [heq, (written_finishPass t' flags b bytes w').registries]
      rw [hplan] at hplanned
      exact hplanned.forgetAll _

/-- So they have behind a capture, which registers classes only. -/
theorem ownersMatch_captureUnloading {σ : Type} [Sink σ] (h : t.registries.OwnersMatch g) (w : σ) :
    (t.captureUnloading g w).types.registries.OwnersMatch g := by
  cases hc : t.captures? g w with
  | none =>
      apply h.of_entries
      intro m e he
      rw [← (undone_of_captureUnloading_stopped hc).entries]
      exact he
  | some q =>
      obtain ⟨l, r⟩ := q
      obtain ⟨hcapture, -, n, w', -, heq⟩ := captureUnloading_committed hc
      obtain ⟨hcaptured, -⟩ := UnloadCapture.capture_ok hcapture
      rw [heq]
      show (forgetClasses _ _ _).registries.OwnersMatch g
      rw [(forgot_forgetClasses _ _ _).registries]
      apply Registries.OwnersMatch.forgetAll
      apply h.of_entries
      intro m e he
      rw [← hcaptured.others _ (by simp)]
      exact he

end TypeSet

end TraceTypes
