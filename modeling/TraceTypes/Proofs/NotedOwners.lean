import TraceTypes.Proofs.Renaming
import TraceTypes.Proofs.Retry
/-!
# Owners that a failed pass leaves behind

A plan notes the owner of a method when it has built the method's record. What
undoes a plan takes away the entries that are new; an entry from before the pass
stays, and with it the owner that was noted in it. So behind a pass that failed
every method has its id and its old owner, except that a method which the plan had
come to has the owner that the graph says (`OwnersLeft`).

* `Pass.noted_planAll` — what a plan has made of the entry of a method that was
  there before it;
* `Run.failed_call_owners` — what a failed pass has made of all entries, and when
  that is nothing at all.
-/

namespace TraceTypes

/-- The entry of a method is the one from before the pass, with the owner that the graph says if the
pass has a record of the method. -/
structure Pass.Noted (c : PassScope) (m : Handle) (y : RegistryEntry) (s : Pass) : Prop where
  before : .method m ∉ Entry.subjects s.entries → s.registries.entry? (.method m) = some y
  behind : .method m ∈ Entry.subjects s.entries → ∃ i, c.graph.method m = some i ∧
    s.registries.entry? (.method m) = some { y with owner := some i.holder }

namespace PassM

variable {c : PassScope} {m : Handle} {y : RegistryEntry} {s s' : Pass} {a : Artifact}

/-- What neither writes a record of the method nor touches its entry. -/
theorem noted_of_eq (h : s.Noted c m y)
    (hentries : .method m ∈ Entry.subjects s'.entries ↔ .method m ∈ Entry.subjects s.entries)
    (hentry : s'.registries.entry? (.method m) = s.registries.entry? (.method m)) :
    s'.Noted c m y := by
  obtain ⟨hbefore, hbehind⟩ := h
  rw [← hentries, ← hentry] at hbefore hbehind
  exact ⟨hbefore, hbehind⟩

/-- A method that was registered before is found. -/
theorem id?_of_noted (h : s.Noted c m y) : s.registries.id? (.method m) = some y.id := by
  by_cases hm : .method m ∈ Entry.subjects s.entries
  · obtain ⟨i, -, hi⟩ := h.behind hm
    rw [Registries.id?, hi]
    rfl
  · rw [Registries.id?, h.before hm]
    rfl

theorem keeps_noted_register (ha : a ≠ .method m) : Keeps (Pass.Noted c m y) (register a) := by
  intro s hs
  unfold register
  cases hr : s.registries.register a with
  | error v => exact hs
  | ok q =>
      obtain ⟨⟨id, fresh⟩, r⟩ := q
      refine noted_of_eq hs Iff.rfl ?_
      rcases Registries.register_cases hr with ⟨-, -, rfl⟩ | ⟨-, -, -, -, rfl⟩
      · rfl
      · exact (Registries.entry?_enroll ..).trans (if_neg ha.symm)

theorem keeps_noted_write {record : Record} {subject : Option Artifact}
    (ha : subject ≠ some (.method m)) : Keeps (Pass.Noted c m y) (write subject record) := by
  refine .modify fun s hs => noted_of_eq hs ?_ rfl
  show _ ∈ Entry.subjects (s.entries ++ [⟨subject, record⟩]) ↔ _
  simp [Entry.subjects, ha]

theorem symbolStable_noted : SymbolStable (Pass.Noted c m y) where
  register a ha := keeps_noted_register fun heq => by cases heq; cases ha
  intern _ _ hs := noted_of_eq hs Iff.rfl rfl
  writeSymbol a _ _ ha := by
    refine .bind (.modify fun _ hs => noted_of_eq hs Iff.rfl rfl) fun _ => keeps_noted_write ?_
    intro heq
    cases heq
    cases ha
  writeBootstrap _ :=
    .bind (.modify fun _ hs => noted_of_eq hs Iff.rfl rfl) fun _ => keeps_noted_write nofun
  noteUnloading _ _ := .modify fun _ hs => noted_of_eq hs Iff.rfl rfl

/-- The record of another artifact. -/
theorem keeps_noted_buildRecord {i : ArtifactInfo} (ha : a ≠ .method m)
    (h : c.graph.describe? a = some i) : Keeps (Pass.Noted c m y) (buildRecord c a i) := by
  refine symbolStable_noted.buildRecord (MetadataGraph.kind_of_describe? h).symm
    (fun _ => keeps_noted_register ha) fun j f _ => ?_
  refine .bind (keeps_noted_register ha) fun _ => .bind (.modify fun s hs => ?_) fun _ => .pure _
  exact noted_of_eq hs Iff.rfl ((Registries.entry?_setOwner ..).trans (if_neg ha.symm))

/-- The record of the method itself. Its owner is noted last, and nothing fails between that and the
writing of the record. -/
theorem keeps_noted_methodRecord {j : MethodInfo} (hj : c.graph.method m = some j) :
    Keeps (Pass.Noted c m y) (methodRecord c (.method m) j >>= write (some (.method m))) := by
  have hlast (f : TraceId → Record) : Keeps (Pass.Noted c m y) (do
      let id ← PassM.register (.method m)
      noteOwner (.method m) j.holder
      write (some (.method m)) (f id)) := by
    intro s hs
    have hid := id?_of_noted hs
    show Pass.Noted c m y (endState (EStateM.bind _ _ s))
    unfold EStateM.bind PassM.register
    rw [Registries.register_of_some hid]
    refine ⟨fun hnot => ?_, fun _ => ⟨j, hj, ?_⟩⟩
    · refine absurd ?_ hnot
      show _ ∈ Entry.subjects (s.entries ++ [_])
      simp [Entry.subjects]
    · show Registries.entry? (s.registries.setOwner (.method m) j.holder) (.method m) = _
      rw [Registries.entry?_setOwner, if_pos rfl]
      by_cases hm : .method m ∈ Entry.subjects s.entries
      · obtain ⟨i, -, hi⟩ := hs.behind hm
        rw [hi]
        rfl
      · rw [hs.before hm]
        rfl
  unfold methodRecord
  simp only [bind_assoc, pure_bind]
  refine .bind (keeps_dependency _) fun holder => ?_
  refine .bind (symbolStable_noted.symbol _) fun name => ?_
  refine .bind (symbolStable_noted.symbol _) fun descriptor => ?_
  exact hlast fun id => .method id holder name descriptor j.modifiers j.hidden

theorem keeps_noted_emitAll {l : List (Artifact × ArtifactInfo)}
    (hl : ∀ a i, (a, i) ∈ l → c.graph.describe? a = some i) :
    Keeps (Pass.Noted c m y) (emitAll c l) := by
  induction l with
  | nil => exact .pure _
  | cons p rest ih =>
      obtain ⟨a, i⟩ := p
      have hdesc := hl a i List.mem_cons_self
      have hnote : Keeps (Pass.Noted c m y) (noteClass a i) := by
        cases i with
        | cls i => exact .modify fun _ hs => noted_of_eq hs Iff.rfl rfl
        | classLoader | module | package | method | thread => exact .pure _
      have hrecord : Keeps (Pass.Noted c m y) (buildRecord c a i >>= write (some a)) := by
        by_cases ha : a = .method m
        · subst ha
          obtain ⟨j, hj, rfl⟩ := Option.map_eq_some_iff.mp hdesc
          exact keeps_noted_methodRecord hj
        · refine .bind (keeps_noted_buildRecord ha hdesc) fun _ => keeps_noted_write ?_
          exact fun heq => ha (Option.some.inj heq)
      have hrest := ih fun b j hb => hl b j (List.mem_cons_of_mem _ hb)
      have hsplit : emitAll c ((a, i) :: rest) =
          noteClass a i >>= fun _ => (buildRecord c a i >>= write (some a)) >>= fun _ =>
            emitAll c rest := by
        simp only [emitAll, bind_assoc]
      rw [hsplit]
      exact .bind hnote fun _ => .bind hrecord fun _ => hrest

theorem keeps_noted_visitAll (l : List Artifact) : Keeps (Pass.Noted c m y) (visitAll c l) := by
  induction l with
  | nil => exact .pure _
  | cons a rest ih =>
      refine .bind ?_ fun _ => ih
      unfold visit
      split
      · rename_i ha
        exact symbolStable_noted.taggedSymbol ha
      · have hexpand : Keeps (Pass.Noted c m y) (expand c a) := by
          intro s hs
          unfold expand
          cases s.plan.expand c.graph c.stillValid a <;> exact noted_of_eq hs Iff.rfl rfl
        exact hexpand.bind_of fun _ _ _ h =>
          keeps_noted_emitAll fun _ _ hb => describe?_of_expand h hb

end PassM

/-- However a plan ends, the entry of a method that was there before it is as noted. -/
theorem Pass.noted_planAll {c : PassScope} {r : Registries} {m : Handle} {y : RegistryEntry}
    (h : r.entry? (.method m) = some y) (symbols : SymbolTable) :
    (endState (planAll c r symbols)).Noted c m y :=
  PassM.keeps_noted_visitAll c.marks.allTagged _ ⟨fun _ => h, fun hmem => nomatch hmem⟩

/-! ## A plan that is taken back -/

/-- What a plan that was taken back has left: the ids as before, and the entries as before but for
the owners of the methods that it has planned, which are those of the graph. -/
structure OwnersLeft (g : MetadataGraph) (planned : Handle → Prop) (r r' : Registries) : Prop where
  ids : ∀ a, r'.id? a = r.id? a
  others : ∀ a, (∀ m, a = .method m → ¬ planned m) → r'.entry? a = r.entry? a
  planned : ∀ m y, planned m → r.entry? (.method m) = some y →
    ∃ i, g.method m = some i ∧ r'.entry? (.method m) = some { y with owner := some i.holder }

namespace OwnersLeft

variable {g : MetadataGraph} {planned : Handle → Prop} {r r' : Registries}

/-- Nothing has changed if the planned methods had the owners of the graph before. -/
theorem entry?_eq_iff (h : OwnersLeft g planned r r') :
    (∀ a, r'.entry? a = r.entry? a) ↔ ∀ m y i, planned m → r.entry? (.method m) = some y →
      g.method m = some i → y.owner = some i.holder := by
  constructor
  · intro hentries m y i hm hy hi
    obtain ⟨j, hj, hnow⟩ := h.planned m y hm hy
    rw [hi] at hj
    cases hj
    rw [hentries, hy] at hnow
    exact congrArg RegistryEntry.owner (Option.some.inj hnow)
  · intro howners a
    by_cases ha : ∃ m, a = .method m ∧ planned m
    · obtain ⟨m, rfl, hm⟩ := ha
      cases hy : r.entry? (.method m) with
      | none =>
          rw [← Registries.id?_eq_none_iff, h.ids, Registries.id?_eq_none_iff]
          exact hy
      | some y =>
          obtain ⟨i, hi, hnow⟩ := h.planned m y hm hy
          rw [hnow, ← howners m y i hm hy hi]
    · exact h.others a fun m hm hplanned => ha ⟨m, hm, hplanned⟩

/-- The methods of a class are those that it had, but for the planned ones, which are those that the
graph says. -/
theorem mem_ownedBy_iff (h : OwnersLeft g planned r r') (n m : Handle) :
    m ∈ r'.ownedBy .method n ↔ (¬ planned m ∧ m ∈ r.ownedBy .method n) ∨
      (planned m ∧ (r.id? (.method m)).isSome = true ∧ ∃ i, g.method m = some i ∧ i.holder = n) := by
  rw [Registries.mem_ownedBy, Registries.mem_ownedBy]
  by_cases hm : planned m
  · have hid : (r.id? (.method m)).isSome = (r.entry? (.method m)).isSome := Option.isSome_map
    simp only [hm, not_true_eq_false, false_and, false_or, true_and, hid]
    cases hy : r.entry? (.method m) with
    | none =>
        have hnone : r'.entry? (.method m) = none := by
          rw [← Registries.id?_eq_none_iff, h.ids, Registries.id?_eq_none_iff]
          exact hy
        simp [hnone]
    | some y =>
        obtain ⟨i, hi, hnow⟩ := h.planned m y hm hy
        simp [hnow, hi]
  · have heq := h.others (.method m) fun k hk => by cases hk; exact hm
    simp only [hm, not_false_eq_true, true_and, false_and, or_false, heq]

end OwnersLeft

/-- To unregister what is new leaves the owners noted in what is not. -/
theorem Pass.ownersLeft_planAll (c : PassScope) (r : Registries) (symbols : SymbolTable) :
    let s := endState (planAll c r symbols)
    OwnersLeft c.graph (fun m => .method m ∈ Entry.subjects s.entries) r
      (s.registries.unregisterAll s.fresh.reverse) := by
  intro s
  have hgrown : s.Grown r symbols := grown_planAll c r symbols
  have hsimilar := hgrown.registries.undo (l := s.fresh.reverse) fun _ => List.mem_reverse
  have hentry {m : Handle} {y : RegistryEntry} (hy : r.entry? (.method m) = some y) :
      Registries.entry? (s.registries.unregisterAll s.fresh.reverse) (.method m) =
        s.registries.entry? (.method m) := by
    rw [Registries.entry?_unregisterAll, if_neg]
    intro hfresh
    have hnone := (hgrown.registries.fresh_id _ (List.mem_reverse.mp hfresh)).1
    rw [Registries.id?_eq_none_iff, hy] at hnone
    cases hnone
  refine ⟨hsimilar.ids, fun a ha => ?_, fun m y hm hy => ?_⟩
  · by_cases hkind : a.kind = .method
    · obtain ⟨_, m⟩ := a
      cases hkind
      cases hy : r.entry? (.method m) with
      | none =>
          rw [← Registries.id?_eq_none_iff, hsimilar.ids, Registries.id?_eq_none_iff]
          exact hy
      | some y =>
          rw [hentry hy]
          exact (noted_planAll hy symbols).before (ha m rfl)
    · exact hsimilar.entries a hkind
  · rw [hentry hy]
    exact (noted_planAll hy symbols).behind hm

namespace TypeSet

variable {t : TypeSet} {g : MetadataGraph} {flags : PassFlags} {σ τ : Type} [Sink σ] [Sink τ]
  {w : Sinks σ τ} {e : TypeSetError}

/-- The pass comes to plan the record of the method. -/
def PlansMethod (t : TypeSet) (g : MetadataGraph) (classUnload : Bool) (m : Handle) : Prop :=
  t.isPoisoned = false ∧ .method m ∈
    Entry.subjects (endState (Pass.planAll (t.scope g classUnload) t.registries t.symbols)).entries

theorem Planned.registries_rollback {classUnload : Bool} {b : Batch} {t' : TypeSet} {s : Pass}
    (h : Planned t g classUnload b t' s) :
    (t'.rollback b).registries = s.registries.unregisterAll s.fresh.reverse := by
  have hunregistered : (t'.rollback b).registries =
      t'.registries.unregisterAll b.fresh.reverse := by
    unfold TypeSet.rollback
    cases b.leak <;> rfl
  rw [hunregistered, h.fresh, h.types]
  rfl

theorem registries_plan_error {classUnload withLeak : Bool} {v : Violation} {t' : TypeSet}
    (h : t.plan g classUnload withLeak = .error v t') :
    let s := endState (Pass.planAll (t.scope g classUnload) t.registries t.symbols)
    t'.registries = s.registries.unregisterAll s.fresh.reverse := by
  intro s
  rcases plan_stopped h with hm | ⟨-, s', classes, leak, hplan, -, -, rfl⟩
  · rw [planMain_stopped hm]
    rfl
  · simp only [s, hplan]
    rfl

/-- Behind the commit of the main segment only a sink can fail. -/
theorem exists_sink_of_committed {q : Batch × TypeSet × Sinks σ τ}
    (hc : t.commits? g flags w = some q) (herr : (t.serialize g flags w).result = .error e) :
    ∃ e', e = .sink e' := by
  obtain ⟨b, t', w'⟩ := q
  obtain ⟨-, bytes, -, heq⟩ := serialize_committed hc
  rw [heq] at herr
  rcases finishPass_cases t' flags b bytes w' with
    ⟨-, heq⟩ | ⟨p, -, ⟨size, w'', -, heq⟩ | ⟨e', w'', -, heq⟩⟩ <;> rw [heq] at herr <;> cases herr
  exact ⟨e', rfl⟩

/-- A pass that fails and has committed no main segment has taken its plan back. -/
theorem registries_of_failure
    (hready : Pass.Ready (t.scope g flags.classUnload) t.registries t.symbols)
    (herr : (t.serialize g flags w).result = .error e)
    (hmain : ∀ b t' w', t.commits? g flags w = some (b, t', w') → b.entries = [])
    (hp : t.isPoisoned = false) :
    let s := endState (Pass.planAll (t.scope g flags.classUnload) t.registries t.symbols)
    (t.serialize g flags w).types.registries = s.registries.unregisterAll s.fresh.reverse ∧
      (t.serialize g flags w).types.marks = t.marks := by
  intro s
  have hplanned {b : Batch} {t' : TypeSet} {withLeak : Bool}
      (hplan : t.plan g flags.classUnload withLeak = .ok b t') :
      (t'.rollback b).registries = s.registries.unregisterAll s.fresh.reverse ∧
        (t'.rollback b).marks = t.marks := by
    obtain ⟨s', hplanned⟩ := plan_ok hplan
    refine ⟨?_, hplanned.rollback.marks⟩
    simp only [s, hplanned.plan]
    exact hplanned.registries_rollback
  cases hc : t.commits? g flags w with
  | none =>
      rcases serialize_stopped hc with
        ⟨hp', -⟩ | ⟨v, t', hplan, heq⟩ | ⟨b, t', e', w', hplan, -, heq⟩
      · rw [hp] at hp'
        cases hp'
      · have hregistries := registries_plan_error hplan
        rw [heq]
        exact ⟨hregistries, (plan_error hplan).1.marks⟩
      · rw [heq]
        exact hplanned hplan
  | some q =>
      -- the main part was empty
      obtain ⟨e, rfl⟩ := exists_sink_of_committed hc herr
      have hrecords : ∀ b t' w', t.commits? g flags w = some (b, t', w') → b.records = [] := by
        intro b t' w' hc
        rw [Batch.records, hmain b t' w' hc]
        rfl
      obtain ⟨-, b, t', n, x, hplan, heq⟩ := rolled_back_of_failure hready hrecords herr
      rw [heq]
      exact hplanned hplan

end TypeSet

/-- A pass that fails and has committed no main segment leaves all ids as they were, and all owners
but those of the methods whose records it had planned: a method that was registered before has then
the owner that the graph says. So if these owners were the same before, as in a graph in which no
registered method has moved, all entries are as before, and so are the methods of every class, now
and when classes are unloaded. -/
theorem Run.failed_call_owners {settings : Settings} {t : TypeSet} {H : History}
    (h : Run settings t H) (g : MetadataGraph) (flags : PassFlags) {σ τ : Type} [Sink σ] [Sink τ]
    (w : Sinks σ τ) {e : TypeSetError} (herr : (t.serialize g flags w).result = .error e)
    (hmain : ∀ b t' w', t.commits? g flags w = some (b, t', w') → b.entries = []) :
    let t' := (t.serialize g flags w).types
    let planned := t.PlansMethod g flags.classUnload
    OwnersLeft g planned t.registries t'.registries ∧
    (∀ n m, m ∈ t'.registries.ownedBy .method n ↔
      (¬ planned m ∧ m ∈ t.registries.ownedBy .method n) ∨
        (planned m ∧ (t.id? (.method m)).isSome = true ∧
          ∃ i, g.method m = some i ∧ i.holder = n)) ∧
    ((∀ a, t'.registries.entry? a = t.registries.entry? a) ↔
      ∀ m y i, planned m → t.registries.entry? (.method m) = some y → g.method m = some i →
        y.owner = some i.holder) ∧
    ((∀ a, t'.registries.entry? a = t.registries.entry? a) →
      (∀ k n, t'.registries.ownedBy k n = t.registries.ownedBy k n) ∧
      ∀ g' n, t'.methodsOf g' n = t.methodsOf g' n) := by
  intro t' planned
  have hleft : OwnersLeft g planned t.registries t'.registries ∧ t'.marks = t.marks := by
    cases hp : t.isPoisoned with
    | true =>
        have heq : t.serialize g flags w = ⟨.error .poisoned, t, w⟩ := if_pos hp
        have hnone (m : Handle) : ¬ planned m := fun hm => by cases hp.symm.trans hm.1
        simp only [t', heq]
        exact ⟨⟨fun _ => rfl, fun _ _ => rfl, fun m _ hm => absurd hm (hnone m)⟩, trivial⟩
    | false =>
        obtain ⟨hregistries, hmarks⟩ := TypeSet.registries_of_failure
          (h.recorded.ready g flags.classUnload) herr hmain hp
        have hplanned : planned = fun m => .method m ∈ Entry.subjects (endState
            (Pass.planAll (t.scope g flags.classUnload) t.registries t.symbols)).entries := by
          funext m
          exact propext ⟨fun hm => hm.2, fun hm => ⟨hp, hm⟩⟩
        refine ⟨?_, hmarks⟩
        simp only [t', hregistries, hplanned]
        exact Pass.ownersLeft_planAll (t.scope g flags.classUnload) t.registries t.symbols
  obtain ⟨hleft, hmarks⟩ := hleft
  refine ⟨hleft, hleft.mem_ownedBy_iff, hleft.entry?_eq_iff, fun hentries => ?_⟩
  have howned : ∀ k n, t'.registries.ownedBy k n = t.registries.ownedBy k n :=
    Registries.ownedBy_congr fun a => congrArg _ (hentries a)
  refine ⟨howned, fun g' n => ?_⟩
  unfold TypeSet.methodsOf TypeSet.registeredMethods
  rw [howned, hmarks]

/-! ## A method that has moved -/

/-- Two classes, and a method that the first or the second one declares. -/
def methodGraph (holder : Handle) : MetadataGraph where
  classLoader _ := none
  module _ := none
  package _ := none
  cls
    | 1 => some { name := "A" }
    | 2 => some { name := "B" }
    | _ => none
  method
    | 1 => some { holder := holder, name := "run", descriptor := "()V" }
    | _ => none
  thread _ := none
  unloading := []

/-- A type set in which the method is tagged, and nothing else was done. -/
def methodTypes : TypeSet := ((TypeSet.create {}).tag (.method 1)).2

/-- The method was written as one of the first class, and is tagged again. -/
def movedTypes : TypeSet :=
  ((methodTypes.serialize (methodGraph 1) {} sampleLog).types.tag (.method 1)).2

theorem run_movedTypes :
    Run {} movedTypes (methodTypes.serializeEvents (methodGraph 1) {} sampleLog) :=
  .tag (.method 1) (.serialize (methodGraph 1) {} sampleLog (.tag (.method 1) .create))

/-- A main sink that does not open its first segment. -/
def shutLog : Sinks (Flaky SegmentLog) SegmentLog :=
  ⟨{ inner := {}, schedule := .once .openSegment 1 "disk full" }, none⟩

/-- A pass over the method, which is now one of the second class, fails before it has written
anything, and takes the method from the first class all the same. -/
theorem failed_call_moves_owner :
    Run {} movedTypes (methodTypes.serializeEvents (methodGraph 1) {} sampleLog) ∧
    movedTypes.registries.entry? (.method 1) = some ⟨6, some 1⟩ ∧
    movedTypes.registries.ownedBy .method 1 = [1] ∧
    let pass := movedTypes.serialize (methodGraph 2) {} shutLog
    (movedTypes.commits? (methodGraph 2) {} shutLog).isNone = true ∧
    pass.result = .error (.sink (.io "disk full")) ∧
    pass.types.registries.entry? (.method 1) = some ⟨6, some 2⟩ ∧
    pass.types.registries.ownedBy .method 1 = [] ∧
    pass.types.methodsOf (methodGraph 2) 1 = [] ∧
    pass.types.methodsOf (methodGraph 2) 2 = [1] := by
  refine ⟨run_movedTypes, ?_⟩
  decide +kernel

theorem failed_call_owners_moved :
    (movedTypes.serialize (methodGraph 2) {} shutLog).result =
      .error (.sink (.io "disk full")) ∧
    (∀ b t' w', movedTypes.commits? (methodGraph 2) {} shutLog = some (b, t', w') →
      b.entries = []) ∧
    OwnersLeft (methodGraph 2) (movedTypes.PlansMethod (methodGraph 2) false)
      movedTypes.registries (movedTypes.serialize (methodGraph 2) {} shutLog).types.registries ∧
    movedTypes.PlansMethod (methodGraph 2) false 1 ∧
    1 ∈ (movedTypes.serialize (methodGraph 2) {} shutLog).types.registries.ownedBy .method 2 := by
  have herr : (movedTypes.serialize (methodGraph 2) {} shutLog).result =
      .error (.sink (.io "disk full")) := by decide +kernel
  have hmain : ∀ b t' w', movedTypes.commits? (methodGraph 2) {} shutLog = some (b, t', w') →
      b.entries = [] := by
    have hnone : (movedTypes.commits? (methodGraph 2) {} shutLog).isNone = true := by
      decide +kernel
    intro b t' w' hc
    rw [hc] at hnone
    cases hnone
  obtain ⟨hleft, howned, -⟩ :=
    run_movedTypes.failed_call_owners (methodGraph 2) {} shutLog herr hmain
  have hplans : movedTypes.PlansMethod (methodGraph 2) false 1 :=
    ⟨by decide +kernel, by decide +kernel⟩
  exact ⟨herr, hmain, hleft, hplans,
    (howned 2 1).mpr (.inr ⟨hplans, by decide +kernel, _, rfl, rfl⟩)⟩

end TraceTypes
