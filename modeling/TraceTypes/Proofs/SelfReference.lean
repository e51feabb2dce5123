import TraceTypes.Proofs.Referential
import TraceTypes.Proofs.WrittenClasses
import TraceTypes.Proofs.PassContent
/-!
# Records that refer to themselves

An artifact is no dependency of itself, so the detection of cycles passes over
a class that is its own superclass or element class. Such a class is caught, if
at all, when its record is built: the id of the class is looked up there before
the class is registered.

* `PassM.symbolStable_fresh` — what is done for symbols gives no other artifact
  an id;
* `Pass.SelfKnown` — between emissions, a class that names itself has its entry
  only if it had its id before the pass, and its record then has this id among
  its references;
* `Run.self_reference` — what follows for a whole call: no record lists its own
  id but those classes' records, and without an earlier id the call fails.
-/

namespace TraceTypes

open Dependency

/-- The fields of a class name it as its own superclass or element class. -/
def ClassInfo.NamesItself (i : ClassInfo) (n : Handle) : Prop :=
  i.superclass = some n ∨ i.element = some n

namespace PassM

variable {a b : Artifact} {c : PassScope}

/-! ## Which artifacts get an id -/

theorem spares_register (h : b ≠ a) : Keeps (fun s => a ∉ s.fresh) (register b) := by
  intro s hs
  unfold register
  cases s.registries.register b with
  | error v => exact hs
  | ok p =>
      obtain ⟨⟨id, fresh⟩, r⟩ := p
      show a ∉ if fresh then s.fresh ++ [b] else s.fresh
      split
      · simpa [hs] using h.symm
      · exact hs

theorem spares_expand : Keeps (fun s => a ∉ s.fresh) (expand c b) := by
  intro s hs
  unfold expand
  cases s.plan.expand c.graph c.stillValid b <;> exact hs

theorem spares_noteClass (i : ArtifactInfo) : Keeps (fun s => a ∉ s.fresh) (noteClass b i) := by
  cases i with
  | cls i => exact .modify fun _ hs => hs
  | classLoader | module | package | method | thread => exact .pure _

/-- What is done for symbols and notes gives no other artifact an id. -/
theorem symbolStable_fresh (ha : a.kind ≠ .symbol) : SymbolStable fun s => a ∉ s.fresh where
  register _ hb := spares_register fun h => ha (h ▸ hb)
  intern _ _ hs := hs
  writeSymbol _ _ _ _ := .bind (.modify fun _ hs => hs) fun _ => .modify fun _ hs => hs
  writeBootstrap _ := .bind (.modify fun _ hs => hs) fun _ => .modify fun _ hs => hs
  noteUnloading _ _ := .modify fun _ hs => hs

/-- To build a record gives an id to symbols and to the artifact of the record. -/
theorem spares_buildRecord (ha : a.kind ≠ .symbol) (h : b ≠ a) {i : ArtifactInfo}
    (hi : c.graph.describe? b = some i) : Keeps (fun s => a ∉ s.fresh) (buildRecord c b i) :=
  (symbolStable_fresh ha).buildRecord (MetadataGraph.kind_of_describe? hi).symm
    (fun _ => spares_register h) fun _ _ _ =>
      .bind (spares_register h) fun _ => .bind (.modify fun _ hs => hs) fun _ => .pure _

/-! ## The record of a class that names itself -/

variable {r : Registries} {y : SymbolTable} {s s' : Pass} {n : Handle} {record : Record}

/-- The id of a dependency that is found is the one it has. -/
theorem id?_of_optionalDependency {d : Artifact} {o : Option TraceId}
    (h : optionalDependency (some d) s = .ok o s') :
    s' = s ∧ ∃ id, o = some id ∧ s.registries.id? d = some id := by
  obtain ⟨id, s₁, hdep, h⟩ := ok_of_bind h
  obtain ⟨rfl, rfl⟩ := ok_of_pure h
  unfold dependency at hdep
  cases hid : s.registries.id? d with
  | none => rw [hid] at hdep; cases hdep
  | some j =>
      rw [hid] at hdep
      cases hdep
      exact ⟨rfl, _, rfl, rfl⟩

theorem state_of_optionalDependency {d : Option Artifact} {o : Option TraceId}
    (h : optionalDependency d s = .ok o s') : s' = s := by
  cases d with
  | none => exact (ok_of_pure h).2
  | some d => exact (id?_of_optionalDependency h).1

/-- A class that names itself gets its record only if it has an id already. Unless it got this id
in the pass, it had it before, and the record lists it among its references. -/
theorem classRecord_of_namesItself {i : ClassInfo} (hs : s.Grown r y)
    (hfresh : .cls n ∉ s.fresh) (hi : i.NamesItself n)
    (h : classRecord c (.cls n) i s = .ok record s') :
    r.id? (.cls n) = some record.id ∧ record.id ∈ record.references := by
  obtain ⟨name, s₁, hname, h⟩ := ok_of_bind h
  obtain ⟨loader, s₂, hloader, h⟩ := ok_of_bind h
  obtain ⟨package, s₃, hpackage, h⟩ := ok_of_bind h
  obtain ⟨element, s₄, helement, h⟩ := ok_of_bind h
  obtain ⟨superclass, s₅, hsuper, h⟩ := ok_of_bind h
  obtain ⟨_, s₆, hnote, h⟩ := ok_of_bind h
  obtain ⟨id, s₇, hregister, h⟩ := ok_of_bind h
  obtain ⟨rfl, -⟩ := ok_of_pure h
  have hgrown₂ : s₂.Grown r y := by
    have hstable := (stable_grown c r y).symbolStable
    exact (hstable.loader _).ok ((hstable.symbol _).ok hs hname) hloader
  have hfresh₂ : .cls n ∉ s₂.fresh := by
    have hstable := symbolStable_fresh (a := .cls n) (by simp)
    exact (hstable.loader _).ok ((hstable.symbol _).ok hfresh hname) hloader
  obtain rfl := state_of_optionalDependency hpackage
  obtain rfl := state_of_optionalDependency helement
  obtain rfl := state_of_optionalDependency hsuper
  -- one of the two look-ups was of the class itself
  have hself : ∃ j, s₅.registries.id? (.cls n) = some j ∧
      (superclass = some j ∨ element = some j) := by
    rcases hi with hi | hi
    · rw [hi] at hsuper
      obtain ⟨-, j, rfl, hj⟩ := id?_of_optionalDependency hsuper
      exact ⟨j, hj, .inl rfl⟩
    · rw [hi] at helement
      obtain ⟨-, j, rfl, hj⟩ := id?_of_optionalDependency helement
      exact ⟨j, hj, .inr rfl⟩
  obtain ⟨j, hj, hlisted⟩ := hself
  cases hnote
  obtain ⟨rfl, -⟩ := Pass.register_known hregister (i := j) hj
  refine ⟨?_, ?_⟩
  · show r.id? (.cls n) = some id
    rw [← hgrown₂.registries.other_id _ hfresh₂]
    exact hj
  · rcases hlisted with rfl | rfl <;> simp [Record.id, Record.references]

end PassM

namespace Pass

variable {c : PassScope} {r : Registries} {y : SymbolTable} {s s' s₁ s₂ : Pass} {a : Artifact}
  {i : ArtifactInfo} {record : Record} {pending rest : List Artifact}

/-! ## Between emissions -/

/-- Behind some emissions: the entry of a class that names itself has the id that the class had
before the pass, and lists it; and what waits for its entry has got no id in the pass. -/
structure SelfKnown (c : PassScope) (r : Registries) (pending : List Artifact) (s : Pass) :
    Prop where
  entries : ∀ e ∈ s.entries, ∀ n i, e.subject = some (.cls n) → c.graph.cls n = some i →
    i.NamesItself n → r.id? (.cls n) = some e.record.id ∧ e.record.id ∈ e.record.references
  waiting : ∀ a ∈ pending, a ∉ s.fresh

/-- Where no class has got an entry, the entries of classes are the old ones. -/
theorem mem_entries_of_writtenClasses {e : Entry} {n : Handle} (hle : s.entries <+: s'.entries)
    (hclasses : s'.writtenClasses = s.writtenClasses) (he : e ∈ s'.entries)
    (hsub : e.subject = some (.cls n)) : e ∈ s.entries := by
  obtain ⟨l, hl⟩ := hle
  unfold writtenClasses at hclasses
  rw [← hl, Entry.subjects_append, classHandles_append, List.append_right_eq_self] at hclasses
  rw [← hl] at he
  rcases List.mem_append.mp he with he | he
  · exact he
  · have : n ∈ classHandles (Entry.subjects l) :=
      mem_classHandles.mpr (Entry.mem_subjects.mpr ⟨e, he, hsub⟩)
    rw [hclasses] at this
    cases this

/-- The record of an artifact is built without an entry for a class. -/
theorem writtenClasses_buildRecord (h : PassM.buildRecord c a i s = .ok record s') :
    s'.writtenClasses = s.writtenClasses := by
  by_cases hi : i.kind = .cls
  · cases i <;> cases hi
    exact (PassM.classRecord_noted h).1
  · exact (classView_eq ((PassM.quiet_buildRecord hi).ok h)).1

theorem SelfKnown.emit (hk : s.SelfKnown c r (a :: rest)) (hready : Ready c r y)
    (hs : s.Inv c r y (a :: rest)) (hfields : c.graph.describe? a = some i)
    (hdeps : ∃ l, direct c.graph a i = .ok l ∧
      ∀ d ∈ l, c.stillValid d = true ∨ d ∈ Entry.subjects s.entries)
    (hnote : PassM.noteClass a i s = .ok () s₁)
    (hbuild : PassM.buildRecord c a i s₁ = .ok record s₂)
    (hwrite : PassM.write (some a) record s₂ = .ok () s') : s'.SelfKnown c r rest := by
  have hwaiting₁ : ∀ b ∈ a :: rest, b ∉ s₁.fresh :=
    fun b hb => (PassM.spares_noteClass i).ok (hk.waiting b hb) hnote
  obtain ⟨hs₁, heq₁⟩ := noteClass_ok hs hnote
  have hb : s₁.Building c r y (a :: rest) a i :=
    ⟨hs₁, List.mem_cons_self, hfields, heq₁ ▸ hdeps⟩
  obtain ⟨-, hle⟩ := buildRecord_ok hready hb hbuild
  have hclasses := writtenClasses_buildRecord hbuild
  have hnodup := (List.nodup_append.mp hs.nodup).2.1
  cases hwrite
  constructor
  case entries =>
    intro e he n j hsub hj hself
    rcases List.mem_append.mp he with he | he
    · have he := mem_entries_of_writtenClasses hle hclasses he hsub
      rw [heq₁] at he
      exact hk.entries e he n j hsub hj hself
    · rw [List.mem_singleton.mp he] at hsub ⊢
      cases hsub
      obtain rfl : i = .cls j := by
        have : c.graph.describe? (.cls n) = some (.cls j) := by simp [MetadataGraph.describe?, hj]
        exact Option.some.inj (hfields.symm.trans this)
      exact PassM.classRecord_of_namesItself hs₁.grown (hwaiting₁ _ List.mem_cons_self) hself hbuild
  case waiting =>
    intro b hb
    have hne : a ≠ b := fun h => (List.nodup_cons.mp hnodup).1 (h ▸ hb)
    have hkind := (hs.pending b (List.mem_cons_of_mem _ hb)).kind_ne
    have hspared := (PassM.spares_buildRecord hkind hne hfields).ok
      (hwaiting₁ b (List.mem_cons_of_mem _ hb)) hbuild
    exact hspared

theorem SelfKnown.emitAll (hready : Ready c r y) {l : List (Artifact × ArtifactInfo)}
    {placed : Artifact → Prop} (hk : s.SelfKnown c r (l.map Prod.fst))
    (hs : s.Inv c r y (l.map Prod.fst))
    (hl : Placeable c.graph (fun d => c.stillValid d = true) placed l)
    (hplaced : ∀ d, placed d → d ∈ Entry.subjects s.entries)
    (h : PassM.emitAll c l s = .ok () s') : s'.SelfKnown c r [] := by
  induction l generalizing s placed with
  | nil =>
      obtain ⟨-, rfl⟩ := ok_of_pure h
      exact hk
  | cons p rest ih =>
      obtain ⟨a, i⟩ := p
      obtain ⟨hfields, -, ⟨deps, hdeps, hcovered⟩, hrest⟩ := hl
      obtain ⟨_, s₁, hnote, h⟩ := ok_of_bind h
      obtain ⟨record, s₂, hbuild, h⟩ := ok_of_bind h
      obtain ⟨_, s₃, hwrite, h⟩ := ok_of_bind h
      have hdirect : ∃ l, direct c.graph a i = .ok l ∧
          ∀ d ∈ l, c.stillValid d = true ∨ d ∈ Entry.subjects s.entries :=
        ⟨deps, hdeps, fun d hd => (hcovered d hd).imp_right (hplaced d)⟩
      have hk₃ := hk.emit hready hs hfields hdirect hnote hbuild hwrite
      obtain ⟨hs₃, hle₃, ha⟩ := emit_ok hready hs hfields hdirect hnote hbuild hwrite
      refine ih hk₃ hs₃ hrest ?_ h
      rintro d (hd | rfl)
      · exact Entry.subjects_subset hle₃ (hplaced d hd)
      · exact ha

theorem SelfKnown.visit (hk : s.SelfKnown c r []) (hready : Ready c r y) (hs : s.Inv c r y [])
    (htag : c.marks.isTagged a = true) (h : PassM.visit c a s = .ok () s') :
    s'.SelfKnown c r [] := by
  unfold PassM.visit at h
  split at h
  · rename_i hkind
    -- a symbol has no part in it
    obtain ⟨-, hle, -⟩ := taggedSymbol_ok hs hkind htag h
    have hclasses := (classView_eq ((PassM.quiet_taggedSymbol hkind).ok h)).1
    refine ⟨fun e he n i hsub => ?_, fun b hb => by cases hb⟩
    exact hk.entries e (mem_entries_of_writtenClasses hle hclasses he hsub) n i hsub
  · rename_i hkind
    obtain ⟨order, s₁, hexp, h⟩ := ok_of_bind h
    obtain ⟨hs₁, heq, hplace, -⟩ := expand_ok hs hkind htag hexp
    rw [← heq] at hplace
    refine SelfKnown.emitAll hready ⟨?_, ?_⟩ hs₁ hplace (fun _ hd => hd) h
    · rw [heq]
      exact hk.entries
    · -- what has got an id has its entry, and what is listed now has none
      intro b hb
      refine PassM.spares_expand.ok (fun hfresh => ?_) hexp
      obtain ⟨⟨_, j⟩, hj, rfl⟩ := List.mem_map.mp hb
      have hsub := (hs.fresh _ hfresh).resolve_right List.not_mem_nil
      rw [← heq] at hsub
      exact (hplace.mem hj).2 hsub

theorem SelfKnown.visitAll (hready : Ready c r y) {l : List Artifact} (hk : s.SelfKnown c r [])
    (hs : s.Inv c r y []) (htag : ∀ a ∈ l, c.marks.isTagged a = true)
    (h : PassM.visitAll c l s = .ok () s') : s'.SelfKnown c r [] := by
  induction l generalizing s with
  | nil =>
      obtain ⟨-, rfl⟩ := ok_of_pure h
      exact hk
  | cons a rest ih =>
      have ha := htag a List.mem_cons_self
      obtain ⟨_, s₁, hvisit, h⟩ := ok_of_bind h
      have hk₁ := hk.visit hready hs ha hvisit
      obtain ⟨hs₁, -, -⟩ := visit_ok hready hs ha hvisit
      exact ih hk₁ hs₁ (fun b hb => htag b (List.mem_cons_of_mem _ hb)) h

/-- Behind a plan that succeeds, no class that names itself has got its id in the pass. -/
theorem selfKnown_planAll (hready : Ready c r y) (h : planAll c r y = .ok () s) :
    s.SelfKnown c r [] := by
  refine SelfKnown.visitAll (s := start r y c.settings) hready ?_ (inv_start c r y)
    (fun a ha => MarkTable.mem_allTagged.mp ha) h
  exact ⟨fun _ he => absurd he List.not_mem_nil, fun _ ha => absurd ha List.not_mem_nil⟩

/-! ## The references of an entry -/

/-- An entry's own id does not stand for anything by the entries before it. -/
theorem prior_of_stands_own {before after : List Entry} {e : Entry} {x : Target}
    (hids : ((before ++ e :: after).map fun e => e.record.id).Nodup)
    (h : Stands c r y before e.record.id x) : Prior c r y e.record.id x := by
  refine h.resolve_left ?_
  rintro ⟨b, hb, hdefines⟩
  rw [List.map_append, List.map_cons] at hids
  refine (List.nodup_append.mp hids).2.2 _ (List.mem_map_of_mem hb) _ List.mem_cons_self ?_
  exact hdefines.id_eq

/-- The id that an artifact's entry has stands for nothing but the artifact since before the
pass. -/
theorem Inv.eq_of_prior (hwf : s.registries.WF) (hs : s.Inv c r y []) {id : TraceId} {x : Target}
    (hid : s.registries.id? a = some id) (hkind : a.kind ≠ .symbol) (h : Prior c r y id x) :
    x = .artifact a := by
  cases x with
  | text text =>
      obtain ⟨n, -, -, hn⟩ := h
      exact absurd (hwf.id?_inj (hs.grown.registries.keeps hn) hid ▸ rfl) hkind
  | artifact d => rw [hwf.id?_inj (hs.grown.registries.keeps h.2) hid]
  | bootstrap =>
      have := (hwf.bounds a id hid).1
      rw [h.1] at this
      exact absurd this (Nat.lt_irrefl _)

/-- The entries whose records list their own id are those of the classes that name themselves. -/
theorem mem_references_iff (hready : Ready c r y) (h : planAll c r y = .ok () s) {e : Entry}
    (he : e ∈ s.entries) : e.record.id ∈ e.record.references ↔
      ∃ n i, e.subject = some (.cls n) ∧ c.graph.cls n = some i ∧ i.NamesItself n := by
  obtain ⟨hs, -⟩ := planAll_ok hready h
  have hwf := hs.grown.wf hready.wf
  constructor
  · intro hmem
    obtain ⟨before, after, hl⟩ := List.append_of_mem he
    have hids := (content_of_planAll hready h).ids_nodup
    rw [hl] at hids
    have hok := hs.grounded before e after hl
    unfold EntryOk at hok
    cases hsub : e.subject with
    | none =>
        -- the name of the bootstrap loader has an id of its own
        rw [hsub] at hok
        obtain ⟨name, hrec, hname⟩ := hok
        obtain rfl : name = e.record.id := by
          rw [hrec] at hmem ⊢
          simpa [Record.references, Record.id, eq_comm] using hmem
        obtain ⟨n, -, -, hn⟩ := prior_of_stands_own hids hname
        have := (hready.wf.bounds _ _ hn).1
        rw [hrec] at this
        exact absurd this (Nat.lt_irrefl _)
    | some a =>
        rw [hsub] at hok
        by_cases hkind : a.kind = .symbol
        · obtain ⟨k, n⟩ := a
          cases hkind
          obtain ⟨id, text, hrec, -⟩ := hs.symbols e he n hsub
          rw [hrec] at hmem
          cases hmem
        · obtain ⟨i, hi, hok⟩ := hok hkind
          obtain ⟨x, hx, hmeans⟩ := hok.shows.of_mem_references hmem
          have hself : x = .artifact a := by
            rcases hmeans with hstands | hself
            · exact hs.eq_of_prior hwf (hs.ids e he a hsub).1 hkind
                (prior_of_stands_own hids hstands)
            · exact hself
          rw [hself] at hx
          obtain ⟨n, j, rfl, -, hn, hor⟩ := ArtifactInfo.self_of_mentions hi hx
          exact ⟨n, j, rfl, hn, hor⟩
  · rintro ⟨n, i, hsub, hi, hself⟩
    exact ((selfKnown_planAll hready h).entries e he n i hsub hi hself).2

end Pass

/-! ## A whole call -/

/-- No record of a committed pass lists its own id, but the records of classes that are their own
superclass or element class; and such a class had its id before the pass. If such a class is needed
and has no id, the call ends in a violation and writes nothing. -/
theorem Run.self_reference {settings : Settings} {t : TypeSet} {H : History}
    (h : Run settings t H) {σ τ : Type} [Sink σ] [Sink τ] (g : MetadataGraph) (flags : PassFlags)
    (w : Sinks σ τ) :
    (∀ b t' w', t.commits? g flags w = some (b, t', w') →
      (∀ e ∈ b.entries, (e.record.id ∈ e.record.references ↔
        ∃ n i, e.subject = some (.cls n) ∧ g.cls n = some i ∧ i.NamesItself n)) ∧
      (∀ e ∈ b.entries, ∀ n i, e.subject = some (.cls n) → g.cls n = some i → i.NamesItself n →
        t.id? (.cls n) = some e.record.id) ∧
      ∀ record ∈ b.leakRecords, record.references = []) ∧
    ∀ n i, (t.scope g flags.classUnload).Needed (.cls n) → g.cls n = some i → i.NamesItself n →
      t.id? (.cls n) = none → t.isPoisoned = false →
      ∃ v, (t.serialize g flags w).result = .error (.violation v) ∧
        (t.serialize g flags w).sinks = w ∧ (t.serialize g flags w).types.poisoned = some v := by
  have hready := h.recorded.ready g flags.classUnload
  constructor
  · intro b t' w' hc
    obtain ⟨hplan, -⟩ := TypeSet.serialize_committed hc
    obtain ⟨s, hp⟩ := TypeSet.plan_ok hplan
    rw [hp.entries]
    refine ⟨fun e he => Pass.mem_references_iff hready hp.plan he, ?_, ?_⟩
    · intro e he n i hsub hi hself
      exact ((Pass.selfKnown_planAll hready hp.plan).entries e he n i hsub hi hself).1
    · intro record hrecord
      cases hleak : b.leak with
      | none =>
          rw [Batch.leakRecords_of_none hleak] at hrecord
          cases hrecord
      | some p =>
          rw [Batch.leakRecords_of_some hleak] at hrecord
          obtain ⟨e, -, rfl⟩ := List.mem_map.mp hrecord
          rfl
  · intro n i hneed hi hself hid hp
    cases hplan : t.plan g flags.classUnload w.leak.isSome with
    | error v t' =>
        rw [TypeSet.serialize_of_violation hp hplan]
        exact ⟨v, rfl, rfl, rfl⟩
    | ok b t' =>
        -- a plan that succeeds has an entry for the class, which therefore had an id
        obtain ⟨s, hplanned⟩ := TypeSet.plan_ok hplan
        obtain ⟨hs, htagged⟩ := Pass.planAll_ok hready hplanned.plan
        obtain ⟨e, he, hsub⟩ := Entry.mem_subjects.mp (hs.mem_of_needed htagged hneed)
        have hknown := (Pass.selfKnown_planAll hready hplanned.plan).entries e he n i hsub hi hself
        have : t.id? (.cls n) = some e.record.id := hknown.1
        rw [hid] at this
        cases this

/-- The class of the example graph, corrupted: it is its own superclass. -/
def loopGraph : MetadataGraph :=
  { sampleGraph with
    cls := fun n => if n = 1 then some { name := "A", superclass := some 1 } else none }

/-- A class that is its own superclass is not written by its first pass. -/
theorem self_reference_sampleTypes :
    sampleTypes.id? (.cls 1) = none ∧
    ∃ v, (sampleTypes.serialize loopGraph {} sampleLog).result = .error (.violation v) := by
  have hid : sampleTypes.id? (.cls 1) = none := by decide +kernel
  obtain ⟨v, hv, -⟩ := (run_sampleTypes.self_reference loopGraph {} sampleLog).2 1 _
    (.root ⟨by decide +kernel, by simp⟩) rfl (.inl rfl) hid rfl
  exact ⟨hid, v, hv⟩

/-- A class that was written before and has become its own superclass is written without a
violation, and its record lists its own id. -/
theorem self_reference_known :
    let t := ((sampleTypes.serialize sampleGraph {} sampleLog).types.tag (.cls 1)).2
    let pass := t.serialize loopGraph {} sampleLog
    Run {} t (sampleTypes.serializeEvents sampleGraph {} sampleLog) ∧
      t.marks.isTagged (.cls 1) = true ∧ t.isPoisoned = false ∧ pass.result = .ok 13 ∧
      pass.sinks.main.records =
        [.cls 3 1 0 none (some 3) none 1 false false] := by
  refine ⟨.tag (.cls 1) (.serialize sampleGraph {} sampleLog run_sampleTypes), ?_, ?_, ?_, ?_⟩ <;>
    decide +kernel

end TraceTypes
