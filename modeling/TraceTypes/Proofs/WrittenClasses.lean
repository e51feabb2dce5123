import TraceTypes.Proofs.Growth
/-!
# The classes of a pass

A pass notes the classes that it writes for the leak stream, and those that it
writes as unloading. Both notes agree with the entries: the classes noted are
those with an entry, in the same order, and the unloading ones are those of them
that the graph announces (`Pass.classesNoted_planAll`).

Most actions of planning have no part in this (`PassM.Quiet`): they add entries
of symbols and of the bootstrap loader. Where an artifact is emitted its note
comes first, so the agreement is one between emissions (`PassM.emit_noted`).
-/

namespace TraceTypes

/-- The handles of the classes among artifacts. -/
def classHandles (l : List Artifact) : List Handle :=
  l.filterMap fun a => if a.kind = .cls then some a.handle else none

theorem mem_classHandles {l : List Artifact} {n : Handle} : n ∈ classHandles l ↔ .cls n ∈ l := by
  unfold classHandles
  rw [List.mem_filterMap]
  constructor
  · rintro ⟨⟨k, m⟩, hmem, h⟩
    split at h
    · rename_i hk
      cases hk
      cases h
      exact hmem
    · cases h
  · exact fun hmem => ⟨_, hmem, if_pos rfl⟩

theorem nodup_classHandles {l : List Artifact} (h : l.Nodup) : (classHandles l).Nodup := by
  refine List.Pairwise.filterMap _ ?_ h
  rintro ⟨k, m⟩ ⟨k', m'⟩ hne n hn n' hn' rfl
  split at hn
  · rename_i hk
    split at hn'
    · rename_i hk'
      cases hk
      cases hk'
      cases hn
      cases hn'
      exact hne rfl
    · cases hn'
  · cases hn

theorem classHandles_append (l l' : List Artifact) :
    classHandles (l ++ l') = classHandles l ++ classHandles l' := List.filterMap_append

/-- Whether a class is written as unloading. -/
def PassScope.unloads (c : PassScope) (n : Handle) : Bool := c.classUnload && c.graph.isUnloading n

namespace Pass

/-- The classes that have an entry. -/
def writtenClasses (s : Pass) : List Handle := classHandles (Entry.subjects s.entries)

/-- The notes of a pass agree with its entries. -/
structure ClassesNoted (c : PassScope) (s : Pass) : Prop where
  classes : s.classes.map Prod.fst = s.writtenClasses
  unloading : s.unloading = s.writtenClasses.filter c.unloads

/-- What a pass says of classes: those with an entry, and the two notes. -/
def classView (s : Pass) : List Handle × List (Handle × ClassInfo) × List Handle :=
  (s.writtenClasses, s.classes, s.unloading)

theorem classView_eq {s s' : Pass} (h : s'.classView = s.classView) :
    s'.writtenClasses = s.writtenClasses ∧ s'.classes = s.classes ∧ s'.unloading = s.unloading :=
  ⟨congrArg Prod.fst h, congrArg (fun v => v.2.1) h, congrArg (fun v => v.2.2) h⟩

theorem ClassesNoted.of_view {c : PassScope} {s s' : Pass} (hs : s.ClassesNoted c)
    (h : s'.classView = s.classView) : s'.ClassesNoted c := by
  obtain ⟨hwritten, hclasses, hunloading⟩ := classView_eq h
  exact ⟨by rw [hclasses, hwritten, hs.classes], by rw [hunloading, hwritten, hs.unloading]⟩

/-- An entry of an artifact that is no class adds none. -/
theorem writtenClasses_snoc {s s' : Pass} {e : Entry} (h : s'.entries = s.entries ++ [e])
    (he : ∀ a, e.subject = some a → a.kind ≠ .cls) : s'.writtenClasses = s.writtenClasses := by
  unfold writtenClasses
  rw [h, Entry.subjects_append, classHandles_append]
  have hnil : classHandles (Entry.subjects [e]) = [] := by
    refine List.eq_nil_iff_forall_not_mem.mpr fun n hn => ?_
    obtain ⟨_, hmem, hsub⟩ := Entry.mem_subjects.mp (mem_classHandles.mp hn)
    rw [List.mem_singleton.mp hmem] at hsub
    exact he _ hsub rfl
  rw [hnil, List.append_nil]

end Pass

namespace PassM

variable {α β : Type} {c : PassScope} {a : Artifact} {i : ArtifactInfo} {s s' : Pass}

/-! ## Actions that have no part in it -/

/-- The action leaves alone what the pass says of classes. -/
def Quiet (m : PassM α) : Prop := ∀ v, Keeps (fun s => s.classView = v) m

namespace Quiet

variable {m : PassM α} {f : α → PassM β}

theorem ok (hm : Quiet m) {x : α} (h : m s = .ok x s') : s'.classView = s.classView :=
  (hm s.classView).ok rfl h

theorem pure (x : α) : Quiet (Pure.pure x : PassM α) := fun _ => .pure x

theorem bind (hm : Quiet m) (hf : ∀ x, Quiet (f x)) : Quiet (m >>= f) :=
  fun v => .bind (hm v) fun x => hf x v

theorem modify {f : Pass → Pass} (hf : ∀ s, (f s).classView = s.classView) :
    Quiet (modify f : PassM Unit) := fun _ => .modify fun s hs => (hf s).trans hs

end Quiet

theorem quiet_register (a : Artifact) : Quiet (register a) := by
  intro v s hs
  unfold register
  cases s.registries.register a <;> exact hs

theorem quiet_dependency (a : Artifact) : Quiet (dependency a) := fun _ => keeps_dependency a

theorem quiet_optionalDependency (a : Option Artifact) : Quiet (optionalDependency a) :=
  fun _ => keeps_optionalDependency a

theorem quiet_write {subject : Option Artifact} (h : ∀ a, subject = some a → a.kind ≠ .cls)
    (r : Record) : Quiet (write subject r) := by
  refine .modify fun s => ?_
  unfold Pass.classView
  rw [Pass.writtenClasses_snoc (s := s) rfl h]

theorem quiet_writeSymbol (ha : a.kind = .symbol) (id : TraceId) (text : String) :
    Quiet (writeSymbol a id text) := by
  refine .bind (.modify fun _ => rfl) fun _ => quiet_write ?_ _
  rintro _ ⟨⟩
  simp [ha]

theorem quiet_announce (ha : a.kind = .symbol) (id : TraceId) (text : String) :
    Quiet (announce c a id text) := by
  intro v s hs
  unfold announce
  split
  · exact hs
  · exact quiet_writeSymbol ha id text v s hs

theorem quiet_symbol (text : String) : Quiet (symbol c text) := by
  intro v
  refine Keeps.bind_of (fun s hs => hs) fun s a s₁ h => ?_
  have hkind : a.kind = .symbol := by
    cases h
    exact s.symbols.kind_intern text
  exact Quiet.bind (quiet_register a)
    (fun id => .bind (quiet_announce hkind id text) fun _ => .pure id) v

theorem quiet_optionalSymbol (text : Option String) : Quiet (optionalSymbol c text) := by
  cases text with
  | none => exact .pure none
  | some t => exact .bind (quiet_symbol t) fun _ => .pure _

theorem quiet_taggedSymbol (ha : a.kind = .symbol) : Quiet (taggedSymbol a) := by
  intro v s hs
  unfold taggedSymbol
  split
  · exact hs
  · cases s.symbols.text? a.handle with
    | none => exact hs
    | some text =>
        exact Quiet.bind (quiet_register a) (fun id => quiet_writeSymbol ha id text) v s hs

theorem quiet_writeBootstrap (name : TraceId) : Quiet (writeBootstrap name) :=
  .bind (.modify fun _ => rfl) fun _ => quiet_write (fun _ h => by cases h) _

theorem quiet_loader (l : Option Handle) : Quiet (loader c l) := by
  cases l with
  | some l => exact quiet_dependency _
  | none =>
      intro v s hs
      show Pass.classView (endState (bootstrap c s)) = v
      unfold bootstrap
      split
      · exact Quiet.bind (quiet_symbol _)
          (fun name => .bind (quiet_writeBootstrap name) fun _ => .pure _) v s hs
      · exact hs

theorem quiet_noteOwner (a : Artifact) (owner : Handle) : Quiet (noteOwner a owner) :=
  .modify fun _ => rfl

theorem quiet_expand (a : Artifact) : Quiet (expand c a) := by
  intro v s hs
  unfold expand
  cases s.plan.expand c.graph c.stillValid a <;> exact hs

/-! ## The emission of one artifact -/

/-- The record of anything but a class is built quietly. -/
theorem quiet_buildRecord (hi : i.kind ≠ .cls) : Quiet (buildRecord c a i) := by
  cases i with
  | cls i => exact absurd rfl hi
  | method i =>
      refine .bind (quiet_dependency _) fun _ => ?_
      refine .bind (quiet_symbol _) fun _ => ?_
      refine .bind (quiet_symbol _) fun _ => ?_
      refine .bind (quiet_register a) fun _ => ?_
      exact .bind (quiet_noteOwner a _) fun _ => .pure _
  | package i =>
      refine .bind (quiet_symbol _) fun _ => ?_
      refine .bind (quiet_optionalDependency _) fun _ => ?_
      exact .bind (quiet_register a) fun _ => .pure _
  | module i =>
      refine .bind (quiet_symbol _) fun _ => ?_
      refine .bind (quiet_optionalSymbol _) fun _ => ?_
      refine .bind (quiet_optionalSymbol _) fun _ => ?_
      exact .bind (quiet_register a) fun _ => .pure _
  | classLoader i =>
      refine .bind (quiet_optionalSymbol _) fun _ => ?_
      refine .bind (quiet_symbol _) fun _ => ?_
      exact .bind (quiet_register a) fun _ => .pure _
  | thread i =>
      refine .bind (quiet_symbol _) fun _ => ?_
      exact .bind (quiet_register a) fun _ => .pure _

/-- While the record of a class is built, the class is noted as unloading if it is. -/
theorem classRecord_noted {i : ClassInfo} {r : Record} (h : classRecord c a i s = .ok r s') :
    s'.writtenClasses = s.writtenClasses ∧ s'.classes = s.classes ∧
      s'.unloading = s.unloading ++ if c.unloads a.handle then [a.handle] else [] := by
  obtain ⟨_, s₁, hname, h⟩ := ok_of_bind h
  obtain ⟨_, s₂, hloader, h⟩ := ok_of_bind h
  obtain ⟨_, s₃, hpackage, h⟩ := ok_of_bind h
  obtain ⟨_, s₄, helement, h⟩ := ok_of_bind h
  obtain ⟨_, s₅, hsuper, h⟩ := ok_of_bind h
  obtain ⟨_, s₆, hnote, h⟩ := ok_of_bind h
  obtain ⟨_, s₇, hregister, h⟩ := ok_of_bind h
  obtain ⟨-, rfl⟩ := ok_of_pure h
  have hbefore : s₅.classView = s.classView := by
    rw [(quiet_optionalDependency _).ok hsuper, (quiet_optionalDependency _).ok helement,
      (quiet_optionalDependency _).ok hpackage, (quiet_loader _).ok hloader,
      (quiet_symbol _).ok hname]
  obtain ⟨hwritten, hclasses, hunloading⟩ := Pass.classView_eq hbefore
  obtain ⟨hwritten', hclasses', hunloading'⟩ :=
    Pass.classView_eq ((quiet_register a).ok hregister)
  cases hnote
  refine ⟨hwritten'.trans hwritten, hclasses'.trans hclasses, ?_⟩
  rw [hunloading', ← hunloading]
  show (if c.unloads a.handle then _ else _) = _
  split
  · rfl
  · exact (List.append_nil _).symm

/-- The emission of an artifact keeps the agreement: a class is noted, and has its entry then. -/
theorem emit_noted {r : Record} {s₁ s₂ : Pass} (hs : s.ClassesNoted c)
    (hi : c.graph.describe? a = some i) (hnote : noteClass a i s = .ok () s₁)
    (hbuild : buildRecord c a i s₁ = .ok r s₂) (hwrite : write (some a) r s₂ = .ok () s') :
    s'.ClassesNoted c := by
  by_cases hkind : i.kind = .cls
  · cases i <;> cases hkind
    rename_i i
    obtain ⟨n, rfl, -⟩ := MetadataGraph.cls_of_describe? hi
    obtain ⟨hwritten₂, hclasses₂, hunloading₂⟩ := classRecord_noted hbuild
    cases hnote
    cases hwrite
    have hwritten : classHandles (Entry.subjects (s₂.entries ++ [⟨some (.cls n), r⟩])) =
        s.writtenClasses ++ [n] := by
      rw [Entry.subjects_append, classHandles_append]
      exact congrArg (· ++ [n]) hwritten₂
    constructor
    · show s₂.classes.map Prod.fst = classHandles _
      rw [hwritten, hclasses₂, ← hs.classes]
      exact List.map_append
    · show s₂.unloading = (classHandles _).filter c.unloads
      rw [hwritten, hunloading₂, List.filter_append, ← hs.unloading, List.filter_cons]
      rfl
  · have hnote : s₁ = s := by
      cases i with
      | cls i => exact absurd rfl hkind
      | classLoader | module | package | method | thread => cases hnote; rfl
    subst hnote
    refine hs.of_view ?_
    rw [(quiet_write ?_ r).ok hwrite, (quiet_buildRecord hkind).ok hbuild]
    rintro _ ⟨⟩
    rwa [MetadataGraph.kind_of_describe? hi]

/-! ## Whole passes -/

theorem emitAll_noted {l : List (Artifact × ArtifactInfo)} (hs : s.ClassesNoted c)
    (hl : ∀ a i, (a, i) ∈ l → c.graph.describe? a = some i)
    (h : emitAll c l s = .ok () s') : s'.ClassesNoted c := by
  induction l generalizing s with
  | nil =>
      obtain ⟨-, rfl⟩ := ok_of_pure h
      exact hs
  | cons p rest ih =>
      obtain ⟨a, i⟩ := p
      obtain ⟨_, s₁, hnote, h⟩ := ok_of_bind h
      obtain ⟨r, s₂, hbuild, h⟩ := ok_of_bind h
      obtain ⟨_, s₃, hwrite, h⟩ := ok_of_bind h
      have hs₃ := emit_noted hs (hl a i List.mem_cons_self) hnote hbuild hwrite
      exact ih hs₃ (fun b j hb => hl b j (List.mem_cons_of_mem _ hb)) h

theorem visit_noted (hs : s.ClassesNoted c) (h : visit c a s = .ok () s') : s'.ClassesNoted c := by
  unfold visit at h
  split at h
  · rename_i ha
    exact hs.of_view ((quiet_taggedSymbol ha).ok h)
  · obtain ⟨order, s₁, hexpand, h⟩ := ok_of_bind h
    exact emitAll_noted (hs.of_view ((quiet_expand a).ok hexpand))
      (fun _ _ hb => describe?_of_expand hexpand hb) h

theorem visitAll_noted {l : List Artifact} (hs : s.ClassesNoted c)
    (h : visitAll c l s = .ok () s') : s'.ClassesNoted c := by
  induction l generalizing s with
  | nil =>
      obtain ⟨-, rfl⟩ := ok_of_pure h
      exact hs
  | cons a rest ih =>
      obtain ⟨_, s₁, hvisit, h⟩ := ok_of_bind h
      exact ih (visit_noted hs hvisit) h

end PassM

/-- Behind a plan that succeeds, the notes agree with the entries. -/
theorem Pass.classesNoted_planAll {c : PassScope} {r : Registries} {y : SymbolTable} {s : Pass}
    (h : planAll c r y = .ok () s) : s.ClassesNoted c :=
  PassM.visitAll_noted (s := start r y c.settings) ⟨rfl, rfl⟩ h

end TraceTypes
