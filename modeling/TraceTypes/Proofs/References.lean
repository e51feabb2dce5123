import TraceTypes.Checkpoint.Record
import TraceTypes.Dependency.Edges
/-!
# What the ids in a record stand for

A record holds ids where the fields of its artifact hold texts and handles.
This module says what a right record is, for a relation `D id x` that tells
which id stands for what:

* `ArtifactInfo.mentions` — the texts, artifacts and the bootstrap loader that
  the fields name;
* `Record.Shows` — field by field, the record has an id exactly where the
  fields name something, and the id stands for it;
* `Entry.Defines` — the entries that make an id stand for something.
-/

namespace TraceTypes

/-- What the id in a field of a record can stand for. -/
inductive Target where
  | text (s : String)
  | artifact (a : Artifact)
  | bootstrap
  deriving DecidableEq

namespace Target

/-- The loader of a class: none is the bootstrap loader. -/
def loader : Option Handle → Target
  | none => bootstrap
  | some l => artifact (.classLoader l)

end Target

/-- All that the fields of an artifact name. -/
def ArtifactInfo.mentions : ArtifactInfo → List Target
  | .classLoader i => (i.name.map Target.text).toList ++ [.text i.typeName]
  | .module i =>
      .text i.name :: ((i.version.map Target.text).toList ++ (i.location.map Target.text).toList)
  | .package i => .text i.name :: (i.module.map fun m => Target.artifact (.module m)).toList
  | .cls i =>
      .text i.name :: .loader i.loader ::
        ((i.package.map fun p => Target.artifact (.package p)).toList ++
          (i.superclass.map fun s => Target.artifact (.cls s)).toList ++
          (i.element.map fun e => Target.artifact (.cls e)).toList)
  | .method i => [.artifact (.cls i.holder), .text i.name, .text i.descriptor]
  | .thread i => [.text i.name]

/-- The record has the fields of the artifact, with an id that stands for it in place of each text,
artifact and bootstrap loader. -/
def Record.Shows (D : TraceId → Target → Prop) : Record → ArtifactInfo → Prop
  | .classLoader _ name typeName, .classLoader i =>
      Option.Rel D name (i.name.map Target.text) ∧ D typeName (.text i.typeName)
  | .module _ name version location, .module i =>
      D name (.text i.name) ∧ Option.Rel D version (i.version.map Target.text) ∧
        Option.Rel D location (i.location.map Target.text)
  | .package _ name owner exported, .package i =>
      D name (.text i.name) ∧
        Option.Rel D owner (i.module.map fun m => Target.artifact (.module m)) ∧
        exported = i.exported
  | .cls _ name loader pkg superclass element modifiers hidden _, .cls i =>
      D name (.text i.name) ∧ D loader (.loader i.loader) ∧
        Option.Rel D pkg (i.package.map fun p => Target.artifact (.package p)) ∧
        Option.Rel D superclass (i.superclass.map fun s => Target.artifact (.cls s)) ∧
        Option.Rel D element (i.element.map fun e => Target.artifact (.cls e)) ∧
        modifiers = i.modifiers ∧ hidden = i.hidden
  | .method _ holder name descriptor modifiers hidden, .method i =>
      D holder (.artifact (.cls i.holder)) ∧ D name (.text i.name) ∧
        D descriptor (.text i.descriptor) ∧ modifiers = i.modifiers ∧ hidden = i.hidden
  | .thread _ name osThreadId managedThreadId, .thread i =>
      D name (.text i.name) ∧ osThreadId = i.osThreadId ∧ managedThreadId = i.managedThreadId
  | _, _ => False

section Shows

variable {D D' : TraceId → Target → Prop} {r : Record} {i : ArtifactInfo}

/-- An optional field keeps its meaning when its ids do. -/
theorem optionRel_imp {o : Option TraceId} {x : Option Target} (h : Option.Rel D o x)
    (himp : ∀ y ∈ x, ∀ id, D id y → D' id y) : Option.Rel D' o x := by
  cases h with
  | none => exact .none
  | some hd => exact .some (himp _ rfl _ hd)

/-- An id in an optional field stands for what is there. -/
theorem optionRel_mem {o : Option TraceId} {x : Option Target} (h : Option.Rel D o x)
    {id : TraceId} (hid : id ∈ o.toList) : ∃ y ∈ x.toList, D id y := by
  cases h with
  | none => cases hid
  | some hd =>
      rw [Option.toList_some, List.mem_singleton] at hid
      exact ⟨_, by simp, hid ▸ hd⟩

/-- What is in an optional field has an id. -/
theorem optionRel_id {o : Option TraceId} {x : Option Target} (h : Option.Rel D o x)
    {y : Target} (hy : y ∈ x.toList) : ∃ id, D id y := by
  cases h with
  | none => cases hy
  | some hd =>
      rw [Option.toList_some, List.mem_singleton] at hy
      exact ⟨_, hy ▸ hd⟩

/-- A record shows its fields in every sense that its ids have for what the fields name. -/
theorem Record.Shows.imp (h : r.Shows D i)
    (himp : ∀ x ∈ i.mentions, ∀ id, D id x → D' id x) : r.Shows D' i := by
  -- a record shows only fields of its own type, so each type is paired with itself
  cases r <;> cases i <;> simp only [Record.Shows] at h ⊢ <;>
    simp only [ArtifactInfo.mentions, List.mem_append, List.mem_cons, Option.mem_toList,
      List.not_mem_nil, or_false] at himp
  case classLoader.classLoader =>
    obtain ⟨h1, h2⟩ := h
    exact ⟨optionRel_imp h1 fun y hy => himp y (.inl hy), himp _ (.inr rfl) _ h2⟩
  case module.module =>
    obtain ⟨h1, h2, h3⟩ := h
    exact ⟨himp _ (.inl rfl) _ h1, optionRel_imp h2 fun y hy => himp y (.inr (.inl hy)),
      optionRel_imp h3 fun y hy => himp y (.inr (.inr hy))⟩
  case package.package =>
    obtain ⟨h1, h2, h3⟩ := h
    exact ⟨himp _ (.inl rfl) _ h1, optionRel_imp h2 fun y hy => himp y (.inr hy), h3⟩
  case cls.cls =>
    obtain ⟨h1, h2, h3, h4, h5, h6⟩ := h
    exact ⟨himp _ (.inl rfl) _ h1, himp _ (.inr (.inl rfl)) _ h2,
      optionRel_imp h3 fun y hy => himp y (.inr (.inr (.inl (.inl hy)))),
      optionRel_imp h4 fun y hy => himp y (.inr (.inr (.inl (.inr hy)))),
      optionRel_imp h5 fun y hy => himp y (.inr (.inr (.inr hy))), h6⟩
  case method.method =>
    obtain ⟨h1, h2, h3, h4⟩ := h
    exact ⟨himp _ (.inl rfl) _ h1, himp _ (.inr (.inl rfl)) _ h2, himp _ (.inr (.inr rfl)) _ h3,
      h4⟩
  case thread.thread => exact ⟨himp _ rfl _ h.1, h.2⟩

/-- Every id that a record refers to stands for something that the fields name. -/
theorem Record.Shows.of_mem_references (h : r.Shows D i) {id : TraceId} (hid : id ∈ r.references) :
    ∃ x ∈ i.mentions, D id x := by
  -- field by field: the id comes with what the same field of the artifact names
  cases r <;> cases i <;> simp only [Record.Shows] at h <;>
    simp only [Record.references, List.mem_append, List.mem_cons, List.not_mem_nil,
      or_false] at hid <;>
    simp only [ArtifactInfo.mentions, List.mem_append, List.mem_cons, List.not_mem_nil, or_false]
  case classLoader.classLoader =>
    obtain ⟨h1, h2⟩ := h
    rcases hid with hid | rfl
    · obtain ⟨y, hy, hd⟩ := optionRel_mem h1 hid
      exact ⟨y, .inl hy, hd⟩
    · exact ⟨_, .inr rfl, h2⟩
  case module.module =>
    obtain ⟨h1, h2, h3⟩ := h
    rcases hid with rfl | hid | hid
    · exact ⟨_, .inl rfl, h1⟩
    · obtain ⟨y, hy, hd⟩ := optionRel_mem h2 hid
      exact ⟨y, .inr (.inl hy), hd⟩
    · obtain ⟨y, hy, hd⟩ := optionRel_mem h3 hid
      exact ⟨y, .inr (.inr hy), hd⟩
  case package.package =>
    obtain ⟨h1, h2, -⟩ := h
    rcases hid with rfl | hid
    · exact ⟨_, .inl rfl, h1⟩
    · obtain ⟨y, hy, hd⟩ := optionRel_mem h2 hid
      exact ⟨y, .inr hy, hd⟩
  case cls.cls =>
    obtain ⟨h1, h2, h3, h4, h5, -⟩ := h
    rcases hid with rfl | rfl | (hid | hid) | hid
    · exact ⟨_, .inl rfl, h1⟩
    · exact ⟨_, .inr (.inl rfl), h2⟩
    · obtain ⟨y, hy, hd⟩ := optionRel_mem h3 hid
      exact ⟨y, .inr (.inr (.inl (.inl hy))), hd⟩
    · obtain ⟨y, hy, hd⟩ := optionRel_mem h4 hid
      exact ⟨y, .inr (.inr (.inl (.inr hy))), hd⟩
    · obtain ⟨y, hy, hd⟩ := optionRel_mem h5 hid
      exact ⟨y, .inr (.inr (.inr hy)), hd⟩
  case method.method =>
    obtain ⟨h1, h2, h3, -⟩ := h
    rcases hid with rfl | rfl | rfl
    · exact ⟨_, .inl rfl, h1⟩
    · exact ⟨_, .inr (.inl rfl), h2⟩
    · exact ⟨_, .inr (.inr rfl), h3⟩
  case thread.thread =>
    rw [hid]
    exact ⟨_, rfl, h.1⟩

/-- Everything that the fields name has an id in a record that shows them. -/
theorem Record.Shows.of_mem_mentions (h : r.Shows D i) {x : Target} (hx : x ∈ i.mentions) :
    ∃ id, D id x := by
  cases r <;> cases i <;> simp only [Record.Shows] at h <;>
    simp only [ArtifactInfo.mentions, List.mem_append, List.mem_cons, List.not_mem_nil,
      or_false] at hx
  case classLoader.classLoader =>
    obtain ⟨h1, h2⟩ := h
    rcases hx with hx | rfl
    · exact optionRel_id h1 hx
    · exact ⟨_, h2⟩
  case module.module =>
    obtain ⟨h1, h2, h3⟩ := h
    rcases hx with rfl | hx | hx
    · exact ⟨_, h1⟩
    · exact optionRel_id h2 hx
    · exact optionRel_id h3 hx
  case package.package =>
    obtain ⟨h1, h2, -⟩ := h
    rcases hx with rfl | hx
    · exact ⟨_, h1⟩
    · exact optionRel_id h2 hx
  case cls.cls =>
    obtain ⟨h1, h2, h3, h4, h5, -⟩ := h
    rcases hx with rfl | rfl | (hx | hx) | hx
    · exact ⟨_, h1⟩
    · exact ⟨_, h2⟩
    · exact optionRel_id h3 hx
    · exact optionRel_id h4 hx
    · exact optionRel_id h5 hx
  case method.method =>
    obtain ⟨h1, h2, h3, -⟩ := h
    rcases hx with rfl | rfl | rfl
    · exact ⟨_, h1⟩
    · exact ⟨_, h2⟩
    · exact ⟨_, h3⟩
  case thread.thread =>
    rw [hx]
    exact ⟨_, h.1⟩

/-- A record that shows fields has the kind of their artifact. -/
theorem Record.Shows.tag_eq (h : r.Shows D i) : r.tag = i.kind.index + 1 := by
  cases r <;> cases i <;> simp only [Record.Shows] at h <;> rfl

end Shows

/-- The entry makes `id` stand for the target. -/
def Entry.Defines (e : Entry) (id : TraceId) : Target → Prop
  | .text s => (∃ h, e.subject = some (.symbol h)) ∧ e.record = .symbol id s
  | .artifact a => e.subject = some a ∧ e.record.id = id ∧ e.record.tag = a.kind.index + 1
  | .bootstrap =>
      e.subject = none ∧ id = bootstrapId ∧
        ∃ name, e.record = .classLoader bootstrapId (some name) name

theorem Entry.Defines.id_eq {e : Entry} {id : TraceId} {x : Target} (h : e.Defines id x) :
    e.record.id = id := by
  cases x with
  | text s => rw [h.2]; rfl
  | artifact a => exact h.2.1
  | bootstrap =>
      obtain ⟨-, rfl, name, hrec⟩ := h
      rw [hrec]
      rfl

namespace Dependency

/-- Where the fields name an artifact, it is among the targets of their dependencies. -/
theorem mem_targets_of_mentions {g : MetadataGraph} {i : ArtifactInfo} {l : List Artifact}
    (h : targets g i = .ok l) {d : Artifact} (hd : .artifact d ∈ i.mentions) : d ∈ l := by
  cases i with
  | cls c =>
      simp only [targets] at h
      split at h
      · cases h
      · rename_i first hfirst
        cases h
        -- `first` is the package behind its module
        have hpackage : ∀ p, c.package = some p → Artifact.package p ∈ first := by
          intro p hp
          rw [hp] at hfirst
          simp only [Option.elim_some, ofPackage] at hfirst
          split at hfirst
          · cases hfirst
          · cases hfirst
            simp
        have hloader : Target.artifact d = .loader c.loader →
            d ∈ (c.loader.map Artifact.classLoader).toList := by
          cases c.loader with
          | none => intro e; cases e
          | some l => intro e; cases e; simp
        simp only [ArtifactInfo.mentions, List.mem_cons, List.mem_append, Option.mem_toList,
          Option.map_eq_some_iff, reduceCtorEq, false_or] at hd
        simp only [List.mem_append]
        rcases hd with hd | (⟨p, hp, hd⟩ | ⟨s, hs, hd⟩) | ⟨x, hx, hd⟩
        · exact .inl (.inl (.inr (hloader hd)))
        · cases hd
          exact .inl (.inl (.inl (hpackage p hp)))
        · cases hd
          exact .inr (by simp [hs])
        · cases hd
          exact .inl (.inr (by simp [hx]))
  | method m =>
      cases h
      simpa [ArtifactInfo.mentions] using hd
  | package p =>
      cases h
      cases hm : p.module <;> simp_all [ArtifactInfo.mentions]
  | module i =>
      cases hv : i.version <;> cases hl : i.location <;> simp_all [ArtifactInfo.mentions]
  | classLoader i => cases hn : i.name <;> simp_all [ArtifactInfo.mentions]
  | thread i => simp [ArtifactInfo.mentions] at hd

/-- Nothing depends on a symbol directly. -/
theorem kind_ne_symbol_of_mem_targets {g : MetadataGraph} {i : ArtifactInfo} {l : List Artifact}
    (h : targets g i = .ok l) {d : Artifact} (hd : d ∈ l) : d.kind ≠ .symbol := by
  have hoption : ∀ (f : Handle → Artifact) (o : Option Handle), (∀ x, (f x).kind ≠ .symbol) →
      d ∈ (o.map f).toList → d.kind ≠ .symbol := by
    intro f o hf hmem
    cases o with
    | none => cases hmem
    | some x =>
        rw [Option.map_some, Option.toList_some, List.mem_singleton] at hmem
        exact hmem ▸ hf x
  cases i with
  | cls c =>
      simp only [targets] at h
      split at h
      · cases h
      · rename_i first hfirst
        cases h
        -- `first` has the package and its module
        have hpackage : d ∈ first → d.kind ≠ .symbol := by
          intro hmem
          cases hp : c.package with
          | none =>
              rw [hp] at hfirst
              cases hfirst
              cases hmem
          | some p =>
              rw [hp] at hfirst
              simp only [Option.elim_some, ofPackage] at hfirst
              split at hfirst
              · cases hfirst
              · cases hfirst
                rcases List.mem_append.mp hmem with hmem | hmem
                · exact hoption _ _ (by simp) hmem
                · rw [List.mem_singleton.mp hmem]
                  simp
        simp only [List.mem_append] at hd
        rcases hd with ((hd | hd) | hd) | hd
        · exact hpackage hd
        · exact hoption _ _ (by simp) hd
        · exact hoption _ _ (by simp) hd
        · exact hoption _ _ (by simp) hd
  | method m =>
      cases h
      rw [List.mem_singleton.mp hd]
      simp
  | package p =>
      cases h
      exact hoption _ _ (by simp) hd
  | module | classLoader | thread =>
      cases h
      cases hd

/-- The direct dependencies are the targets but the artifact itself. -/
theorem direct_eq_ok {g : MetadataGraph} {a : Artifact} {i : ArtifactInfo} {l : List Artifact}
    (h : direct g a i = .ok l) :
    ∃ t, targets g i = .ok t ∧ ∀ d, d ∈ l ↔ d ∈ t ∧ d ≠ a := by
  unfold direct at h
  cases ht : targets g i with
  | error v => rw [ht] at h; cases h
  | ok t =>
      rw [ht] at h
      cases h
      exact ⟨t, rfl, fun d => by simp⟩

end Dependency

end TraceTypes
