import TraceTypes.Pass
import TraceTypes.Proofs.Expansion
import TraceTypes.Proofs.Growth
import TraceTypes.Proofs.References
/-!
# What a pass has to write

The content of a pass is fixed by the tags, the marks and the graph at the
call, without a word on the order of the tags:

* `PassScope.Needed` — the artifacts other than symbols, a least set;
* `PassScope.NeedsBootstrap`, `PassScope.NeedsText` — what their records refer
  to beside artifacts;
* `Pass.EntryOk` — an entry shows the fields of its artifact, and each id in it
  stands for the right thing by an entry before it, or since before the pass
  (`Pass.Prior`);
* `Pass.Inv` — the invariant of planning, which has the artifacts that are
  placed but not yet written as a parameter.
-/

namespace TraceTypes

open Dependency

namespace Entry

variable {l l' : List Entry} {e : Entry} {a : Artifact}

/-- Every entry is right behind the entries before it. -/
def Grounded (P : List Entry → Entry → Prop) (l : List Entry) : Prop :=
  ∀ before e after, l = before ++ e :: after → P before e

theorem grounded_nil (P : List Entry → Entry → Prop) : Grounded P [] := by
  intro before e after h
  cases before <;> cases h

theorem Grounded.snoc {P : List Entry → Entry → Prop} (h : Grounded P l) (he : P l e) :
    Grounded P (l ++ [e]) := by
  intro before x after hl
  rcases List.eq_nil_or_concat after with rfl | ⟨after, y, rfl⟩
  · obtain ⟨rfl, hx⟩ := List.append_inj' hl rfl
    cases hx
    exact he
  · rw [List.concat_eq_append, ← List.cons_append, ← List.append_assoc] at hl
    exact h before x after (List.append_inj' hl rfl).1

theorem Grounded.imp {P Q : List Entry → Entry → Prop} (h : Grounded P l)
    (himp : ∀ before e, before <+: l → e ∈ l → P before e → Q before e) : Grounded Q l := by
  intro before e after hl
  refine himp before e ?_ ?_ (h before e after hl)
  · rw [hl]
    exact List.prefix_append ..
  · rw [hl]
    exact List.mem_append_right _ List.mem_cons_self

/-- In a grounded list every entry has a place. -/
theorem Grounded.mem {P : List Entry → Entry → Prop} (h : Grounded P l) (he : e ∈ l) :
    ∃ before, before <+: l ∧ P before e := by
  obtain ⟨before, after, hl⟩ := List.append_of_mem he
  refine ⟨before, ?_, h before e after hl⟩
  rw [hl]
  exact List.prefix_append ..

end Entry

/-- Whether the record says that its class is about to be reclaimed. -/
def Record.saysUnloading : Record → Bool
  | cls _ _ _ _ _ _ _ _ unloading => unloading
  | _ => false

/-- No artifact depends on a symbol. -/
theorem Dependency.DependsOn.kind_ne {g : MetadataGraph} {a d : Artifact} (h : DependsOn g a d) :
    d.kind ≠ .symbol := by
  obtain ⟨i, l, -, hl, hmem⟩ := h
  obtain ⟨t, ht, hiff⟩ := direct_eq_ok hl
  exact kind_ne_symbol_of_mem_targets ht ((hiff d).mp hmem).1

/-- A symbol has no fields in the graph. -/
theorem MetadataGraph.kind_ne_of_describe? {g : MetadataGraph} {a : Artifact} {i : ArtifactInfo}
    (h : g.describe? a = some i) : a.kind ≠ .symbol := by
  obtain ⟨k, n⟩ := a
  rintro rfl
  cases h

namespace PassScope

variable (c : PassScope)

/-- The artifacts that get a record, beside symbols: the tagged ones, and with each of them its
direct dependencies unless an earlier record of them can still be referred to. -/
def Needed : Artifact → Prop :=
  Closure c.graph (fun a => c.marks.isTagged a = true ∧ a.kind ≠ .symbol)
    (fun d => c.stillValid d = true)

/-- The bootstrap loader gets a record: that is switched on, there is none in this epoch, and a
class that gets a record has no loader. -/
def NeedsBootstrap : Prop :=
  c.settings.emitBootstrapLoader = true ∧ c.bootstrapWritten = false ∧
    ∃ h i, c.Needed (.cls h) ∧ c.graph.cls h = some i ∧ i.loader = none

/-- A record uses the text. -/
def NeedsText (s : String) : Prop :=
  (∃ a i, c.Needed a ∧ c.graph.describe? a = some i ∧ .text s ∈ i.mentions) ∨
    (c.NeedsBootstrap ∧ s = c.settings.bootstrapLoaderName)

variable {c}

theorem Needed.kind_ne {a : Artifact} (h : c.Needed a) : a.kind ≠ .symbol := by
  cases h with
  | root h => exact h.2
  | dependency _ hd _ => exact hd.kind_ne

end PassScope

namespace Pass

variable (c : PassScope) (r : Registries) (y : SymbolTable)

/-- What the marks promise about registries and symbols when a pass begins. -/
structure Ready : Prop where
  wf : r.WF
  registered : ∀ a, c.marks.isSerialized a = true → ∃ id, r.id? a = some id
  interned : ∀ h, c.marks.isSerialized (.symbol h) = true → ∃ s, y.text? h = some s

/-- What the id stands for since before the pass. -/
def Prior (id : TraceId) : Target → Prop
  | .text s => ∃ h, c.marks.isSerialized (.symbol h) = true ∧ y.text? h = some s ∧
      r.id? (.symbol h) = some id
  | .artifact a => c.stillValid a = true ∧ r.id? a = some id
  | .bootstrap => id = bootstrapId ∧
      (c.settings.emitBootstrapLoader = true → c.bootstrapWritten = true)

/-- What the id stands for behind these entries. -/
def Stands (before : List Entry) (id : TraceId) (x : Target) : Prop :=
  (∃ e ∈ before, e.Defines id x) ∨ Prior c r y id x

/-- What the id stands for in the record of an artifact: also the artifact itself. -/
def Means (a : Artifact) (before : List Entry) (id : TraceId) (x : Target) : Prop :=
  Stands c r y before id x ∨ x = .artifact a

/-- The record of an artifact that is not a symbol is right behind these entries. -/
structure RecordOk (before : List Entry) (a : Artifact) (i : ArtifactInfo) (record : Record) :
    Prop where
  shows : record.Shows (Means c r y a before) i
  placed : ∃ l, direct c.graph a i = .ok l ∧
    ∀ d ∈ l, c.stillValid d = true ∨ d ∈ Entry.subjects before
  unloading : record.saysUnloading =
    (c.classUnload && decide (a.kind = .cls) && c.graph.isUnloading a.handle)

/-- The entry is right behind these entries. -/
def EntryOk (before : List Entry) (e : Entry) : Prop :=
  match e.subject with
  | none => ∃ name, e.record = .classLoader bootstrapId (some name) name ∧
      Stands c r y before name (.text c.settings.bootstrapLoaderName)
  | some a => a.kind ≠ .symbol →
      ∃ i, c.graph.describe? a = some i ∧ RecordOk c r y before a i e.record

/-- The invariant of planning. The artifacts in `pending` are placed and not yet written. -/
structure Inv (pending : List Artifact) (s : Pass) : Prop where
  grown : s.Grown r y
  ids : ∀ e ∈ s.entries, ∀ a, e.subject = some a →
    s.registries.id? a = some e.record.id ∧ e.record.tag = a.kind.index + 1
  fresh : ∀ a ∈ s.fresh, a ∈ Entry.subjects s.entries ∨ a ∈ pending
  done : ∀ a, a ∈ s.plan.done ↔ a ∈ Entry.subjects s.entries ∨ a ∈ pending
  nodup : (Entry.subjects s.entries ++ pending).Nodup
  pending : ∀ a ∈ pending, c.Needed a
  needed : ∀ a ∈ Entry.subjects s.entries, a.kind ≠ .symbol → c.Needed a
  symbols : ∀ e ∈ s.entries, ∀ h, e.subject = some (.symbol h) → ∃ id text,
    e.record = .symbol id text ∧ s.symbols.text? h = some text ∧
      (c.marks.isTagged (.symbol h) = true ∨
        c.marks.isSerialized (.symbol h) = false ∧ c.NeedsText text)
  bootstrap : (s.entries.filter fun e => e.subject.isNone).length =
    if s.bootstrapEmitted then 1 else 0
  bootstrap_needed : s.bootstrapEmitted = true → c.NeedsBootstrap
  unloading : ∀ h ∈ s.unloading,
    c.classUnload = true ∧ c.graph.isUnloading h = true ∧ c.Needed (.cls h)
  unloaded : ∀ h, .cls h ∈ Entry.subjects s.entries → c.classUnload = true →
    c.graph.isUnloading h = true → h ∈ s.unloading
  grounded : Entry.Grounded (EntryOk c r y) s.entries

theorem inv_start : (start r y c.settings).Inv c r y [] where
  grown := grown_start r y c.settings
  ids _ he := absurd he List.not_mem_nil
  fresh _ ha := absurd ha List.not_mem_nil
  done _ := by simp [start, Entry.subjects]
  nodup := List.nodup_nil
  pending _ ha := absurd ha List.not_mem_nil
  needed _ ha := absurd ha List.not_mem_nil
  symbols _ he := absurd he List.not_mem_nil
  bootstrap := rfl
  bootstrap_needed h := by cases h
  unloading _ h := absurd h List.not_mem_nil
  unloaded _ h := absurd h List.not_mem_nil
  grounded := Entry.grounded_nil _

/-- The pass has noted the bootstrap loader's entry iff there is one. -/
theorem Inv.bootstrapEmitted_iff {c : PassScope} {r : Registries} {y : SymbolTable}
    {pending : List Artifact} {s : Pass} (hs : s.Inv c r y pending) :
    s.bootstrapEmitted = true ↔ ∃ e ∈ s.entries, e.subject = none := by
  have hcount := hs.bootstrap
  constructor
  · intro hb
    rw [if_pos hb] at hcount
    obtain ⟨e, he⟩ := List.exists_mem_of_length_pos (hcount ▸ Nat.one_pos)
    obtain ⟨hmem, hsub⟩ := List.mem_filter.mp he
    exact ⟨e, hmem, Option.isNone_iff_eq_none.mp hsub⟩
  · rintro ⟨e, he, hsub⟩
    have hmem : e ∈ s.entries.filter fun e => e.subject.isNone :=
      List.mem_filter.mpr ⟨he, by rw [hsub]; rfl⟩
    have hpos := List.length_pos_of_mem hmem
    rw [hcount] at hpos
    by_cases hb : s.bootstrapEmitted = true
    · exact hb
    · rw [if_neg hb] at hpos
      cases hpos

end Pass

end TraceTypes
