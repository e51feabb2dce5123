import TraceTypes.Proofs.Forgetting
import TraceTypes.Proofs.LawfulSink
import Mathlib.Logic.Function.Basic
/-!
# Renamed ids

Two passes that do the same under other ids leave type sets behind that differ
by a renaming. This module says what a renaming does to records, entries and
planned passes, and that the commit of a pass respects it:

* `shift` — the renaming that moves ids up from some id on;
* `Record.rename` and its like — what is written under other ids;
* `TypeSet.Renamed` — two type sets are the same up to a renaming of the ids of
  each stream;
* `TypeSet.Renamed.commitLeak`, `TypeSet.Renamed.commitMain` — the commit of a
  planned pass and that of the renamed pass lead to such type sets again.
-/

namespace TraceTypes

/-! ## The shift of ids -/

/-- Ids from `first` on are moved up by `gap`. -/
def shift (first gap id : Nat) : Nat := if id < first then id else id + gap

section Shift

variable {first gap id : Nat}

theorem shift_of_lt (h : id < first) : shift first gap id = id := if_pos h

theorem shift_of_le (h : first ≤ id) : shift first gap id = id + gap := if_neg (Nat.not_lt.mpr h)

theorem shift_injective (first gap : Nat) : Function.Injective (shift first gap) := by
  intro id id' h
  unfold shift at h
  split at h <;> split at h <;> omega

end Shift

/-! ## What is written under other ids -/

/-- The record under other ids. -/
def Record.rename (f : TraceId → TraceId) : Record → Record
  | symbol id text => symbol (f id) text
  | classLoader id name typeName => classLoader (f id) (name.map f) (f typeName)
  | module id name version location => module (f id) (f name) (version.map f) (location.map f)
  | package id name owner exported => package (f id) (f name) (owner.map f) exported
  | cls id name loader pkg superclass element modifiers hidden unloading =>
    cls (f id) (f name) (f loader) (pkg.map f) (superclass.map f) (element.map f) modifiers
      hidden unloading
  | method id holder name descriptor modifiers hidden =>
    method (f id) (f holder) (f name) (f descriptor) modifiers hidden
  | thread id name osThreadId managedThreadId => thread (f id) (f name) osThreadId managedThreadId
  | unloadedClass id name loader loaderName => unloadedClass (f id) name (loader.map f) loaderName
  | leakClass id name loaderName => leakClass (f id) name loaderName

/-- The segment under other ids. -/
def renameSegment (f : TraceId → TraceId) (x : Transcript) : Transcript :=
  (x.1, x.2.map (Record.rename f))

theorem segmentOf_rename (f : TraceId → TraceId) (h : Header) (l : List Record) :
    segmentOf h (l.map (Record.rename f)) = (segmentOf h l).map (renameSegment f) := by
  unfold segmentOf
  rw [List.isEmpty_map]
  split <;> rfl

/-- The entry with its record under other ids. -/
def Entry.rename (f : TraceId → TraceId) (e : Entry) : Entry := ⟨e.subject, e.record.rename f⟩

theorem Entry.subjects_rename (f : TraceId → TraceId) (l : List Entry) :
    Entry.subjects (l.map (Entry.rename f)) = Entry.subjects l := by
  rw [Entry.subjects, List.filterMap_map]
  rfl

/-- The registered artifact under another id. -/
def RegistryEntry.rename (f : TraceId → TraceId) (e : RegistryEntry) : RegistryEntry :=
  { e with id := f e.id }

/-- The class on the leak stream under another id. -/
def LeakEntry.rename (f : TraceId → TraceId) (e : LeakEntry) : LeakEntry := { e with id := f e.id }

/-- The write to the leak stream under other ids. -/
def PendingLeak.rename (f : TraceId → TraceId) (p : PendingLeak) : PendingLeak :=
  { p with entries := p.entries.map (LeakEntry.rename f) }

theorem PendingLeak.records_rename (f : TraceId → TraceId) (p : PendingLeak) :
    (p.rename f).records = p.records.map (Record.rename f) := by
  unfold records rename
  rw [List.map_map, List.map_map]
  rfl

namespace Batch

/-- The planned pass under other ids on both streams. -/
def rename (f f' : TraceId → TraceId) (b : Batch) : Batch :=
  { b with
    entries := b.entries.map (Entry.rename f)
    leak := b.leak.map (PendingLeak.rename f') }

variable (f f' : TraceId → TraceId) (b : Batch)

theorem records_rename : (b.rename f f').records = b.records.map (Record.rename f) := by
  unfold records rename
  rw [List.map_map, List.map_map]
  rfl

theorem emitted_rename : (b.rename f f').emitted = b.emitted := Entry.subjects_rename f b.entries

theorem leakRecords_rename :
    (b.rename f f').leakRecords = b.leakRecords.map (Record.rename f') := by
  unfold leakRecords rename
  cases b.leak with
  | none => rfl
  | some p => exact p.records_rename f'

end Batch

/-! ## Owners -/

namespace Registries

variable {r r' : Registries}

/-- The artifacts of an owner are found by the owners alone, whatever ids there are. -/
theorem ownedBy_congr
    (h : ∀ a, (r'.entry? a).map RegistryEntry.owner = (r.entry? a).map RegistryEntry.owner)
    (k : Kind) (n : Handle) : r'.ownedBy k n = r.ownedBy k n := by
  have hmem : ∀ m, m ∈ r'.ownedBy k n ↔ m ∈ r.ownedBy k n := by
    intro m
    have hm := h ⟨k, m⟩
    rw [mem_ownedBy, mem_ownedBy]
    constructor
    · rintro ⟨e, he, howner⟩
      rw [he, Option.map_some] at hm
      obtain ⟨e', he', heq⟩ := Option.map_eq_some_iff.mp hm.symm
      exact ⟨e', he', heq.trans howner⟩
    · rintro ⟨e, he, howner⟩
      rw [he, Option.map_some] at hm
      obtain ⟨e', he', heq⟩ := Option.map_eq_some_iff.mp hm
      exact ⟨e', he', heq.trans howner⟩
  -- both lists are in ascending order and have no handle twice
  have hnodup (r : Registries) : (r.ownedBy k n).Nodup := by
    refine (List.mergeSort_perm _ _).nodup_iff.mpr ?_
    exact ((r.entries.get k).nodup_keys).sublist (List.Sublist.map _ List.filter_sublist)
  have hsorted (r : Registries) : (r.ownedBy k n).Pairwise (· ≤ ·) := by
    have hle : (r.ownedBy k n).Pairwise fun a b => decide (a ≤ b) = true :=
      @List.pairwise_mergeSort Handle (fun a b => decide (a ≤ b))
        (fun a b c hab hbc =>
          decide_eq_true (Nat.le_trans (of_decide_eq_true hab) (of_decide_eq_true hbc)))
        (fun a b => by simpa using Nat.le_total a b) _
    simpa using hle
  exact ((List.perm_ext_iff_of_nodup (hnodup r') (hnodup r)).mpr hmem).eq_of_pairwise
    (fun a b _ _ h h' => Nat.le_antisymm h h') (hsorted r') (hsorted r)

/-- The registries have the same artifacts with the same owners, under other ids. -/
def Renamed (f : TraceId → TraceId) (r r' : Registries) : Prop :=
  ∀ a, r'.entry? a = (r.entry? a).map (RegistryEntry.rename f)

variable {f : TraceId → TraceId}

theorem Renamed.id? (h : Renamed f r r') (a : Artifact) : r'.id? a = (r.id? a).map f := by
  unfold Registries.id?
  rw [h a, Option.map_map, Option.map_map]
  rfl

theorem Renamed.owner (h : Renamed f r r') (a : Artifact) :
    (r'.entry? a).map RegistryEntry.owner = (r.entry? a).map RegistryEntry.owner := by
  rw [h a, Option.map_map]
  rfl

theorem Renamed.forgetAll (h : Renamed f r r') (l : List Artifact) :
    Renamed f (r.forgetAll l) (r'.forgetAll l) := by
  intro a
  rw [entry?_forgetAll, entry?_forgetAll, h a]
  split <;> rfl

/-- Ids are owned by the same artifacts, under other ids. -/
theorem Renamed.ids_owner (h : Renamed f r r') (hf : Function.Injective f) (hwf : r.WF)
    (hwf' : r'.WF) (i : TraceId) : r'.ids.owners.get? (f i) = r.ids.owners.get? i := by
  apply Option.ext
  intro a
  rw [← hwf'.owner_iff, ← hwf.owner_iff, h.id? a]
  cases r.id? a with
  | none => simp
  | some j => simp [hf.eq_iff]

end Registries

/-! ## Type sets -/

namespace TypeSet

/-- The type sets are the same up to the ids of the two streams, apart from what they count. -/
structure Renamed (f f' : TraceId → TraceId) (t t' : TypeSet) : Prop where
  settings : t'.settings = t.settings
  marks : t'.marks = t.marks
  symbols : t'.symbols = t.symbols
  epochs : t'.epochs = t.epochs
  bootstrapWritten : t'.bootstrapWritten = t.bootstrapWritten
  poisoned : t'.poisoned = t.poisoned
  registries : t.registries.Renamed f t'.registries
  leakIds : ∀ n, t'.leakId? n = (t.leakId? n).map f'
  retain : t'.leak.retain = t.leak.retain
  retained : ∀ i, t'.leak.retained.get? (f' i) =
    (t.leak.retained.get? i).map (LeakEntry.rename f')
  retained_only : ∀ i e, t'.leak.retained.get? i = some e → ∃ j, f' j = i

variable {f f' : TraceId → TraceId} {t t' : TypeSet}

/-- The same artifacts are forgotten. -/
theorem forgottenBy_renamed (h : t.registries.Renamed f t'.registries) (l : List Handle) :
    forgottenBy registeredMethods t' l = forgottenBy registeredMethods t l := by
  induction l generalizing t t' with
  | nil => rfl
  | cons n rest ih =>
      have hmethods : registeredMethods t' n = registeredMethods t n :=
        Registries.ownedBy_congr h.owner .method n
      unfold forgottenBy
      rw [hmethods]
      congr 2
      apply ih
      rw [forgetClass_eq, forgetClass_eq]
      exact h.forgetAll _

/-- To count something is not seen. -/
theorem Renamed.counted (h : Renamed f f' t t') (n n' : Totals) (s s' : Option PassSummary) :
    Renamed f f' { t with totals := n, lastSummary := s }
      { t' with totals := n', lastSummary := s' } :=
  ⟨h.settings, h.marks, h.symbols, h.epochs, h.bootstrapWritten, h.poisoned, h.registries,
    h.leakIds, h.retain, h.retained, h.retained_only⟩

theorem Renamed.commitMain (h : Renamed f f' t t') (b : Batch) (flushpoint : Bool) :
    Renamed f f' (t.commitMain b flushpoint) (t'.commitMain (b.rename f f') flushpoint) := by
  have hwritten : (t'.markWritten (b.rename f f') flushpoint).marks =
      (t.markWritten b flushpoint).marks := by
    unfold markWritten
    rw [b.emitted_rename, h.marks]
    rfl
  rw [commitMain_eq, commitMain_eq]
  have hforgotten : forgottenBy registeredMethods t' (b.rename f f').unloading =
      forgottenBy registeredMethods t b.unloading := forgottenBy_renamed h.registries b.unloading
  rw [hforgotten, hwritten, h.bootstrapWritten]
  refine ⟨h.settings, rfl, h.symbols, h.epochs, rfl, h.poisoned, h.registries.forgetAll _, ?_,
    h.retain, h.retained, h.retained_only⟩
  intro n
  show (t'.leak.ids.forgetAll _).id? _ = ((t.leak.ids.forgetAll _).id? _).map f'
  rw [Registries.id?_forgetAll, Registries.id?_forgetAll]
  have hn : t'.leak.ids.id? (.cls n) = (t.leak.ids.id? (.cls n)).map f' := h.leakIds n
  rw [hn]
  show (if _ ∈ List.map Artifact.cls b.unloading then _ else _) = _
  split <;> rfl

/-- What was written is retained under the other ids. -/
theorem get?_foldl_insert_rename (hf : Function.Injective f') {u u' : LeakTable}
    (l : List LeakEntry)
    (h : ∀ i, u'.get? (f' i) = (u.get? i).map (LeakEntry.rename f'))
    (honly : ∀ i e, u'.get? i = some e → ∃ j, f' j = i) :
    (∀ i, ((l.map (LeakEntry.rename f')).foldl (fun u e => u.insert e.id e) u').get? (f' i) =
      ((l.foldl (fun u e => u.insert e.id e) u).get? i).map (LeakEntry.rename f')) ∧
    ∀ i e, ((l.map (LeakEntry.rename f')).foldl (fun u e => u.insert e.id e) u').get? i = some e →
      ∃ j, f' j = i := by
  induction l generalizing u u' with
  | nil => exact ⟨h, honly⟩
  | cons x rest ih =>
      apply ih
      · intro i
        show (u'.insert (f' x.id) (x.rename f')).get? (f' i) = _
        rw [SlotTable.get?_insert, SlotTable.get?_insert]
        simp only [hf.eq_iff]
        split
        · rfl
        · exact h i
      · intro i e hi
        rw [SlotTable.get?_insert] at hi
        split at hi
        · rename_i hx
          exact ⟨x.id, hx.symm⟩
        · exact honly i e hi

theorem Renamed.commitLeak (h : Renamed f f' t t') (hf : Function.Injective f') (b : Batch)
    (p : PendingLeak) :
    Renamed f f' (t.commitLeak b p) (t'.commitLeak (b.rename f f') (p.rename f')) := by
  unfold TypeSet.commitLeak
  rw [LeakStream.commit_eq, LeakStream.commit_eq, h.marks, h.retain]
  refine ⟨h.settings, rfl, h.symbols, h.epochs, h.bootstrapWritten, h.poisoned, h.registries,
    h.leakIds, rfl, ?_, ?_⟩
  · dsimp only
    split
    · exact (get?_foldl_insert_rename hf p.entries h.retained h.retained_only).1
    · exact h.retained
  · dsimp only
    split
    · exact (get?_foldl_insert_rename hf p.entries h.retained h.retained_only).2
    · exact h.retained_only

end TypeSet

end TraceTypes
