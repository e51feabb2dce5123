import TraceTypes.Artifact.PerKind
import TraceTypes.SlotTable
/-!
# Marks

Beside the runtime's artifacts, never in them, the library keeps three marks
for each artifact it has seen: referenced by an event since the last
checkpoint, referenced by the leak profiler since its last write, and emitted
in an earlier checkpoint of the current epoch.

Each kind has its own slot table. An artifact gets a slot when a mark is first
set on it and keeps the slot when marks are cleared, so enumeration follows
first sight. To forget an artifact frees its slot, which the last slot fills.
-/

namespace TraceTypes

/-- The marks that an artifact can carry. -/
inductive Mark where
  /-- Referenced since the last checkpoint: the artifact is tagged. -/
  | referenced
  /-- Referenced by the leak profiler since its last write. -/
  | leak
  /-- Emitted in an earlier checkpoint of this epoch. -/
  | serialized
  deriving DecidableEq

/-- Which marks an artifact carries. -/
structure Marks where
  referenced : Bool := false
  leak : Bool := false
  serialized : Bool := false
  deriving DecidableEq

namespace Marks

/-- Whether a mark is set. -/
def has (s : Marks) : Mark → Bool
  | .referenced => s.referenced
  | .leak => s.leak
  | .serialized => s.serialized

/-- Set or clear a mark. -/
def put (s : Marks) (m : Mark) (v : Bool) : Marks :=
  match m with
  | .referenced => { s with referenced := v }
  | .leak => { s with leak := v }
  | .serialized => { s with serialized := v }

theorem has_put (s : Marks) (m m' : Mark) (v : Bool) :
    (s.put m v).has m' = if m' = m then v else s.has m' := by
  cases m <;> cases m' <;> rfl

theorem put_put (s : Marks) (m : Mark) (v v' : Bool) : (s.put m v).put m v' = s.put m v' := by
  cases m <;> rfl

theorem put_comm (s : Marks) {m m' : Mark} (h : m' ≠ m) (v v' : Bool) :
    (s.put m v).put m' v' = (s.put m' v').put m v := by
  cases m <;> cases m' <;> first | rfl | exact absurd rfl h

@[simp] theorem has_default (m : Mark) : ({} : Marks).has m = false := by
  cases m <;> rfl

end Marks

/-- The marks of all artifacts seen so far. -/
structure MarkTable where
  slots : PerKind (SlotTable Handle Marks) := .replicate .empty
  deriving DecidableEq

namespace MarkTable

/-- The slot of an artifact. -/
def slot? (t : MarkTable) (a : Artifact) : Option Marks := (t.slots.get a.kind).get? a.handle

/-- Whether the artifact has a slot. -/
def knows (t : MarkTable) (a : Artifact) : Bool := (t.slot? a).isSome

/-- The marks of an artifact; one without a slot has none. -/
def marks (t : MarkTable) (a : Artifact) : Marks := (t.slot? a).getD {}

/-- Whether an artifact carries a mark. -/
def has (t : MarkTable) (m : Mark) (a : Artifact) : Bool := (t.marks a).has m

/-- Whether an artifact is tagged as referenced. -/
abbrev isTagged (t : MarkTable) (a : Artifact) : Bool := t.has .referenced a

/-- Whether an artifact was emitted in an earlier checkpoint of this epoch. -/
abbrev isSerialized (t : MarkTable) (a : Artifact) : Bool := t.has .serialized a

/-- Set a mark; tells whether it was clear before. -/
def raise (t : MarkTable) (m : Mark) (a : Artifact) : Bool × MarkTable :=
  let table := t.slots.get a.kind
  (!t.has m a, ⟨t.slots.set a.kind (table.insert a.handle ((t.marks a).put m true))⟩)

/-- Clear a mark of one artifact. -/
def lower (t : MarkTable) (m : Mark) (a : Artifact) : MarkTable :=
  ⟨t.slots.set a.kind ((t.slots.get a.kind).modify a.handle fun s => s.put m false)⟩

/-- Clear a mark everywhere. -/
def lowerAll (t : MarkTable) (m : Mark) : MarkTable :=
  ⟨t.slots.map fun table => table.mapValues fun _ s => s.put m false⟩

/-- Free the slot of an artifact; the last slot of its kind moves into the place. -/
def forget (t : MarkTable) (a : Artifact) : MarkTable :=
  ⟨t.slots.set a.kind ((t.slots.get a.kind).swapErase a.handle)⟩

/-- The handles of a kind that carry a mark, in slot order. -/
def carrying (t : MarkTable) (m : Mark) (k : Kind) : List Handle :=
  ((t.slots.get k).slots.filter fun e => e.2.has m).map Prod.fst

/-- The tagged artifacts of a kind, in slot order. -/
def tagged (t : MarkTable) (k : Kind) : List Artifact :=
  (t.carrying .referenced k).map fun h => ⟨k, h⟩

/-- All tagged artifacts in emission order: kind by kind, and in slot order within a kind. -/
def allTagged (t : MarkTable) : List Artifact := Kind.all.flatMap t.tagged

/-- The number of tagged artifacts. -/
def taggedCount (t : MarkTable) : Nat := t.allTagged.length

/-! ## What each operation does to the slots -/

theorem slot?_raise (t : MarkTable) (m : Mark) (a b : Artifact) :
    (t.raise m a).2.slot? b = if b = a then some ((t.marks a).put m true) else t.slot? b := by
  obtain ⟨k, h⟩ := a
  obtain ⟨k', h'⟩ := b
  simp only [raise, slot?, PerKind.get_set]
  by_cases hk : k' = k
  · subst hk
    simp [SlotTable.get?_insert]
  · simp [hk]

theorem slot?_lower (t : MarkTable) (m : Mark) (a b : Artifact) :
    (t.lower m a).slot? b =
      if b = a then (t.slot? a).map fun s => s.put m false else t.slot? b := by
  obtain ⟨k, h⟩ := a
  obtain ⟨k', h'⟩ := b
  simp only [lower, slot?, PerKind.get_set]
  by_cases hk : k' = k
  · subst hk
    simp only [↓reduceIte, SlotTable.get?_modify, Artifact.mk.injEq, true_and]
    by_cases hh : h' = h
    · simp [hh]
    · simp [hh]
  · simp [hk]

theorem slot?_lowerAll (t : MarkTable) (m : Mark) (a : Artifact) :
    (t.lowerAll m).slot? a = (t.slot? a).map fun s => s.put m false := by
  simp only [lowerAll, slot?, PerKind.get_map, SlotTable.get?_mapValues]

theorem slot?_forget (t : MarkTable) (a b : Artifact) :
    (t.forget a).slot? b = if b = a then none else t.slot? b := by
  obtain ⟨k, h⟩ := a
  obtain ⟨k', h'⟩ := b
  simp only [forget, slot?, PerKind.get_set]
  by_cases hk : k' = k
  · subst hk
    simp [SlotTable.get?_swapErase]
  · simp [hk]

/-! ## What each operation does to a mark -/

theorem has_raise (t : MarkTable) (m m' : Mark) (a b : Artifact) :
    (t.raise m a).2.has m' b = if b = a ∧ m' = m then true else t.has m' b := by
  unfold has marks
  rw [slot?_raise]
  by_cases hb : b = a
  · subst hb
    simp [Marks.has_put, marks]
  · simp [hb]

theorem has_lower (t : MarkTable) (m m' : Mark) (a b : Artifact) :
    (t.lower m a).has m' b = if b = a ∧ m' = m then false else t.has m' b := by
  unfold has marks
  rw [slot?_lower]
  by_cases hb : b = a
  · subst hb
    cases t.slot? b <;> simp [Marks.has_put]
  · simp [hb]

theorem has_lowerAll (t : MarkTable) (m m' : Mark) (a : Artifact) :
    (t.lowerAll m).has m' a = if m' = m then false else t.has m' a := by
  unfold has marks
  rw [slot?_lowerAll]
  cases t.slot? a <;> simp [Marks.has_put]

theorem has_forget (t : MarkTable) (m : Mark) (a b : Artifact) :
    (t.forget a).has m b = if b = a then false else t.has m b := by
  unfold has marks
  rw [slot?_forget]
  by_cases hb : b = a <;> simp [hb]

/-! ## What lowering a mark everywhere commutes with

The table with a mark lowered everywhere has the same slots in the same order, so it tells what
does not depend on the mark. -/

section LowerAll

variable (t : MarkTable) {m m' : Mark} (a : Artifact)

theorem lowerAll_raise (h : m ≠ m') :
    (t.raise m a).2.lowerAll m' = ((t.lowerAll m').raise m a).2 := by
  have hmarks : (t.lowerAll m').marks a = (t.marks a).put m' false := by
    unfold marks
    rw [slot?_lowerAll]
    cases t.slot? a with
    | none => cases m' <;> rfl
    | some s => rfl
  unfold raise lowerAll at *
  rw [PerKind.map_set, SlotTable.mapValues_insert, PerKind.get_map, hmarks, Marks.put_comm _ h.symm]

theorem lowerAll_lower (h : m ≠ m') :
    (t.lower m a).lowerAll m' = (t.lowerAll m').lower m a := by
  unfold lower lowerAll
  rw [PerKind.map_set, PerKind.get_map, SlotTable.mapValues_modify]
  intro s
  exact s.put_comm h.symm false false

theorem lowerAll_lower_self : (t.lower m a).lowerAll m = t.lowerAll m := by
  unfold lower lowerAll
  rw [PerKind.map_set, SlotTable.mapValues_modify_self _ _ fun s => s.put_put m false false]
  congr 1
  ext k
  rw [PerKind.get_set]
  split
  · rename_i hk
    rw [hk, PerKind.get_map]
  · rfl

theorem lowerAll_raise_self (h : t.knows a = true) :
    (t.raise m a).2.lowerAll m = t.lowerAll m := by
  obtain ⟨s, hs⟩ := Option.isSome_iff_exists.mp h
  have hget : (t.slots.get a.kind).get? a.handle = some s := hs
  have hmarks : t.marks a = s := by
    unfold marks
    rw [hs]
    rfl
  unfold raise lowerAll
  rw [PerKind.map_set, hmarks, SlotTable.mapValues_insert_self hget (s.put_put m true false)]
  congr 1
  ext k
  rw [PerKind.get_set]
  split
  · rename_i hk
    rw [hk, PerKind.get_map]
  · rfl

theorem lowerAll_comm (h : m ≠ m') : (t.lowerAll m).lowerAll m' = (t.lowerAll m').lowerAll m := by
  unfold lowerAll
  congr 1
  refine PerKind.ext fun k => ?_
  rw [PerKind.get_map, PerKind.get_map, PerKind.get_map, PerKind.get_map,
    SlotTable.mapValues_mapValues, SlotTable.mapValues_mapValues]
  congr 1
  funext _ s
  exact s.put_comm h.symm false false

theorem lowerAll_forget : (t.forget a).lowerAll m = (t.lowerAll m).forget a := by
  unfold forget lowerAll
  rw [PerKind.map_set, PerKind.get_map, SlotTable.mapValues_swapErase]

end LowerAll

/-! ## Enumeration -/

/-- The enumeration of a mark lists the artifacts that carry it. -/
theorem mem_carrying {t : MarkTable} {m : Mark} {k : Kind} {h : Handle} :
    h ∈ t.carrying m k ↔ t.has m ⟨k, h⟩ = true := by
  simp only [carrying, List.mem_map, List.mem_filter]
  constructor
  · rintro ⟨⟨_, s⟩, ⟨hmem, hs⟩, rfl⟩
    have := SlotTable.get?_eq_some_iff.mpr hmem
    simp [has, marks, slot?, this, hs]
  · intro hh
    cases hs : (t.slots.get k).get? h with
    | none => simp [has, marks, slot?, hs] at hh
    | some s =>
        refine ⟨(h, s), ⟨SlotTable.get?_eq_some_iff.mp hs, ?_⟩, rfl⟩
        simpa [has, marks, slot?, hs] using hh

theorem mem_allTagged {t : MarkTable} {a : Artifact} :
    a ∈ t.allTagged ↔ t.isTagged a = true := by
  obtain ⟨k, h⟩ := a
  simp only [allTagged, tagged, List.mem_flatMap, List.mem_map, mem_carrying]
  constructor
  · rintro ⟨_, -, _, hh, heq⟩
    cases heq
    exact hh
  · intro hh
    exact ⟨k, k.mem_all, h, hh, rfl⟩

end MarkTable

end TraceTypes
