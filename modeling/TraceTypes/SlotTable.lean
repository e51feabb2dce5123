/-!
# Slot tables

A `SlotTable κ α` is a finite map whose entries stand in a row of slots. A new
key takes the slot after the last one, a known key keeps its slot, and there
are two ways to free a slot:

* `erase` closes the gap, the slots behind it move up by one;
* `swapErase` fills the gap with the last slot, all others stay put.

The keys are pairwise distinct by construction. What an operation does to the
map is stated through `get?`, one equation per operation.
-/

namespace TraceTypes

/-- A finite map with its entries in a row of slots. -/
structure SlotTable (κ : Type) (α : Type) where
  /-- The entries in slot order. -/
  slots : List (κ × α)
  /-- No key stands in two slots. -/
  nodup_keys : (slots.map Prod.fst).Nodup := by simp

namespace SlotTable

variable {κ α : Type}

@[ext] theorem ext {s t : SlotTable κ α} (h : s.slots = t.slots) : s = t := by
  cases s; cases t; cases h; rfl

instance [DecidableEq κ] [DecidableEq α] : DecidableEq (SlotTable κ α) := fun s t =>
  decidable_of_iff (s.slots = t.slots) ⟨ext, fun h => h ▸ rfl⟩

/-- The table without slots. -/
def empty : SlotTable κ α := ⟨[], by simp⟩

instance : Inhabited (SlotTable κ α) := ⟨empty⟩

/-- The keys in slot order. -/
def keys (t : SlotTable κ α) : List κ := t.slots.map Prod.fst

/-- The number of slots. -/
def size (t : SlotTable κ α) : Nat := t.slots.length

/-- Change every value, given its key. -/
def mapValues (t : SlotTable κ α) (f : κ → α → α) : SlotTable κ α :=
  ⟨t.slots.map fun e => (e.1, f e.1 e.2), by
    simpa [List.map_map, Function.comp_def] using t.nodup_keys⟩

/-- Keep the slots whose entry passes a test, in their order. -/
def filter (t : SlotTable κ α) (p : κ → α → Bool) : SlotTable κ α :=
  ⟨t.slots.filter fun e => p e.1 e.2,
    t.nodup_keys.sublist (List.Sublist.map Prod.fst List.filter_sublist)⟩

variable [DecidableEq κ]

/-- The value at a key. -/
def get? (t : SlotTable κ α) (k : κ) : Option α :=
  (t.slots.find? fun e => e.1 = k).map Prod.snd

/-- Whether a key has a slot. -/
def contains (t : SlotTable κ α) (k : κ) : Bool := (t.get? k).isSome

theorem mem_keys_iff_get? {t : SlotTable κ α} {k : κ} : k ∈ t.keys ↔ (t.get? k).isSome := by
  simp [keys, get?]

/-- Change the value at a key, if the key has a slot. -/
def modify (t : SlotTable κ α) (k : κ) (f : α → α) : SlotTable κ α :=
  t.mapValues fun k' v => if k' = k then f v else v

/-- Write a value at a key: in the key's slot, or in a new last slot. -/
def insert (t : SlotTable κ α) (k : κ) (v : α) : SlotTable κ α :=
  if h : t.contains k then t.modify k fun _ => v
  else ⟨t.slots ++ [(k, v)], by
    have hk : k ∉ t.keys := by simpa [mem_keys_iff_get?, contains] using h
    rw [List.map_append, List.nodup_append]
    refine ⟨t.nodup_keys, by simp, ?_⟩
    intro a ha b hb
    simp only [List.map_cons, List.map_nil, List.mem_singleton] at hb
    subst hb
    exact fun e => hk (e ▸ ha)⟩

/-- Free a key's slot; the slots behind it move up. -/
def erase (t : SlotTable κ α) (k : κ) : SlotTable κ α :=
  t.filter fun k' _ => !decide (k' = k)

/-- Take the entry at a key out of a row of slots and put the last entry in its place. -/
def swapOut (k : κ) : List (κ × α) → List (κ × α)
  | [] => []
  | e :: rest =>
    if e.1 = k then
      match rest.getLast? with
      | none => []
      | some last => last :: rest.dropLast
    else e :: swapOut k rest

theorem swapOut_of_not_mem {k : κ} {l : List (κ × α)} (h : k ∉ l.map Prod.fst) :
    swapOut k l = l := by
  induction l with
  | nil => rfl
  | cons e rest ih =>
    simp only [List.map_cons, List.mem_cons, not_or] at h
    simp only [swapOut, if_neg (Ne.symm h.1), ih h.2]

/-- The row after `swapOut` is a rearrangement of the row without the entry. -/
theorem swapOut_perm {k : κ} {l : List (κ × α)} (h : (l.map Prod.fst).Nodup) :
    (swapOut k l).Perm (l.filter fun e => !decide (e.1 = k)) := by
  induction l with
  | nil => simp [swapOut]
  | cons e rest ih =>
    rw [List.map_cons, List.nodup_cons] at h
    by_cases he : e.1 = k
    · have hrest : rest.filter (fun e => !decide (e.1 = k)) = rest := by
        rw [List.filter_eq_self]
        intro a ha
        have : a.1 ≠ e.1 := fun hEq => h.1 (List.mem_map.2 ⟨a, ha, hEq⟩)
        simpa [he] using this
      rw [List.filter_cons_of_neg (by simp [he]), hrest, swapOut, if_pos he]
      rcases List.eq_nil_or_concat rest with rfl | ⟨init, last, rfl⟩
      · simp
      · simpa using (List.perm_append_singleton last init).symm
    · rw [List.filter_cons_of_pos (by simp [he]), swapOut, if_neg he]
      exact (ih h.2).cons e

/-- Free a key's slot; the last slot moves into the freed place. -/
def swapErase (t : SlotTable κ α) (k : κ) : SlotTable κ α :=
  ⟨swapOut k t.slots, by
    have hp := (swapOut_perm (k := k) t.nodup_keys).map Prod.fst
    exact hp.nodup_iff.2 (t.filter fun k' _ => !decide (k' = k)).nodup_keys⟩

/-! ## What each operation does to the map -/

@[simp] theorem get?_empty (k : κ) : (empty : SlotTable κ α).get? k = none := rfl

theorem get?_mapValues (t : SlotTable κ α) (f : κ → α → α) (k : κ) :
    (t.mapValues f).get? k = (t.get? k).map (f k) := by
  obtain ⟨l, h⟩ := t
  simp only [get?, mapValues]
  clear h
  induction l with
  | nil => rfl
  | cons e rest ih =>
    by_cases he : e.1 = k
    · simp [he]
    · simpa [he] using ih

theorem get?_modify (t : SlotTable κ α) (k k' : κ) (f : α → α) :
    (t.modify k f).get? k' = if k' = k then (t.get? k').map f else t.get? k' := by
  rw [modify, get?_mapValues]
  split <;> simp

theorem get?_insert (t : SlotTable κ α) (k k' : κ) (v : α) :
    (t.insert k v).get? k' = if k' = k then some v else t.get? k' := by
  unfold insert
  split
  case isTrue h =>
    obtain ⟨w, hw⟩ := Option.isSome_iff_exists.1 h
    rw [get?_modify]
    by_cases hk : k' = k
    · simp [hk, hw]
    · simp [hk]
  case isFalse h =>
    have hn : t.get? k = none := by simpa [contains] using h
    simp only [get?, List.find?_append, Option.map_or] at hn ⊢
    by_cases hk : k' = k
    · subst hk; simp [hn]
    · have : ¬ k = k' := fun e => hk e.symm
      simp [hk, this]

theorem get?_erase (t : SlotTable κ α) (k k' : κ) :
    (t.erase k).get? k' = if k' = k then none else t.get? k' := by
  obtain ⟨l, h⟩ := t
  simp only [get?, erase, filter]
  clear h
  induction l with
  | nil => simp
  | cons e rest ih =>
    by_cases hk : k' = k
    · subst hk
      by_cases he : e.1 = k' <;> simp_all
    · by_cases he : e.1 = k
      · have : ¬ k = k' := fun h => hk h.symm
        simp_all
      · by_cases he' : e.1 = k' <;> simp_all

/-- A value is found under a key iff the pair stands in some slot. -/
theorem get?_eq_some_iff {t : SlotTable κ α} {k : κ} {v : α} :
    t.get? k = some v ↔ (k, v) ∈ t.slots := by
  obtain ⟨l, h⟩ := t
  simp only [get?]
  induction l with
  | nil => simp
  | cons e rest ih =>
    rw [List.map_cons, List.nodup_cons] at h
    by_cases he : e.1 = k
    · have hn : (k, v) ∉ rest := fun hm => h.1 (List.mem_map.2 ⟨_, hm, he.symm⟩)
      obtain ⟨a, b⟩ := e
      simp only at he
      subst he
      simp [hn, eq_comm]
    · have : (k, v) ≠ e := fun hEq => he (by rw [← hEq])
      simp [he, this, ih h.2]

theorem get?_swapErase (t : SlotTable κ α) (k k' : κ) :
    (t.swapErase k).get? k' = if k' = k then none else t.get? k' := by
  rw [← get?_erase]
  apply Option.ext
  intro v
  rw [get?_eq_some_iff, get?_eq_some_iff]
  exact (swapOut_perm t.nodup_keys).mem_iff

/-! ## How many slots there are -/

omit [DecidableEq κ] in
@[simp] theorem size_mapValues (t : SlotTable κ α) (f : κ → α → α) :
    (t.mapValues f).size = t.size := List.length_map _

@[simp] theorem size_modify (t : SlotTable κ α) (k : κ) (f : α → α) :
    (t.modify k f).size = t.size := size_mapValues ..

theorem size_insert_of_none {t : SlotTable κ α} {k : κ} (h : t.get? k = none) (v : α) :
    (t.insert k v).size = t.size + 1 := by
  have hk : ¬ t.contains k := by simp [contains, h]
  rw [insert, dif_neg hk]
  exact List.length_append

theorem size_erase_of_some {t : SlotTable κ α} {k : κ} {v : α} (h : t.get? k = some v) :
    (t.erase k).size + 1 = t.size := by
  -- of all slots one has the key
  have hone : t.slots.countP (fun e => decide (e.1 = k)) = 1 := by
    have hmem : k ∈ t.slots.map Prod.fst := List.mem_map_of_mem (get?_eq_some_iff.mp h)
    rw [← (if_pos hmem : (if k ∈ t.slots.map Prod.fst then 1 else 0) = 1), ← t.nodup_keys.count,
      List.count_eq_countP, List.countP_map]
    rfl
  have hall := List.length_eq_countP_add_countP (fun e => decide (e.1 = k)) (l := t.slots)
  rw [hone] at hall
  show (t.slots.filter _).length + 1 = t.slots.length
  rw [← List.countP_eq_length_filter, hall, Nat.add_comm]
  simp

/-- The same map has as many slots, in whatever order. -/
theorem size_congr {t t' : SlotTable κ α} (h : ∀ k, t'.get? k = t.get? k) : t'.size = t.size := by
  have hnodup (t : SlotTable κ α) : t.slots.Nodup :=
    List.Pairwise.of_map Prod.fst (fun _ _ hne heq => hne (congrArg Prod.fst heq)) t.nodup_keys
  refine ((List.perm_ext_iff_of_nodup (hnodup t') (hnodup t)).mpr ?_).length_eq
  rintro ⟨k, v⟩
  rw [← get?_eq_some_iff, ← get?_eq_some_iff, h]

/-! ## In which order the keys stand -/

section Keys

variable {t : SlotTable κ α} {k : κ}

omit [DecidableEq κ] in
@[simp] theorem keys_mapValues (t : SlotTable κ α) (f : κ → α → α) :
    (t.mapValues f).keys = t.keys := by
  simp [keys, mapValues, Function.comp_def]

theorem keys_insert_of_mem (h : k ∈ t.keys) (v : α) : (t.insert k v).keys = t.keys := by
  have hk : t.contains k = true := mem_keys_iff_get?.mp h
  rw [insert, dif_pos hk, modify, keys_mapValues]

theorem keys_insert_of_not_mem (h : k ∉ t.keys) (v : α) :
    (t.insert k v).keys = t.keys ++ [k] := by
  have hk : ¬ t.contains k = true := fun hk => h (mem_keys_iff_get?.mpr hk)
  rw [insert, dif_neg hk]
  simp [keys]

theorem swapOut_append_cons {before rest : List (κ × α)} {v : α}
    (h : k ∉ before.map Prod.fst) :
    swapOut k (before ++ (k, v) :: rest) = before ++ (rest.getLast?.toList ++ rest.dropLast) := by
  induction before with
  | nil =>
    rw [List.nil_append, swapOut, if_pos rfl]
    rcases List.eq_nil_or_concat rest with rfl | ⟨init, last, rfl⟩
    · rfl
    · simp
  | cons e before ih =>
    rw [List.map_cons, List.mem_cons, not_or] at h
    rw [List.cons_append, swapOut, if_neg (Ne.symm h.1), ih h.2]
    rfl

theorem keys_swapErase_of_not_mem (h : k ∉ t.keys) : (t.swapErase k).keys = t.keys :=
  congrArg (List.map Prod.fst) (swapOut_of_not_mem h)

/-- The slot that is freed is the last one, or the last one takes its place. -/
theorem keys_swapErase_cases (h : k ∈ t.keys) :
    (∃ before, t.keys = before ++ [k] ∧ (t.swapErase k).keys = before) ∨
    ∃ before between last, t.keys = before ++ k :: (between ++ [last]) ∧
      (t.swapErase k).keys = before ++ last :: between := by
  obtain ⟨⟨k', v⟩, hmem, heq⟩ := List.mem_map.mp h
  obtain rfl : k' = k := heq
  obtain ⟨before, rest, hslots⟩ := List.append_of_mem hmem
  have hbefore : k' ∉ before.map Prod.fst := by
    have hnodup := t.nodup_keys
    rw [hslots, List.map_append, List.nodup_append] at hnodup
    exact fun hk => hnodup.2.2 k' hk k' List.mem_cons_self rfl
  have hnow : (t.swapErase k').keys =
      (before ++ (rest.getLast?.toList ++ rest.dropLast)).map Prod.fst := by
    rw [← swapOut_append_cons hbefore, ← hslots]
    rfl
  rw [hnow, keys, hslots]
  rcases List.eq_nil_or_concat rest with rfl | ⟨init, last, rfl⟩
  · exact .inl ⟨before.map Prod.fst, by simp, by simp⟩
  · exact .inr ⟨before.map Prod.fst, init.map Prod.fst, last.1, by simp, by simp⟩

end Keys

/-! ## What a change of all values commutes with -/

omit [DecidableEq κ] in
theorem mapValues_mapValues (t : SlotTable κ α) (f g : κ → α → α) :
    (t.mapValues f).mapValues g = t.mapValues fun k v => g k (f k v) := by
  apply SlotTable.ext
  simp [mapValues, Function.comp_def]

theorem mapValues_modify (t : SlotTable κ α) (k : κ) {f : κ → α → α} {g g' : α → α}
    (h : ∀ v, f k (g v) = g' (f k v)) :
    (t.modify k g).mapValues f = (t.mapValues f).modify k g' := by
  rw [modify, modify, mapValues_mapValues, mapValues_mapValues]
  congr 1
  funext k' v
  split
  · rename_i hk
    rw [hk, h]
  · rfl

/-- The change makes up for another one at a single key. -/
theorem mapValues_modify_self (t : SlotTable κ α) (k : κ) {f : κ → α → α} {g : α → α}
    (h : ∀ v, f k (g v) = f k v) : (t.modify k g).mapValues f = t.mapValues f := by
  rw [modify, mapValues_mapValues]
  congr 1
  funext k' v
  split
  · rename_i hk
    rw [hk, h]
  · rfl

theorem mapValues_insert (t : SlotTable κ α) (k : κ) (v : α) (f : κ → α → α) :
    (t.insert k v).mapValues f = (t.mapValues f).insert k (f k v) := by
  have hcontains : (t.mapValues f).contains k = t.contains k := by
    rw [contains, contains, get?_mapValues, Option.isSome_map]
  unfold insert
  by_cases hk : t.contains k = true
  · rw [dif_pos hk, dif_pos (hcontains.trans hk)]
    exact t.mapValues_modify k fun _ => rfl
  · rw [dif_neg hk, dif_neg fun h => hk (hcontains.symm.trans h)]
    apply SlotTable.ext
    simp [mapValues]

/-- A new value that the change does not tell from the old one leaves the table the same. -/
theorem mapValues_insert_self {t : SlotTable κ α} {k : κ} {v w : α} {f : κ → α → α}
    (hk : t.get? k = some w) (h : f k v = f k w) :
    (t.insert k v).mapValues f = t.mapValues f := by
  have hcontains : t.contains k = true := by rw [contains, hk]; rfl
  rw [insert, dif_pos hcontains, modify, mapValues_mapValues]
  apply SlotTable.ext
  refine List.map_congr_left ?_
  rintro ⟨k', v'⟩ hmem
  dsimp only
  split
  · rename_i hk'
    subst hk'
    obtain rfl : w = v' := Option.some.inj (hk.symm.trans (get?_eq_some_iff.mpr hmem))
    rw [h]
  · rfl

theorem map_swapOut (k : κ) (f : κ → α → α) (l : List (κ × α)) :
    (swapOut k l).map (fun e => (e.1, f e.1 e.2)) =
      swapOut k (l.map fun e => (e.1, f e.1 e.2)) := by
  induction l with
  | nil => rfl
  | cons e rest ih =>
      rw [List.map_cons, swapOut, swapOut]
      split
      · rw [List.getLast?_map]
        cases rest.getLast? with
        | none => rfl
        | some last => rw [List.map_cons, Option.map_some, List.map_dropLast]
      · rw [List.map_cons, ih]

theorem mapValues_swapErase (t : SlotTable κ α) (k : κ) (f : κ → α → α) :
    (t.swapErase k).mapValues f = (t.mapValues f).swapErase k :=
  SlotTable.ext (map_swapOut k f t.slots)

end SlotTable

end TraceTypes
