import TraceTypes.Identity.Registries
/-!
# Ids and artifacts are in bijection

What each operation of the registries does to the two look-ups, from an
artifact to its id and from an id to its artifact:

* `register_cases` — all that a registration can do;
* `WF` — the two look-ups are inverse to each other, and every live id lies
  below the next one. It is kept by every operation;
* `Extends` — what a row of registrations has changed, given the artifacts
  that got their id in it. To undo these registrations leads back to the old
  look-ups (`Extends.undo`): only the next id and the owners of methods may
  then differ (`Similar`).
-/

namespace TraceTypes.Registries

variable {r r' : Registries} {a b : Artifact} {i : TraceId}

/-! ## What the operations do to an entry -/

theorem entry?_mk (entries : PerKind (SlotTable Handle RegistryEntry)) (ids : IdAllocator)
    (t : SlotTable Handle RegistryEntry) (a b : Artifact) :
    entry? ⟨entries.set a.kind t, ids⟩ b =
      if b.kind = a.kind then t.get? b.handle else (entries.get b.kind).get? b.handle := by
  simp only [PerKind.get_set, entry?]
  split <;> rfl

/-- The registries after an artifact without an entry was given the next id. -/
def enroll (r : Registries) (a : Artifact) : Registries where
  entries := r.entries.set a.kind ((r.entries.get a.kind).insert a.handle ⟨r.ids.next, none⟩)
  ids := { r.ids with next := r.ids.next + 1, owners := r.ids.owners.insert r.ids.next a }

theorem entry?_enroll (r : Registries) (a b : Artifact) :
    entry? (r.enroll a) b = if b = a then some ⟨r.ids.next, none⟩ else r.entry? b := by
  obtain ⟨k, h⟩ := a
  obtain ⟨k', h'⟩ := b
  rw [enroll, entry?_mk]
  by_cases hk : k' = k
  · subst hk
    simp [SlotTable.get?_insert, entry?]
  · simp [hk, entry?]

theorem id?_enroll (r : Registries) (a b : Artifact) :
    (r.enroll a).id? b = if b = a then some r.ids.next else r.id? b := by
  rw [id?, entry?_enroll]
  split <;> rfl

theorem owner?_enroll (r : Registries) (a : Artifact) (i : TraceId) :
    (r.enroll a).ids.owners.get? i = if i = r.ids.next then some a else r.ids.owners.get? i :=
  SlotTable.get?_insert ..

theorem entry?_setOwner (r : Registries) (a b : Artifact) (owner : Handle) :
    entry? (r.setOwner a owner) b =
      if b = a then (r.entry? a).map fun e => { e with owner := some owner } else r.entry? b := by
  obtain ⟨k, h⟩ := a
  obtain ⟨k', h'⟩ := b
  rw [setOwner, entry?_mk]
  by_cases hk : k' = k
  · subst hk
    by_cases hh : h' = h <;> simp [SlotTable.get?_modify, entry?, hh]
  · simp [hk, entry?]

@[simp] theorem id?_setOwner (r : Registries) (a b : Artifact) (owner : Handle) :
    (r.setOwner a owner).id? b = r.id? b := by
  rw [id?, entry?_setOwner]
  split
  · rename_i hb
    subst hb
    cases h : r.entry? b <;> simp [id?, h]
  · rfl

theorem entry?_dropEntry (r : Registries) (ids : IdAllocator) (a b : Artifact) :
    entry? ⟨r.dropEntry a, ids⟩ b = if b = a then none else r.entry? b := by
  obtain ⟨k, h⟩ := a
  obtain ⟨k', h'⟩ := b
  rw [dropEntry, entry?_mk]
  by_cases hk : k' = k
  · subst hk
    simp [SlotTable.get?_erase, entry?]
  · simp [hk, entry?]

theorem id?_eq_none_iff : r.id? a = none ↔ r.entry? a = none := by
  simp [id?]

theorem entry?_forget (r : Registries) (a b : Artifact) :
    entry? (r.forget a).2 b = if b = a then none else r.entry? b := by
  unfold forget
  split
  · rename_i h
    split
    · rename_i hb
      rw [hb, h]
    · rfl
  · exact entry?_dropEntry ..

theorem id?_forget (r : Registries) (a b : Artifact) :
    (r.forget a).2.id? b = if b = a then none else r.id? b := by
  rw [id?, entry?_forget]
  split <;> rfl

theorem entry?_unregister (r : Registries) (a b : Artifact) :
    entry? (r.unregister a) b = if b = a then none else r.entry? b := by
  unfold unregister
  split
  · rename_i h
    split
    · rename_i hb
      rw [hb, h]
    · rfl
  · exact entry?_dropEntry ..

theorem id?_unregister (r : Registries) (a b : Artifact) :
    (r.unregister a).id? b = if b = a then none else r.id? b := by
  rw [id?, entry?_unregister]
  split <;> rfl

theorem mem_ownedBy {r : Registries} {k : Kind} {owner n : Handle} :
    n ∈ r.ownedBy k owner ↔ ∃ e, r.entry? ⟨k, n⟩ = some e ∧ e.owner = some owner := by
  unfold ownedBy entry?
  rw [List.mem_mergeSort, List.mem_map]
  constructor
  · rintro ⟨⟨_, e⟩, hmem, rfl⟩
    obtain ⟨hslot, howner⟩ := List.mem_filter.mp hmem
    exact ⟨e, SlotTable.get?_eq_some_iff.mpr hslot, of_decide_eq_true howner⟩
  · rintro ⟨e, he, howner⟩
    refine ⟨(n, e), List.mem_filter.mpr ⟨SlotTable.get?_eq_some_iff.mp he, ?_⟩, rfl⟩
    exact decide_eq_true howner

/-! ## What the operations do to the owner of an id -/

theorem owner?_forget (r : Registries) (a : Artifact) (i : TraceId) :
    (r.forget a).2.ids.owners.get? i = if r.id? a = some i then none else r.ids.owners.get? i := by
  unfold forget id?
  split
  · rename_i h
    simp [h]
  · rename_i e h
    simp only [h, IdAllocator.retire, SlotTable.get?_erase, Option.map_some, Option.some.injEq]
    simp only [eq_comm]

theorem owner?_unregister (r : Registries) (a : Artifact) (i : TraceId) :
    (r.unregister a).ids.owners.get? i =
      if r.id? a = some i then none else r.ids.owners.get? i := by
  unfold unregister id?
  split
  · rename_i h
    simp [h]
  · rename_i e h
    simp only [h, IdAllocator.release, SlotTable.get?_erase, Option.map_some, Option.some.injEq]
    simp only [eq_comm]

@[simp] theorem next_forget (r : Registries) (a : Artifact) :
    (r.forget a).2.ids.next = r.ids.next := by
  unfold forget
  split <;> rfl

@[simp] theorem next_unregister (r : Registries) (a : Artifact) :
    (r.unregister a).ids.next = r.ids.next := by
  unfold unregister
  split <;> rfl

@[simp] theorem retired_unregister (r : Registries) (a : Artifact) :
    (r.unregister a).ids.retired = r.ids.retired := by
  unfold unregister
  split <;> rfl

/-! ## Registration -/

/-- All that a registration can do: find the id that the artifact has, or hand out the next one. -/
theorem register_cases {id : TraceId} {fresh : Bool} (h : r.register a = .ok ((id, fresh), r')) :
    (r.id? a = some id ∧ fresh = false ∧ r' = r) ∨
    (r.id? a = none ∧ r.ids.owners.get? r.ids.next = none ∧ id = r.ids.next ∧ fresh = true ∧
      r' = r.enroll a) := by
  unfold register at h
  cases he : r.entry? a with
  | some e =>
      rw [he] at h
      cases h
      exact .inl ⟨by simp [id?, he], rfl, rfl⟩
  | none =>
      rw [he] at h
      simp only [IdAllocator.allocate] at h
      cases ho : r.ids.owners.get? r.ids.next with
      | some o => rw [ho] at h; cases h
      | none =>
          rw [ho] at h
          cases h
          exact .inr ⟨id?_eq_none_iff.mpr he, rfl, rfl, rfl, rfl⟩

/-- A registration leaves the artifact with the id that it answers. -/
theorem id?_of_register {id : TraceId} {fresh : Bool}
    (h : r.register a = .ok ((id, fresh), r')) : r'.id? a = some id := by
  rcases register_cases h with ⟨hid, _, rfl⟩ | ⟨_, _, rfl, _, rfl⟩
  · exact hid
  · simp [id?_enroll]

/-- A registration takes no artifact's id away. -/
theorem id?_register_of_some {id : TraceId} {fresh : Bool}
    (h : r.register a = .ok ((id, fresh), r')) (hb : r.id? b = some i) : r'.id? b = some i := by
  rcases register_cases h with ⟨_, _, rfl⟩ | ⟨ha, _, _, _, rfl⟩
  · exact hb
  · rw [id?_enroll, if_neg, hb]
    rintro rfl
    rw [ha] at hb
    cases hb

/-! ## The bijection -/

/-- The look-ups from artifacts to ids and back are inverse to each other, and the live ids lie
between zero and the next id, both excluded. -/
structure WF (r : Registries) : Prop where
  next_pos : 0 < r.ids.next
  owner_iff : ∀ a i, r.id? a = some i ↔ r.ids.owners.get? i = some a
  bounds : ∀ a i, r.id? a = some i → 0 < i ∧ i < r.ids.next

/-- Two artifacts never share an id. -/
theorem WF.id?_inj (h : r.WF) (ha : r.id? a = some i) (hb : r.id? b = some i) : a = b := by
  have h1 := (h.owner_iff a i).mp ha
  have h2 := (h.owner_iff b i).mp hb
  rw [h1] at h2
  exact Option.some.inj h2

theorem WF.next_free (h : r.WF) : r.ids.owners.get? r.ids.next = none := by
  cases ho : r.ids.owners.get? r.ids.next with
  | none => rfl
  | some o =>
      have := (h.bounds o _ ((h.owner_iff o _).mpr ho)).2
      exact absurd this (Nat.lt_irrefl _)

theorem register_of_some (ha : r.id? a = some i) : r.register a = .ok ((i, false), r) := by
  obtain ⟨e, he, rfl⟩ := Option.map_eq_some_iff.mp ha
  unfold register
  rw [he]

/-- An id can always be handed out: the next one has no owner. -/
theorem WF.register_of_none (h : r.WF) (ha : r.id? a = none) :
    r.register a = .ok ((r.ids.next, true), r.enroll a) := by
  unfold Registries.register
  rw [id?_eq_none_iff.mp ha]
  simp only [IdAllocator.allocate, h.next_free]
  rfl

theorem WF.exists_register (h : r.WF) (a : Artifact) :
    ∃ id fresh r', r.register a = .ok ((id, fresh), r') := by
  cases ha : r.id? a with
  | some i => exact ⟨_, _, _, register_of_some ha⟩
  | none => exact ⟨_, _, _, h.register_of_none ha⟩

/-- The registries of a new type set. -/
theorem wf_empty : ({} : Registries).WF where
  next_pos := Nat.one_pos
  owner_iff a i := by simp [id?, entry?]
  bounds a i h := by simp [id?, entry?] at h

theorem WF.enroll (h : r.WF) (ha : r.id? a = none) : (r.enroll a).WF := by
  refine ⟨Nat.succ_pos _, ?_, ?_⟩
  · -- the new pair is the only one with this artifact, and the only one with this id
    intro b i
    rw [id?_enroll, owner?_enroll]
    by_cases hb : b = a
    · subst hb
      by_cases hi : i = r.ids.next
      · simp [hi]
      · simp only [if_neg hi, ← h.owner_iff, ha]
        simpa using fun e => hi e.symm
    · by_cases hi : i = r.ids.next
      · subst hi
        rw [if_neg hb, if_pos rfl, h.owner_iff, h.next_free]
        simpa using fun e => hb e.symm
      · rw [if_neg hb, if_neg hi]
        exact h.owner_iff b i
  · intro b i hb
    rw [id?_enroll] at hb
    show 0 < i ∧ i < r.ids.next + 1
    split at hb
    · cases hb
      exact ⟨h.next_pos, Nat.lt_succ_self _⟩
    · have := h.bounds b i hb
      exact ⟨this.1, Nat.lt_succ_of_lt this.2⟩

theorem WF.of_eq (h : r.WF) (hid : ∀ a, r'.id? a = r.id? a)
    (howner : ∀ i, r'.ids.owners.get? i = r.ids.owners.get? i)
    (hnext : r.ids.next ≤ r'.ids.next) : r'.WF where
  next_pos := Nat.lt_of_lt_of_le h.next_pos hnext
  owner_iff a i := by rw [hid, howner]; exact h.owner_iff a i
  bounds a i ha := by
    rw [hid] at ha
    have := h.bounds a i ha
    exact ⟨this.1, Nat.lt_of_lt_of_le this.2 hnext⟩

/-- To drop the entry of an artifact and the owner of its id keeps the bijection. -/
theorem WF.drop (h : r.WF) (hid : ∀ b, r'.id? b = if b = a then none else r.id? b)
    (howner : ∀ i, r'.ids.owners.get? i = if r.id? a = some i then none else r.ids.owners.get? i)
    (hnext : r'.ids.next = r.ids.next) : r'.WF := by
  refine ⟨hnext ▸ h.next_pos, ?_, ?_⟩
  · intro b i
    rw [hid, howner]
    by_cases hb : b = a
    · subst hb
      rw [if_pos rfl]
      by_cases hbi : r.id? b = some i
      · simp [hbi]
      · rw [if_neg hbi, ← h.owner_iff]
        simp [hbi]
    · rw [if_neg hb]
      split
      · -- the id had no other artifact
        rename_i ha
        constructor
        · intro hbi
          exact absurd (h.id?_inj hbi ha) hb
        · intro hn
          cases hn
      · exact h.owner_iff b i
  · intro b i hb
    rw [hid] at hb
    rw [hnext]
    split at hb
    · cases hb
    · exact h.bounds b i hb

theorem WF.register (h : r.WF) {id : TraceId} {fresh : Bool}
    (hr : r.register a = .ok ((id, fresh), r')) : r'.WF := by
  rcases register_cases hr with ⟨_, _, rfl⟩ | ⟨ha, _, _, _, rfl⟩
  · exact h
  · exact h.enroll ha

theorem WF.setOwner (h : r.WF) (a : Artifact) (owner : Handle) : (r.setOwner a owner).WF :=
  h.of_eq (id?_setOwner r a · owner) (fun _ => rfl) (Nat.le_refl _)

theorem WF.forget (h : r.WF) (a : Artifact) : (r.forget a).2.WF :=
  h.drop (id?_forget r a) (owner?_forget r a) (next_forget r a)

theorem WF.unregister (h : r.WF) (a : Artifact) : (r.unregister a).WF :=
  h.drop (id?_unregister r a) (owner?_unregister r a) (next_unregister r a)

theorem WF.purge (h : r.WF) : r.purge.2.WF :=
  h.of_eq (fun _ => rfl) (fun _ => rfl) (Nat.le_refl _)

/-! ## A row of registrations and its undoing -/

/-- What a row of registrations has made of `r₀`, when the artifacts in `fresh` got their id in it.
The owners of methods that had an id before are left open. -/
structure Extends (r₀ r : Registries) (fresh : List Artifact) : Prop where
  fresh_id : ∀ a ∈ fresh, r₀.id? a = none ∧
    ∃ i, r.id? a = some i ∧ r₀.ids.next ≤ i ∧ i < r.ids.next ∧ r₀.ids.owners.get? i = none
  other_id : ∀ a, a ∉ fresh → r.id? a = r₀.id? a
  other_entry : ∀ a, a ∉ fresh → a.kind ≠ .method → r.entry? a = r₀.entry? a
  other_owner : ∀ i, (∀ a ∈ fresh, r.id? a ≠ some i) → r.ids.owners.get? i = r₀.ids.owners.get? i
  retired : r.ids.retired = r₀.ids.retired
  next : r₀.ids.next ≤ r.ids.next

theorem Extends.refl (r : Registries) : Extends r r [] where
  fresh_id _ ha := absurd ha List.not_mem_nil
  other_id _ _ := rfl
  other_entry _ _ _ := rfl
  other_owner _ _ := rfl
  retired := rfl
  next := Nat.le_refl _

section Extends

variable {r₀ : Registries} {fresh : List Artifact}

/-- An id that an artifact had before the row is its id still. -/
theorem Extends.keeps (h : Extends r₀ r fresh) (ha : r₀.id? a = some i) : r.id? a = some i := by
  rw [h.other_id a, ha]
  intro hmem
  rw [(h.fresh_id a hmem).1] at ha
  cases ha

/-- An artifact with an id had it before the row, or is fresh with an id beyond the old next one. -/
theorem Extends.known (h : Extends r₀ r fresh) (ha : r.id? a = some i) :
    r₀.id? a = some i ∨ (a ∈ fresh ∧ r₀.id? a = none ∧ r₀.ids.next ≤ i) := by
  by_cases hmem : a ∈ fresh
  · obtain ⟨hnone, j, hj, hle, -, -⟩ := h.fresh_id a hmem
    rw [hj] at ha
    cases ha
    exact .inr ⟨hmem, hnone, hle⟩
  · rw [h.other_id a hmem] at ha
    exact .inl ha

theorem Extends.enroll (h : Extends r₀ r fresh) (ha : r.id? a = none)
    (hfree : r.ids.owners.get? r.ids.next = none) :
    Extends r₀ (r.enroll a) (fresh ++ [a]) := by
  have hnew : a ∉ fresh := by
    intro hmem
    obtain ⟨-, i, hi, -⟩ := h.fresh_id a hmem
    rw [ha] at hi
    cases hi
  -- no fresh artifact has the next id, so that id had no owner before the row either
  have hfree₀ : r₀.ids.owners.get? r.ids.next = none := by
    rw [← h.other_owner _ ?_, hfree]
    intro b hb hbi
    obtain ⟨-, i, hi, -, hlt, -⟩ := h.fresh_id b hb
    rw [hi] at hbi
    cases hbi
    exact Nat.lt_irrefl _ hlt
  constructor
  case fresh_id =>
    intro b hb
    rw [id?_enroll]
    rcases List.mem_append.mp hb with hb | hb
    · obtain ⟨hnone, i, hi, hle, hlt, howner⟩ := h.fresh_id b hb
      have hne : b ≠ a := fun e => hnew (e ▸ hb)
      exact ⟨hnone, i, by rw [if_neg hne]; exact hi, hle, Nat.lt_succ_of_lt hlt, howner⟩
    · rw [List.mem_singleton.mp hb]
      refine ⟨?_, r.ids.next, if_pos rfl, h.next, Nat.lt_succ_self _, hfree₀⟩
      rw [← h.other_id a hnew, ha]
  case other_id =>
    intro b hb
    simp only [List.mem_append, List.mem_singleton, not_or] at hb
    rw [id?_enroll, if_neg hb.2]
    exact h.other_id b hb.1
  case other_entry =>
    intro b hb hkind
    simp only [List.mem_append, List.mem_singleton, not_or] at hb
    rw [entry?_enroll, if_neg hb.2]
    exact h.other_entry b hb.1 hkind
  case other_owner =>
    intro i hi
    have hne : i ≠ r.ids.next := by
      intro e
      refine hi a (by simp) ?_
      rw [id?_enroll, if_pos rfl, e]
    rw [owner?_enroll, if_neg hne]
    refine h.other_owner i ?_
    intro b hb
    have := hi b (by simp [hb])
    rw [id?_enroll, if_neg fun e : b = a => hnew (e ▸ hb)] at this
    exact this
  case retired => exact h.retired
  case next => exact Nat.le_succ_of_le h.next

/-- One more registration. -/
theorem Extends.register (h : Extends r₀ r fresh) {id : TraceId} {new : Bool}
    (hr : r.register a = .ok ((id, new), r')) :
    Extends r₀ r' (if new then fresh ++ [a] else fresh) := by
  rcases register_cases hr with ⟨_, rfl, rfl⟩ | ⟨ha, hfree, _, rfl, rfl⟩
  · exact h
  · exact h.enroll ha hfree

theorem Extends.setOwner (h : Extends r₀ r fresh) (ha : a.kind = .method) (owner : Handle) :
    Extends r₀ (r.setOwner a owner) fresh := by
  constructor
  case fresh_id =>
    intro b hb
    rw [id?_setOwner]
    exact h.fresh_id b hb
  case other_id =>
    intro b hb
    rw [id?_setOwner]
    exact h.other_id b hb
  case other_entry =>
    intro b hb hkind
    rw [entry?_setOwner, if_neg fun e : b = a => hkind (e ▸ ha)]
    exact h.other_entry b hb hkind
  case other_owner =>
    intro i hi
    refine h.other_owner i ?_
    intro b hb
    rw [← id?_setOwner r a b owner]
    exact hi b hb
  case retired => exact h.retired
  case next => exact h.next

end Extends

theorem entry?_unregisterAll (r : Registries) (l : List Artifact) (b : Artifact) :
    entry? (r.unregisterAll l) b = if b ∈ l then none else r.entry? b := by
  induction l generalizing r with
  | nil => rfl
  | cons a rest ih =>
      rw [unregisterAll, List.foldl_cons, ← unregisterAll, ih, entry?_unregister]
      by_cases hb : b = a <;> simp [hb]

theorem id?_unregisterAll (r : Registries) (l : List Artifact) (b : Artifact) :
    (r.unregisterAll l).id? b = if b ∈ l then none else r.id? b := by
  rw [id?, entry?_unregisterAll]
  split <;> rfl

theorem owner?_unregisterAll (r : Registries) (l : List Artifact) (i : TraceId) :
    ((∃ a ∈ l, r.id? a = some i) ∧ (r.unregisterAll l).ids.owners.get? i = none) ∨
    ((∀ a ∈ l, r.id? a ≠ some i) ∧
      (r.unregisterAll l).ids.owners.get? i = r.ids.owners.get? i) := by
  -- an id loses its owner at the first artifact that has it, and does not get it back
  induction l generalizing r with
  | nil => exact .inr ⟨fun a ha => absurd ha List.not_mem_nil, rfl⟩
  | cons a rest ih =>
      rw [unregisterAll, List.foldl_cons, ← unregisterAll]
      by_cases ha : r.id? a = some i
      · refine .inl ⟨⟨a, List.mem_cons_self, ha⟩, ?_⟩
        rcases ih (r.unregister a) with ⟨_, h⟩ | ⟨_, h⟩
        · exact h
        · rw [h, owner?_unregister, if_pos ha]
      · rcases ih (r.unregister a) with ⟨⟨b, hb, hbi⟩, h⟩ | ⟨hall, h⟩
        · rw [id?_unregister] at hbi
          split at hbi
          · cases hbi
          · exact .inl ⟨⟨b, List.mem_cons_of_mem _ hb, hbi⟩, h⟩
        · refine .inr ⟨?_, by rw [h, owner?_unregister, if_neg ha]⟩
          intro b hb
          rcases List.mem_cons.mp hb with rfl | hb
          · exact ha
          · by_cases hba : b = a
            · exact hba ▸ ha
            · have := hall b hb
              rwa [id?_unregister, if_neg hba] at this

theorem retired_unregisterAll (r : Registries) (l : List Artifact) :
    (r.unregisterAll l).ids.retired = r.ids.retired := by
  induction l generalizing r with
  | nil => rfl
  | cons a rest ih =>
      rw [unregisterAll, List.foldl_cons, ← unregisterAll, ih, retired_unregister]

theorem next_unregisterAll (r : Registries) (l : List Artifact) :
    (r.unregisterAll l).ids.next = r.ids.next := by
  induction l generalizing r with
  | nil => rfl
  | cons a rest ih =>
      rw [unregisterAll, List.foldl_cons, ← unregisterAll, ih, next_unregister]

/-- Registries that agree up to the next id, which may have grown, and the owners of methods. -/
structure Similar (r r' : Registries) : Prop where
  ids : ∀ a, r'.id? a = r.id? a
  entries : ∀ a, a.kind ≠ .method → r'.entry? a = r.entry? a
  owners : ∀ i, r'.ids.owners.get? i = r.ids.owners.get? i
  retired : r'.ids.retired = r.ids.retired
  next : r.ids.next ≤ r'.ids.next

theorem Similar.refl (r : Registries) : Similar r r :=
  ⟨fun _ => rfl, fun _ _ => rfl, fun _ => rfl, rfl, Nat.le_refl _⟩

/-- Every id resolves as before. -/
theorem Similar.resolve (h : Similar r r') (i : TraceId) : r'.resolve i = r.resolve i := by
  simp only [Registries.resolve, IdAllocator.owner, h.retired, h.owners]

theorem WF.similar (hwf : r.WF) (h : Similar r r') : r'.WF :=
  hwf.of_eq h.ids h.owners h.next

/-- To undo the fresh registrations of a row, in any order, leads back to where the row began. -/
theorem Extends.undo {r₀ : Registries} {fresh l : List Artifact} (h : Extends r₀ r fresh)
    (hl : ∀ a, a ∈ l ↔ a ∈ fresh) : Similar r₀ (r.unregisterAll l) := by
  constructor
  case ids =>
    intro a
    rw [id?_unregisterAll]
    split
    · rename_i ha
      rw [(h.fresh_id a ((hl a).mp ha)).1]
    · rename_i ha
      exact h.other_id a fun hmem => ha ((hl a).mpr hmem)
  case entries =>
    intro a hkind
    rw [entry?_unregisterAll]
    split
    · rename_i ha
      exact (id?_eq_none_iff.mp (h.fresh_id a ((hl a).mp ha)).1).symm
    · rename_i ha
      exact h.other_entry a (fun hmem => ha ((hl a).mpr hmem)) hkind
  case owners =>
    intro i
    rcases owner?_unregisterAll r l i with ⟨⟨a, ha, hi⟩, hnone⟩ | ⟨hall, heq⟩
    · obtain ⟨-, j, hj, -, -, hfree⟩ := h.fresh_id a ((hl a).mp ha)
      rw [hj] at hi
      cases hi
      rw [hnone, hfree]
    · rw [heq]
      exact h.other_owner i fun a ha => hall a ((hl a).mpr ha)
  case retired => rw [retired_unregisterAll, h.retired]
  case next =>
    rw [next_unregisterAll]
    exact h.next

/-! ## To forget many artifacts -/

/-- Forget artifacts in the order given. -/
def forgetAll (r : Registries) (l : List Artifact) : Registries :=
  l.foldl (fun r a => (r.forget a).2) r

theorem forgetAll_append (r : Registries) (l l' : List Artifact) :
    r.forgetAll (l ++ l') = (r.forgetAll l).forgetAll l' := List.foldl_append

theorem entry?_forgetAll (r : Registries) (l : List Artifact) (b : Artifact) :
    entry? (r.forgetAll l) b = if b ∈ l then none else r.entry? b := by
  induction l generalizing r with
  | nil => rfl
  | cons a rest ih =>
      rw [forgetAll, List.foldl_cons, ← forgetAll, ih, entry?_forget]
      by_cases hb : b = a <;> simp [hb]

theorem id?_forgetAll (r : Registries) (l : List Artifact) (b : Artifact) :
    (r.forgetAll l).id? b = if b ∈ l then none else r.id? b := by
  rw [id?, entry?_forgetAll]
  split <;> rfl

theorem mem_retired_forget {r : Registries} {a : Artifact} {i : TraceId} :
    i ∈ (r.forget a).2.ids.retired ↔ i ∈ r.ids.retired ∨ r.id? a = some i := by
  unfold forget id?
  split
  · rename_i h
    simp [h]
  · rename_i e h
    show i ∈ r.ids.retired.insert e.id ↔ _
    rw [List.mem_insert_iff, h, Option.map_some, Option.some.injEq]
    constructor
    · rintro (rfl | hi)
      · exact .inr rfl
      · exact .inl hi
    · rintro (hi | rfl)
      · exact .inr hi
      · exact .inl rfl

/-- To forget artifacts retires the ids that they have. -/
theorem mem_retired_forgetAll {r : Registries} {l : List Artifact} {i : TraceId} :
    i ∈ (r.forgetAll l).ids.retired ↔ i ∈ r.ids.retired ∨ ∃ a ∈ l, r.id? a = some i := by
  induction l generalizing r with
  | nil => simp [forgetAll]
  | cons a rest ih =>
      rw [forgetAll, List.foldl_cons, ← forgetAll, ih, mem_retired_forget]
      constructor
      · rintro ((hi | ha) | ⟨b, hb, hbi⟩)
        · exact .inl hi
        · exact .inr ⟨a, List.mem_cons_self, ha⟩
        · rw [id?_forget] at hbi
          split at hbi
          · cases hbi
          · exact .inr ⟨b, List.mem_cons_of_mem _ hb, hbi⟩
      · rintro (hi | ⟨b, hb, hbi⟩)
        · exact .inl (.inl hi)
        · by_cases hba : b = a
          · exact .inl (.inr (hba ▸ hbi))
          · refine .inr ⟨b, (List.mem_cons.mp hb).resolve_left hba, ?_⟩
            rw [id?_forget, if_neg hba]
            exact hbi

theorem next_forgetAll (r : Registries) (l : List Artifact) :
    (r.forgetAll l).ids.next = r.ids.next := by
  induction l generalizing r with
  | nil => rfl
  | cons a rest ih => rw [forgetAll, List.foldl_cons, ← forgetAll, ih, next_forget]

theorem WF.forgetAll (h : r.WF) (l : List Artifact) : (r.forgetAll l).WF := by
  induction l generalizing r with
  | nil => exact h
  | cons a rest ih => exact ih (h.forget a)

end TraceTypes.Registries
