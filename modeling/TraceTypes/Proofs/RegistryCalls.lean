import TraceTypes.Proofs.Identity
/-!
# Registries and allocator in step

Whatever is registered, forgotten, undone, owned or purged, the entries of the
registries and the owners of the ids say the same (`InStep`), and an id never
comes back:

* `WF.step` — all that a call can do, given that the two agree before it;
* `Sound` — the agreement with what is known of the retired ids, kept by every
  step;
* `Gone`, `Void` — an id that no artifact has any more, and one of which nothing
  is remembered. Both are for good;
* `Registered`, `Forgot`, `Released` — what a run has done to an id. What has
  become of the id follows from these (`WF.id?_after_cases`).
-/

namespace TraceTypes.Registries

/-- The calls that can be made on registries. -/
inductive Call where
  | register (a : Artifact)
  | forget (a : Artifact)
  | unregister (a : Artifact)
  | setOwner (a : Artifact) (owner : Handle)
  | purge
  deriving DecidableEq

/-- The registries behind a call. -/
def Call.make (r : Registries) : Call → Registries
  | .register a =>
    match r.register a with
    | .ok (_, r') => r'
    | .error _ => r
  | .forget a => (r.forget a).2
  | .unregister a => r.unregister a
  | .setOwner a owner => r.setOwner a owner
  | .purge => r.purge.2

/-- Whether the call is a registration. -/
def Call.isRegister : Call → Bool
  | .register _ => true
  | _ => false

/-- The registries behind these calls. -/
def after (r : Registries) (calls : List Call) : Registries := calls.foldl Call.make r

variable {r r' : Registries} {a : Artifact} {i : TraceId} {call : Call} {calls : List Call}

theorem after_append (r : Registries) (calls rest : List Call) :
    r.after (calls ++ rest) = (r.after calls).after rest := List.foldl_append

/-! ## One call -/

/-- What a call does where entries and ids agree: then every registration succeeds. -/
inductive Step (r : Registries) : Call → Registries → Prop
  | known {a : Artifact} {i : TraceId} (h : r.id? a = some i) : Step r (.register a) r
  | enroll {a : Artifact} (h : r.id? a = none) : Step r (.register a) (r.enroll a)
  | forget (a : Artifact) : Step r (.forget a) (r.forget a).2
  | unregister (a : Artifact) : Step r (.unregister a) (r.unregister a)
  | setOwner (a : Artifact) (owner : Handle) : Step r (.setOwner a owner) (r.setOwner a owner)
  | purge : Step r .purge r.purge.2

theorem WF.step (h : r.WF) (call : Call) : Step r call (call.make r) := by
  cases call with
  | register a =>
      cases ha : r.id? a with
      | some i =>
          rw [Call.make, register_of_some ha]
          exact .known ha
      | none =>
          rw [Call.make, h.register_of_none ha]
          exact .enroll ha
  | forget a => exact .forget a
  | unregister a => exact .unregister a
  | setOwner a owner => exact .setOwner a owner
  | purge => exact .purge

theorem Step.wf (h : Step r call r') (hwf : r.WF) : r'.WF := by
  cases h with
  | known => exact hwf
  | enroll ha => exact hwf.enroll ha
  | forget a => exact hwf.forget a
  | unregister a => exact hwf.unregister a
  | setOwner a owner => exact hwf.setOwner a owner
  | purge => exact hwf.purge

theorem WF.make (h : r.WF) (call : Call) : (call.make r).WF := (h.step call).wf h

theorem WF.after (h : r.WF) (calls : List Call) : (r.after calls).WF := by
  induction calls generalizing r with
  | nil => exact h
  | cons call rest ih => exact ih (h.make call)

/-- Ids are handed out by registrations only, one at a time. -/
theorem Step.next (h : Step r call r') : r.ids.next ≤ r'.ids.next ∧
    r'.ids.next ≤ r.ids.next + if call.isRegister then 1 else 0 := by
  cases h with
  | known => exact ⟨Nat.le_refl _, Nat.le_succ _⟩
  | enroll => exact ⟨Nat.le_succ _, Nat.le_refl _⟩
  | forget a =>
      rw [next_forget]
      exact ⟨Nat.le_refl _, Nat.le_refl _⟩
  | unregister a =>
      rw [next_unregister]
      exact ⟨Nat.le_refl _, Nat.le_refl _⟩
  | setOwner | purge => exact ⟨Nat.le_refl _, Nat.le_refl _⟩

/-- The retired ids are those that the call finds, unless it drops them, and the one that it
retires. -/
theorem Step.mem_retired (h : Step r call r') : i ∈ r'.ids.retired ↔
    call ≠ .purge ∧ (i ∈ r.ids.retired ∨ ∃ a, call = .forget a ∧ r.id? a = some i) := by
  cases h with
  | forget a => simp [mem_retired_forget]
  | unregister a => simp
  | known | enroll | setOwner => simp [Registries.enroll, Registries.setOwner]
  | purge => simp [Registries.purge, IdAllocator.purge]

/-- Only a registration gives an artifact an id. -/
theorem Step.id?_or_register (h : Step r call r') (hwf : r.WF) (ha : r'.id? a = some i) :
    r.id? a = some i ∨ call = .register a ∧ r.register a = .ok ((i, true), r') := by
  cases h with
  | known | purge => exact .inl ha
  | @enroll b hb =>
      rw [id?_enroll] at ha
      split at ha
      · rename_i hab
        subst hab
        cases ha
        exact .inr ⟨rfl, hwf.register_of_none hb⟩
      · exact .inl ha
  | forget b =>
      rw [id?_forget] at ha
      split at ha
      · cases ha
      · exact .inl ha
  | unregister b =>
      rw [id?_unregister] at ha
      split at ha
      · cases ha
      · exact .inl ha
  | setOwner b owner =>
      rw [id?_setOwner] at ha
      exact .inl ha

/-- An artifact loses its id only where it is dropped itself. -/
theorem Step.id?_or_dropped (h : Step r call r') (ha : r.id? a = some i) :
    r'.id? a = some i ∨ call = .forget a ∨ call = .unregister a := by
  cases h with
  | known | purge => exact .inl ha
  | @enroll b hb =>
      rw [id?_enroll, if_neg]
      · exact .inl ha
      · rintro rfl
        rw [ha] at hb
        cases hb
  | forget b =>
      rw [id?_forget]
      split
      · rename_i hab
        exact .inr (.inl (hab ▸ rfl))
      · exact .inl ha
  | unregister b =>
      rw [id?_unregister]
      split
      · rename_i hab
        exact .inr (.inr (hab ▸ rfl))
      · exact .inl ha
  | setOwner b owner =>
      rw [id?_setOwner]
      exact .inl ha

/-! ## Ids out of use -/

/-- The id was handed out, and no artifact has it. -/
structure Gone (r : Registries) (i : TraceId) : Prop where
  pos : 0 < i
  lt_next : i < r.ids.next
  owner : r.ids.owners.get? i = none

/-- What is handed out are new ids, so one that is gone is gone for good. -/
theorem Step.gone (h : Step r call r') (hi : Gone r i) : Gone r' i := by
  refine ⟨hi.pos, Nat.lt_of_lt_of_le hi.lt_next h.next.1, ?_⟩
  cases h with
  | known | setOwner | purge => exact hi.owner
  | enroll =>
      rw [owner?_enroll, if_neg (Nat.ne_of_lt hi.lt_next)]
      exact hi.owner
  | forget a =>
      rw [owner?_forget, hi.owner, ite_self]
  | unregister a =>
      rw [owner?_unregister, hi.owner, ite_self]

/-- Nothing is known of the id any more. -/
def Void (r : Registries) (i : TraceId) : Prop := Gone r i ∧ i ∉ r.ids.retired

/-- Only ids of artifacts are retired. -/
theorem Step.void (h : Step r call r') (hwf : r.WF) (hi : Void r i) : Void r' i := by
  refine ⟨h.gone hi.1, ?_⟩
  rw [h.mem_retired]
  rintro ⟨-, hretired | ⟨a, -, ha⟩⟩
  · exact hi.2 hretired
  · rw [hwf.owner_iff, hi.1.owner] at ha
    cases ha

theorem Void.resolve (h : Void r i) : r.resolve i = .ok none := by
  rw [Registries.resolve, IdAllocator.owner, if_neg h.2, h.1.owner]

/-- What each step keeps holds after all of them. -/
theorem WF.after_induction {P : Registries → Prop}
    (hstep : ∀ r call r', r.WF → P r → Step r call r' → P r') (h : r.WF) (hr : P r)
    (calls : List Call) : P (r.after calls) := by
  induction calls generalizing r with
  | nil => exact hr
  | cons call rest ih => exact ih (h.make call) (hstep r call _ h hr (h.step call))

theorem Gone.after (hi : Gone r i) (h : r.WF) (calls : List Call) : Gone (r.after calls) i :=
  h.after_induction (fun _ _ _ _ hi hstep => hstep.gone hi) hi calls

theorem Void.after (hi : Void r i) (h : r.WF) (calls : List Call) : Void (r.after calls) i :=
  h.after_induction (fun _ _ _ hwf hi hstep => hstep.void hwf hi) hi calls

/-! ## Entries and ids in step -/

/-- Entries and ids agree, there are as many of the ones as of the others, and retired ids are
gone. -/
structure Sound (r : Registries) : Prop extends WF r where
  liveCount : r.ids.liveCount = (r.entries.map SlotTable.size).total
  retired : ∀ i ∈ r.ids.retired, Gone r i

/-- The entry that is dropped and the id that loses its owner make up for each other. -/
theorem Sound.size_dropEntry (h : r.Sound) {e : RegistryEntry} (he : r.entry? a = some e) :
    (r.ids.owners.erase e.id).size = ((r.dropEntry a).map SlotTable.size).total := by
  have howner : r.ids.owners.get? e.id = some a :=
    (h.owner_iff a e.id).mp (Option.map_eq_some_iff.mpr ⟨e, he, rfl⟩)
  have hids := SlotTable.size_erase_of_some howner
  have hentries := SlotTable.size_erase_of_some he
  have htotal := (r.entries.map SlotTable.size).total_set a.kind
    ((r.entries.get a.kind).erase a.handle).size
  have hcount : r.ids.owners.size = _ := h.liveCount
  rw [PerKind.get_map] at htotal
  rw [dropEntry, PerKind.map_set]
  omega

theorem Step.liveCount (hstep : Step r call r') (h : r.Sound) :
    r'.ids.liveCount = (r'.entries.map SlotTable.size).total := by
  have hcount : r.ids.owners.size = _ := h.liveCount
  cases hstep with
  | known | purge => exact hcount
  | @enroll a ha =>
      have hentries := SlotTable.size_insert_of_none (id?_eq_none_iff.mp ha) ⟨r.ids.next, none⟩
      have hids := SlotTable.size_insert_of_none h.next_free a
      have htotal := (r.entries.map SlotTable.size).total_set_add a.kind 1
      show (r.ids.owners.insert r.ids.next a).size = ((r.entries.set _ _).map _).total
      rw [PerKind.map_set, hentries, hids, hcount, ← htotal, PerKind.get_map]
  | forget a =>
      unfold Registries.forget
      cases he : r.entry? a with
      | none => exact hcount
      | some e => exact h.size_dropEntry he
  | unregister a =>
      unfold Registries.unregister
      cases he : r.entry? a with
      | none => exact hcount
      | some e => exact h.size_dropEntry he
  | setOwner a owner =>
      show r.ids.owners.size = ((r.entries.set _ _).map _).total
      have htotal := (r.entries.map SlotTable.size).total_set_add a.kind 0
      rw [PerKind.get_map] at htotal
      rw [PerKind.map_set, SlotTable.size_modify, hcount]
      exact htotal.symm

/-- An artifact's id is gone when the artifact is forgotten, or its registration undone. -/
theorem WF.gone_forget (h : r.WF) (ha : r.id? a = some i) : Gone (r.forget a).2 i where
  pos := (h.bounds a i ha).1
  lt_next := by rw [next_forget]; exact (h.bounds a i ha).2
  owner := by rw [owner?_forget, if_pos ha]

theorem WF.gone_unregister (h : r.WF) (ha : r.id? a = some i) : Gone (r.unregister a) i where
  pos := (h.bounds a i ha).1
  lt_next := by rw [next_unregister]; exact (h.bounds a i ha).2
  owner := by rw [owner?_unregister, if_pos ha]

theorem Step.sound (hstep : Step r call r') (h : r.Sound) : r'.Sound := by
  refine ⟨hstep.wf h.toWF, hstep.liveCount h, ?_⟩
  intro i hi
  obtain ⟨-, hi | ⟨a, rfl, ha⟩⟩ := hstep.mem_retired.mp hi
  · exact hstep.gone (h.retired i hi)
  · cases hstep with
    | forget a => exact h.gone_forget ha

theorem sound_empty : ({} : Registries).Sound where
  toWF := wf_empty
  liveCount := rfl
  retired _ hi := absurd hi List.not_mem_nil

theorem sound_after (calls : List Call) : (after {} calls).Sound :=
  wf_empty.after_induction (fun _ _ _ _ h hstep => hstep.sound h) sound_empty calls

theorem Sound.not_retired (h : r.Sound) (ha : r.id? a = some i) : i ∉ r.ids.retired := by
  intro hi
  rw [h.owner_iff, (h.retired i hi).owner] at ha
  cases ha

/-! ## What a run has done -/

/-- A registration of the artifact in the run has answered the id. -/
def Registered (r : Registries) (calls : List Call) (a : Artifact) (i : TraceId) : Prop :=
  ∃ before later fresh r', calls = before ++ .register a :: later ∧
    (r.after before).register a = .ok ((i, fresh), r')

/-- The run has forgotten the artifact that had the id, and these calls came later. -/
def Forgot (r : Registries) (calls : List Call) (i : TraceId) (later : List Call) : Prop :=
  ∃ before a, calls = before ++ .forget a :: later ∧ (r.after before).id? a = some i

/-- The run has undone the registration of the artifact that had the id. -/
def Released (r : Registries) (calls : List Call) (i : TraceId) : Prop :=
  ∃ before a later, calls = before ++ .unregister a :: later ∧ (r.after before).id? a = some i

theorem after_split {before later : List Call} (h : calls = before ++ call :: later) :
    r.after calls = (call.make (r.after before)).after later := by
  rw [h, after_append]
  rfl

theorem next_le_after (h : r.WF) (calls : List Call) :
    r.ids.next ≤ (r.after calls).ids.next ∧
      (r.after calls).ids.next ≤ r.ids.next + calls.countP Call.isRegister := by
  induction calls generalizing r with
  | nil => exact ⟨Nat.le_refl _, Nat.le_refl _⟩
  | cons call rest ih =>
      have hstep := (h.step call).next
      have hrest := ih (h.make call)
      show _ ≤ ((call.make r).after rest).ids.next ∧ ((call.make r).after rest).ids.next ≤ _
      rw [List.countP_cons, Nat.add_comm (List.countP ..), ← Nat.add_assoc]
      exact ⟨Nat.le_trans hstep.1 hrest.1,
        Nat.le_trans hrest.2 (Nat.add_le_add_right hstep.2 _)⟩

/-- A registration leaves the artifact with its id, whatever comes later. -/
theorem Registered.exists_id? (h : Registered r calls a i) :
    ∃ before later, calls = before ++ .register a :: later ∧
      (Call.make (r.after before) (.register a)).id? a = some i := by
  obtain ⟨before, later, fresh, r', hcalls, hr⟩ := h
  refine ⟨before, later, hcalls, ?_⟩
  rw [Call.make, hr]
  exact id?_of_register hr

/-- What has been answered lies below the next id. -/
theorem Registered.lt_next (h : Registered r calls a i) (hwf : r.WF) :
    i < (r.after calls).ids.next := by
  obtain ⟨before, later, hcalls, hid⟩ := h.exists_id?
  have hmake := (hwf.after before).make (.register a)
  rw [after_split hcalls]
  exact Nat.lt_of_lt_of_le (hmake.bounds a i hid).2 (next_le_after hmake later).1

/-- Every id handed out in the run has been answered. -/
theorem registered_of_lt_next (h : r.WF) (hle : r.ids.next ≤ i)
    (hlt : i < (r.after calls).ids.next) : ∃ a, Registered r calls a i := by
  induction calls generalizing r with
  | nil => exact absurd hlt (Nat.not_lt.mpr hle)
  | cons call rest ih =>
      by_cases hnext : (call.make r).ids.next ≤ i
      · obtain ⟨a, before, later, fresh, r', rfl, hr⟩ := ih (h.make call) hnext hlt
        exact ⟨a, call :: before, later, fresh, r', rfl, hr⟩
      · -- the call hands out one id, which is this one
        have hstep := h.step call
        have hbound := hstep.next.2
        cases call with
        | register a =>
            cases ha : r.id? a with
            | some j =>
                rw [Call.make, register_of_some ha] at hnext
                exact absurd hle hnext
            | none =>
                have hr := h.register_of_none ha
                have hlt' : i < r.ids.next + 1 :=
                  Nat.lt_of_lt_of_le (Nat.lt_of_not_le hnext) hbound
                obtain rfl : i = r.ids.next := Nat.le_antisymm (Nat.le_of_lt_succ hlt') hle
                exact ⟨a, [], rest, true, _, rfl, hr⟩
        | forget | unregister | setOwner | purge =>
            simp only [Call.isRegister] at hbound
            exact absurd (Nat.le_trans hbound hle) hnext

/-- An id that an artifact has behind the run it had before, or it was registered under it. -/
theorem WF.registered_of_id? (h : r.WF) (ha : (r.after calls).id? a = some i) :
    r.id? a = some i ∨ Registered r calls a i := by
  induction calls generalizing r with
  | nil => exact .inl ha
  | cons call rest ih =>
      rcases ih (h.make call) ha with hid | ⟨before, later, fresh, r', rfl, hr⟩
      · rcases (h.step call).id?_or_register h hid with hid | ⟨rfl, hr⟩
        · exact .inl hid
        · exact .inr ⟨[], rest, true, _, rfl, hr⟩
      · exact .inr ⟨call :: before, later, fresh, r', rfl, hr⟩

/-- An artifact has its id behind the run, or it was forgotten, or its registration was undone. -/
theorem WF.id?_after_cases (h : r.WF) (ha : r.id? a = some i) (calls : List Call) :
    (r.after calls).id? a = some i ∨ (∃ later, Forgot r calls i later) ∨ Released r calls i := by
  induction calls generalizing r with
  | nil => exact .inl ha
  | cons call rest ih =>
      rcases (h.step call).id?_or_dropped ha with hid | rfl | rfl
      · rcases ih (h.make call) hid with hid | ⟨later, before, b, rfl, hb⟩ |
          ⟨before, b, later, rfl, hb⟩
        · exact .inl hid
        · exact .inr (.inl ⟨later, call :: before, b, rfl, hb⟩)
        · exact .inr (.inr ⟨call :: before, b, later, rfl, hb⟩)
      · exact .inr (.inl ⟨rest, [], a, rfl, ha⟩)
      · exact .inr (.inr ⟨[], a, rest, rfl, ha⟩)

theorem Forgot.exists_gone {later : List Call} (h : Forgot r calls i later) (hwf : r.WF) :
    ∃ r', r'.WF ∧ Gone r' i ∧ i ∈ r'.ids.retired ∧ r.after calls = r'.after later := by
  obtain ⟨before, a, hcalls, ha⟩ := h
  have hbefore := hwf.after before
  refine ⟨_, hbefore.forget a, hbefore.gone_forget ha, ?_, after_split hcalls⟩
  exact mem_retired_forget.mpr (.inr ha)

/-- A retired id stays so up to the next purge. -/
theorem WF.mem_retired_after (h : r.WF) (hi : i ∈ r.ids.retired) (hpurge : .purge ∉ calls) :
    i ∈ (r.after calls).ids.retired := by
  induction calls generalizing r with
  | nil => exact hi
  | cons call rest ih =>
      rw [List.mem_cons, not_or] at hpurge
      exact ih (h.make call) ((h.step call).mem_retired.mpr ⟨Ne.symm hpurge.1, .inl hi⟩) hpurge.2

/-- An id that is retired was so from the start, or has been forgotten, without a purge since. -/
theorem WF.forgot_of_mem_retired (h : r.WF) (hi : i ∈ (r.after calls).ids.retired) :
    i ∈ r.ids.retired ∧ .purge ∉ calls ∨ ∃ later, Forgot r calls i later ∧ .purge ∉ later := by
  induction calls generalizing r with
  | nil => exact .inl ⟨hi, List.not_mem_nil⟩
  | cons call rest ih =>
      rcases ih (h.make call) hi with ⟨hmem, hrest⟩ | ⟨later, ⟨before, a, rfl, ha⟩, hlater⟩
      · obtain ⟨hcall, hmem | ⟨a, rfl, ha⟩⟩ := (h.step call).mem_retired.mp hmem
        · refine .inl ⟨hmem, ?_⟩
          rw [List.mem_cons, not_or]
          exact ⟨Ne.symm hcall, hrest⟩
        · exact .inr ⟨rest, ⟨[], a, rfl, ha⟩, hrest⟩
      · exact .inr ⟨later, ⟨call :: before, a, rfl, ha⟩, hlater⟩

/-- What can be relied on behind a run. A look-up of an id finds the artifact that has it, or is a
violation, or finds nothing; which of these can be told from the calls alone. -/
structure InStep (calls : List Call) (r : Registries) : Prop where
  resolve_iff : ∀ a i, r.id? a = some i ↔ r.resolve i = .ok (some a)
  liveCount : r.ids.liveCount = (r.entries.map SlotTable.size).total
  live : ∀ a i, r.id? a = some i →
    Registered {} calls a i ∧ 0 < i ∧ i < r.ids.next ∧ i ∉ r.ids.retired
  retired : ∀ i ∈ r.ids.retired, 0 < i ∧ i < r.ids.next
  /-- No more ids are handed out than there are registrations. -/
  next_le : r.ids.next ≤ 1 + calls.countP Call.isRegister
  register_known : ∀ a i, r.id? a = some i → r.register a = .ok ((i, false), r)
  /-- A new id is greater than all that were answered before. -/
  register_fresh : ∀ a, r.id? a = none → ∃ i r', r.register a = .ok ((i, true), r') ∧
    r'.id? a = some i ∧ ∀ b j, Registered {} calls b j → j < i
  forgotten_iff : ∀ i v, r.resolve i = .error v ↔
    v = .forgottenId i ∧ ∃ later, Forgot {} calls i later ∧ .purge ∉ later
  /-- Nothing is found under an id that was not answered, was released, or purged. -/
  unknown_iff : ∀ i, r.resolve i = .ok none ↔
    (∀ a, ¬ Registered {} calls a i) ∨ Released {} calls i ∨
      ∃ later, Forgot {} calls i later ∧ .purge ∈ later

theorem Sound.resolve_iff (h : r.Sound) : r.id? a = some i ↔ r.resolve i = .ok (some a) := by
  unfold Registries.resolve IdAllocator.owner
  rw [h.owner_iff]
  split
  · rename_i hi
    simp [(h.retired i hi).owner]
  · simp

theorem resolve_error_iff {v : Violation} :
    r.resolve i = .error v ↔ v = .forgottenId i ∧ i ∈ r.ids.retired := by
  unfold Registries.resolve IdAllocator.owner
  split
  · simp [*, eq_comm]
  · simp [*]

/-- An artifact's id is not retired, so nothing is known of it when its registration is undone. -/
theorem Released.void (h : Released {} calls i) : Void (after {} calls) i := by
  obtain ⟨before, a, later, hcalls, ha⟩ := h
  have hbefore := sound_after before
  have hvoid : Void ((after {} before).unregister a) i := by
    refine ⟨hbefore.gone_unregister ha, ?_⟩
    rw [retired_unregister]
    exact hbefore.not_retired ha
  rw [after_split hcalls]
  exact hvoid.after (hbefore.toWF.unregister a) later

/-- A purge drops the memory of a forgotten id. -/
theorem Forgot.void {later : List Call} (h : Forgot {} calls i later) (hpurge : .purge ∈ later) :
    Void (after {} calls) i := by
  obtain ⟨r, hwf, hgone, -, hafter⟩ := h.exists_gone wf_empty
  obtain ⟨middle, rest, hlater⟩ := List.append_of_mem hpurge
  have hmiddle := hwf.after middle
  have hvoid : Void (r.after middle).purge.2 i :=
    ⟨Step.purge.gone (hgone.after hwf middle), List.not_mem_nil⟩
  rw [hafter, after_split hlater]
  exact hvoid.after hmiddle.purge rest

/-- What was not handed out has no artifact and is not retired. -/
theorem Sound.resolve_of_not_lt (h : r.Sound) (hi : ¬ (0 < i ∧ i < r.ids.next)) :
    r.resolve i = .ok none := by
  have hretired : i ∉ r.ids.retired := by
    intro hmem
    have hgone := h.retired i hmem
    exact hi ⟨hgone.pos, hgone.lt_next⟩
  rw [Registries.resolve, IdAllocator.owner, if_neg hretired]
  cases ho : r.ids.owners.get? i with
  | none => rfl
  | some a => exact absurd (h.bounds a i ((h.owner_iff a i).mpr ho)) hi

/-- A registered artifact has its id still, or it was forgotten, or its registration was undone. -/
theorem Registered.cases (h : Registered r calls a i) (hwf : r.WF) :
    (r.after calls).id? a = some i ∨ (∃ later, Forgot r calls i later) ∨ Released r calls i := by
  obtain ⟨before, later, hcalls, hid⟩ := h.exists_id?
  have hmake := (hwf.after before).make (.register a)
  rw [after_split hcalls]
  rcases hmake.id?_after_cases hid later with hid | ⟨rest, middle, b, hlater, hb⟩ |
    ⟨middle, b, rest, hlater, hb⟩
  · exact .inl hid
  · refine .inr (.inl ⟨rest, before ++ .register a :: middle, b, ?_, ?_⟩)
    · rw [hcalls, hlater, List.append_assoc, List.cons_append]
    · rwa [after_split rfl]
  · refine .inr (.inr ⟨before ++ .register a :: middle, b, rest, ?_, ?_⟩)
    · rw [hcalls, hlater, List.append_assoc, List.cons_append]
    · rwa [after_split rfl]

/-- The retired ids are the forgotten ones, without a purge since. -/
theorem mem_retired_iff : i ∈ (after {} calls).ids.retired ↔
    ∃ later, Forgot {} calls i later ∧ .purge ∉ later := by
  constructor
  · intro hi
    rcases wf_empty.forgot_of_mem_retired hi with ⟨hmem, -⟩ | hforgot
    · exact absurd hmem List.not_mem_nil
    · exact hforgot
  · rintro ⟨later, hforgot, hpurge⟩
    obtain ⟨r, hwf, -, hmem, hafter⟩ := hforgot.exists_gone wf_empty
    rw [hafter]
    exact hwf.mem_retired_after hmem hpurge

theorem resolve_eq_none_iff : (after {} calls).resolve i = .ok none ↔
    (∀ a, ¬ Registered {} calls a i) ∨ Released {} calls i ∨
      ∃ later, Forgot {} calls i later ∧ .purge ∈ later := by
  have h := sound_after calls
  constructor
  · intro hnone
    by_cases hregistered : ∃ a, Registered {} calls a i
    · obtain ⟨a, ha⟩ := hregistered
      rcases ha.cases wf_empty with hid | ⟨later, hforgot⟩ | hreleased
      · rw [h.resolve_iff.mp hid] at hnone
        cases hnone
      · refine .inr (.inr ⟨later, hforgot, Decidable.byContradiction fun hpurge => ?_⟩)
        have hretired := mem_retired_iff.mpr ⟨later, hforgot, hpurge⟩
        rw [resolve_error_iff.mpr ⟨rfl, hretired⟩] at hnone
        cases hnone
      · exact .inr (.inl hreleased)
    · exact .inl fun a ha => hregistered ⟨a, ha⟩
  · rintro (hnew | hreleased | ⟨later, hforgot, hpurge⟩)
    · refine h.resolve_of_not_lt fun hbounds => ?_
      obtain ⟨a, ha⟩ := registered_of_lt_next wf_empty hbounds.1 hbounds.2
      exact hnew a ha
    · exact hreleased.void.resolve
    · exact (hforgot.void hpurge).resolve

/-- Registries and allocator are in step behind every run, and no id comes back. -/
theorem inStep_after (calls : List Call) : InStep calls (after {} calls) := by
  have h := sound_after calls
  constructor
  case resolve_iff => exact fun a i => h.resolve_iff
  case liveCount => exact h.liveCount
  case live =>
    intro a i ha
    have hbounds := h.bounds a i ha
    have hregistered := (wf_empty.registered_of_id? ha).resolve_left (by simp [id?, entry?])
    exact ⟨hregistered, hbounds.1, hbounds.2, h.not_retired ha⟩
  case retired => exact fun i hi => ⟨(h.retired i hi).pos, (h.retired i hi).lt_next⟩
  case next_le => exact (next_le_after wf_empty calls).2
  case register_known => exact fun a i ha => register_of_some ha
  case register_fresh =>
    intro a ha
    have hr := h.register_of_none ha
    exact ⟨_, _, hr, id?_of_register hr, fun b j hj => hj.lt_next wf_empty⟩
  case forgotten_iff =>
    intro i v
    rw [resolve_error_iff, mem_retired_iff]
  case unknown_iff => exact fun i => resolve_eq_none_iff

/-- A class is forgotten, after the registration of a method was undone. -/
def sampleCalls : List Call :=
  [.register (.cls 7), .register (.method 8), .setOwner (.method 8) 7, .unregister (.method 8),
    .forget (.cls 7)]

/-- The class comes back under another id. -/
theorem inStep_after_sample :
    (after {} (sampleCalls ++ [.register (.cls 7)])).resolve 1 = .error (.forgottenId 1) ∧
    (after {} (sampleCalls ++ [.register (.cls 7)])).resolve 2 = .ok none ∧
    (after {} (sampleCalls ++ [.register (.cls 7)])).resolve 3 = .ok (some (.cls 7)) ∧
    (after {} (sampleCalls ++ [.purge])).resolve 1 = .ok none := by
  have hforgot (later : List Call) : Forgot {} (sampleCalls ++ later) 1 later :=
    ⟨sampleCalls.take 4, .cls 7, rfl, by decide +kernel⟩
  have hreleased (later : List Call) : Released {} (sampleCalls ++ later) 2 :=
    ⟨sampleCalls.take 3, .method 8, .forget (.cls 7) :: later, rfl, by decide +kernel⟩
  have h := inStep_after (sampleCalls ++ [.register (.cls 7)])
  refine ⟨?_, ?_, ?_, ?_⟩
  · exact (h.forgotten_iff 1 _).mpr ⟨rfl, _, hforgot _, by decide⟩
  · exact (h.unknown_iff 2).mpr (.inr (.inl (hreleased _)))
  · exact (h.resolve_iff (.cls 7) 3).mp (by decide +kernel)
  · exact ((inStep_after _).unknown_iff 1).mpr (.inr (.inr ⟨_, hforgot [.purge], by decide⟩))

end TraceTypes.Registries
