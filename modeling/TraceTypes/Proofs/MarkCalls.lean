import Mathlib.Data.Set.Card
import Mathlib.Logic.Function.Basic
import TraceTypes.Proofs.Repetition
/-!
# A mark table as a map

A `MarkTable` is called from everywhere: events raise marks, checkpoints raise and
lower them, and what is unloaded is forgotten. Over all such calls, in any order, it
is two things:

* **a map** from artifacts to three bits (`MarkMap`). Each call does to the table what
  it does to the map (`toMap_make`), and the map answers all questions
  (`Represents`);
* **a row of slots** for each kind. `SlotStep` says what a call does to a row: a new
  artifact gets the slot behind the others, and a freed slot is filled with the last
  one. Where none is freed the slots are in order of creation
  (`handles_after_of_no_forget`).
-/

namespace TraceTypes

/-- What is known of each artifact: nothing, or three bits. -/
abbrev MarkMap := Artifact → Option (Mark → Bool)

namespace MarkTable

/-- The calls that can be made on a table of marks. -/
inductive Call where
  | raise (m : Mark) (a : Artifact)
  | lower (m : Mark) (a : Artifact)
  | lowerAll (m : Mark)
  | forget (a : Artifact)
  deriving DecidableEq

/-- The table behind a call. -/
def Call.make (t : MarkTable) : Call → MarkTable
  | .raise m a => (t.raise m a).2
  | .lower m a => t.lower m a
  | .lowerAll m => t.lowerAll m
  | .forget a => t.forget a

/-- The table behind these calls. -/
def after (t : MarkTable) (calls : List Call) : MarkTable := calls.foldl Call.make t

end MarkTable

namespace MarkMap

/-- The bits of an artifact; of one that is not known all are clear. -/
def bits (f : MarkMap) (a : Artifact) : Mark → Bool := (f a).getD fun _ => false

/-- The map behind a call. -/
def make (f : MarkMap) : MarkTable.Call → MarkMap
  | .raise m a => Function.update f a (some (Function.update (f.bits a) m true))
  | .lower m a => Function.update f a ((f a).map fun s => Function.update s m false)
  | .lowerAll m => fun a => (f a).map fun s => Function.update s m false
  | .forget a => Function.update f a none

/-- The map behind these calls. -/
def after (f : MarkMap) (calls : List MarkTable.Call) : MarkMap := calls.foldl make f

end MarkMap

theorem Marks.has_put_eq_update (s : Marks) (m : Mark) (v : Bool) :
    (s.put m v).has = Function.update s.has m v := by
  funext m'
  rw [has_put, Function.update_apply]

namespace MarkTable

variable {t t' : MarkTable} {call : Call} {calls : List Call} {k : Kind} {l l' : List Handle}

/-! ## The map -/

/-- The marks of all artifacts, whatever slots they have. -/
def toMap (t : MarkTable) : MarkMap := fun a => (t.slot? a).map Marks.has

theorem bits_toMap (t : MarkTable) (a : Artifact) : t.toMap.bits a = (t.marks a).has := by
  unfold MarkMap.bits toMap marks
  cases t.slot? a with
  | none => exact (funext Marks.has_default).symm
  | some s => rfl

/-- A call does to the map what it does to the table. -/
theorem toMap_make (t : MarkTable) (call : Call) : (call.make t).toMap = t.toMap.make call := by
  funext b
  cases call with
  | raise m a =>
      simp only [toMap, Call.make, MarkMap.make, slot?_raise, Function.update_apply]
      split
      · rw [Option.map_some, Marks.has_put_eq_update, ← bits_toMap]
      · rfl
  | lower m a =>
      simp only [toMap, Call.make, MarkMap.make, slot?_lower, Function.update_apply]
      split
      · simp [Function.comp_def, Marks.has_put_eq_update]
      · rfl
  | lowerAll m =>
      simp [toMap, Call.make, MarkMap.make, slot?_lowerAll, Function.comp_def,
        Marks.has_put_eq_update]
  | forget a =>
      simp only [toMap, Call.make, MarkMap.make, slot?_forget, Function.update_apply]
      split <;> rfl

theorem toMap_after (t : MarkTable) (calls : List Call) :
    (t.after calls).toMap = t.toMap.after calls := by
  induction calls generalizing t with
  | nil => rfl
  | cons call rest ih =>
      show ((call.make t).after rest).toMap = (t.toMap.make call).after rest
      rw [ih, toMap_make]

/-! ## The slots -/

/-- The artifacts of a kind that have a slot, in slot order. -/
def handles (t : MarkTable) (k : Kind) : List Handle := (t.slots.get k).keys

theorem nodup_handles (t : MarkTable) (k : Kind) : (t.handles k).Nodup :=
  (t.slots.get k).nodup_keys

theorem mem_handles {h : Handle} : h ∈ t.handles k ↔ t.knows ⟨k, h⟩ = true :=
  SlotTable.mem_keys_iff_get?

/-- The enumeration of a mark leaves out the slots without it. -/
theorem carrying_eq_filter (t : MarkTable) (m : Mark) (k : Kind) :
    t.carrying m k = (t.handles k).filter fun h => t.has m ⟨k, h⟩ := by
  unfold carrying handles SlotTable.keys
  rw [List.filter_map]
  congr 1
  refine List.filter_congr ?_
  rintro ⟨h, s⟩ hmem
  have hget : (t.slots.get k).get? h = some s := SlotTable.get?_eq_some_iff.mpr hmem
  simp [has, marks, slot?, hget]

theorem taggedCount_eq_ncard (t : MarkTable) :
    t.taggedCount = {a | t.isTagged a = true}.ncard := by
  have hset : {a | t.isTagged a = true} = ↑t.allTagged.toFinset := by
    ext a
    simp [mem_allTagged]
  rw [hset, Set.ncard_coe_finset, List.toFinset_card_of_nodup t.nodup_allTagged]
  rfl

/-- What a call does to the row of slots of a kind. -/
inductive SlotStep (k : Kind) : List Handle → Call → List Handle → Prop
  | created {l : List Handle} {m : Mark} {h : Handle} (hnew : h ∉ l) :
      SlotStep k l (.raise m ⟨k, h⟩) (l ++ [h])
  | freedLast {before : List Handle} {h : Handle} :
      SlotStep k (before ++ [h]) (.forget ⟨k, h⟩) before
  | freed {before between : List Handle} {h last : Handle} :
      SlotStep k (before ++ h :: (between ++ [last])) (.forget ⟨k, h⟩)
        (before ++ last :: between)
  | kept {l : List Handle} {call : Call} (hraise : ∀ m h, call = .raise m ⟨k, h⟩ → h ∈ l)
      (hforget : ∀ h, call = .forget ⟨k, h⟩ → h ∉ l) : SlotStep k l call l

theorem handles_raise (t : MarkTable) (m : Mark) (a : Artifact) (k : Kind) :
    (t.raise m a).2.handles k =
      if k = a.kind ∧ a.handle ∉ t.handles k then t.handles k ++ [a.handle] else t.handles k := by
  unfold handles raise
  rw [PerKind.get_set]
  split
  · rename_i hk
    rw [hk]
    split
    · rename_i hnew
      exact SlotTable.keys_insert_of_not_mem hnew.2 _
    · rename_i hnew
      exact SlotTable.keys_insert_of_mem (not_not.mp fun h => hnew ⟨rfl, h⟩) _
  · rename_i hk
    rw [if_neg fun h => hk h.1]

theorem handles_lower (t : MarkTable) (m : Mark) (a : Artifact) (k : Kind) :
    (t.lower m a).handles k = t.handles k := by
  unfold handles lower SlotTable.modify
  rw [PerKind.get_set]
  split
  · rename_i hk
    rw [hk, SlotTable.keys_mapValues]
  · rfl

theorem handles_lowerAll (t : MarkTable) (m : Mark) (k : Kind) :
    (t.lowerAll m).handles k = t.handles k := by
  unfold handles lowerAll
  rw [PerKind.get_map, SlotTable.keys_mapValues]

theorem handles_forget_of_ne (t : MarkTable) {a : Artifact} (hk : k ≠ a.kind) :
    (t.forget a).handles k = t.handles k := by
  unfold handles forget
  rw [PerKind.get_set, if_neg hk]

theorem handles_forget (t : MarkTable) (k : Kind) (h : Handle) :
    (t.forget ⟨k, h⟩).handles k = ((t.slots.get k).swapErase h).keys := by
  unfold handles forget
  rw [PerKind.get_set_self]

/-- The row behind a call follows from the row before it. -/
theorem slotStep_make (t : MarkTable) (call : Call) (k : Kind) :
    SlotStep k (t.handles k) call ((call.make t).handles k) := by
  cases call with
  | raise m a =>
      rw [Call.make, handles_raise]
      split
      · rename_i hnew
        obtain ⟨rfl, hnew⟩ := hnew
        exact .created hnew
      · rename_i hnew
        refine .kept ?_ fun _ h => nomatch h
        rintro _ h ⟨⟩
        exact not_not.mp fun hh => hnew ⟨rfl, hh⟩
  | lower m a =>
      rw [Call.make, handles_lower]
      exact .kept (fun _ _ h => nomatch h) fun _ h => nomatch h
  | lowerAll m =>
      rw [Call.make, handles_lowerAll]
      exact .kept (fun _ _ h => nomatch h) fun _ h => nomatch h
  | forget a =>
      obtain ⟨k', h⟩ := a
      rw [Call.make]
      by_cases hslot : k = k' ∧ h ∈ t.handles k
      · obtain ⟨rfl, hmem⟩ := hslot
        rw [handles_forget]
        obtain ⟨before, hrow, hnow⟩ | ⟨before, between, last, hrow, hnow⟩ :=
          SlotTable.keys_swapErase_cases hmem
        · rw [hnow, handles, hrow]
          exact .freedLast
        · rw [hnow, handles, hrow]
          exact .freed
      · have hrow : (t.forget ⟨k', h⟩).handles k = t.handles k := by
          by_cases hk : k = k'
          · subst hk
            rw [handles_forget]
            exact SlotTable.keys_swapErase_of_not_mem fun hmem => hslot ⟨rfl, hmem⟩
          · exact t.handles_forget_of_ne hk
        rw [hrow]
        refine .kept (fun _ _ h => nomatch h) ?_
        rintro _ ⟨⟩ hmem
        exact hslot ⟨rfl, hmem⟩

/-- The artifacts of a kind on which a mark is raised, call by call. -/
def raised (k : Kind) (calls : List Call) : List Handle :=
  calls.filterMap fun
    | .raise _ a => if a.kind = k then some a.handle else none
    | _ => none

theorem eraseDups_of_nodup {l : List Handle} (h : l.Nodup) : l.eraseDups = l := by
  induction l with
  | nil => rfl
  | cons n rest ih =>
      obtain ⟨hn, hrest⟩ := List.nodup_cons.mp h
      have hfilter : rest.filter (fun b => !b == n) = rest := by
        rw [List.filter_eq_self]
        intro b hb
        have : b ≠ n := fun heq => hn (heq ▸ hb)
        simpa using this
      rw [List.eraseDups_cons, hfilter, ih hrest]

theorem eraseDups_eraseDups_append (l rest : List Handle) :
    (l.eraseDups ++ rest).eraseDups = (l ++ rest).eraseDups := by
  rw [List.eraseDups_append, List.eraseDups_append, eraseDups_of_nodup (nodup_eraseDups l)]
  simp [List.removeAll]

/-- A call that frees no slot of the kind has only a new artifact to add. -/
theorem SlotStep.eq_eraseDups (hstep : SlotStep k l call l') (hl : l.Nodup)
    (hcall : ∀ h, call ≠ .forget ⟨k, h⟩) : l' = (l ++ raised k [call]).eraseDups := by
  cases hstep with
  | @created _ m h hnew =>
      have hfresh : (l ++ [h]).Nodup := by
        rw [List.nodup_append']
        exact ⟨hl, List.nodup_singleton h, List.disjoint_singleton.mpr hnew⟩
      simp [raised, eraseDups_of_nodup hfresh]
  | freedLast | freed => exact absurd rfl (hcall _)
  | kept hraise hforget =>
      have hknown : raised k [call] = [] ∨ ∃ h ∈ l, raised k [call] = [h] := by
        cases call with
        | raise m a =>
            by_cases hk : a.kind = k
            · subst hk
              exact .inr ⟨a.handle, hraise m _ rfl, by simp [raised]⟩
            · exact .inl (by simp [raised, hk])
        | lower | lowerAll | forget => exact .inl rfl
      obtain hnone | ⟨h, hmem, hone⟩ := hknown
      · rw [hnone, List.append_nil, eraseDups_of_nodup hl]
      · rw [hone, List.eraseDups_append, eraseDups_of_nodup hl]
        simp [List.removeAll, hmem]

/-- Where no slot of the kind is freed, the slots are in the order in which they were created. -/
theorem handles_after (t : MarkTable) (hcalls : ∀ h, .forget ⟨k, h⟩ ∉ calls) :
    (t.after calls).handles k = (t.handles k ++ raised k calls).eraseDups := by
  induction calls generalizing t with
  | nil =>
      rw [raised, List.filterMap_nil, List.append_nil, eraseDups_of_nodup (t.nodup_handles k)]
      rfl
  | cons call rest ih =>
      have hstep := (t.slotStep_make call k).eq_eraseDups (t.nodup_handles k)
        fun h heq => hcalls h (heq ▸ List.mem_cons_self)
      show ((call.make t).after rest).handles k = _
      rw [ih _ fun h hmem => hcalls h (List.mem_cons_of_mem _ hmem), hstep,
        eraseDups_eraseDups_append, List.append_assoc, raised, raised, raised, ← List.filterMap_append]
      rfl

/-! ## Map and slots of a run -/

/-- The marks on which a call may have an effect. -/
def Call.Touches : Call → Mark → Artifact → Prop
  | .raise m a, m', a' | .lower m a, m', a' => m' = m ∧ a' = a
  | .lowerAll m, m', _ => m' = m
  | .forget a, _, a' => a' = a

/-- No call has an effect on any other mark, or on another artifact. -/
theorem has_make_of_not_touches (t : MarkTable) {m : Mark} {a : Artifact}
    (h : ¬ call.Touches m a) : (call.make t).has m a = t.has m a := by
  cases call with
  | raise m' b =>
      rw [Call.make, has_raise, if_neg]
      exact fun hm => h ⟨hm.2, hm.1⟩
  | lower m' b =>
      rw [Call.make, has_lower, if_neg]
      exact fun hm => h ⟨hm.2, hm.1⟩
  | lowerAll m' =>
      rw [Call.make, has_lowerAll, if_neg]
      exact h
  | forget b =>
      rw [Call.make, has_forget, if_neg]
      exact h

/-- All that the table is asked is answered by the map, up to the order of the slots. -/
structure Represents (t : MarkTable) (f : MarkMap) : Prop where
  knows : ∀ a, t.knows a = (f a).isSome
  has : ∀ m a, t.has m a = f.bits a m
  /-- To raise a mark tells whether it was clear. -/
  raise : ∀ m a, (t.raise m a).1 = !f.bits a m
  /-- The slots hold what is known, each artifact once. -/
  handles : ∀ k, (t.handles k).Nodup ∧ ∀ h, h ∈ t.handles k ↔ (f ⟨k, h⟩).isSome = true
  /-- Who carries a mark is enumerated once. -/
  carrying : ∀ m k, (t.carrying m k).Nodup ∧
    ∀ h, h ∈ t.carrying m k ↔ f.bits ⟨k, h⟩ m = true
  /-- The enumeration is in slot order. -/
  slotOrder : ∀ m k, t.carrying m k = (t.handles k).filter fun h => f.bits ⟨k, h⟩ m
  taggedCount : t.taggedCount = {a | f.bits a .referenced = true}.ncard

theorem represents_toMap (t : MarkTable) : t.Represents t.toMap := by
  have hhas : ∀ m a, t.has m a = t.toMap.bits a m := by
    intro m a
    rw [bits_toMap]
    rfl
  have hknows : ∀ a, t.knows a = (t.toMap a).isSome := fun a => Option.isSome_map.symm
  refine ⟨hknows, hhas, ?_, fun k => ⟨t.nodup_handles k, ?_⟩, fun m k => ⟨t.nodup_carrying m k, ?_⟩,
    ?_, ?_⟩
  · intro m a
    rw [← hhas]
    rfl
  · intro h
    rw [mem_handles, hknows]
  · intro h
    rw [mem_carrying, hhas]
  · intro m k
    simp only [carrying_eq_filter, hhas]
  · simp only [taggedCount_eq_ncard, isTagged, hhas]

/-- However the table is called, its questions are answered by the map that has been called the same
way; each further call leaves the marks alone that it does not touch and makes a step on the slots of
each kind; and slots created since one was last freed are in order of creation, behind the
others. -/
theorem after_represents (calls : List Call) :
    (after {} calls).Represents (MarkMap.after (fun _ => none) calls) ∧
    (∀ call : Call,
      (∀ m a, ¬ call.Touches m a →
        (call.make (after {} calls)).has m a = (after {} calls).has m a) ∧
      ∀ k, SlotStep k ((after {} calls).handles k) call
        ((call.make (after {} calls)).handles k)) ∧
    ∀ k before rest, calls = before ++ rest → (∀ h, .forget ⟨k, h⟩ ∉ rest) →
      (after {} calls).handles k = ((after {} before).handles k ++ raised k rest).eraseDups := by
  refine ⟨?_, fun call => ⟨fun m a => has_make_of_not_touches _, slotStep_make _ call⟩, ?_⟩
  · have hempty : toMap {} = fun _ => none := by
      funext ⟨k, h⟩
      cases k <;> rfl
    rw [← hempty, ← toMap_after]
    exact represents_toMap _
  · rintro k before rest rfl hrest
    rw [after, List.foldl_append]
    exact handles_after _ hrest

/-- Three classes are tagged, and the first one is forgotten. The one at the end comes to the front
then, and what is tagged next is behind the others. -/
def sampleCalls : List Call :=
  [.raise .referenced (.cls 1), .raise .referenced (.cls 2), .raise .referenced (.cls 3),
    .raise .serialized (.cls 2), .forget (.cls 1), .raise .leak (.cls 1),
    .raise .referenced (.method 2), .lower .referenced (.cls 2), .raise .referenced (.cls 1)]

theorem after_represents_sample :
    (after {} sampleCalls).carrying .referenced .cls = [3, 1] ∧
    (after {} sampleCalls).carrying .serialized .cls = [2] ∧
    (after {} sampleCalls).taggedCount = 3 ∧
    ¬ (Call.raise .leak (.cls 2)).Touches .serialized (.cls 2) ∧
    ((Call.raise .leak (.cls 2)).make (after {} sampleCalls)).has .serialized (.cls 2) = true ∧
    (∀ h, .forget ⟨.cls, h⟩ ∉ sampleCalls.drop 5) ∧
    (after {} sampleCalls).handles .cls = [3, 2, 1] := by
  obtain ⟨-, hstep, horder⟩ := after_represents sampleCalls
  have htouches : ¬ (Call.raise .leak (.cls 2)).Touches .serialized (.cls 2) := fun h => nomatch h.1
  have hrest : ∀ h, .forget ⟨.cls, h⟩ ∉ sampleCalls.drop 5 := by
    intro h
    simp [sampleCalls]
  refine ⟨by decide, by decide, by decide, htouches, ?_, hrest, ?_⟩
  · rw [(hstep _).1 _ _ htouches]
    decide
  · rw [horder .cls (sampleCalls.take 5) (sampleCalls.drop 5) (by decide) hrest]
    decide

end MarkTable

end TraceTypes
