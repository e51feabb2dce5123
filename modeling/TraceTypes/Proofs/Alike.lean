import TraceTypes.Proofs.Forgetting
import TraceTypes.TypeSet.Unloading
/-!
# Type sets that differ in leak marks

Leak marks are no business of the main stream, but they stand in the slots of
its marks. Two type sets that agree but for leak marks are followed side by
side:

* `MarkTable.Alike` — tables with the same marks but for the leak marks, and
  for some kinds of artifacts the same slots in the same order;
* `MarkTable.Alike.raise_leak` — a leak mark on one side may cost the order of
  the classes, but nothing more;
* `TypeSet.Alike` — type sets that agree but for such tables;
* `TypeSet.Alike.commitMain`, `TypeSet.Alike.captureUnloading` — they stay so.
-/

namespace TraceTypes

/-! ## Tables of marks -/

/-- The tables have the same marks but for the leak marks. For these kinds they also have the same
slots in the same order. -/
structure MarkTable.Alike (kinds : Kind → Prop) (s s' : MarkTable) : Prop where
  has : ∀ m a, m ≠ .leak → s'.has m a = s.has m a
  slots : ∀ k, kinds k → (s'.lowerAll .leak).slots.get k = (s.lowerAll .leak).slots.get k

namespace MarkTable

variable {kinds : Kind → Prop} {s s' : MarkTable} {m : Mark} {k : Kind}

/-- To clear a mark does not change how another one is enumerated. -/
theorem carrying_lowerAll (t : MarkTable) {m m' : Mark} (h : m ≠ m') (k : Kind) :
    (t.lowerAll m').carrying m k = t.carrying m k := by
  unfold carrying lowerAll SlotTable.mapValues
  rw [PerKind.get_map]
  dsimp only
  rw [List.filter_map, List.map_map]
  congr 1
  refine List.filter_congr fun e _ => ?_
  show (e.2.put m' false).has m = e.2.has m
  rw [Marks.has_put, if_neg h]

/-! ### What an operation does to the slots of one kind -/

theorem slots_raise_congr {t t' : MarkTable} (h : t'.slots.get k = t.slots.get k) (m : Mark)
    (a : Artifact) : (t'.raise m a).2.slots.get k = (t.raise m a).2.slots.get k := by
  refine PerKind.get_set_congr h fun hk => ?_
  subst hk
  rw [marks, marks, slot?, slot?, h]

theorem slots_lower_congr {t t' : MarkTable} (h : t'.slots.get k = t.slots.get k) (m : Mark)
    (a : Artifact) : (t'.lower m a).slots.get k = (t.lower m a).slots.get k := by
  refine PerKind.get_set_congr h fun hk => ?_
  subst hk
  rw [h]

theorem slots_forget_congr {t t' : MarkTable} (h : t'.slots.get k = t.slots.get k)
    (a : Artifact) : (t'.forget a).slots.get k = (t.forget a).slots.get k := by
  refine PerKind.get_set_congr h fun hk => ?_
  subst hk
  rw [h]

theorem slots_lowerAll_congr {t t' : MarkTable} (h : t'.slots.get k = t.slots.get k) (m : Mark) :
    (t'.lowerAll m).slots.get k = (t.lowerAll m).slots.get k := by
  unfold lowerAll
  rw [PerKind.get_map, PerKind.get_map, h]

/-! ### Alike tables -/

namespace Alike

theorem refl (kinds : Kind → Prop) (s : MarkTable) : Alike kinds s s :=
  ⟨fun _ _ _ => rfl, fun _ _ => rfl⟩

theorem symm (h : Alike kinds s s') : Alike kinds s' s :=
  ⟨fun m a hm => (h.has m a hm).symm, fun k hk => (h.slots k hk).symm⟩

/-- With the same slots a mark is enumerated the same. -/
theorem carrying (h : Alike kinds s s') (hk : kinds k) (hm : m ≠ .leak) :
    s'.carrying m k = s.carrying m k := by
  rw [← carrying_lowerAll s' hm, ← carrying_lowerAll s hm, MarkTable.carrying,
    MarkTable.carrying, h.slots k hk]

/-- If that is so for all kinds, the tagged artifacts are enumerated in the same order. -/
theorem allTagged (h : Alike (fun _ => True) s s') : s'.allTagged = s.allTagged := by
  unfold MarkTable.allTagged
  congr 1
  funext k
  unfold tagged
  rw [h.carrying trivial (by simp)]

theorem raise (h : Alike kinds s s') (hm : m ≠ .leak) (a : Artifact) :
    Alike kinds (s.raise m a).2 (s'.raise m a).2 where
  has m' b hm' := by rw [has_raise, has_raise, h.has m' b hm']
  slots k hk := by
    rw [lowerAll_raise _ _ hm, lowerAll_raise _ _ hm]
    exact slots_raise_congr (h.slots k hk) m a

theorem lower (h : Alike kinds s s') (hm : m ≠ .leak) (a : Artifact) :
    Alike kinds (s.lower m a) (s'.lower m a) where
  has m' b hm' := by rw [has_lower, has_lower, h.has m' b hm']
  slots k hk := by
    rw [lowerAll_lower _ _ hm, lowerAll_lower _ _ hm]
    exact slots_lower_congr (h.slots k hk) m a

theorem lowerAll (h : Alike kinds s s') (hm : m ≠ .leak) :
    Alike kinds (s.lowerAll m) (s'.lowerAll m) where
  has m' b hm' := by rw [has_lowerAll, has_lowerAll, h.has m' b hm']
  slots k hk := by
    rw [lowerAll_comm _ hm, lowerAll_comm _ hm]
    exact slots_lowerAll_congr (h.slots k hk) m

theorem forget (h : Alike kinds s s') (a : Artifact) :
    Alike kinds (s.forget a) (s'.forget a) where
  has m' b hm' := by rw [has_forget, has_forget, h.has m' b hm']
  slots k hk := by
    rw [lowerAll_forget, lowerAll_forget]
    exact slots_forget_congr (h.slots k hk) a

/-- What keeps tables alike one by one keeps them alike over a list. -/
theorem foldl {f : MarkTable → Artifact → MarkTable}
    (hf : ∀ {s s' : MarkTable} a, Alike kinds s s' → Alike kinds (f s a) (f s' a))
    (h : Alike kinds s s') (l : List Artifact) : Alike kinds (l.foldl f s) (l.foldl f s') := by
  induction l generalizing s s' with
  | nil => exact h
  | cons a rest ih => exact ih (hf a h)

/-- A leak mark on one side only can put the slots of its kind out of step, unless the artifact
has a slot already. -/
theorem raise_leak (h : Alike kinds s s') {a : Artifact}
    (ha : s.knows a = true ∨ ¬ kinds a.kind) : Alike kinds (s.raise .leak a).2 s' where
  has m b hm := by rw [has_raise, if_neg fun hb => hm hb.2, h.has m b hm]
  slots k hk := by
    rcases ha with hknown | hkind
    · rw [lowerAll_raise_self _ _ hknown, h.slots k hk]
    · have hne : k ≠ a.kind := fun he => hkind (he ▸ hk)
      rw [h.slots k hk]
      unfold MarkTable.raise MarkTable.lowerAll
      rw [PerKind.map_set, PerKind.get_set, if_neg hne]

end Alike

end MarkTable

/-! ## Type sets -/

namespace TypeSet

/-- The type sets agree but for leak marks. -/
structure Alike (kinds : Kind → Prop) (t t' : TypeSet) : Prop where
  settings : t'.settings = t.settings
  registries : t'.registries = t.registries
  symbols : t'.symbols = t.symbols
  epochs : t'.epochs = t.epochs
  bootstrapWritten : t'.bootstrapWritten = t.bootstrapWritten
  poisoned : t'.poisoned = t.poisoned
  marks : MarkTable.Alike kinds t.marks t'.marks

variable {kinds : Kind → Prop} {t t' : TypeSet}

namespace Alike

theorem refl (kinds : Kind → Prop) (t : TypeSet) : Alike kinds t t :=
  ⟨rfl, rfl, rfl, rfl, rfl, rfl, .refl kinds _⟩

theorem symm (h : Alike kinds t t') : Alike kinds t' t :=
  ⟨h.settings.symm, h.registries.symm, h.symbols.symm, h.epochs.symm, h.bootstrapWritten.symm,
    h.poisoned.symm, h.marks.symm⟩

theorem isPoisoned (h : Alike kinds t t') : t'.isPoisoned = t.isPoisoned := by
  unfold TypeSet.isPoisoned
  rw [h.poisoned]

theorem tag (h : Alike kinds t t') (a : Artifact) :
    (t'.tag a).1 = (t.tag a).1 ∧ Alike kinds (t.tag a).2 (t'.tag a).2 := by
  refine ⟨?_, { h with marks := h.marks.raise (by simp) a }⟩
  show (!t'.marks.has .referenced a) = !t.marks.has .referenced a
  rw [h.marks.has _ a (by simp)]

theorem tagLeak (h : Alike kinds t t') {n : Handle}
    (hn : t.marks.knows (.cls n) = true ∨ ¬ kinds .cls) : Alike kinds (t.tagLeak n).2 t' :=
  { h with marks := h.marks.raise_leak hn }

theorem clear (h : Alike kinds t t') : Alike kinds t.clear t'.clear :=
  { h with marks := h.marks.lowerAll (by simp) }

theorem rotate (h : Alike kinds t t') : Alike kinds t.rotate t'.rotate where
  settings := h.settings
  registries := by
    show t'.registries.purge.2 = t.registries.purge.2
    rw [h.registries]
  symbols := h.symbols
  epochs := by
    show t'.epochs.rotate = t.epochs.rotate
    rw [h.epochs]
  bootstrapWritten := rfl
  poisoned := h.poisoned
  marks := h.marks.lowerAll (by simp)

/-- To count something is not seen. -/
theorem counted (h : Alike kinds t t') (n n' : Totals) (x x' : Option PassSummary) :
    Alike kinds { t with totals := n, lastSummary := x }
      { t' with totals := n', lastSummary := x' } :=
  { h with marks := h.marks }

/-- Nor is what a violation says. -/
theorem poison (h : Alike kinds t t') (v : Violation) : Alike kinds (t.poison v) (t'.poison v) :=
  { h with poisoned := rfl, marks := h.marks }

theorem forgetClasses {methods : TypeSet → Handle → List Handle}
    (hmethods : ∀ {t t' : TypeSet} n, Alike kinds t t' → methods t' n = methods t n)
    (h : Alike kinds t t') (l : List Handle) :
    Alike kinds (t.forgetClasses methods l) (t'.forgetClasses methods l) := by
  induction l generalizing t t' with
  | nil => exact h
  | cons n rest ih =>
      refine ih ?_
      dsimp only
      rw [hmethods n h, forgetClass_eq, forgetClass_eq, h.registries]
      exact { h with registries := rfl, marks := h.marks.foldl (fun a hs => hs.forget a) _ }

/-! ### The writing calls -/

theorem commitMain (h : Alike kinds t t') (b : Batch) (flushpoint : Bool) :
    Alike kinds (t.commitMain b flushpoint) (t'.commitMain b flushpoint) := by
  unfold TypeSet.commitMain
  refine forgetClasses (fun n h => by rw [registeredMethods, registeredMethods, h.registries]) ?_ _
  refine { h with bootstrapWritten := ?_, marks := ?_ }
  · show (t'.bootstrapWritten || _) = (t.bootstrapWritten || _)
    rw [h.bootstrapWritten]
  · have hraised := h.marks.foldl (fun a hs => hs.raise (m := .serialized) (by simp) a) b.emitted
    unfold markWritten
    dsimp only
    split
    · exact hraised
    · exact hraised.foldl (fun a hs => hs.lower (m := .referenced) (by simp) a) b.processed

theorem methodsOf (h : Alike kinds t t') (hkinds : kinds .method) (g : MetadataGraph)
    (n : Handle) : t'.methodsOf g n = t.methodsOf g n := by
  unfold TypeSet.methodsOf registeredMethods
  rw [h.registries, h.marks.carrying hkinds (by simp)]

variable {σ : Type} [Sink σ]

theorem captureUnloading (h : Alike kinds t t') (hkinds : kinds .method) (g : MetadataGraph)
    (w : σ) :
    let r := t.captureUnloading g w
    let r' := t'.captureUnloading g w
    r'.result = r.result ∧ r'.sinks = r.sinks ∧ Alike kinds r.types r'.types := by
  have hregistries (r : Registries) :
      Alike kinds { t with registries := r } { t' with registries := r } :=
    { h with registries := rfl, marks := h.marks }
  have hcapture : UnloadCapture.capture g t'.settings.bootstrapLoaderName t'.registries =
      UnloadCapture.capture g t.settings.bootstrapLoaderName t.registries := by
    rw [h.settings, h.registries]
  have hepoch (r : Registries) : TypeSet.epoch { t' with registries := r } =
      TypeSet.epoch { t with registries := r } := congrArg EpochCounter.current h.epochs
  intro r r'
  simp only [r, r', TypeSet.captureUnloading, h.isPoisoned, hcapture, hepoch]
  split
  · exact ⟨rfl, rfl, h⟩
  split
  · exact ⟨rfl, rfl, (hregistries _).poison _⟩
  split
  · exact ⟨rfl, rfl, hregistries _⟩
  split
  · exact ⟨rfl, rfl, (hregistries _).counted ..⟩
  · exact ⟨rfl, rfl, ((hregistries _).forgetClasses
      (fun n h => h.methodsOf hkinds g n) _).counted ..⟩

end Alike

end TypeSet

end TraceTypes
