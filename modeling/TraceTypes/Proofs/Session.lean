import TraceTypes.Proofs.HeapShape
import TraceTypes.Proofs.Knowledge
import TraceTypes.Proofs.Owners
/-!
# Sessions

In a session one type set works on one heap, and both keep to the protocol of
unloading (`Session.Step`):

* what is added points at what is there, and its fields do not change;
* only what is there is tagged;
* classes go only at the end of an unloading. Directly before, a capture of the
  announced classes has succeeded, and no class that stays has one of them as
  its superclass or element.

Then nothing dangles: what the type set knows is there, and the owners that it
has for methods are those of the heap (`Session.Sound`). So a class that is
placed where another one was reclaimed starts unknown, and its ids are new.
-/

namespace TraceTypes

/-! ## Calls -/

/-- A call on a type set that works on the graph: the artifacts that it tags or writes, the type set
behind it and the events of it. Only what is there is tagged. -/
inductive TypeSet.Call (t : TypeSet) (g : MetadataGraph) :
    List Artifact → TypeSet → History → Prop
  | tag {a : Artifact} : a.kind = .symbol ∨ g.Has a → Call t g [a] (t.tag a).2 []
  | tagLeak {n : Handle} : g.Has (.cls n) → Call t g [.cls n] (t.tagLeak n).2 []
  | clear : Call t g [] t.clear []
  | rotate : Call t g [] t.rotate [.rotated]
  | serialize {σ τ : Type} [Sink σ] [Sink τ] (flags : PassFlags) (w : Sinks σ τ) :
      Call t g (t.serializeEvents g flags w).subjects (t.serialize g flags w).types
        (t.serializeEvents g flags w)
  | captureUnloading {σ : Type} [Sink σ] (w : σ) :
      Call t g (t.captureEvents g w).subjects (t.captureUnloading g w).types (t.captureEvents g w)

namespace TypeSet

variable {settings : Settings} {t t' : TypeSet} {g : MetadataGraph} {H E : History}
  {L : List Artifact} {a b : Artifact}

/-- To raise a mark makes one artifact known at most. -/
theorem Knows.of_raise {m : Mark} (h : { t with marks := (t.marks.raise m b).2 }.Knows a) :
    t.Knows a ∨ a = b := by
  cases h with
  | id h => exact .inl (.id h)
  | @mark _ m' h =>
      have h : (t.marks.raise m b).2.has m' a = true := h
      rw [MarkTable.has_raise] at h
      split at h
      · rename_i hab
        exact .inr hab.1
      · exact .inl (.mark h)
  | leakId h => exact .inl (.leakId h)

theorem noNews_clear (t : TypeSet) : t.NoNews t.clear where
  ids _ _ h := h
  marks m a h := by
    have h : (t.marks.lowerAll .referenced).has m a = true := h
    rw [MarkTable.has_lowerAll] at h
    split at h
    · cases h
    · exact h
  leakIds _ _ h := h

theorem noNews_rotate (t : TypeSet) : t.NoNews t.rotate where
  ids _ _ h := h
  marks m a h := by
    have h : (t.marks.lowerAll .serialized).has m a = true := h
    rw [MarkTable.has_lowerAll] at h
    split at h
    · cases h
    · exact h
  leakIds _ _ h := h

namespace Call

variable (h : t.Call g L t' E)
include h

theorem run (hrun : Run settings t H) : Run settings t' (H ++ E) := by
  cases h with
  | tag | tagLeak | clear =>
      rw [List.append_nil]
      constructor
      exact hrun
  | rotate => exact hrun.rotate
  | serialize flags w => exact hrun.serialize g flags w
  | captureUnloading w => exact hrun.captureUnloading g w

theorem leakLedger (hleak : LeakLedger settings.retainLeakRecords t.leak H)
    (hclosed : ∀ a d, Dependency.PointsAt g a d → g.Has d) :
    LeakLedger settings.retainLeakRecords t'.leak (H ++ E) := by
  cases h with
  | tag | tagLeak | clear =>
      rw [List.append_nil]
      exact hleak
  | rotate => exact hleak.idle (by simp) (by simp)
  | serialize flags w => exact leakLedger_serialize hleak hclosed flags w
  | captureUnloading w => exact leakLedger_captureUnloading hleak g w

/-- Only what a call tags or writes becomes known. -/
theorem knows (hrun : Run settings t H) (hleak : LeakLedger settings.retainLeakRecords t.leak H)
    (hclosed : ∀ a d, Dependency.PointsAt g a d → g.Has d) (ha : t'.Knows a) :
    t.Knows a ∨ a ∈ L := by
  cases h with
  | tag => exact (Knows.of_raise ha).imp_right List.mem_singleton.mpr
  | tagLeak => exact (Knows.of_raise ha).imp_right List.mem_singleton.mpr
  | clear => exact .inl ((noNews_clear t).knows ha)
  | rotate => exact .inl ((noNews_rotate t).knows ha)
  | serialize flags w => exact Knows.of_serialize hrun hleak hclosed ha
  | captureUnloading w => exact .inl ((noNews_captureUnloading t g w).knows ha)

/-- What a call tags or writes is there. -/
theorem has (hrec : Recorded settings t H) (ha : a ∈ L) (hkind : a.kind ≠ .symbol) : g.Has a := by
  cases h with
  | tag hb =>
      rw [List.mem_singleton.mp ha] at hkind ⊢
      exact hb.resolve_left hkind
  | tagLeak hn =>
      rw [List.mem_singleton.mp ha]
      exact hn
  | clear | rotate => cases ha
  | serialize => exact has_of_mem_serializeEvents hrec ha hkind
  | captureUnloading => exact has_of_mem_captureEvents ha

/-- Only classes get leak marks. -/
theorem leakMarks (hmarks : ∀ a, t.marks.has .leak a = true → a.kind = .cls)
    (ha : t'.marks.has .leak a = true) : a.kind = .cls := by
  cases h with
  | @tag b =>
      have ha : (t.marks.raise .referenced b).2.has .leak a = true := ha
      rw [MarkTable.has_raise, if_neg (by simp)] at ha
      exact hmarks a ha
  | @tagLeak n =>
      have ha : (t.marks.raise .leak (.cls n)).2.has .leak a = true := ha
      rw [MarkTable.has_raise] at ha
      split at ha
      · rename_i hab
        rw [hab.1]
      · exact hmarks a ha
  | clear => exact hmarks a ((noNews_clear t).marks _ a ha)
  | rotate => exact hmarks a ((noNews_rotate t).marks _ a ha)
  | serialize => exact hmarks a (has_serialize (by simp) ha)
  | captureUnloading w => exact hmarks a ((noNews_captureUnloading t g w).marks _ a ha)

theorem owned (howned : t.registries.OwnersMatch g) : t'.registries.OwnersMatch g := by
  cases h with
  | tag | tagLeak | clear => exact howned
  | rotate => exact howned.of_entries fun _ _ he => he
  | serialize flags w => exact ownersMatch_serialize howned flags w
  | captureUnloading w => exact ownersMatch_captureUnloading howned w

end Call

end TypeSet

/-! ## Sessions -/

/-- A type set and the heap that it works on, with what has happened so far. -/
structure Session where
  heap : Heap := {}
  types : TypeSet
  history : History := []
  /-- The handles of the classes that were reclaimed. -/
  reclaimed : List Handle := []

namespace Session

/-- A new type set on an empty heap. -/
def start (settings : Settings) : Session := { types := .create settings }

/-- A class was reclaimed at the handle, and there is none now. -/
def Vacant (s : Session) (n : Handle) : Prop :=
  n ∈ s.reclaimed ∧ s.heap.classes.get? n = none

/-- A class is placed at a handle. -/
def place (s : Session) (n : Handle) (i : ClassInfo) : Session :=
  { s with heap := s.heap.addClassAt n i }

/-- A call has led to this type set, with these events. -/
def after (s : Session) (t : TypeSet) (E : History) : Session :=
  { s with types := t, history := s.history ++ E }

/-- The announced classes are reclaimed. -/
def finish (s : Session) : Session :=
  { s with heap := s.heap.finishUnloading.2, reclaimed := s.reclaimed ++ s.heap.unloading }

/-- One step of a session, with the artifacts that it tags or writes. -/
inductive Step (s : Session) : List Artifact → Session → Prop
  | add {a : Artifact} {i : ArtifactInfo} {heap : Heap} :
      s.heap.Added a i heap → s.heap.Rooted i → Step s [] { s with heap := heap }
  | place {n : Handle} {i : ClassInfo} :
      s.Vacant n → s.heap.Rooted (.cls i) → Step s [] (s.place n i)
  | announce (l : List Handle) : Step s [] { s with heap := s.heap.beginUnloading l }
  | cancel : Step s [] { s with heap := s.heap.cancelUnloading }
  | call {L : List Artifact} {t : TypeSet} {E : History} :
      s.types.Call s.heap.graph L t E → Step s L (s.after t E)
  | finish {σ : Type} [Sink σ] (w : σ) {k : Nat} :
      (s.types.captureUnloading s.heap.graph w).result = .ok k → s.heap.Unreferenced →
      Step s (s.types.captureEvents s.heap.graph w).subjects
        (s.after (s.types.captureUnloading s.heap.graph w).types
          (s.types.captureEvents s.heap.graph w)).finish

/-- Steps one after the other, with the artifacts that they tag or write. -/
inductive Reaches (s : Session) : List Artifact → Session → Prop
  | refl : Reaches s [] s
  | step {L L' : List Artifact} {s' s'' : Session} :
      Reaches s L s' → s'.Step L' s'' → Reaches s (L ++ L') s''

/-- Nothing dangles: what the type set knows is in the heap, and the owners that it has for methods
are those of the heap. This holds as long as type set and history agree, the heap is closed, and
only classes have leak marks. -/
structure Sound (settings : Settings) (s : Session) : Prop where
  run : Run settings s.types s.history
  leak : LeakLedger settings.retainLeakRecords s.types.leak s.history
  closed : s.heap.Closed
  methods : s.heap.MethodsBelow
  leakMarks : ∀ a, s.types.marks.has .leak a = true → a.kind = .cls
  present : ∀ a, a.kind ≠ .symbol → s.types.Knows a → s.heap.graph.Has a
  owned : s.types.registries.OwnersMatch s.heap.graph

variable {settings : Settings} {s s' : Session} {L L' : List Artifact} {a : Artifact}
  {n : Handle}

theorem sound_start (settings : Settings) : (start settings).Sound settings where
  run := .create
  leak := .empty _
  closed := Heap.closed_empty
  methods _ _ h := by cases h
  leakMarks a h := by
    simp [start, TypeSet.create, MarkTable.has, MarkTable.marks, MarkTable.slot?] at h
  present a _ h := by
    cases h with
    | id h => simp [start, TypeSet.create, TypeSet.id?, Registries.id?, Registries.entry?] at h
    | mark h =>
        simp [start, TypeSet.create, MarkTable.has, MarkTable.marks, MarkTable.slot?] at h
    | leakId h =>
        simp [start, TypeSet.create, TypeSet.leakId?, LeakStream.id?, Registries.id?,
          Registries.entry?] at h
  owned m e h := by simp [start, TypeSet.create, Registries.entry?] at h

namespace Sound

variable (hs : s.Sound settings)
include hs

/-- A heap may take the place of another if everything is still there and the methods have kept
their fields. -/
theorem of_heap {g : Heap} (hclosed : g.Closed) (hbelow : g.MethodsBelow)
    (hhas : ∀ a, s.heap.graph.Has a → g.graph.Has a)
    (hmethods : ∀ m i, s.heap.methods.get? m = some i → g.methods.get? m = some i) :
    Sound settings { s with heap := g } where
  run := hs.run
  leak := hs.leak
  closed := hclosed
  methods := hbelow
  leakMarks := hs.leakMarks
  present a hkind ha := hhas a (hs.present a hkind ha)
  owned := hs.owned.of_methods fun m _ i _ hi => hmethods m i hi

theorem puts {i : ArtifactInfo} {g : Heap} (h : s.heap.Puts a i g) (hi : s.heap.Rooted i) :
    Sound settings { s with heap := g } :=
  hs.of_heap (h.closed hs.closed hi) (h.methodsBelow hs.methods) (fun _ => h.has)
    fun _ _ => h.method_stays hs.methods

theorem call {t : TypeSet} {E : History} (h : s.types.Call s.heap.graph L t E) :
    (s.after t E).Sound settings where
  run := h.run hs.run
  leak := h.leakLedger hs.leak fun _ _ => hs.closed.has_of_pointsAt
  closed := hs.closed
  methods := hs.methods
  leakMarks _ := h.leakMarks hs.leakMarks
  present a hkind ha := by
    rcases h.knows hs.run hs.leak (fun _ _ => hs.closed.has_of_pointsAt) ha with ha | ha
    · exact hs.present a hkind ha
    · exact h.has hs.run.recorded ha hkind
  owned := h.owned hs.owned

/-- Of the artifacts that go at the end of an unloading, a capture takes with the announced classes
all that the type set knows. -/
theorem goesWith (ha : s.types.Knows a) (hgoes : s.heap.Goes a) :
    s.types.GoesWith s.heap.graph s.heap.graph.unloading a := by
  cases hgoes with
  | cls hn => exact .cls hn
  | @method m i hi hholder =>
      have hregistered {id : TraceId} (hid : s.types.id? (.method m) = some id) :
          s.types.GoesWith s.heap.graph s.heap.graph.unloading (.method m) := by
        obtain ⟨e, he, -⟩ := Option.map_eq_some_iff.mp hid
        obtain ⟨j, hj, howner⟩ := hs.owned m e he
        have hj : s.heap.methods.get? m = some j := hj
        rw [hi] at hj
        cases hj
        exact .registered he howner hholder
      cases ha with
      | id hid => exact hregistered hid
      | @mark _ mark hmark =>
          cases mark with
          | referenced => exact .tagged hmark hi hholder
          | leak => cases hs.leakMarks _ hmark
          | serialized =>
              -- what was written has an id
              obtain ⟨id, hid⟩ := (hs.run.recorded.ready s.heap.graph false).registered _ hmark
              exact hregistered hid

/-- The reclaimed artifacts were forgotten before, so what is still known stays. -/
theorem finish {σ : Type} [Sink σ] {w : σ} {k : Nat}
    (hok : (s.types.captureUnloading s.heap.graph w).result = .ok k)
    (hfree : s.heap.Unreferenced) :
    (s.after (s.types.captureUnloading s.heap.graph w).types
      (s.types.captureEvents s.heap.graph w)).finish.Sound settings := by
  have hcaptured := hs.call (.captureUnloading w)
  have hunloaded := TypeSet.unloaded_captureUnloading hok
  have hstays {a : Artifact}
      (ha : (s.types.captureUnloading s.heap.graph w).types.Knows a) : ¬ s.heap.Goes a := by
    intro hgoes
    exact hunloaded.not_knows (hs.goesWith (hunloaded.noNews.knows ha) hgoes) ha
  constructor
  case run => exact hcaptured.run
  case leak => exact hcaptured.leak
  case closed => exact Heap.closed_finishUnloading hs.closed hfree
  case methods => exact Heap.methodsBelow_finishUnloading hs.methods
  case leakMarks => exact hcaptured.leakMarks
  case present =>
    intro a hkind ha
    exact Heap.has_finishUnloading (hcaptured.present a hkind ha) (hstays ha)
  case owned =>
    refine hcaptured.owned.of_methods ?_
    intro m e i he hi
    have hid : (s.types.captureUnloading s.heap.graph w).types.id? (.method m) = some e.id :=
      Option.map_eq_some_iff.mpr ⟨e, he, rfl⟩
    exact Heap.method_finishUnloading hi (hstays (.id hid))

end Sound

/-! ## Steps -/

theorem Step.sound (h : s.Step L s') (hs : s.Sound settings) : s'.Sound settings := by
  cases h with
  | add h hi => exact hs.puts h.puts hi
  | place _ hi => exact hs.puts (Heap.puts_addClassAt _ _ _) hi
  | announce l => exact hs.of_heap hs.closed hs.methods (fun _ h => h) fun _ _ h => h
  | cancel => exact hs.of_heap hs.closed hs.methods (fun _ h => h) fun _ _ h => h
  | call h => exact hs.call h
  | finish w hok hfree => exact hs.finish hok hfree

/-- Only what a step tags or writes becomes known. -/
theorem Step.knows (h : s.Step L s') (hs : s.Sound settings) (ha : s'.types.Knows a) :
    s.types.Knows a ∨ a ∈ L := by
  have hclosed (a d : Artifact) : Dependency.PointsAt s.heap.graph a d → s.heap.graph.Has d :=
    hs.closed.has_of_pointsAt
  cases h with
  | add | place | announce | cancel => exact .inl ha
  | call h => exact h.knows hs.run hs.leak hclosed ha
  | finish w => exact TypeSet.Call.knows (.captureUnloading w) hs.run hs.leak hclosed ha

/-- A history only grows. -/
theorem Step.history (h : s.Step L s') : s.history <+: s'.history := by
  cases h with
  | add | place | announce | cancel => exact List.prefix_rfl
  | call | finish => exact List.prefix_append _ _

theorem Reaches.sound (h : s.Reaches L s') (hs : s.Sound settings) : s'.Sound settings := by
  induction h with
  | refl => exact hs
  | step _ hstep ih => exact hstep.sound ih

theorem Reaches.knows (h : s.Reaches L s') (hs : s.Sound settings) (ha : s'.types.Knows a) :
    s.types.Knows a ∨ a ∈ L := by
  induction h with
  | refl => exact .inl ha
  | step h hstep ih =>
      rw [List.mem_append, ← or_assoc]
      exact (hstep.knows (h.sound hs) ha).imp_left ih

theorem Reaches.history (h : s.Reaches L s') : s.history <+: s'.history := by
  induction h with
  | refl => exact List.prefix_rfl
  | step _ hstep ih => exact ih.trans hstep.history

/-! ## Reuse of handles -/

end Session

namespace History

variable {H E : History} {id : TraceId}

/-- Some entry on the main stream has the id. -/
def UsedMain (H : History) (id : TraceId) : Prop :=
  ∃ i header e, H.MainAt i header e ∧ e.record.id = id

/-- Some entry on the leak stream has the id. -/
def UsedLeak (H : History) (id : TraceId) : Prop :=
  ∃ i header e, H.LeakAt i header e ∧ e.record.id = id

theorem UsedLeak.swap (h : H.UsedLeak id) : H.swap.UsedMain id := by
  obtain ⟨i, header, e, hi, hid⟩ := h
  exact ⟨i, _, e, hi.swap, hid⟩

end History

namespace IdLedger

variable {r r' : Registries} {H E : History} {a : Artifact}

/-- An artifact that has no id now is written later under ids that were not used so far. -/
theorem entry_unused (h : IdLedger r H) (h' : IdLedger r' (H ++ E)) (hnone : r.id? a = none)
    {i : Nat} {header : Header} {e : Entry} (hi : (H ++ E).MainAt i header e)
    (hlen : H.length ≤ i) (hsub : e.subject = some a) : ¬ H.UsedMain e.record.id := by
  rintro ⟨j, header', e', hj, heq⟩
  obtain ⟨hne, -⟩ := h'.used i header e a hi hsub
  rw [← heq] at hne
  have hji : j ≤ i := Nat.le_trans (Nat.le_of_lt hj.lt_length) hlen
  obtain ⟨b, hsub', hb, hnot⟩ := h'.unique j i header' header e' e hji (hj.append E) hi heq hne
  rw [hsub] at hb
  cases hb
  -- the earlier entry is also for this artifact, which was forgotten since
  have hforgotten : H.ForgottenAfter j a := by
    by_contra hf
    have hlive := h.live j header' e' a hj hsub' hf
    rw [hnone] at hlive
    cases hlive
  apply hnot
  exact ((History.forgottenBetween_append E (Nat.le_refl _)).mpr hforgotten.between).mono hlen

/-- So if it has an id later, this id was not used so far. -/
theorem id_unused (h : IdLedger r H) (h' : IdLedger r' (H ++ E)) (hnone : r.id? a = none)
    {id : TraceId} (ha : r'.id? a = some id) : ¬ H.UsedMain id := by
  obtain ⟨i, header, e, hi, hsub, hnot⟩ := h'.known a id ha
  have hid := h'.live i header e a hi hsub hnot
  rw [ha, Option.some.injEq] at hid
  rw [hid]
  apply h.entry_unused h' hnone hi ?_ hsub
  by_contra hlt
  rw [History.mainAt_append E (Nat.lt_of_not_le hlt)] at hi
  have hlive := h.live i header e a hi hsub fun hf => hnot (hf.append E)
  rw [hnone] at hlive
  cases hlive

end IdLedger

namespace Session

variable {settings : Settings} {s s' : Session} {L : List Artifact} {n : Handle}

/-- The ids that the class at a handle has in the later session, and those of the entries written
for it in between, were not used in the earlier one. -/
structure NewIds (s s' : Session) (n : Handle) : Prop where
  id : ∀ id, s'.types.id? (.cls n) = some id → ¬ s.history.UsedMain id
  leakId : ∀ id, s'.types.leakId? n = some id → ¬ s.history.UsedLeak id
  entry : ∀ i header e, s'.history.MainAt i header e → s.history.length ≤ i →
    e.subject = some (.cls n) → ¬ s.history.UsedMain e.record.id
  leakEntry : ∀ i header e, s'.history.LeakAt i header e → s.history.length ≤ i →
    e.subject = some (.cls n) → ¬ s.history.UsedLeak e.record.id

/-- A class that is not known gets new ids on both streams. -/
theorem Reaches.newIds (h : s.Reaches L s') (hs : s.Sound settings)
    (hn : ¬ s.types.Knows (.cls n)) : s.NewIds s' n := by
  have hs' := h.sound hs
  obtain ⟨E, hE⟩ := h.history
  have hids := hs.run.recorded.ids
  have hids' := hs'.run.recorded.ids
  have hleak := hs.leak.ids
  have hleak' := hs'.leak.ids
  have hnone : s.types.registries.id? (.cls n) = none := by
    rw [Option.eq_none_iff_forall_not_mem]
    exact fun id hid => hn (.id hid)
  have hleakNone : s.types.leak.ids.id? (.cls n) = none := by
    rw [Option.eq_none_iff_forall_not_mem]
    exact fun id hid => hn (.leakId hid)
  rw [← hE] at hids'
  rw [← hE, History.swap_append] at hleak'
  constructor
  case id => exact fun id hid => hids.id_unused hids' hnone hid
  case leakId => exact fun id hid hused => hleak.id_unused hleak' hleakNone hid hused.swap
  case entry =>
    intro i header e hi hlen hsub
    rw [← hE] at hi
    exact hids.entry_unused hids' hnone hi hlen hsub
  case leakEntry =>
    intro i header e hi hlen hsub hused
    rw [← hE] at hi
    have hi := hi.swap
    rw [History.swap_append] at hi
    refine hleak.entry_unused hleak' hleakNone hi ?_ hsub hused.swap
    unfold History.swap
    rw [List.length_map]
    exact hlen

/-- In every session that keeps to the protocol, whatever fails in it, nothing dangles: what the
type set knows by an id, a mark or an id on the leak stream is in the heap, and the registered
methods have the owners that the heap says. A class that is placed where another one was reclaimed
is not known until it is tagged or written, and its ids are new on both streams. -/
theorem nothing_dangles (h : (start settings).Reaches L s) :
    (∀ a, a.kind ≠ .symbol → s.types.Knows a → s.heap.graph.Has a) ∧
    s.types.registries.OwnersMatch s.heap.graph ∧
    ∀ n i, s.Vacant n → s.heap.Rooted (.cls i) → ∀ L' s', (s.place n i).Reaches L' s' →
      (.cls n ∉ L' → ¬ s'.types.Knows (.cls n)) ∧ (s.place n i).NewIds s' n := by
  have hs := h.sound (sound_start settings)
  refine ⟨hs.present, hs.owned, ?_⟩
  intro n i hvacant hi L' s' hreaches
  have hplaced := (Step.place hvacant hi).sound hs
  -- the handle is vacant, so the class that was there is not known any more
  have hunknown : ¬ (s.place n i).types.Knows (.cls n) := by
    intro hn
    have hhas := hs.present (.cls n) (by simp) hn
    have hnone : s.heap.graph.describe? (.cls n) = none := by
      simp [MetadataGraph.describe?, Heap.graph, hvacant.2]
    rw [MetadataGraph.Has, hnone] at hhas
    cases hhas
  refine ⟨?_, hreaches.newIds hplaced hunknown⟩
  intro hnot hn
  exact (hreaches.knows hplaced hn).elim hunknown hnot

/-! A class is written on both streams and reclaimed, and another one is placed at its handle. -/

/-- The class at the first handle is tagged and written on both streams. -/
def writeFirst (s : Session) : Session :=
  let s := s.after (s.types.tag (.cls Heap.handleBase)).2 []
  s.after (s.types.serialize s.heap.graph {} sampleLogs).types
    (s.types.serializeEvents s.heap.graph {} sampleLogs)

/-- The class at the first handle is announced, captured and reclaimed. -/
def unloadFirst (s : Session) : Session :=
  let s := { s with heap := s.heap.beginUnloading [Heap.handleBase] }
  (s.after (s.types.captureUnloading s.heap.graph ({} : SegmentLog)).types
    (s.types.captureEvents s.heap.graph ({} : SegmentLog))).finish

/-- A class was added at the first handle, and written. -/
def sampleWritten : Session :=
  writeFirst { start {} with heap := (({} : Heap).addClass { name := "A" }).2 }

theorem rooted_named (g : Heap) (name : String) : g.Rooted (.cls { name := name }) := by
  intro d hd
  simp [ArtifactInfo.mentions, Target.loader] at hd

theorem Reaches.writeFirst (h : s.Reaches L s')
    (hhas : s'.heap.graph.Has (.cls Heap.handleBase)) : ∃ L', s.Reaches L' s'.writeFirst :=
  ⟨_, .step (.step h (.call (.tag (.inr hhas)))) (.call (.serialize {} sampleLogs))⟩

theorem reaches_sampleWritten : ∃ L, (start {}).Reaches L sampleWritten :=
  (Reaches.refl.step (.add (.cls { name := "A" }) (rooted_named {} "A"))).writeFirst rfl

/-- No other class is there, so the class can be unloaded. -/
theorem unreferenced_sampleWritten :
    (sampleWritten.heap.beginUnloading [Heap.handleBase]).Unreferenced := by
  intro n i hi hn
  have hget : SlotTable.get? (SlotTable.empty.insert Heap.handleBase { name := "A" }) n = some i :=
    hi
  rw [SlotTable.get?_insert, if_neg fun h => hn (List.mem_singleton.mpr h)] at hget
  cases hget

theorem reaches_sampleReclaimed : ∃ L, (start {}).Reaches L sampleWritten.unloadFirst := by
  obtain ⟨L, h⟩ := reaches_sampleWritten
  have hok : (sampleWritten.types.captureUnloading
      (sampleWritten.heap.beginUnloading [Heap.handleBase]).graph ({} : SegmentLog)).result =
        .ok 1 := by
    decide +kernel
  exact ⟨_, (h.step (.announce [Heap.handleBase])).step
    (.finish ({} : SegmentLog) hok unreferenced_sampleWritten)⟩

/-- The class that is placed where the first one was is not known, and gets another id. -/
theorem nothing_dangles_replaced :
    ¬ (sampleWritten.unloadFirst.place Heap.handleBase { name := "B" }).types.Knows
        (.cls Heap.handleBase) ∧
    sampleWritten.types.id? (.cls Heap.handleBase) = some 3 ∧
    (sampleWritten.unloadFirst.place Heap.handleBase { name := "B" }).writeFirst.types.id?
        (.cls Heap.handleBase) = some 5 ∧
    ¬ (sampleWritten.unloadFirst.place Heap.handleBase { name := "B" }).history.UsedMain 5 := by
  obtain ⟨L, h⟩ := reaches_sampleReclaimed
  have hvacant : sampleWritten.unloadFirst.Vacant Heap.handleBase := by
    constructor <;> decide +kernel
  obtain ⟨L', hwritten⟩ := Reaches.refl.writeFirst
    (s := sampleWritten.unloadFirst.place Heap.handleBase { name := "B" }) rfl
  have hid : (sampleWritten.unloadFirst.place Heap.handleBase { name := "B" }).writeFirst.types.id?
      (.cls Heap.handleBase) = some 5 := by
    decide +kernel
  obtain ⟨-, -, hplaced⟩ := nothing_dangles h
  refine ⟨?_, by decide +kernel, hid, ?_⟩
  · exact (hplaced _ _ hvacant (rooted_named _ "B") [] _ .refl).1 List.not_mem_nil
  · exact (hplaced _ _ hvacant (rooted_named _ "B") L' _ hwritten).2.id 5 hid

end Session

end TraceTypes
