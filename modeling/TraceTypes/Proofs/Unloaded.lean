import Mathlib.Data.List.Forall2
import Mathlib.Data.List.Nodup
import TraceTypes.Proofs.LeakWrites
import TraceTypes.Proofs.RetiredIds
/-!
# A capture is complete

A capture of unloading classes forgets exactly what goes with them
(`TypeSet.GoesWith`) and leaves everything else alone (`TypeSet.Unloaded`). The
methods of a class are found class by class, when the classes before it are
gone already; that this adds up to one set, which is there before the call, is
`TypeSet.mem_forgottenBy`.

The last records are read off the capture (`TypeSet.LastRecord`), and the ids
that go out of use are followed over the rest of the run by `RetiredIds`.
-/

namespace TraceTypes

open LawfulSink

namespace TypeSet

/-! ## What goes with the classes -/

/-- The artifacts that go when the classes in `l` are reclaimed: the classes, the methods that are
registered as theirs, and the tagged methods that the graph says they declare. -/
inductive GoesWith (t : TypeSet) (g : MetadataGraph) (l : List Handle) : Artifact → Prop
  | cls {n : Handle} : n ∈ l → GoesWith t g l (.cls n)
  | registered {m n : Handle} {e : RegistryEntry} :
      t.registries.entry? (.method m) = some e → e.owner = some n → n ∈ l →
      GoesWith t g l (.method m)
  | tagged {m : Handle} {i : MethodInfo} :
      t.marks.isTagged (.method m) = true → g.method m = some i → i.holder ∈ l →
      GoesWith t g l (.method m)

variable {t t' : TypeSet} {g : MetadataGraph} {l l' : List Handle} {a : Artifact}
  {n m : Handle}

/-- What goes depends on the classes and on the entries and tags of methods only. -/
theorem GoesWith.imp (h : t.GoesWith g l a) (hl : ∀ n ∈ l, n ∈ l')
    (hentry : a.kind = .method → t'.registries.entry? a = t.registries.entry? a)
    (htag : a.kind = .method → t'.marks.isTagged a = t.marks.isTagged a) :
    t'.GoesWith g l' a := by
  cases h with
  | cls hn => exact .cls (hl _ hn)
  | registered he howner hn =>
      rw [← hentry rfl] at he
      exact .registered he howner (hl _ hn)
  | tagged ht hi hn =>
      rw [← htag rfl] at ht
      exact .tagged ht hi (hl _ hn)

@[simp] theorem not_goesWith_nil : ¬ t.GoesWith g [] a := by
  rintro (h | ⟨-, -, h⟩ | ⟨-, -, h⟩) <;> cases h

theorem goesWith_cons : t.GoesWith g (n :: l) a ↔ t.GoesWith g [n] a ∨ t.GoesWith g l a := by
  have hmem {k : Handle} : k ∈ n :: l ↔ k ∈ [n] ∨ k ∈ l := by simp
  constructor
  · rintro (h | ⟨he, howner, h⟩ | ⟨ht, hi, h⟩)
    · exact (hmem.mp h).imp .cls .cls
    · exact (hmem.mp h).imp (.registered he howner) (.registered he howner)
    · exact (hmem.mp h).imp (.tagged ht hi) (.tagged ht hi)
  · rintro (h | h)
    · exact h.imp (fun k hk => hmem.mpr (.inl hk)) (fun _ => rfl) (fun _ => rfl)
    · exact h.imp (fun k hk => hmem.mpr (.inr hk)) (fun _ => rfl) (fun _ => rfl)

theorem mem_methodsOf : m ∈ t.methodsOf g n ↔ t.GoesWith g [n] (.method m) := by
  unfold methodsOf registeredMethods
  simp only [List.mem_append, List.mem_filter, Registries.mem_ownedBy, MarkTable.mem_carrying,
    Bool.and_eq_true, Bool.not_eq_true', List.contains_eq_mem, decide_eq_false_iff_not,
    Option.any_eq_true, beq_iff_eq]
  constructor
  · rintro (⟨e, he, howner⟩ | ⟨ht, -, i, hi, hholder⟩)
    · exact .registered he howner (List.mem_singleton.mpr rfl)
    · exact .tagged ht hi (List.mem_singleton.mpr hholder)
  · rintro (_ | ⟨he, howner, hn⟩ | ⟨ht, hi, hn⟩)
    · obtain rfl := List.mem_singleton.mp hn
      exact .inl ⟨_, he, howner⟩
    · -- a tagged method may be registered too, and is listed once
      by_cases howned : ∃ e, t.registries.entry? (.method m) = some e ∧ e.owner = some n
      · exact .inl howned
      · exact .inr ⟨ht, howned, _, hi, List.mem_singleton.mp hn⟩

/-- What is forgotten with the classes, one after the other, is what goes with them. -/
theorem mem_forgottenBy :
    a ∈ forgottenBy (fun t n => t.methodsOf g n) t l ↔ t.GoesWith g l a := by
  induction l generalizing t with
  | nil => simp [forgottenBy]
  | cons n rest ih =>
      have hfirst : a ∈ (t.methodsOf g n).map Artifact.method ++ [.cls n] ↔
          t.GoesWith g [n] a := by
        rw [List.mem_append, List.mem_map, List.mem_singleton]
        constructor
        · rintro (⟨m, hm, rfl⟩ | rfl)
          · exact mem_methodsOf.mp hm
          · exact .cls (List.mem_singleton.mpr rfl)
        · intro h
          cases h with
          | cls hn => exact .inr (congrArg _ (List.mem_singleton.mp hn))
          | registered he howner hn =>
              exact .inl ⟨_, mem_methodsOf.mpr (.registered he howner hn), rfl⟩
          | tagged ht hi hn => exact .inl ⟨_, mem_methodsOf.mpr (.tagged ht hi hn), rfl⟩
      unfold forgottenBy
      rw [List.append_cons, List.mem_append, hfirst, ih, goesWith_cons (l := rest)]
      by_cases ha : t.GoesWith g [n] a
      · simp [ha]
      · -- what stays with the first class is as it was when the others are looked at
        have hnot : a ∉ (t.methodsOf g n).map Artifact.method ++ [.cls n] := by
          rw [hfirst]
          exact ha
        have hforgot := forgot_forgetClass t (t.methodsOf g n) n
        have hentry : (t.forgetClass (t.methodsOf g n) n).registries.entry? a =
            t.registries.entry? a := by
          rw [hforgot.registries, Registries.entry?_forgetAll, if_neg hnot]
        have htag : (t.forgetClass (t.methodsOf g n) n).marks.isTagged a = t.marks.isTagged a := by
          show MarkTable.has _ _ _ = MarkTable.has _ _ _
          rw [hforgot.marks, if_neg hnot]
        apply or_congr_right
        constructor
        · intro h
          exact h.imp (fun _ hk => hk) (fun _ => hentry.symm) fun _ => htag.symm
        · intro h
          exact h.imp (fun _ hk => hk) (fun _ => hentry) fun _ => htag

/-! ## What a capture leaves -/

/-- The classes about to be reclaimed are forgotten with all that goes with them, on both streams,
and nothing else has changed for any artifact. -/
structure Unloaded (t : TypeSet) (g : MetadataGraph) (t' : TypeSet) : Prop where
  gone : ∀ a, t.GoesWith g g.unloading a → t'.id? a = none ∧ ∀ m, t'.marks.has m a = false
  leak_gone : ∀ n ∈ g.unloading, t'.leakId? n = none
  stays : ∀ a, ¬ t.GoesWith g g.unloading a →
    t'.registries.entry? a = t.registries.entry? a ∧ ∀ m, t'.marks.has m a = t.marks.has m a
  leak_stays : ∀ n, n ∉ g.unloading → t'.leakId? n = t.leakId? n
  retained : t'.leak.retained = t.leak.retained

theorem Unloaded.id?_stays (h : t.Unloaded g t') (ha : ¬ t.GoesWith g g.unloading a) :
    t'.id? a = t.id? a := by
  unfold TypeSet.id? Registries.id?
  rw [(h.stays a ha).1]

/-- Without an announcement there is nothing to do. -/
theorem unloaded_refl (h : g.unloading = []) : t.Unloaded g t where
  gone a ha := by
    rw [h] at ha
    exact absurd ha not_goesWith_nil
  leak_gone n hn := by
    rw [h] at hn
    cases hn
  stays _ _ := ⟨rfl, fun _ => rfl⟩
  leak_stays _ _ := rfl
  retained := rfl

section Captured

variable {name : String} {r : Registries} {captured : List CapturedClass}

/-- A capture does not change what goes with the classes. -/
theorem mem_forgottenBy_captured
    (hcaptured : UnloadCapture.Captured g name t.registries r captured)
    (hhandles : captured.map CapturedClass.handle = g.unloading.eraseDups) :
    a ∈ forgottenBy (fun t n => t.methodsOf g n) { t with registries := r }
      (captured.map CapturedClass.handle) ↔ t.GoesWith g g.unloading a := by
  have hothers : a.kind = .method → r.entry? a = t.registries.entry? a := by
    intro hkind
    exact hcaptured.others a (by simp [hkind])
  rw [mem_forgottenBy, hhandles]
  constructor
  · intro h
    exact h.imp (fun n => List.mem_eraseDups.mp) (fun hkind => (hothers hkind).symm) fun _ => rfl
  · intro h
    exact h.imp (fun n => List.mem_eraseDups.mpr) hothers fun _ => rfl

/-- The ids that a capture hands out are those of classes that go with it. -/
theorem entry?_captured (hcaptured : UnloadCapture.Captured g name t.registries r captured)
    (hhandles : captured.map CapturedClass.handle = g.unloading.eraseDups)
    (ha : ¬ t.GoesWith g g.unloading a) : r.entry? a = t.registries.entry? a := by
  by_cases hkind : a.kind = .cls
  · refine hcaptured.registries.other_entry a ?_ (by simp [hkind])
    intro hfresh
    obtain ⟨c, hc, rfl⟩ := List.mem_map.mp hfresh
    have hmem : c.handle ∈ captured.map CapturedClass.handle :=
      List.mem_map_of_mem (List.mem_filter.mp hc).1
    rw [hhandles, List.mem_eraseDups] at hmem
    exact ha (.cls hmem)
  · exact hcaptured.others a hkind

/-- On the leak stream the captured classes lose their ids. -/
theorem leakId?_forgetCaptured
    (hhandles : captured.map CapturedClass.handle = g.unloading.eraseDups) (n : Handle) :
    ({ t with registries := r }.forgetCaptured g captured).leak.ids.id? (.cls n) =
      if n ∈ g.unloading then none else t.leak.ids.id? (.cls n) := by
  have hmem : .cls n ∈ (captured.map CapturedClass.handle).map Artifact.cls ↔ n ∈ g.unloading := by
    rw [hhandles]
    simp
  show (forgetClasses _ _ _).leak.ids.id? (.cls n) = _
  rw [leak_forgetClasses]
  show (Registries.forgetAll _ _).id? _ = _
  rw [Registries.id?_forgetAll]
  simp only [hmem]

/-- To forget captured classes leaves the captured state without them, which differs from the one
before the capture in the ids of these classes only. -/
theorem unloaded_forgetCaptured
    (hcaptured : UnloadCapture.Captured g name t.registries r captured)
    (hhandles : captured.map CapturedClass.handle = g.unloading.eraseDups) :
    t.Unloaded g ({ t with registries := r }.forgetCaptured g captured) := by
  have hforgot := forgot_forgetClasses (fun t n => t.methodsOf g n) { t with registries := r }
    (captured.map CapturedClass.handle)
  constructor
  case gone =>
    intro a ha
    rw [← mem_forgottenBy_captured hcaptured hhandles] at ha
    show (forgetClasses _ _ _).registries.id? a = none ∧ ∀ m, MarkTable.has _ m a = false
    refine ⟨?_, ?_⟩
    · rw [hforgot.registries, Registries.id?_forgetAll, if_pos ha]
    · intro m
      exact (hforgot.marks m a).trans (if_pos ha)
  case leak_gone => exact fun n hn => (leakId?_forgetCaptured hhandles n).trans (if_pos hn)
  case stays =>
    intro a ha
    have hnot := mt (mem_forgottenBy_captured hcaptured hhandles).mp ha
    show (forgetClasses _ _ _).registries.entry? a = _ ∧ ∀ m, MarkTable.has _ m a = _
    refine ⟨?_, ?_⟩
    · rw [hforgot.registries, Registries.entry?_forgetAll, if_neg hnot]
      exact entry?_captured hcaptured hhandles ha
    · intro m
      exact (hforgot.marks m a).trans (if_neg hnot)
  case leak_stays => exact fun n hn => (leakId?_forgetCaptured hhandles n).trans (if_neg hn)
  case retained =>
    show (forgetClasses _ _ _).leak.retained = _
    rw [leak_forgetClasses]
    rfl

end Captured

/-- A capture that succeeds is complete. -/
theorem unloaded_captureUnloading {σ : Type} [Sink σ] {w : σ} {k : Nat}
    (hok : (t.captureUnloading g w).result = .ok k) :
    t.Unloaded g (t.captureUnloading g w).types := by
  cases hc : t.captures? g w with
  | none =>
      rcases captureUnloading_stopped hc with
        ⟨-, heq⟩ | ⟨v, t', -, heq⟩ | ⟨hnil, heq⟩ | ⟨l, e, w', t', -, -, heq⟩
      · rw [heq] at hok
        cases hok
      · rw [heq] at hok
        cases hok
      · rw [heq]
        exact unloaded_refl hnil
      · rw [heq] at hok
        cases hok
  | some q =>
      obtain ⟨captured, r⟩ := q
      obtain ⟨hcapture, -, n, w', -, heq⟩ := captureUnloading_committed hc
      obtain ⟨hcaptured, hhandles⟩ := UnloadCapture.capture_ok hcapture
      have h := unloaded_forgetCaptured hcaptured hhandles
      rw [heq]
      exact ⟨h.gone, h.leak_gone, h.stays, h.leak_stays, h.retained⟩

/-! ## The last records -/

/-- The last record of a class: under the id that it has, or under a new one that was never used;
with its name in the graph; and with its loader by id, as far as the loader has one, and by name. -/
def LastRecord (t : TypeSet) (H : History) (g : MetadataGraph) (n : Handle) (record : Record) :
    Prop :=
  ∃ i id, g.cls n = some i ∧
    record = .unloadedClass id i.name
      (i.loader.elim (some bootstrapId) fun l => t.id? (.classLoader l))
      (i.loader.elim (some t.settings.bootstrapLoaderName) fun l =>
        (g.classLoader l).map LoaderInfo.displayName) ∧
    (t.id? (.cls n) = some id ∨
      t.id? (.cls n) = none ∧ t.registries.ids.next ≤ id ∧
        ∀ j header e, H.MainAt j header e → e.record.id ≠ id)

end TypeSet

namespace IdLedger

/-- An id that is not handed out yet was never used. -/
theorem not_used {r : Registries} {H : History} (h : IdLedger r H) {id : TraceId}
    (hid : r.ids.next ≤ id) {j : Nat} {header : Header} {e : Entry} (hj : H.MainAt j header e) :
    e.record.id ≠ id := by
  cases hsub : e.subject with
  | none =>
      have hpos := h.wf.next_pos
      rw [h.bootstrap j header e hj hsub]
      intro heq
      rw [← heq] at hid
      exact absurd hpos (Nat.not_lt_of_le hid)
  | some a =>
      have hlt := (h.used j header e a hj hsub).2
      intro heq
      rw [← heq] at hid
      exact absurd hlt (Nat.not_lt_of_le hid)

end IdLedger

/-- The announced classes are captured without their repetitions. -/
theorem nodup_eraseDups (l : List Handle) : l.eraseDups.Nodup := by
  match l with
  | [] => exact List.nodup_nil
  | n :: rest =>
    rw [List.eraseDups_cons, List.nodup_cons]
    refine ⟨?_, nodup_eraseDups _⟩
    rw [List.mem_eraseDups]
    simp
termination_by l.length
decreasing_by
  have := List.length_filter_le (fun k => !k == n) rest
  simp only [List.length_cons]
  omega

namespace UnloadCapture

variable {g : MetadataGraph} {name : String} {r r' : Registries} {l : List CapturedClass}

/-- How the loader of a class is named in its last record. -/
theorem loader_eq (g : MetadataGraph) (r : Registries) (name : String) (i : ClassInfo) :
    loader g r name i =
      (i.loader.elim (some bootstrapId) fun l => r.id? (.classLoader l),
        i.loader.elim (some name) fun l => (g.classLoader l).map LoaderInfo.displayName) := by
  unfold loader
  cases i.loader <;> rfl

/-- What is written of a captured class is its last record. -/
theorem Captured.lastRecord {t : TypeSet} {H : History}
    (h : Captured g t.settings.bootstrapLoaderName t.registries r' l)
    (hids : IdLedger t.registries H) {c : CapturedClass} (hc : c ∈ l) :
    t.LastRecord H g c.handle c.record := by
  obtain ⟨i, hi, hname, hloader⟩ := h.fields c hc
  rw [loader_eq] at hloader
  obtain ⟨hid, hloaderName⟩ := Prod.mk.inj hloader
  refine ⟨i, c.id, hi, ?_, ?_⟩
  · unfold CapturedClass.record
    rw [hname, hid, hloaderName]
    rfl
  · rcases h.registries.known (h.ids c hc) with hold | ⟨-, hnone, hnext⟩
    · exact .inl hold
    · exact .inr ⟨hnone, hnext, fun j header e hj => hids.not_used hnext hj⟩

/-- Captured classes have ids of their own. -/
theorem Captured.nodup_ids (h : Captured g name r r' l) (hwf : r.WF)
    (hnodup : (l.map CapturedClass.handle).Nodup) :
    ((l.map CapturedClass.record).map Record.id).Nodup := by
  rw [List.map_map]
  refine List.Nodup.map_on ?_ (List.Nodup.of_map _ hnodup)
  intro c hc d hd heq
  have hsame : Artifact.cls c.handle = .cls d.handle := by
    apply (h.wf hwf).id?_inj (h.ids c hc)
    rw [h.ids d hd]
    exact congrArg some heq.symm
  exact List.inj_on_of_nodup_map hnodup hc hd (congrArg Artifact.handle hsame)

end UnloadCapture

/-! ## The whole call -/

/-- However the run goes on behind a committed capture: what the capture has made to go had its id
for the last time. -/
theorem Run.resolve_unloaded {settings : Settings} {t t' : TypeSet} {H E : History}
    (h : Run settings t H) {g : MetadataGraph} {σ : Type} [Sink σ] {w : σ}
    {l : List CapturedClass} {r : Registries} (hc : t.captures? g w = some (l, r)) {a : Artifact}
    {id : TraceId} (ha : t.GoesWith g g.unloading a) (hid : r.id? a = some id)
    (hrun : Run settings t' (H ++ t.captureEvents g w ++ E)) :
    (.rotated ∉ E → t'.resolve id = .error (.violation (.forgottenId id))) ∧
    ∀ a, t'.resolve id ≠ .ok (some a) := by
  obtain ⟨hcapture, -⟩ := TypeSet.captureUnloading_committed hc
  obtain ⟨hcaptured, hhandles⟩ := UnloadCapture.capture_ok hcapture
  have hevents : H ++ t.captureEvents g w ++ E =
      H ++ [.committed t.captureHeader (l.map TypeSet.captureEntry)] ++
        .forgotten (TypeSet.forgottenBy (fun t n => t.methodsOf g n)
          { t with registries := r } (l.map CapturedClass.handle)) :: E := by
    unfold TypeSet.captureEvents
    rw [hc]
    simp
  rw [hevents] at hrun
  have hretired := (h.recorded.captured hcaptured).retiredAt hid
    ((TypeSet.mem_forgottenBy_captured hcaptured hhandles).mpr ha) E
  obtain ⟨hviolation, hnone⟩ := hrun.resolve_retired hretired
  refine ⟨?_, hnone⟩
  intro hrot
  exact hviolation (History.not_rotatedAfter_of_not_mem hrot)

/-- A capture that succeeds has written one segment with the last records of the announced classes,
each once and in the order of their announcement, or nothing if there are none. Behind it, the
classes are forgotten with all that goes with them, and nothing else has changed for any artifact
(`TypeSet.Unloaded`). However the run goes on, to ask for an id that went out of use is a violation
until the next rotation, and never finds an artifact. -/
theorem Run.unloading_complete {settings : Settings} {t : TypeSet} {H : History}
    (h : Run settings t H) (g : MetadataGraph) {σ : Type} [Sink σ] [LawfulSink σ] (w : σ) {k : Nat}
    (hok : (t.captureUnloading g w).result = .ok k) :
    k = g.unloading.eraseDups.length ∧
    (k = 0 → (t.captureUnloading g w).sinks = w) ∧
    t.Unloaded g (t.captureUnloading g w).types ∧
    ∃ records, List.Forall₂ (t.LastRecord H g) g.unloading.eraseDups records ∧
      (records.map Record.id).Nodup ∧
      committed (t.captureUnloading g w).sinks =
        committed w ++ segmentOf ⟨.classUnload, t.epoch.generation, false⟩ records ∧
      ∀ id, (id ∈ records.map Record.id ∨
          ∃ a, t.GoesWith g g.unloading a ∧ t.id? a = some id) →
        ∀ t' E, Run settings t' (H ++ t.captureEvents g w ++ E) →
          (.rotated ∉ E → t'.resolve id = .error (.violation (.forgottenId id))) ∧
          ∀ a, t'.resolve id ≠ .ok (some a) := by
  have hunloaded := TypeSet.unloaded_captureUnloading hok
  cases hc : t.captures? g w with
  | none =>
      rcases TypeSet.captureUnloading_stopped hc with
        ⟨-, heq⟩ | ⟨v, t', -, heq⟩ | ⟨hnil, heq⟩ | ⟨l, e, w', t', -, -, heq⟩ <;>
        rw [heq] at hok hunloaded ⊢ <;> cases hok
      rw [hnil, List.eraseDups_nil]
      refine ⟨rfl, fun _ => rfl, hunloaded, [], .nil, List.nodup_nil, ?_, ?_⟩
      · exact (List.append_nil _).symm
      · rintro id (hid | ⟨a, ha, -⟩)
        · cases hid
        · exact absurd ha TypeSet.not_goesWith_nil
  | some q =>
      obtain ⟨l, r⟩ := q
      obtain ⟨hcapture, hne, n, w', hsend, heq⟩ := TypeSet.captureUnloading_committed hc
      obtain ⟨hcaptured, hhandles⟩ := UnloadCapture.capture_ok hcapture
      rw [heq] at hok hunloaded ⊢
      cases hok
      have hlength : l.length = g.unloading.eraseDups.length := by
        rw [← hhandles, List.length_map]
      refine ⟨hlength, ?_, hunloaded, l.map CapturedClass.record, ?_, ?_, send_ok hsend, ?_⟩
      · intro hzero
        exact absurd (List.eq_nil_of_length_eq_zero hzero) hne
      · rw [← hhandles, List.forall₂_map_left_iff, List.forall₂_map_right_iff, List.forall₂_same]
        intro c hc
        exact hcaptured.lastRecord h.recorded.ids hc
      · apply hcaptured.nodup_ids h.recorded.ids.wf
        rw [hhandles]
        exact nodup_eraseDups _
      · intro id hid t' E hrun
        rcases hid with hid | ⟨a, ha, hid⟩
        · rw [List.map_map] at hid
          obtain ⟨c, hcl, rfl⟩ := List.mem_map.mp hid
          have hn : c.handle ∈ l.map CapturedClass.handle := List.mem_map.mpr ⟨c, hcl, rfl⟩
          rw [hhandles, List.mem_eraseDups] at hn
          exact h.resolve_unloaded hc (.cls hn) (hcaptured.ids c hcl) hrun
        · exact h.resolve_unloaded hc ha (hcaptured.registries.keeps hid) hrun

/-- The example graph with both classes about to be reclaimed, one of them announced twice. -/
def sampleUnloading : MetadataGraph := { sampleGraph with unloading := [2, 1, 2] }

/-- The class that was written and the one that was tagged go, and the id of the former with it. -/
theorem unloading_complete_sampleNext :
    (sampleNext.captureUnloading sampleUnloading ({} : SegmentLog)).result = .ok 2 ∧
    sampleNext.Unloaded sampleUnloading
      (sampleNext.captureUnloading sampleUnloading ({} : SegmentLog)).types ∧
    (sampleNext.captureUnloading sampleUnloading ({} : SegmentLog)).types.resolve 3 =
      .error (.violation (.forgottenId 3)) := by
  have hok : (sampleNext.captureUnloading sampleUnloading ({} : SegmentLog)).result = .ok 2 := by
    decide +kernel
  obtain ⟨-, -, hunloaded, records, -, -, -, hresolve⟩ :=
    run_sampleNext.unloading_complete sampleUnloading ({} : SegmentLog) hok
  refine ⟨hok, hunloaded, ?_⟩
  have hid : sampleNext.id? (.cls 1) = some 3 := by decide +kernel
  refine (hresolve 3 (.inr ⟨.cls 1, .cls (by decide), hid⟩) _ [] ?_).1 List.not_mem_nil
  rw [List.append_nil]
  exact .captureUnloading sampleUnloading _ run_sampleNext

end TraceTypes
