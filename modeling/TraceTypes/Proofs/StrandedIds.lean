import TraceTypes.Proofs.LeakIds
/-!
# Leak ids that nothing was written under

A write to the leak stream gets its ids class by class while it is prepared. What
becomes of them when it is not made depends on who finds that out:

* a sink — then `rollback` takes back the ids that `prepare` handed out, and
  nothing else (`LeakStream.rollback_prepare`);
* `prepare` itself, at a class whose loader is missing. Then nobody knows which ids
  are new, and they stay (`LeakStream.Stranded`, `LeakStream.prepare_error`).

The type set is poisoned in the second case, so it happens once in a run at most.
From then on the classes with a leak id are those that were written and those that
were stranded (`Run.leakIdOrigin`).
-/

namespace TraceTypes

namespace LeakStream

variable {g : MetadataGraph} {name : String} {generation : Nat} {v : Violation}
  {classes : List (Handle × ClassInfo)} {s s' s₀ : LeakStream} {reached fresh : List Handle}

/-! ## A preparation that fails -/

/-- What a preparation has left in the stream that has come to these classes and no further: those
of them that had no id have got one, and nothing else has changed. -/
structure Stranded (s s' : LeakStream) (reached fresh : List Handle) : Prop where
  nodup : fresh.Nodup
  mem_fresh : ∀ n, n ∈ fresh ↔ n ∈ reached ∧ s.id? n = none
  got : ∀ n ∈ fresh, ∃ id, s'.id? n = some id
  others : ∀ a, (∀ n ∈ fresh, a ≠ .cls n) → s'.ids.id? a = s.ids.id? a
  liveCount : s'.ids.ids.liveCount = s.ids.ids.liveCount + fresh.length
  retain : s'.retain = s.retain
  retained : s'.retained = s.retained

/-- The first of the classes whose loader is missing, with those in front of it. -/
structure FirstMissing (g : MetadataGraph) (classes before : List (Handle × ClassInfo))
    (c : Handle × ClassInfo) (l : Handle) : Prop where
  split : ∃ rest, classes = before ++ c :: rest
  loader : c.2.loader = some l
  missing : g.classLoader l = none
  first : ∀ x ∈ before, ∀ l, x.2.loader = some l → g.classLoader l ≠ none

namespace Stranded

theorem nil (s : LeakStream) : Stranded s s [] [] where
  nodup := List.nodup_nil
  mem_fresh _ := by simp
  got _ h := absurd h List.not_mem_nil
  others _ _ := rfl
  liveCount := rfl
  retain := rfl
  retained := rfl

/-- A class that has an id keeps it. -/
theorem known {n : Handle} {id : TraceId} (h : Stranded s₀ s reached fresh)
    (hn : s.id? n = some id) : Stranded s₀ s (reached ++ [n]) fresh := by
  refine { h with mem_fresh := fun m => ?_ }
  rw [h.mem_fresh, List.mem_append, List.mem_singleton]
  constructor
  · exact fun hm => ⟨.inl hm.1, hm.2⟩
  · rintro ⟨hm | rfl, hnone⟩
    · exact ⟨hm, hnone⟩
    · have hold : s.id? m ≠ s₀.id? m := by
        rw [hn, hnone]
        exact Option.some_ne_none id
      refine (h.mem_fresh m).mp (Decidable.byContradiction fun hm => hold ?_)
      refine h.others (.cls m) fun k hk heq => ?_
      cases heq
      exact hm hk

/-- A class without an id gets one. -/
theorem enroll {n : Handle} (h : Stranded s₀ s reached fresh) (hn : s.id? n = none)
    (hfree : s.ids.ids.owners.get? s.ids.ids.next = none) :
    Stranded s₀ { s with ids := s.ids.enroll (.cls n) } (reached ++ [n]) (fresh ++ [n]) := by
  have hnew : n ∉ fresh := by
    intro hmem
    obtain ⟨id, hid⟩ := h.got n hmem
    rw [hn] at hid
    cases hid
  have hnone : s₀.id? n = none := by
    rw [← hn]
    exact (h.others (.cls n) fun k hk heq => hnew (by cases heq; exact hk)).symm
  have hid (a : Artifact) : (s.ids.enroll (.cls n)).id? a =
      if a = .cls n then some s.ids.ids.next else s.ids.id? a := Registries.id?_enroll ..
  constructor
  case nodup =>
    rw [List.nodup_append]
    refine ⟨h.nodup, by simp, fun m hm k hk heq => ?_⟩
    rw [heq, List.mem_singleton.mp hk] at hm
    exact hnew hm
  case mem_fresh =>
    intro m
    simp only [List.mem_append, List.mem_singleton, h.mem_fresh]
    constructor
    · rintro (hm | rfl)
      · exact ⟨.inl hm.1, hm.2⟩
      · exact ⟨.inr rfl, hnone⟩
    · rintro ⟨hm | rfl, hm'⟩
      · exact .inl ⟨hm, hm'⟩
      · exact .inr rfl
  case got =>
    intro m hm
    show ∃ id, (s.ids.enroll (.cls n)).id? (.cls m) = some id
    rw [hid]
    split
    · exact ⟨_, rfl⟩
    · rename_i hne
      refine h.got m ((List.mem_append.mp hm).resolve_right fun hm => hne ?_)
      rw [List.mem_singleton.mp hm]
  case others =>
    intro a ha
    have hne : a ≠ .cls n := ha n (by simp)
    show (s.ids.enroll (.cls n)).id? a = _
    rw [hid, if_neg hne]
    exact h.others a fun m hm => ha m (List.mem_append_left _ hm)
  case liveCount =>
    show (s.ids.ids.owners.insert _ _).size = _
    have hcount : s.ids.ids.owners.size = _ := h.liveCount
    rw [SlotTable.size_insert_of_none hfree, List.length_append, hcount]
    rfl
  case retain => exact h.retain
  case retained => exact h.retained

end Stranded

theorem loaderName_error {c : ClassInfo} (h : loaderName g name c = .error v) :
    ∃ l, c.loader = some l ∧ g.classLoader l = none ∧ v = .danglingArtifact (.classLoader l) := by
  unfold loaderName at h
  split at h
  · cases h
  · rename_i l hl
    split at h
    · rename_i hmissing
      cases h
      exact ⟨l, hl, hmissing, rfl⟩
    · cases h

theorem loaderName_ok {c : ClassInfo} {loader : String} (h : loaderName g name c = .ok loader) :
    ∀ l, c.loader = some l → g.classLoader l ≠ none := by
  intro l hl hmissing
  unfold loaderName at h
  simp only [hl, hmissing] at h
  cases h

theorem prepareOnto_stranded {p : PendingLeak} (hwf : s.ids.WF)
    (h : Stranded s₀ s reached fresh)
    (herr : prepareOnto g name generation classes p s = .error v s') :
    ∃ before c l fresh', FirstMissing g classes before c l ∧
      v = .danglingArtifact (.classLoader l) ∧
      Stranded s₀ s' (reached ++ (before ++ [c]).map Prod.fst) fresh' := by
  induction classes generalizing p s reached fresh with
  | nil => cases herr
  | cons e rest ih =>
      obtain ⟨n, c⟩ := e
      obtain ⟨id, new, ids, hr⟩ := hwf.exists_register (.cls n)
      have hstep : ∃ fresh', Stranded s₀ { s with ids := ids } (reached ++ [n]) fresh' := by
        rcases Registries.register_cases hr with ⟨hn, -, rfl⟩ | ⟨hn, hfree, -, -, rfl⟩
        · exact ⟨fresh, h.known hn⟩
        · exact ⟨_, h.enroll hn hfree⟩
      obtain ⟨fresh', hstep⟩ := hstep
      unfold prepareOnto at herr
      simp only [hr] at herr
      cases hl : loaderName g name c with
      | error v' =>
          rw [hl] at herr
          cases herr
          obtain ⟨l, hloader, hmissing, rfl⟩ := loaderName_error hl
          exact ⟨[], (n, c), l, fresh', ⟨⟨rest, rfl⟩, hloader, hmissing, fun _ hx => nomatch hx⟩, rfl,
            hstep⟩
      | ok loader =>
          rw [hl] at herr
          obtain ⟨before, c', l, fresh'', ⟨⟨rest', hsplit⟩, hloader, hmissing, hfirst⟩, hv, hs⟩ :=
            ih (hwf.register hr) hstep herr
          refine ⟨(n, c) :: before, c', l, fresh'',
            ⟨⟨rest', congrArg _ hsplit⟩, hloader, hmissing, ?_⟩, hv, ?_⟩
          · intro x hx
            rcases List.mem_cons.mp hx with rfl | hx
            · exact loaderName_ok hl
            · exact hfirst x hx
          · rw [List.append_assoc] at hs
            exact hs

/-- A preparation fails at the first class whose loader is missing. The ids that it has handed out
until then, the last one to this class, stay. -/
theorem prepare_error (hwf : s.ids.WF) (h : prepare g name generation classes s = .error v s') :
    ∃ before c l fresh, FirstMissing g classes before c l ∧
      v = .danglingArtifact (.classLoader l) ∧
      Stranded s s' ((before ++ [c]).map Prod.fst) fresh :=
  prepareOnto_stranded hwf (.nil s) h

/-! ## A write that is rolled back -/

/-- A stream that answers as the other one. -/
structure Restored (s s' : LeakStream) : Prop where
  ids : ∀ a, s'.ids.id? a = s.ids.id? a
  liveCount : s'.ids.ids.liveCount = s.ids.ids.liveCount
  retain : s'.retain = s.retain
  retained : s'.retained = s.retained

/-- A preparation leaves no trace where all classes that it has come to had an id already. -/
theorem Stranded.restored_iff (h : Stranded s s' reached fresh) :
    Restored s s' ↔ ∀ n ∈ reached, s.id? n ≠ none := by
  constructor
  · intro hr n hn hnone
    obtain ⟨id, hid⟩ := h.got n ((h.mem_fresh n).mpr ⟨hn, hnone⟩)
    have hsame : s'.id? n = s.id? n := hr.ids (.cls n)
    rw [hsame, hnone] at hid
    cases hid
  · intro hknown
    have hfresh : fresh = [] := by
      refine List.eq_nil_iff_forall_not_mem.mpr fun n hn => ?_
      obtain ⟨hreached, hnone⟩ := (h.mem_fresh n).mp hn
      exact hknown n hreached hnone
    subst hfresh
    exact ⟨fun a => h.others a fun n hn => absurd hn List.not_mem_nil, h.liveCount, h.retain,
      h.retained⟩

/-- To roll a prepared write back takes back its ids and leaves nothing else behind. -/
theorem rollback_prepare {p : PendingLeak} (h : prepare g name generation classes s = .ok p s') :
    Restored s (s'.rollback p) := by
  obtain ⟨hprepared, -⟩ := prepare_ok h
  exact ⟨hprepared.rollback.ids, SlotTable.size_congr hprepared.rollback.owners, hprepared.retain,
    hprepared.retained⟩

end LeakStream

/-! ## Over a run -/

/-- Some committed leak segment has a record of the class with this id, and the class was not
forgotten since. -/
def History.LeakRecord (H : History) (n : Handle) (id : TraceId) : Prop :=
  ∃ i header e, H.LeakAt i header e ∧ e.subject = some (.cls n) ∧ e.record.id = id ∧
    ¬ H.ForgottenAfter i (.cls n)

theorem LeakLedger.id?_iff {retaining : Bool} {s : LeakStream} {H : History}
    (h : LeakLedger retaining s H) (n : Handle) (id : TraceId) :
    s.id? n = some id ↔ H.LeakRecord n id := by
  constructor
  · intro hid
    obtain ⟨i, header, e, hi, hsub, hnot⟩ := h.ids.known (.cls n) id hid
    have hlive := h.ids.live i header e (.cls n) hi hsub hnot
    obtain ⟨k, hk⟩ := History.leakAt_of_swap hi
    exact ⟨i, k, e, hk, hsub, Option.some.inj (hlive.symm.trans hid),
      fun hf => hnot (History.forgottenAfter_swap.mpr hf)⟩
  · rintro ⟨i, header, e, hi, hsub, rfl, hnot⟩
    exact h.ids.live i _ e (.cls n) hi.swap hsub fun hf => hnot (History.forgottenAfter_swap.mp hf)

theorem History.leakRecord_snoc_rotated {H : History} {n : Handle} {id : TraceId} :
    LeakRecord (H ++ [.rotated]) n id ↔ H.LeakRecord n id := by
  simp [LeakRecord, LeakAt, getElem?_snoc]

/-- The run was poisoned by a preparation that failed, which has left these classes with ids. -/
structure FailedPreparation (settings : Settings) (t₀ : TypeSet) (H₀ : History) (t : TypeSet)
    (H : History) (fresh : List Handle) : Prop where
  run : Run settings t₀ H₀
  sound : t₀.isPoisoned = false
  history : H₀ <+: H
  failed : ∃ g classUnload pass classes v before c l,
    Pass.planAll (t₀.scope g classUnload) t₀.registries t₀.symbols = .ok () pass ∧
    pass.leakClasses (t₀.scope g classUnload) = .ok classes ∧
    LeakStream.prepare g t₀.settings.bootstrapLoaderName t₀.epoch.generation classes t₀.leak =
      .error v t.leak ∧
    t.poisoned = some v ∧ LeakStream.FirstMissing g classes before c l ∧
    v = .danglingArtifact (.classLoader l) ∧
    LeakStream.Stranded t₀.leak t.leak ((before ++ [c]).map Prod.fst) fresh

/-- Where the leak ids come from: they were written, or a preparation that failed stranded them. -/
def LeakIdOrigin (settings : Settings) (t : TypeSet) (H : History) : Prop :=
  (∀ n id, t.leakId? n = some id ↔ H.LeakRecord n id) ∨
  ∃ t₀ H₀ fresh, FailedPreparation settings t₀ H₀ t H fresh ∧
    (∀ n, n ∉ fresh → ∀ id, t.leakId? n = some id ↔ H.LeakRecord n id) ∧
    ∀ n ∈ fresh, (∃ id, t.leakId? n = some id) ∧ ∀ id, ¬ H.LeakRecord n id

namespace LeakIdOrigin

variable {settings : Settings} {t t' : TypeSet} {H H' : History}

/-- A call that touches neither the leak stream nor what was written there. -/
theorem same (h : LeakIdOrigin settings t H) (hleak : t'.leak = t.leak)
    (hpoisoned : t'.poisoned = t.poisoned) (hH : H <+: H')
    (hrecord : ∀ n id, H'.LeakRecord n id ↔ H.LeakRecord n id) : LeakIdOrigin settings t' H' := by
  have hid (n : Handle) : t'.leakId? n = t.leakId? n := by rw [TypeSet.leakId?, hleak]; rfl
  simp only [LeakIdOrigin, hid, hrecord]
  refine h.imp_right ?_
  rintro ⟨t₀, H₀, fresh, ⟨hrun, hsound, hhistory, hfailed⟩, hids⟩
  refine ⟨t₀, H₀, fresh, ⟨hrun, hsound, hhistory.trans hH, ?_⟩, hids⟩
  rw [hleak, hpoisoned]
  exact hfailed

theorem of_sound (h : Run settings t H) (hp : t.isPoisoned = false) : LeakIdOrigin settings t H :=
  .inl (h.leakRecorded.sound (by simp [hp])).id?_iff

/-- A pass that poisons the type set has met a violation, perhaps while it prepared its leak
write. -/
theorem of_poisoning_pass {σ τ : Type} [Sink σ] [Sink τ] {g : MetadataGraph} {flags : PassFlags}
    {w : Sinks σ τ} (h : Run settings t H) (hp : t.isPoisoned = false)
    (hp' : (t.serialize g flags w).types.isPoisoned = true) :
    LeakIdOrigin settings (t.serialize g flags w).types (H ++ t.serializeEvents g flags w) := by
  have hledger := h.leakRecorded.sound (by simp [hp])
  have hsound : ¬ t.poisoned.isSome = true := by simpa [TypeSet.isPoisoned] using hp
  cases hc : t.commits? g flags w with
  | some q =>
      obtain ⟨b, t', w'⟩ := q
      obtain ⟨hplan, bytes, -, heq⟩ := TypeSet.serialize_committed hc
      obtain ⟨s, hplanned⟩ := TypeSet.plan_ok hplan
      have hpoisoned : t'.poisoned = t.poisoned := by rw [hplanned.types]; rfl
      rw [heq, TypeSet.isPoisoned, TypeSet.poisoned_finishPass, hpoisoned] at hp'
      exact absurd hp' hsound
  | none =>
      have hevents : t.serializeEvents g flags w = [] := by simp [TypeSet.serializeEvents, hc]
      rw [hevents, List.append_nil]
      rcases TypeSet.serialize_stopped hc with
        ⟨hp', -⟩ | ⟨v, t', hplan, heq⟩ | ⟨b, t', e, w', hplan, -, heq⟩
      · exact absurd hp' hsound
      · rw [heq]
        rcases TypeSet.plan_leak_error hplan with hsame | ⟨pass, classes, hpass, hclasses, hprepare⟩
        · refine .inl fun n id => ?_
          rw [← hledger.id?_iff, ← hsame]
          rfl
        · obtain ⟨before, c, l, fresh, hmissing, hv, hs⟩ :=
            LeakStream.prepare_error hledger.ids.wf hprepare
          refine .inr ⟨t, H, fresh, ⟨h, hp, List.prefix_rfl, g, flags.classUnload, pass, classes, v,
            before, c, l, hpass, hclasses, hprepare, rfl, hmissing, hv, hs⟩, ?_, ?_⟩
          · intro n hn id
            rw [← hledger.id?_iff]
            have hother := hs.others (.cls n) fun m hm heq => hn (by cases heq; exact hm)
            show t'.leak.id? n = some id ↔ _
            rw [LeakStream.id?, hother]
            rfl
          · intro n hn
            refine ⟨hs.got n hn, fun id hid => ?_⟩
            rw [← hledger.id?_iff, ((hs.mem_fresh n).mp hn).2] at hid
            cases hid
      · obtain ⟨s, hplanned⟩ := TypeSet.plan_ok hplan
        have hpoisoned : (t'.rollback b).countFailure.poisoned = t.poisoned :=
          hplanned.rollback.poisoned
        rw [heq, TypeSet.isPoisoned, hpoisoned] at hp'
        exact absurd hp' hsound

/-- A capture that poisons the type set has not touched the leak stream. -/
theorem of_poisoning_capture {σ : Type} [Sink σ] {g : MetadataGraph} {w : σ} (h : Run settings t H)
    (hp : t.isPoisoned = false) (hp' : (t.captureUnloading g w).types.isPoisoned = true) :
    LeakIdOrigin settings (t.captureUnloading g w).types (H ++ t.captureEvents g w) := by
  have hledger := h.leakRecorded.sound (by simp [hp])
  have hsound : ¬ t.poisoned.isSome = true := by simpa [TypeSet.isPoisoned] using hp
  cases hc : t.captures? g w with
  | some q =>
      obtain ⟨l, r⟩ := q
      obtain ⟨-, -, n, w', -, heq⟩ := TypeSet.captureUnloading_committed hc
      have hpoisoned : (t.captureUnloading g w).types.poisoned = t.poisoned := by
        rw [heq]
        exact TypeSet.poisoned_forgetClasses ..
      rw [TypeSet.isPoisoned, hpoisoned] at hp'
      exact absurd hp' hsound
  | none =>
      have hevents : t.captureEvents g w = [] := by simp [TypeSet.captureEvents, hc]
      rw [hevents, List.append_nil]
      rcases TypeSet.captureUnloading_stopped hc with
        ⟨hp', -⟩ | ⟨v, t', hundone, heq⟩ | ⟨-, heq⟩ | ⟨l, e, w', t', hundone, -, heq⟩
      · exact absurd hp' hsound
      · rw [heq]
        refine .inl fun n id => ?_
        rw [← hledger.id?_iff]
        show t'.leak.ids.id? (.cls n) = some id ↔ _
        rw [hundone.leakIds.ids]
        rfl
      · rw [heq] at hp'
        exact absurd hp' hsound
      · have hpoisoned : t'.countFailure.poisoned = t.poisoned := hundone.poisoned
        rw [heq, TypeSet.isPoisoned, hpoisoned] at hp'
        exact absurd hp' hsound

end LeakIdOrigin

/-- In every state that a run reaches, the classes with a leak id are those that some committed leak
segment has a record for and that were not forgotten since, or a preparation that failed has
poisoned the run and stranded some more. -/
theorem Run.leakIdOrigin {settings : Settings} {t : TypeSet} {H : History} (h : Run settings t H) :
    LeakIdOrigin settings t H := by
  induction h with
  | create => exact .of_sound .create rfl
  | tag a _ ih => exact ih.same rfl rfl List.prefix_rfl fun _ _ => Iff.rfl
  | tagLeak n _ ih => exact ih.same rfl rfl List.prefix_rfl fun _ _ => Iff.rfl
  | clear _ ih => exact ih.same rfl rfl List.prefix_rfl fun _ _ => Iff.rfl
  | rotate _ ih =>
      exact ih.same rfl rfl (List.prefix_append ..) fun _ _ => History.leakRecord_snoc_rotated
  | @serialize t H _ _ _ _ g flags w h ih =>
      cases hp : t.isPoisoned with
      | true =>
          -- nothing is done any more
          have heq : t.serialize g flags w = ⟨.error .poisoned, t, w⟩ := if_pos hp
          have hevents : t.serializeEvents g flags w = [] := by
            simp [TypeSet.serializeEvents, TypeSet.commits?, hp]
          rw [heq, hevents, List.append_nil]
          exact ih
      | false =>
          cases hp' : (t.serialize g flags w).types.isPoisoned with
          | true => exact .of_poisoning_pass h hp hp'
          | false => exact .of_sound (.serialize g flags w h) hp'
  | @captureUnloading t H _ _ g w h ih =>
      cases hp : t.isPoisoned with
      | true =>
          have heq : t.captureUnloading g w = ⟨.error .poisoned, t, w⟩ := if_pos hp
          have hevents : t.captureEvents g w = [] := by
            simp [TypeSet.captureEvents, TypeSet.captures?, hp]
          rw [heq, hevents, List.append_nil]
          exact ih
      | false =>
          cases hp' : (t.captureUnloading g w).types.isPoisoned with
          | true => exact .of_poisoning_capture h hp hp'
          | false => exact .of_sound (.captureUnloading g w h) hp'

/-- A preparation that fails leaves ids behind, those that it has handed out to the classes without
one up to the first whose loader is missing, and nothing else: it leaves no trace just where all of
these had one. One that succeeds can be rolled back without a trace. And in every state that a run
reaches a class has a leak id as in the committed records of it, unless a preparation that failed
has stranded the id. -/
theorem leak_ids_written_or_stranded (g : MetadataGraph) (name : String) (generation : Nat)
    (classes : List (Handle × ClassInfo)) {s : LeakStream} (hwf : s.ids.WF) {settings : Settings}
    {t : TypeSet} {H : History} (hrun : Run settings t H) :
    (∀ v s', LeakStream.prepare g name generation classes s = .error v s' →
      ∃ before c l fresh, LeakStream.FirstMissing g classes before c l ∧
        v = .danglingArtifact (.classLoader l) ∧
        LeakStream.Stranded s s' ((before ++ [c]).map Prod.fst) fresh ∧
        (LeakStream.Restored s s' ↔ ∀ n ∈ (before ++ [c]).map Prod.fst, s.id? n ≠ none)) ∧
    (∀ p s', LeakStream.prepare g name generation classes s = .ok p s' →
      LeakStream.Restored s (s'.rollback p)) ∧
    LeakIdOrigin settings t H := by
  refine ⟨fun v s' h => ?_, fun p s' => LeakStream.rollback_prepare, hrun.leakIdOrigin⟩
  obtain ⟨before, c, l, fresh, hmissing, hv, hs⟩ := LeakStream.prepare_error hwf h
  exact ⟨before, c, l, fresh, hmissing, hv, hs, hs.restored_iff⟩

/-! ## A class whose loader is missing -/

/-- A class whose loader the graph does not have. -/
def orphanGraph : MetadataGraph where
  classLoader _ := none
  module _ := none
  package _ := none
  cls
    | 1 => some { name := "A", loader := some 3 }
    | _ => none
  method _ := none
  thread _ := none
  unloading := []

/-- The class is marked for the leak stream, and a pass tries to write it there. -/
def orphanTypes : TypeSet :=
  (((TypeSet.create {}).tagLeak 1).2.serialize orphanGraph {} sampleLogs).types

theorem run_orphanTypes : Run {} orphanTypes [] := by
  have hevents : ((TypeSet.create {}).tagLeak 1).2.serializeEvents orphanGraph {} sampleLogs = [] :=
    List.isEmpty_iff.mp (by decide +kernel)
  have htagged : Run {} ((TypeSet.create {}).tagLeak 1).2 [] := .tagLeak 1 .create
  have h := Run.serialize orphanGraph {} sampleLogs htagged
  rw [hevents] at h
  exact h

/-- The class gets an id in an empty stream though its write cannot be prepared, and so it does in a
run that has written nothing. -/
theorem prepare_strands_orphan :
    (∃ s', LeakStream.prepare orphanGraph "bootstrap" 0 [(1, { name := "A", loader := some 3 })] {} =
        .error (.danglingArtifact (.classLoader 3)) s' ∧
      s'.id? 1 = some 1 ∧ s'.ids.ids.liveCount = 1) ∧
    ({} : LeakStream).id? 1 = none ∧ ({} : LeakStream).ids.ids.liveCount = 0 ∧
    Run {} orphanTypes [] ∧ orphanTypes.leakId? 1 = some 1 :=
  ⟨⟨_, rfl, by decide, by decide⟩, by decide, by decide, run_orphanTypes, by decide +kernel⟩

theorem leak_ids_written_or_stranded_orphan :
    ({} : LeakStream).ids.WF ∧ Run {} orphanTypes [] ∧
    (∃ s' before c l fresh,
      LeakStream.FirstMissing orphanGraph [(1, { name := "A", loader := some 3 })] before c l ∧
      LeakStream.Stranded {} s' ((before ++ [c]).map Prod.fst) fresh ∧
      (LeakStream.Restored {} s' ↔ ∀ n ∈ (before ++ [c]).map Prod.fst,
        ({} : LeakStream).id? n ≠ none)) ∧
    LeakIdOrigin {} orphanTypes [] := by
  have hwf : ({} : LeakStream).ids.WF := Registries.wf_empty
  obtain ⟨hfails, -, horigin⟩ := leak_ids_written_or_stranded orphanGraph "bootstrap" 0
    [(1, { name := "A", loader := some 3 })] hwf run_orphanTypes
  obtain ⟨before, c, l, fresh, hmissing, -, hs⟩ := hfails _ _ rfl
  exact ⟨hwf, run_orphanTypes, ⟨_, before, c, l, fresh, hmissing, hs⟩, horigin⟩

end TraceTypes
