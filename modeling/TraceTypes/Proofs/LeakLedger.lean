import TraceTypes.Proofs.IdLedger
import TraceTypes.Proofs.LeakWrites
/-!
# The leak stream over a history

`LeakLedger retaining s H` ties the state behind the leak stream to the history
that led to it:

* **retained** — what look-ups find under an id is the last entry of the id in
  the committed leak segments, or nothing if nothing is retained;
* **ids** — the ids of the stream are used as those of the main stream are: the
  ledger of ids holds for the history with the two streams swapped.

There is one lemma for each event that a run can add, and `Run.leakRecorded`
carries the ledger through a run. A write that fails while it is prepared leaves
ids behind that nothing was written under. The type set is poisoned then, and
the ledger keeps speaking of the stream as it was before (`LeakRecorded`).
-/

namespace TraceTypes

/-! ## What leak segments say -/

namespace LeakEntry

/-- What a record says on the leak stream, in a segment of this generation. -/
def ofRecord? (generation : Nat) : Record → Option LeakEntry
  | .leakClass id name loaderName => some ⟨id, name, loaderName, generation⟩
  | _ => none

/-- All that segments say on the leak stream, in order. -/
def written (segments : List Transcript) : List LeakEntry :=
  segments.flatMap fun x => x.2.filterMap (ofRecord? x.1.generation)

/-- The last entry of an id. -/
def last? (id : TraceId) (l : List LeakEntry) : Option LeakEntry :=
  l.reverse.find? fun e => e.id = id

theorem written_append (l l' : List Transcript) : written (l ++ l') = written l ++ written l' :=
  List.flatMap_append

theorem last?_append (id : TraceId) (l l' : List LeakEntry) :
    last? id (l ++ l') = (last? id l').or (last? id l) := by
  simp [last?, List.find?_append]

/-- An id without an entry in a list has none that is the last. -/
theorem last?_eq_none {id : TraceId} {l : List LeakEntry} (h : ∀ e ∈ l, e.id ≠ id) :
    last? id l = none := by
  simpa [last?] using h

/-- What a segment with the records of entries of its generation says is these entries. -/
theorem written_segmentOf {header : Header} {l : List LeakEntry}
    (h : ∀ e ∈ l, e.generation = header.generation) :
    written (segmentOf header (l.map record)) = l := by
  have hall : (l.map record).filterMap (ofRecord? header.generation) = l := by
    induction l with
    | nil => rfl
    | cons e rest ih =>
        rw [List.map_cons, List.filterMap_cons, record, ofRecord?, ← h e List.mem_cons_self]
        refine congrArg (e :: ·) ?_
        rw [h e List.mem_cons_self]
        exact ih fun x hx => h x (List.mem_cons_of_mem _ hx)
  unfold segmentOf
  split
  · rename_i hempty
    rw [List.isEmpty_map] at hempty
    exact (List.isEmpty_iff.mp hempty).symm
  · show (l.map record).filterMap _ ++ [] = l
    rw [List.append_nil, hall]

end LeakEntry

/-- Of the entries that are written to a table, the last one of an id stays. -/
theorem LeakTable.get?_foldl_insert (l : List LeakEntry) (t : LeakTable) (id : TraceId) :
    (l.foldl (fun t e => t.insert e.id e) t).get? id = (LeakEntry.last? id l).or (t.get? id) := by
  induction l generalizing t with
  | nil => rfl
  | cons e rest ih =>
      have hcons : LeakEntry.last? id (e :: rest) =
          (LeakEntry.last? id rest).or (LeakEntry.last? id [e]) := LeakEntry.last?_append id [e] rest
      rw [List.foldl_cons, ih, hcons, Option.or_assoc, SlotTable.get?_insert]
      by_cases he : id = e.id
      · simp [LeakEntry.last?, he]
      · have : ¬ e.id = id := fun h => he h.symm
        simp [LeakEntry.last?, he, this]

/-- Behind a write look-ups find its entries before those that were retained, if anything is. -/
theorem LeakStream.get?_retained_commit (s : LeakStream) (p : PendingLeak) (id : TraceId) :
    (s.commit p).retained.get? id =
      if s.retain then (LeakEntry.last? id p.entries).or (s.retained.get? id)
      else s.retained.get? id := by
  rw [commit_eq]
  split
  · exact LeakTable.get?_foldl_insert p.entries s.retained id
  · rfl

/-- The ids of a write are those that its entries are written under. -/
theorem LeakStream.enrolled_leakEntries {g : MetadataGraph} {name : String} {generation : Nat}
    {classes : List (Handle × ClassInfo)} {b : Batch} {p : PendingLeak} {s s' : LeakStream}
    (hp : prepare g name generation classes s = .ok p s') (hwf : s.ids.WF)
    (hb : b.leakClasses = classes.map Prod.fst) :
    Enrolled s.ids s'.ids p.fresh (TypeSet.leakEntries b p) := by
  obtain ⟨hprepared, hlength⟩ := prepare_ok hp
  have hanswered := answered_prepare hp
  have hdrafted := drafted_prepare g name generation classes s
  rw [hp] at hdrafted
  constructor
  case registries => exact hprepared.ids
  case wf => exact hdrafted.wf hwf
  case ids =>
    intro e he a hsub
    obtain ⟨c, x, hx, rfl⟩ := TypeSet.mem_leakEntries hb he
    cases hsub
    exact (hanswered.describes _ hx).id
  case fresh =>
    intro a ha
    obtain ⟨c, hc, rfl⟩ := hanswered.fresh a ha
    rw [TypeSet.subjects_leakEntries (by rw [hlength, hb, List.length_map]), hb]
    exact List.mem_map_of_mem (List.mem_map_of_mem hc)
  case bootstrap =>
    intro e he hsub
    obtain ⟨c, x, -, rfl⟩ := TypeSet.mem_leakEntries hb he
    cases hsub

/-! ## The streams swapped -/

/-- The kind that a segment has with the streams swapped. -/
def SegmentKind.swap : SegmentKind → SegmentKind
  | leakProfiler => typeSet
  | typeSet | classUnload => leakProfiler

/-- The event with the streams swapped. -/
def Event.swap : Event → Event
  | rotated => rotated
  | committed header l => committed { header with kind := header.kind.swap } l
  | forgotten l => forgotten l

namespace History

/-- The history with the streams swapped. What is known of main segments can so be said of leak
segments. -/
def swap (H : History) : History := H.map Event.swap

/-- The `i`-th event commits the entry on the leak stream, in a segment with this header. -/
def LeakAt (H : History) (i : Nat) (header : Header) (e : Entry) : Prop :=
  ∃ l, H[i]? = some (.committed header l) ∧ header.kind = .leakProfiler ∧ e ∈ l

variable {H : History} {i j : Nat} {header : Header} {e : Entry} {a : Artifact}

theorem swap_append (H H' : History) : (H ++ H').swap = H.swap ++ H'.swap := List.map_append

theorem swap_ofSegment (header : Header) (l : List Entry) :
    swap (Event.ofSegment header l) =
      Event.ofSegment { header with kind := header.kind.swap } l := by
  unfold Event.ofSegment
  split <;> rfl

theorem getElem?_swap (H : History) (i : Nat) : H.swap[i]? = H[i]?.map Event.swap :=
  List.getElem?_map

theorem LeakAt.swap (h : H.LeakAt i header e) :
    H.swap.MainAt i { header with kind := .typeSet } e := by
  obtain ⟨l, hl, hkind, he⟩ := h
  refine ⟨l, ?_, by simp, he⟩
  rw [getElem?_swap, hl]
  simp [Event.swap, SegmentKind.swap, hkind]

end History

/-! ## The ledger -/

/-- The state behind the leak stream and the history agree. -/
structure LeakLedger (retaining : Bool) (s : LeakStream) (H : History) : Prop where
  retain : s.retain = retaining
  retained : ∀ id, s.retained.get? id =
    if retaining then LeakEntry.last? id (LeakEntry.written (H.segments true)) else none
  ids : IdLedger s.ids H.swap
  classes : ∀ a id, s.ids.id? a = some id → a.kind = .cls

namespace LeakLedger

variable {retaining : Bool} {s s' : LeakStream} {H : History}

theorem empty (retaining : Bool) : LeakLedger retaining { retain := retaining } [] where
  retain := rfl
  retained id := by cases retaining <;> rfl
  ids := .empty
  classes a id h := by simp [Registries.id?, Registries.entry?] at h

theorem similar (h : LeakLedger retaining s H) (hids : s.ids.Similar s'.ids)
    (hretain : s'.retain = s.retain) (hretained : s'.retained = s.retained) :
    LeakLedger retaining s' H where
  retain := hretain.trans h.retain
  retained := by
    rw [hretained]
    exact h.retained
  ids := h.ids.similar hids
  classes a id ha := by
    rw [hids.ids] at ha
    exact h.classes a id ha

/-- An event that neither commits on the leak stream nor forgets. -/
theorem idle {event : Event} (h : LeakLedger retaining s H)
    (hleak : ∀ header l, event = .committed header l → header.kind ≠ .leakProfiler)
    (hforgot : ∀ l, event ≠ .forgotten l) : LeakLedger retaining s (H ++ [event]) where
  retain := h.retain
  retained := by
    have : History.segments true [event] = [] := by
      cases event with
      | rotated => rfl
      | forgotten l => rfl
      | committed header l => simp [History.segments, Event.segment?, hleak header l rfl]
    rw [TypeSet.segments_append, this, List.append_nil]
    exact h.retained
  ids := by
    rw [History.swap_append]
    refine h.ids.idle ?_ ?_
    · intro header l heq
      cases event with
      | rotated => cases heq
      | forgotten l => cases heq
      | committed k l =>
          have hk := hleak k l rfl
          cases heq
          cases hkind : k.kind with
          | leakProfiler => exact absurd hkind hk
          | typeSet => rfl
          | classUnload => rfl
    · intro l heq
      cases event with
      | rotated => cases heq
      | committed k l => cases heq
      | forgotten l => exact hforgot l rfl
  classes := h.classes

/-- A committed main segment, if there is one. -/
theorem main (h : LeakLedger retaining s H) (header : Header) (l : List Entry)
    (hkind : header.kind ≠ .leakProfiler) :
    LeakLedger retaining s (H ++ Event.ofSegment header l) := by
  unfold Event.ofSegment
  split
  · rw [List.append_nil]
    exact h
  · refine h.idle ?_ (by simp)
    intro k l' heq
    cases heq
    exact hkind

/-- A committed leak segment, with the classes that its records are written for. -/
theorem commit {g : MetadataGraph} {name : String} {header : Header}
    {classes : List (Handle × ClassInfo)} {b : Batch} {p : PendingLeak}
    (h : LeakLedger retaining s H) (hkind : header.kind = .leakProfiler)
    (hp : LeakStream.prepare g name header.generation classes s = .ok p s')
    (hb : b.leakClasses = classes.map Prod.fst) :
    LeakLedger retaining (s'.commit p)
      (H ++ Event.ofSegment header (TypeSet.leakEntries b p)) := by
  obtain ⟨hprepared, hlength⟩ := LeakStream.prepare_ok hp
  have hanswered := LeakStream.answered_prepare hp
  have hentries : p.entries.length = b.leakClasses.length := by rw [hlength, hb, List.length_map]
  constructor
  case retain => rw [LeakStream.retain_commit, hprepared.retain, h.retain]
  case retained =>
    intro id
    have hwritten : LeakEntry.written (segmentOf header p.records) = p.entries :=
      LeakEntry.written_segmentOf hanswered.current
    rw [TypeSet.segments_append, TypeSet.segments_ofSegment true _ (by simp [hkind]),
      TypeSet.map_record_leakEntries hentries, LeakEntry.written_append, hwritten,
      LeakEntry.last?_append, LeakStream.get?_retained_commit, hprepared.retain, h.retain,
      hprepared.retained, h.retained]
    cases retaining <;> rfl
  case ids =>
    rw [LeakStream.ids_commit, History.swap_append, History.swap_ofSegment]
    exact h.ids.commit_ofSegment (LeakStream.enrolled_leakEntries hp h.ids.wf hb)
      (by simp [SegmentKind.swap, hkind])
  case classes =>
    intro a id ha
    rw [LeakStream.ids_commit] at ha
    rcases hprepared.ids.known ha with ha | ⟨hmem, -, -⟩
    · exact h.classes a id ha
    · obtain ⟨c, -, rfl⟩ := hanswered.fresh a hmem
      rfl

/-- Classes are forgotten, perhaps with their methods, which have no ids here. -/
theorem forget {classes : List Handle} {l : List Artifact} (h : LeakLedger retaining s H)
    (hl : ∀ n, .cls n ∈ l ↔ n ∈ classes) :
    LeakLedger retaining (s.forgetAll classes) (H ++ [.forgotten l]) where
  retain := h.retain
  retained := by
    rw [TypeSet.segments_append]
    show ∀ id, s.retained.get? id = if retaining = true then
      LeakEntry.last? id (LeakEntry.written (H.segments true ++ [])) else none
    rw [List.append_nil]
    exact h.retained
  ids := by
    rw [History.swap_append]
    refine (h.ids.forget l).of_eq ?_ (h.ids.wf.forgetAll _) ?_
    · intro a
      show (s.ids.forgetAll (classes.map Artifact.cls)).id? a = _
      rw [Registries.id?_forgetAll, Registries.id?_forgetAll]
      cases ha : s.ids.id? a with
      | none => simp
      | some id =>
          have hkind := h.classes a id ha
          obtain ⟨k, n⟩ := a
          cases hkind
          have : Artifact.cls n ∈ classes.map Artifact.cls ↔ .cls n ∈ l := by simp [hl]
          simp only [this]
    · rw [Registries.next_forgetAll]
      exact Nat.le_of_eq (Registries.next_forgetAll ..).symm
  classes a id ha := by
    have ha : (s.ids.forgetAll (classes.map Artifact.cls)).id? a = some id := ha
    rw [Registries.id?_forgetAll] at ha
    split at ha
    · cases ha
    · exact h.classes a id ha

end LeakLedger

/-! ## Along a run -/

/-- What a write that failed while it was prepared has left in the stream: some more ids. -/
structure LeakStream.Within (s s' : LeakStream) : Prop where
  retain : s'.retain = s.retain
  retained : s'.retained = s.retained
  ids : ∀ a id, s.ids.id? a = some id → s'.ids.id? a = some id

/-- The leak stream of a type set and the history agree, but for what a failed write left behind
when it poisoned the type set. -/
structure LeakRecorded (settings : Settings) (t : TypeSet) (H : History) : Prop where
  ledger : ∃ s, LeakLedger settings.retainLeakRecords s H ∧ s.Within t.leak ∧
    (t.isPoisoned = false → t.leak = s)

namespace LeakRecorded

variable {settings : Settings} {t t' : TypeSet} {H H' : History}

theorem of_ledger (h : LeakLedger settings.retainLeakRecords t.leak H) :
    LeakRecorded settings t H :=
  ⟨t.leak, h, ⟨rfl, rfl, fun _ _ h => h⟩, fun _ => rfl⟩

/-- As long as nothing was violated, there is no difference. -/
theorem sound (h : LeakRecorded settings t H) (hp : ¬ t.isPoisoned = true) :
    LeakLedger settings.retainLeakRecords t.leak H := by
  obtain ⟨s, hs, -, heq⟩ := h.ledger
  rw [heq (by simpa using hp)]
  exact hs

/-- A call that does not touch the leak stream. -/
theorem same (h : LeakRecorded settings t H) (hleak : t'.leak = t.leak)
    (hpoisoned : t'.poisoned = t.poisoned)
    (hH : ∀ s, LeakLedger settings.retainLeakRecords s H →
      LeakLedger settings.retainLeakRecords s H') : LeakRecorded settings t' H' := by
  obtain ⟨s, hs, hwithin, heq⟩ := h.ledger
  refine ⟨s, hH s hs, hleak ▸ hwithin, ?_⟩
  unfold TypeSet.isPoisoned at heq ⊢
  rw [hpoisoned, hleak]
  exact heq

/-- A call that leaves both streams as they were. -/
theorem kept (h : LeakRecorded settings t H) (hk : TypeSet.Kept t t') :
    LeakRecorded settings t' H := by
  obtain ⟨s, hs, hwithin, -⟩ := h.ledger
  by_cases hp : t.isPoisoned = true
  · refine ⟨s, hs, ⟨hk.retain.trans hwithin.retain, hk.retained.trans hwithin.retained, ?_⟩, ?_⟩
    · intro a id ha
      rw [hk.leakIds.ids]
      exact hwithin.ids a id ha
    · intro hn
      rw [TypeSet.isPoisoned, hk.poisoned, ← TypeSet.isPoisoned, hp] at hn
      cases hn
  · exact .of_ledger ((h.sound hp).similar hk.leakIds hk.retain hk.retained)

theorem poison (h : LeakRecorded settings t H) (v : Violation) :
    LeakRecorded settings (t.poison v) H := by
  obtain ⟨s, hs, hwithin, -⟩ := h.ledger
  exact ⟨s, hs, hwithin, fun hp => by cases hp⟩

/-- A pass that stops before its commit. -/
theorem serialize_stopped {σ τ : Type} [Sink σ] [Sink τ] {g : MetadataGraph} {flags : PassFlags}
    {w : Sinks σ τ} (h : LeakRecorded settings t H) (hc : t.commits? g flags w = none) :
    LeakRecorded settings (t.serialize g flags w).types H := by
  rcases TypeSet.serialize_stopped hc with
    ⟨-, heq⟩ | ⟨v, t', hplan, heq⟩ | ⟨b, t', e, w', hplan, -, heq⟩
  · rw [heq]
    exact h
  · -- a violation; the ids that were handed out on the leak stream stay
    rw [heq]
    obtain ⟨s, hs, hwithin, -⟩ := h.ledger
    refine ⟨s, hs, ?_, fun hp => by cases hp⟩
    show s.Within t'.leak
    rcases TypeSet.plan_leak_error hplan with hsame | ⟨pass, classes, -, -, hprepare⟩
    · rw [hsame]
      exact hwithin
    · have hdrafted := LeakStream.drafted_prepare g t.settings.bootstrapLoaderName
        t.epoch.generation classes t.leak
      rw [hprepare] at hdrafted
      obtain ⟨fresh, hext, -⟩ := hdrafted.ids
      exact ⟨hdrafted.retain.trans hwithin.retain, hdrafted.retained.trans hwithin.retained,
        fun a id ha => hext.keeps (hwithin.ids a id ha)⟩
  · rw [heq]
    obtain ⟨s, hplanned⟩ := TypeSet.plan_ok hplan
    exact (h.kept hplanned.rollback).same rfl rfl fun _ hs => hs

theorem serialize {σ τ : Type} [Sink σ] [Sink τ] (h : LeakRecorded settings t H)
    (g : MetadataGraph) (flags : PassFlags) (w : Sinks σ τ) :
    LeakRecorded settings (t.serialize g flags w).types (H ++ t.serializeEvents g flags w) := by
  unfold TypeSet.serializeEvents
  cases hc : t.commits? g flags w with
  | none =>
      rw [List.append_nil]
      exact h.serialize_stopped hc
  | some q =>
      obtain ⟨b, t', w'⟩ := q
      obtain ⟨hplan, bytes, hcommit, heq⟩ := TypeSet.serialize_committed hc
      obtain ⟨s, hplanned⟩ := TypeSet.plan_ok hplan
      have hepoch : t'.epoch = t.epoch := by rw [hplanned.types]; rfl
      have hp := TypeSet.not_isPoisoned_of_commits hc
      have hplanleak := TypeSet.plan_leak hplan
      have hsink : b.leak.isSome = true → w'.leak.isSome = true := by
        intro hb
        rw [Sinks.isSome_leak_commitMain hcommit]
        rcases hplanleak with ⟨-, hnone, -⟩ | ⟨hw, -⟩
        · rw [hnone] at hb
          cases hb
        · exact hw
      -- the main segment, then the leak segment or none, then what is forgotten
      have hmain := (h.sound hp).main (t'.passHeader flags) b.entries (by simp [TypeSet.passHeader])
      dsimp only
      rw [heq, ← List.append_assoc, ← List.append_assoc]
      refine .of_ledger ?_
      have hforgot (n : Handle) := TypeSet.cls_mem_forgottenBy TypeSet.registeredMethods t'
        (l := b.unloading) (n := n)
      rcases TypeSet.leak_finishPass t' flags b bytes w' hsink with
        ⟨hnone, hevents, hleak⟩ | ⟨p, hsome, ⟨hevents, hleak⟩ | ⟨hevents, hleak⟩⟩
      · rw [hleak, hevents, List.append_nil]
        refine LeakLedger.forget ?_ hforgot
        rcases hplanleak with ⟨-, -, hsame⟩ | ⟨-, -, -, p, -, -, -, hp, -⟩
        · rw [hsame]
          exact hmain
        · rw [hnone] at hp
          cases hp
      · rw [hleak, hevents]
        refine LeakLedger.forget ?_ hforgot
        rcases hplanleak with ⟨-, hnone, -⟩ | ⟨-, -, classes, q, -, -, hprepare, hq, hclasses⟩
        · rw [hnone] at hsome
          cases hsome
        · rw [hsome] at hq
          cases hq
          rw [← hepoch] at hprepare
          exact hmain.commit rfl hprepare hclasses
      · rw [hleak, hevents, List.append_nil]
        refine LeakLedger.forget ?_ hforgot
        have hleak := hplanned.leak
        rw [hsome] at hleak
        exact hmain.similar hleak.rollback hleak.retain hleak.retained

theorem captureUnloading {σ : Type} [Sink σ] (h : LeakRecorded settings t H) (g : MetadataGraph)
    (w : σ) :
    LeakRecorded settings (t.captureUnloading g w).types (H ++ t.captureEvents g w) := by
  unfold TypeSet.captureEvents
  cases hc : t.captures? g w with
  | none =>
      rw [List.append_nil]
      rcases TypeSet.captureUnloading_stopped hc with
        ⟨-, heq⟩ | ⟨v, t', hkept, heq⟩ | ⟨-, heq⟩ | ⟨l, e, w', t', hkept, -, heq⟩
      · rw [heq]
        exact h
      · rw [heq]
        exact (h.kept hkept.toKept).poison v
      · rw [heq]
        exact h
      · rw [heq]
        exact (h.kept hkept.toKept).same rfl rfl fun _ hs => hs
  | some q =>
      obtain ⟨l, r⟩ := q
      obtain ⟨-, -, n, w', -, heq⟩ := TypeSet.captureUnloading_committed hc
      have hp := TypeSet.not_isPoisoned_of_captures hc
      dsimp only
      rw [heq, List.append_cons]
      refine .of_ledger ?_
      show LeakLedger _ (TypeSet.forgetClasses _ _ _).leak _
      rw [TypeSet.leak_forgetClasses]
      refine LeakLedger.forget ?_ fun n => TypeSet.cls_mem_forgottenBy _ _
      refine (h.sound hp).idle ?_ (by simp)
      intro header k heq
      cases heq
      simp [TypeSet.captureHeader]

end LeakRecorded

/-- In every state that a run reaches the leak stream agrees with the history of the run. -/
theorem Run.leakRecorded {settings : Settings} {t : TypeSet} {H : History} (h : Run settings t H) :
    LeakRecorded settings t H := by
  induction h with
  | create => exact .of_ledger (.empty _)
  | tag a _ ih => exact ih.same rfl rfl fun _ hs => hs
  | tagLeak n _ ih => exact ih.same rfl rfl fun _ hs => hs
  | clear _ ih => exact ih.same rfl rfl fun _ hs => hs
  | rotate _ ih => exact ih.same rfl rfl fun _ hs => hs.idle (by simp) (by simp)
  | serialize g flags w _ ih => exact ih.serialize g flags w
  | captureUnloading g w _ ih => exact ih.captureUnloading g w

/-- What look-ups find under an id is the last entry that the committed leak segments have for it, or
nothing if nothing is retained. -/
theorem Run.get?_retained {settings : Settings} {t : TypeSet} {H : History} (h : Run settings t H)
    (id : TraceId) : t.leak.retained.get? id = if settings.retainLeakRecords then
      LeakEntry.last? id (LeakEntry.written (H.segments true)) else none := by
  obtain ⟨s, hs, hwithin, -⟩ := h.leakRecorded.ledger
  rw [hwithin.retained]
  exact hs.retained id

end TraceTypes
