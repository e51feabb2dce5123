import TraceTypes.Proofs.Decoding
import TraceTypes.Proofs.LogBacked
/-!
# The segment log is transactional

A log keeps a segment as a header, records and bytes, and the bytes of the
committed segments as a number. Here it is shown that these agree, and that each
call happens as a whole or not at all:

* `Call.make_cases` — a call makes a `Step`, or fails where there is no step to
  make and leaves the log alone;
* `transactional` — what this says of single calls;
* `Faithful`, `Within` — what the steps of a run keep;
* `after_transactional` — all of it, for every run.
-/

namespace TraceTypes.SegmentLog

open Checkpoint

/-- The bytes that are compared with the limit. -/
def usedBytes (w : SegmentLog) : Nat := w.committedBytes + w.openBytes

/-- So many bytes more keep within the limit. -/
def HasRoom (w : SegmentLog) (n : Nat) : Prop :=
  ∀ limit, w.limit = some limit → w.usedBytes + n ≤ limit

/-- The calls that can be made on a log. -/
inductive Call where
  | openSegment (h : Header)
  | append (r : Record)
  | commit
  | discard
  | clear
  | setLimit (limit : Option Nat)

/-- Make the call. What it answers is left out. -/
def Call.make : Call → EStateM SinkError SegmentLog Unit
  | .openSegment h => SegmentLog.openSegment h
  | .append r => (fun _ => ()) <$> SegmentLog.append r
  | .commit => (fun _ => ()) <$> SegmentLog.commit
  | .discard => modify SegmentLog.discard
  | .clear => modify SegmentLog.clear
  | .setLimit limit => modify (SegmentLog.setLimit limit)

/-- The log after these calls, one by one, whichever of them fail. -/
def after (w : SegmentLog) (calls : List Call) : SegmentLog :=
  calls.foldl (fun w call => endState (call.make w)) w

variable {w w' : SegmentLog} {call : Call} {calls : List Call}

@[simp] theorem after_nil (w : SegmentLog) : w.after [] = w := rfl

@[simp] theorem after_cons (w : SegmentLog) (call : Call) (calls : List Call) :
    w.after (call :: calls) = (endState (call.make w)).after calls := rfl

@[simp] theorem after_append (w : SegmentLog) (calls rest : List Call) :
    w.after (calls ++ rest) = (w.after calls).after rest := List.foldl_append

theorem HasRoom.mono {m n : Nat} (h : w.HasRoom n) (hle : m ≤ n) : w.HasRoom m :=
  fun limit hlimit => Nat.le_trans (Nat.add_le_add_left hle _) (h limit hlimit)

theorem usedBytes_of_pending {s : Segment} (h : w.pending = some s) :
    w.usedBytes = w.committedBytes + s.bytes.length := by
  rw [usedBytes, openBytes, h]
  rfl

theorem usedBytes_of_closed (h : w.pending = none) : w.usedBytes = w.committedBytes := by
  rw [usedBytes, openBytes, h]
  rfl

/-! ## One call -/

/-- The comparison with what remains is exact, also where the limit has been exceeded already: no
header and no record is empty. -/
theorem refusal?_eq_none {n : Nat} (hn : 0 < n) : w.refusal? n = none ↔ w.HasRoom n := by
  unfold refusal? HasRoom usedBytes
  cases w.limit with
  | none => simp
  | some limit =>
      dsimp only
      split
      · simp only [reduceCtorEq, Option.some.injEq, false_iff]
        intro h
        have := h limit rfl
        omega
      · simp only [Option.some.injEq, true_iff]
        rintro _ rfl
        omega

theorem length_encodeHeader_pos (h : Header) : 0 < (encodeHeader h).length :=
  Nat.succ_pos _

theorem length_encodeRecord_pos (r : Record) : 0 < (encodeRecord r).length :=
  Nat.succ_pos _

/-- What a call does to a log where it succeeds. -/
inductive Step (w : SegmentLog) : Call → SegmentLog → Prop
  | openSegment {h : Header} (closed : w.pending = none)
      (room : w.HasRoom (encodeHeader h).length) :
      Step w (.openSegment h) { w with pending := some ⟨h, [], encodeHeader h⟩ }
  | append {r : Record} {s : Segment} (opened : w.pending = some s)
      (room : w.HasRoom (encodeRecord r).length) :
      Step w (.append r) { w with
        pending := some { s with records := s.records ++ [r], bytes := s.bytes ++ encodeRecord r } }
  | commit {s : Segment} (opened : w.pending = some s) :
      Step w .commit { w with
        segments := w.segments ++ [s]
        pending := none
        committedBytes := w.committedBytes + s.bytes.length }
  | discard : Step w .discard w.discard
  | clear : Step w .clear w.clear
  | setLimit (limit : Option Nat) : Step w (.setLimit limit) (w.setLimit limit)

theorem Call.step_of_ok (h : call.make w = .ok () w') : Step w call w' := by
  cases call with
  | openSegment h₀ =>
      obtain ⟨hclosed, hroom, rfl⟩ := openSegment_ok_iff.mp h
      exact .openSegment hclosed ((refusal?_eq_none (length_encodeHeader_pos h₀)).mp hroom)
  | append r =>
      obtain ⟨n, h, -⟩ := ok_of_map h
      obtain ⟨s, hopened, hroom, -, rfl⟩ := append_ok_iff.mp h
      exact .append hopened ((refusal?_eq_none (length_encodeRecord_pos r)).mp hroom)
  | commit =>
      obtain ⟨n, h, -⟩ := ok_of_map h
      obtain ⟨s, hopened, -, rfl⟩ := commit_ok_iff.mp h
      exact .commit hopened
  | discard =>
      cases h
      exact .discard
  | clear =>
      cases h
      exact .clear
  | setLimit limit =>
      cases h
      exact .setLimit limit

/-- A call that fails changes nothing. -/
theorem Call.eq_of_error {e : SinkError} (h : call.make w = .error e w') : w' = w := by
  cases call with
  | openSegment h₀ => exact eq_of_openSegment_error h
  | append r => exact eq_of_append_error (error_of_map h)
  | commit => exact eq_of_commit_error (error_of_map h)
  | discard | clear | setLimit => cases h

/-- A call makes a step, or it leaves the log alone. -/
theorem Call.make_cases (call : Call) (w : SegmentLog) :
    Step w call (endState (call.make w)) ∨ endState (call.make w) = w := by
  cases h : call.make w with
  | ok u w' => exact .inl (step_of_ok h)
  | error e w' => exact .inr (eq_of_error h)

/-- What can be relied on in each call on a log: which calls of the two that add bytes succeed, that
a call that fails changes nothing, what moves committed segments, and that a segment is taken back
as a whole, or committed as a whole if there is room for all of it. -/
structure Transactional (w : SegmentLog) : Prop where
  openSegment : ∀ h, Succeeds (SegmentLog.openSegment h) w ↔
    w.isOpen = false ∧ w.HasRoom (encodeHeader h).length
  append : ∀ r, Succeeds (SegmentLog.append r) w ↔
    w.isOpen = true ∧ w.HasRoom (encodeRecord r).length
  error : ∀ (call : Call) e w', call.make w = .error e w' → w' = w
  segments : ∀ call : Call, call ≠ .commit → call ≠ .clear →
    (endState (call.make w)).segments = w.segments
  commit : (endState (SegmentLog.commit w)).segments = w.segments ++ w.pending.toList ∧
    (endState (SegmentLog.commit w)).pending = none
  discard : w.isOpen = false → ∀ (h : Header) (l : List Record),
    w.after (.openSegment h :: l.map .append ++ [.discard]) = w
  send : w.isOpen = false → ∀ (h : Header) (l : List Record),
    w.HasRoom (Segment.of h l).bytes.length →
      w.after (.openSegment h :: l.map .append ++ [.commit]) = { w with
        segments := w.segments ++ [.of h l]
        committedBytes := w.committedBytes + (Segment.of h l).bytes.length }

theorem isOpen_eq_false : w.isOpen = false ↔ w.pending = none := by
  rw [isOpen, Option.isSome_eq_false_iff, Option.isNone_iff_eq_none]

theorem succeeds_openSegment {h : Header} : Succeeds (SegmentLog.openSegment h) w ↔
    w.isOpen = false ∧ w.HasRoom (encodeHeader h).length := by
  rw [isOpen_eq_false, ← refusal?_eq_none (length_encodeHeader_pos h)]
  constructor
  · rintro ⟨_, w', hok⟩
    obtain ⟨hclosed, hroom, -⟩ := openSegment_ok_iff.mp hok
    exact ⟨hclosed, hroom⟩
  · rintro ⟨hclosed, hroom⟩
    exact ⟨(), _, openSegment_ok_iff.mpr ⟨hclosed, hroom, rfl⟩⟩

theorem succeeds_append {r : Record} : Succeeds (SegmentLog.append r) w ↔
    w.isOpen = true ∧ w.HasRoom (encodeRecord r).length := by
  rw [isOpen, Option.isSome_iff_exists, ← refusal?_eq_none (length_encodeRecord_pos r)]
  constructor
  · rintro ⟨n, w', hok⟩
    obtain ⟨s, hopened, hroom, -⟩ := append_ok_iff.mp hok
    exact ⟨⟨s, hopened⟩, hroom⟩
  · rintro ⟨⟨s, hopened⟩, hroom⟩
    exact ⟨_, _, append_ok_iff.mpr ⟨s, hopened, hroom, rfl, rfl⟩⟩

/-- Committed segments are moved by no other calls. -/
theorem Step.segments_eq (h : Step w call w') (hcommit : call ≠ .commit) (hclear : call ≠ .clear) :
    w'.segments = w.segments := by
  cases h with
  | openSegment | append | discard | setLimit => rfl
  | commit => exact absurd rfl hcommit
  | clear => exact absurd rfl hclear

theorem segments_make (hcommit : call ≠ .commit) (hclear : call ≠ .clear) :
    (endState (call.make w)).segments = w.segments := by
  rcases call.make_cases w with hstep | heq
  · exact hstep.segments_eq hcommit hclear
  · rw [heq]

/-- The open segment is moved as a whole. -/
theorem endState_commit (w : SegmentLog) :
    (endState (SegmentLog.commit w)).segments = w.segments ++ w.pending.toList ∧
    (endState (SegmentLog.commit w)).pending = none := by
  unfold SegmentLog.commit
  cases hpending : w.pending with
  | none => exact ⟨(List.append_nil _).symm, hpending⟩
  | some s => exact ⟨rfl, rfl⟩

/-- Appending to a segment leaves no trace outside it, whatever is refused. -/
theorem discard_after_appends (w : SegmentLog) (l : List Record) :
    (w.after (l.map .append)).discard = w.discard := by
  induction l generalizing w with
  | nil => rfl
  | cons r rest ih =>
      refine (ih _).trans ?_
      show (endState (((fun _ => ()) <$> SegmentLog.append r) w)).discard = w.discard
      rw [endState_map]
      exact keeps_discard_append r w.discard w rfl

theorem after_discard (hclosed : w.isOpen = false) (h : Header) (l : List Record) :
    w.after (.openSegment h :: l.map .append ++ [.discard]) = w := by
  have hpending : w.pending = none := isOpen_eq_false.mp hclosed
  show ((endState (SegmentLog.openSegment h w)).after (l.map .append ++ [.discard])) = w
  rw [after_append]
  calc ((endState (SegmentLog.openSegment h w)).after (l.map .append)).discard
      = (endState (SegmentLog.openSegment h w)).discard := discard_after_appends _ l
    _ = w.discard := keeps_discard_openSegment h w.discard w rfl
    _ = w := discard_eq_self w hpending

theorem length_of (h : Header) (l : List Record) : (Segment.of h l).bytes.length =
    (encodeHeader h).length + (l.flatMap encodeRecord).length := List.length_append

/-- Records are appended to the open segment as long as there is room for all of them. -/
theorem after_appends {h : Header} (l₀ : List Record) {l : List Record}
    (hpending : w.pending = some (.of h l₀))
    (hroom : w.HasRoom (l.flatMap encodeRecord).length) :
    w.after (l.map .append) = { w with pending := some (.of h (l₀ ++ l)) } := by
  induction l generalizing w l₀ with
  | nil =>
      rw [List.append_nil, ← hpending]
      rfl
  | cons r rest ih =>
      have hlength : ((r :: rest).flatMap encodeRecord).length =
          (encodeRecord r).length + (rest.flatMap encodeRecord).length := by
        rw [List.flatMap_cons, List.length_append]
      have hfits : w.HasRoom (encodeRecord r).length := hroom.mono (by omega)
      have hok := append_ok_iff.mpr
        ⟨_, hpending, (refusal?_eq_none (length_encodeRecord_pos r)).mpr hfits, rfl, rfl⟩
      rw [List.map_cons, after_cons, Call.make, endState_map, hok]
      -- what is left of the room is that for the other records
      refine (ih (l₀ ++ [r]) ?_ ?_).trans ?_
      · simp [endState, Segment.of]
      · intro limit hlimit
        have := hroom limit hlimit
        rw [usedBytes_of_pending hpending] at this
        rw [usedBytes_of_pending rfl, List.length_append]
        show w.committedBytes + _ + _ ≤ _
        omega
      · simp [endState]

theorem after_commit (hclosed : w.isOpen = false) (h : Header) (l : List Record)
    (hroom : w.HasRoom (Segment.of h l).bytes.length) :
    w.after (.openSegment h :: l.map .append ++ [.commit]) = { w with
      segments := w.segments ++ [.of h l]
      committedBytes := w.committedBytes + (Segment.of h l).bytes.length } := by
  have hpending : w.pending = none := isOpen_eq_false.mp hclosed
  rw [length_of] at hroom
  have hfits : w.HasRoom (encodeHeader h).length := hroom.mono (Nat.le_add_right ..)
  have hok := openSegment_ok_iff.mpr
    ⟨hpending, (refusal?_eq_none (length_encodeHeader_pos h)).mpr hfits, rfl⟩
  rw [List.cons_append, after_cons, after_append, Call.make, hok]
  have happends := after_appends (w := { w with pending := some ⟨h, [], encodeHeader h⟩ })
    (h := h) (l := l) [] (by simp [Segment.of]) ?_
  · show endState (Call.make .commit (after { w with pending := _ } _)) = _
    rw [happends, Call.make, endState_map, commit_ok_iff.mpr ⟨_, rfl, rfl, rfl⟩]
    simp [endState, hpending]
  · intro limit hlimit
    have := hroom limit hlimit
    rw [usedBytes_of_closed hpending] at this
    rw [usedBytes_of_pending rfl]
    show w.committedBytes + (encodeHeader h).length + _ ≤ _
    omega

theorem transactional (w : SegmentLog) : Transactional w where
  openSegment _ := succeeds_openSegment
  append _ := succeeds_append
  error _ _ _ := Call.eq_of_error
  segments _ := segments_make
  commit := endState_commit w
  discard := after_discard
  send := after_commit

/-! ## A run -/

/-- What each call keeps holds after all of them. -/
theorem after_induction {P : SegmentLog → Prop}
    (hmake : ∀ w call, P w → P (endState (Call.make call w))) (hw : P w) (calls : List Call) :
    P (w.after calls) := by
  induction calls generalizing w with
  | nil => exact hw
  | cons call rest ih => exact ih (hmake w call hw)

/-- Bytes, records and the count of bytes agree. -/
structure Faithful (w : SegmentLog) : Prop where
  segments : ∀ s ∈ w.segments, s.Encoded
  pending : ∀ s, w.pending = some s → s.Encoded
  committedBytes : w.committedBytes = w.bytes.length

theorem Taken.make (h : w.Taken) (call : Call) : (endState (call.make w)).Taken := by
  cases call with
  | openSegment h₀ => exact .openSegment h₀ h
  | append r =>
      show (endState (((fun _ => ()) <$> SegmentLog.append r) w)).Taken
      rw [endState_map]
      exact .append r h
  | commit =>
      show (endState (((fun _ => ()) <$> SegmentLog.commit) w)).Taken
      rw [endState_map]
      exact .commit h
  | discard => exact .discard h
  | clear => exact .clear h
  | setLimit limit => exact .relimit limit h

theorem Step.committedBytes (h : Step w call w') (hw : w.committedBytes = w.bytes.length) :
    w'.committedBytes = w'.bytes.length := by
  cases h with
  | openSegment | append | discard | setLimit => exact hw
  | clear => rfl
  | @commit s =>
      show w.committedBytes + s.bytes.length = ((w.segments ++ [s]).flatMap Segment.bytes).length
      rw [List.flatMap_append, List.length_append, List.flatMap_singleton, hw]
      rfl

theorem committedBytes_make (call : Call) (hw : w.committedBytes = w.bytes.length) :
    (endState (call.make w)).committedBytes = (endState (call.make w)).bytes.length := by
  rcases call.make_cases w with hstep | heq
  · exact hstep.committedBytes hw
  · rwa [heq]

/-- The log is within its limit. -/
def Within (w : SegmentLog) : Prop := ∀ limit, w.limit = some limit → w.usedBytes ≤ limit

/-- The call does not set a limit that the log exceeds already. -/
def Call.Prudent (w : SegmentLog) : Call → Prop
  | .setLimit (some limit) => w.usedBytes ≤ limit
  | _ => True

/-- No call of the run sets a limit that the log exceeds at that time. -/
def Prudent (w : SegmentLog) : List Call → Prop
  | [] => True
  | call :: rest => call.Prudent w ∧ (endState (call.make w)).Prudent rest

instance Call.decidablePrudent (w : SegmentLog) : (call : Call) → Decidable (call.Prudent w)
  | .setLimit (some limit) => inferInstanceAs (Decidable (w.usedBytes ≤ limit))
  | .setLimit none | .openSegment _ | .append _ | .commit | .discard | .clear => .isTrue trivial

instance decidablePrudent : (w : SegmentLog) → (calls : List Call) → Decidable (w.Prudent calls)
  | _, [] => .isTrue trivial
  | w, call :: rest =>
    have := decidablePrudent (endState (call.make w)) rest
    inferInstanceAs (Decidable (call.Prudent w ∧ _))

/-- Bytes are added only where there is room, and only a new limit could be too low. -/
theorem Step.within (h : Step w call w') (hw : w.Within) (hcall : call.Prudent w) : w'.Within := by
  intro limit hlimit
  cases h with
  | @openSegment h₀ hclosed hroom =>
      have := hroom limit hlimit
      rwa [usedBytes_of_closed hclosed] at this
  | @append r s hopened hroom =>
      have := hroom limit hlimit
      rw [usedBytes_of_pending hopened] at this
      rw [usedBytes_of_pending rfl, List.length_append]
      show w.committedBytes + _ ≤ _
      omega
  | @commit s hopened =>
      have := hw limit hlimit
      rwa [usedBytes_of_pending hopened] at this
  | discard => exact Nat.le_trans (Nat.le_add_right ..) (hw limit hlimit)
  | clear => exact Nat.le_trans (Nat.add_le_add_right (Nat.zero_le _) _) (hw limit hlimit)
  | setLimit limit =>
      cases hlimit
      exact hcall

theorem Prudent.within (h : w.Prudent calls) (hw : w.Within) {before : List Call}
    (hbefore : before <+: calls) : (w.after before).Within := by
  induction calls generalizing w before with
  | nil =>
      rw [List.prefix_nil.mp hbefore]
      exact hw
  | cons call rest ih =>
      rcases List.prefix_cons_iff.mp hbefore with rfl | ⟨before, rfl, hrest⟩
      · exact hw
      · refine ih h.2 ?_ hrest
        rcases call.make_cases w with hstep | heq
        · exact hstep.within hw h.1
        · rwa [heq]

/-- A log is a faithful record of its calls, bounded and transactional, however it is called: bytes
are those of headers and records, and counted; each call does all of what it should do, or nothing;
and the limit is exceeded only where one is set that has been exceeded already. -/
theorem after_transactional (limit : Option Nat) (calls : List Call) :
    (after { limit := limit } calls).Faithful ∧
    (after { limit := limit } calls).Transactional ∧
    (Prudent { limit := limit } calls → ∀ before, before <+: calls →
      (after { limit := limit } before).Within) := by
  have htaken : (after { limit := limit } calls).Taken :=
    after_induction (fun _ call hw => hw.make call) (.create limit) calls
  have hbytes := after_induction (P := fun w => w.committedBytes = w.bytes.length)
    (fun _ call => committedBytes_make call) (w := { limit := limit }) rfl calls
  refine ⟨⟨htaken.encoded.1, htaken.encoded.2, hbytes⟩, transactional _, ?_⟩
  intro hprudent before hbefore
  exact hprudent.within (fun _ _ => Nat.zero_le _) hbefore

/-- Calls on a log of sixteen bytes. Behind its first segment there is room for a header and one
symbol of one letter. The log is cleared while the second segment is open, and its limit is lowered
to what it then needs. -/
def sampleCalls : List Call :=
  [.openSegment ⟨.typeSet, 1, false⟩, .append (.symbol 1 "a"), .commit,
    .openSegment ⟨.typeSet, 2, false⟩, .append (.symbol 2 "long"), .append (.symbol 2 "b"),
    .append (.symbol 3 "c"), .clear, .setLimit (some 12), .append (.symbol 3 "c"), .commit,
    .openSegment ⟨.typeSet, 3, false⟩, .discard]

theorem after_transactional_sample :
    after { limit := some 16 } sampleCalls =
      { segments := [⟨⟨.typeSet, 2, false⟩, [.symbol 2 "b", .symbol 3 "c"],
          [0xC7, 0, 2, 0, 1, 2, 1, 98, 1, 3, 1, 99]⟩]
        limit := some 12
        committedBytes := 12 } ∧
    Prudent { limit := some 16 } sampleCalls ∧
    ∀ before, before <+: sampleCalls → (after { limit := some 16 } before).Within := by
  have hprudent : Prudent { limit := some 16 } sampleCalls := by decide +kernel
  exact ⟨by decide +kernel, hprudent, (after_transactional (some 16) sampleCalls).2.2 hprudent⟩

end TraceTypes.SegmentLog
