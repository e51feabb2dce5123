import TraceTypes.Proofs.Recorded
/-!
# Retired ids

When an artifact is forgotten, its id goes out of use. Until the next rotation
the registries remember that, so a look-up of the id is a violation and not a
miss. After the rotation the id is unknown, and since it is never handed out
again no artifact is ever found under it.

`RetiredIds` says the first half over a history, and is kept by every call of a
run (`Run.retiredIds`). The second half is the `dead` of `IdLedger`.
-/

namespace TraceTypes

open TypeSet History

/-- The `k`-th event takes the id out of use: it forgets the artifact that was written under it,
which was not forgotten before. -/
def History.RetiredAt (H : History) (k : Nat) (id : TraceId) : Prop :=
  ∃ i header e a l, i < k ∧ H.MainAt i header e ∧ e.subject = some a ∧ e.record.id = id ∧
    H[k]? = some (.forgotten l) ∧ a ∈ l ∧ ¬ H.ForgottenBetween i k a

namespace History

variable {H : History} {k : Nat} {id : TraceId} {event : Event}

/-- The last event is the only one that can take an id out of use and did not before. -/
theorem RetiredAt.of_snoc (h : RetiredAt (H ++ [event]) k id) :
    H.RetiredAt k id ∨ k = H.length ∧ ∃ i header e a l, H.MainAt i header e ∧
      e.subject = some a ∧ e.record.id = id ∧ event = .forgotten l ∧ a ∈ l ∧
      ¬ H.ForgottenAfter i a := by
  obtain ⟨i, header, e, a, l, hik, hi, hsub, hid, hk, ha, hnot⟩ := h
  have hlt : k < (H ++ [event]).length := (List.getElem?_eq_some_iff.mp hk).1
  rw [List.length_append, List.length_singleton] at hlt
  have hilt : i < H.length := by omega
  rw [mainAt_append [event] hilt] at hi
  rw [forgottenBetween_snoc (by omega)] at hnot
  rcases getElem?_snoc.mp hk with hk | ⟨rfl, rfl⟩
  · exact .inl ⟨i, header, e, a, l, hik, hi, hsub, hid, hk, ha, hnot⟩
  · refine .inr ⟨rfl, i, header, e, a, l, hi, hsub, hid, rfl, ha, ?_⟩
    intro hf
    exact hnot hf.between

theorem RetiredAt.lt_length (h : H.RetiredAt k id) : k < H.length := by
  obtain ⟨_, _, _, _, _, -, -, -, -, hk, -, -⟩ := h
  exact (List.getElem?_eq_some_iff.mp hk).1

/-- Without a rotation behind it, an event has no rotation after it. -/
theorem not_rotatedAfter_of_not_mem {E : History} (h : .rotated ∉ E) :
    ¬ (H ++ event :: E).RotatedAfter H.length := by
  rintro ⟨k, hk, hget⟩
  apply h
  rw [List.getElem?_append_right (by omega)] at hget
  -- the distance to the event is positive
  obtain ⟨n, hn⟩ : ∃ n, k - H.length = n + 1 := ⟨k - H.length - 1, by omega⟩
  rw [hn, List.getElem?_cons_succ] at hget
  exact List.mem_of_getElem? hget

end History

/-- To forget an artifact with an id takes the id out of use. -/
theorem IdLedger.retiredAt {r : Registries} {H : History} (h : IdLedger r H) {a : Artifact}
    {id : TraceId} {l : List Artifact} (hid : r.id? a = some id) (ha : a ∈ l) (E : History) :
    (H ++ .forgotten l :: E).RetiredAt H.length id := by
  obtain ⟨i, header, e, hi, hsub, hnot⟩ := h.known a id hid
  have hlive := h.live i header e a hi hsub hnot
  rw [hid, Option.some.injEq] at hlive
  refine ⟨i, header, e, a, l, hi.lt_length, hi.append _, hsub, hlive.symm, ?_, ha, ?_⟩
  · rw [List.getElem?_append_right (Nat.le_refl _), Nat.sub_self]
    rfl
  · rw [forgottenBetween_append _ (Nat.le_refl _)]
    intro hb
    exact hnot hb.after

/-- The registries remember the ids that went out of use since the last rotation. -/
def RetiredIds (r : Registries) (H : History) : Prop :=
  ∀ k id, H.RetiredAt k id → ¬ H.RotatedAfter k → id ∈ r.ids.retired

namespace RetiredIds

variable {r r' : Registries} {H : History}

theorem empty : RetiredIds {} [] := by
  intro k id h
  exact absurd h.lt_length (Nat.not_lt_zero k)

theorem of_retired (h : RetiredIds r H) (heq : r'.ids.retired = r.ids.retired) :
    RetiredIds r' H := by
  intro k id hk hrot
  rw [heq]
  exact h k id hk hrot

/-- An event that does not forget. -/
theorem snoc {event : Event} (h : RetiredIds r H) (hforgot : ∀ l, event ≠ .forgotten l) :
    RetiredIds r (H ++ [event]) := by
  intro k id hk hrot
  rcases hk.of_snoc with hk | ⟨-, _, _, _, _, l, -, -, -, heq, -, -⟩
  · exact h k id hk fun hr => hrot (hr.append _)
  · exact absurd heq (hforgot l)

/-- Segments, if there are any. -/
theorem append {E : History} (h : RetiredIds r H)
    (hE : ∀ event ∈ E, ∀ l, event ≠ .forgotten l) : RetiredIds r (H ++ E) := by
  induction E generalizing H with
  | nil =>
      rw [List.append_nil]
      exact h
  | cons event rest ih =>
      rw [List.append_cons]
      apply ih (h.snoc (hE event List.mem_cons_self))
      intro x hx
      exact hE x (List.mem_cons_of_mem _ hx)

/-- The ids of forgotten artifacts are remembered. -/
theorem forget (h : RetiredIds r H) (hids : IdLedger r H) (l : List Artifact) :
    RetiredIds (r.forgetAll l) (H ++ [.forgotten l]) := by
  intro k id hk hrot
  rw [Registries.mem_retired_forgetAll]
  rcases hk.of_snoc with hk | ⟨-, i, header, e, a, _, hi, hsub, rfl, heq, ha, hnot⟩
  · exact .inl (h k id hk fun hr => hrot (hr.append _))
  · cases heq
    exact .inr ⟨a, ha, hids.live i header e a hi hsub hnot⟩

/-- A rotation may drop them all. -/
theorem rotate : RetiredIds r (H ++ [.rotated]) := by
  intro k id hk hrot
  rcases hk.of_snoc with hk | ⟨-, _, _, _, _, _, -, -, -, heq, -, -⟩
  · exact absurd (rotatedAfter_snoc_rotated hk.lt_length) hrot
  · cases heq

theorem serialize {settings : Settings} {t : TypeSet} {σ τ : Type} [Sink σ] [Sink τ]
    (h : RetiredIds t.registries H) (hrec : Recorded settings t H) (g : MetadataGraph)
    (flags : PassFlags) (w : Sinks σ τ) :
    RetiredIds (t.serialize g flags w).types.registries (H ++ t.serializeEvents g flags w) := by
  unfold serializeEvents
  cases hc : t.commits? g flags w with
  | none =>
      rw [List.append_nil]
      exact h.of_retired (mainKept_of_stopped hc).registries.retired
  | some q =>
      obtain ⟨b, t', w'⟩ := q
      obtain ⟨hplan, bytes, -, heq⟩ := serialize_committed hc
      obtain ⟨s, hp⟩ := plan_ok hplan
      have hgen : (t'.passHeader flags).generation = t.epochs.generation := by
        rw [hp.types]
        rfl
      obtain ⟨hids, hmarks, hcaptures⟩ := hrec.planned hp (t'.passHeader flags) rfl hgen
      obtain ⟨hids, -, -⟩ := ledgers_leakEvents hids hmarks hcaptures t' flags b w'
      have hretired : t'.registries.ids.retired = t.registries.ids.retired := by
        have hgrown := Pass.grown_planAll (t.scope g flags.classUnload) t.registries t.symbols
        rw [hp.plan] at hgrown
        rw [hp.types]
        exact hgrown.registries.retired
      dsimp only
      rw [← List.append_assoc, ← List.append_assoc, heq,
        (written_finishPass t' flags b bytes w').registries]
      refine RetiredIds.forget ?_ hids _
      refine append (append (h.of_retired hretired) ?_) ?_
      · intro event hevent l
        rw [Event.eq_of_mem_ofSegment hevent]
        simp
      · intro event hevent l
        obtain ⟨p, header, -, -, rfl⟩ := mem_leakEvents hevent
        simp

theorem captureUnloading {settings : Settings} {t : TypeSet} {σ : Type} [Sink σ]
    (h : RetiredIds t.registries H) (hrec : Recorded settings t H) (g : MetadataGraph) (w : σ) :
    RetiredIds (t.captureUnloading g w).types.registries (H ++ t.captureEvents g w) := by
  unfold captureEvents
  cases hc : t.captures? g w with
  | none =>
      rw [List.append_nil]
      exact h.of_retired (mainKept_of_captureUnloading_stopped hc).registries.retired
  | some q =>
      obtain ⟨l, r⟩ := q
      obtain ⟨hcapture, -, n, w', -, heq⟩ := captureUnloading_committed hc
      obtain ⟨hcaptured, -⟩ := UnloadCapture.capture_ok hcapture
      dsimp only
      rw [heq, List.append_cons]
      show RetiredIds (forgetClasses _ _ _).registries _
      rw [(forgot_forgetClasses _ _ _).registries]
      refine RetiredIds.forget ?_ (hrec.captured hcaptured) _
      exact (h.of_retired hcaptured.registries.retired).snoc (by simp)

end RetiredIds

/-- Every state that a run reaches remembers the ids that went out of use since the last
rotation. -/
theorem Run.retiredIds {settings : Settings} {t : TypeSet} {H : History} (h : Run settings t H) :
    RetiredIds t.registries H := by
  induction h with
  | create => exact .empty
  | tag _ _ ih => exact ih
  | tagLeak _ _ ih => exact ih
  | clear _ ih => exact ih
  | rotate _ _ => exact .rotate
  | serialize g flags w h ih => exact ih.serialize h.recorded g flags w
  | captureUnloading g w h ih => exact ih.captureUnloading h.recorded g w

/-- To ask for an id that went out of use is a violation until the next rotation, and never finds an
artifact. -/
theorem Run.resolve_retired {settings : Settings} {t : TypeSet} {H : History}
    (h : Run settings t H) {k : Nat} {id : TraceId} (hk : H.RetiredAt k id) :
    (¬ H.RotatedAfter k → t.resolve id = .error (.violation (.forgottenId id))) ∧
    ∀ a, t.resolve id ≠ .ok (some a) := by
  unfold TypeSet.resolve Registries.resolve IdAllocator.owner
  constructor
  · intro hrot
    rw [if_pos (h.retiredIds k id hk hrot)]
    rfl
  · intro a hok
    obtain ⟨i, header, e, b, l, hik, hi, hsub, rfl, hget, hb, -⟩ := hk
    have hdead := h.recorded.ids.dead i header e b hi hsub ⟨k, l, hik, hget, hb⟩ a
    split at hok
    · cases hok
    · apply hdead
      rw [h.recorded.ids.wf.owner_iff]
      exact Except.ok.inj hok

end TraceTypes
