import TraceTypes.Proofs.LeakLedger
/-!
# What look-ups on the leak stream find

The table behind the look-ups is never written on its own: it is the history of
the leak stream, read from the end. So an entry can only be replaced, and only
by a later record of its id in a committed segment. Nothing else that happens in
between takes it away, be it a rotation, a failure, a class that is reclaimed or
a violation.
-/

namespace TraceTypes

/-- Over any run, whatever fails in it: under an id look-ups find the last entry that the committed
leak segments have for it, with the generation of its segment, or nothing if nothing is retained.
And as the run goes on, what they find changes with a record of the id in a committed leak segment
only. -/
theorem Run.retained_eq_last_written {settings : Settings} {t : TypeSet} {H : History}
    (h : Run settings t H) (id : TraceId) :
    ((LeakLookup.live.table t.leak).get? id =
      if settings.retainLeakRecords then
        LeakEntry.last? id (LeakEntry.written (H.segments true))
      else none) ∧
    ∀ t' E, Run settings t' (H ++ E) →
      (∀ e ∈ LeakEntry.written (History.segments true E), e.id ≠ id) →
      (LeakLookup.live.table t'.leak).get? id = (LeakLookup.live.table t.leak).get? id := by
  refine ⟨h.get?_retained id, ?_⟩
  intro t' E h' hnone
  show t'.leak.retained.get? id = t.leak.retained.get? id
  rw [h'.get?_retained, h.get?_retained, TypeSet.segments_append, LeakEntry.written_append,
    LeakEntry.last?_append, LeakEntry.last?_eq_none hnone, Option.none_or]

/-! ## A class that is described twice -/

/-- The type set behind a pass over the class, in the next epoch, with the class tagged again. -/
def sampleRotated : TypeSet :=
  ((sampleTypes.serialize sampleGraph {} sampleLogs).types.rotate.tag (.cls 1)).2

/-- The graph in which the class has another name. -/
def sampleRenamed : MetadataGraph := { sampleGraph with cls := fun _ => some { name := "C" } }

/-- The history of two passes over the class, with a rotation and a new name in between. -/
def sampleHistory : History :=
  sampleTypes.serializeEvents sampleGraph {} sampleLogs ++ [.rotated] ++
    sampleRotated.serializeEvents sampleRenamed {} sampleLogs

theorem run_sampleHistory :
    Run {} (sampleRotated.serialize sampleRenamed {} sampleLogs).types sampleHistory :=
  .serialize sampleRenamed {} sampleLogs
    (.tag (.cls 1) (.rotate (.serialize sampleGraph {} sampleLogs run_sampleTypes)))

/-- The class was written twice under one id, and look-ups find what was written last. -/
theorem retained_eq_last_written_renamed :
    LeakEntry.written (sampleHistory.segments true) =
      [⟨1, "A", "bootstrap", 0⟩, ⟨1, "C", "bootstrap", 1⟩] ∧
    (sampleRotated.serialize sampleRenamed {} sampleLogs).types.leak.retained.get? 1 =
      some ⟨1, "C", "bootstrap", 1⟩ := by
  have hwritten : LeakEntry.written (sampleHistory.segments true) =
      [⟨1, "A", "bootstrap", 0⟩, ⟨1, "C", "bootstrap", 1⟩] := by decide +kernel
  refine ⟨hwritten, ?_⟩
  have h := (run_sampleHistory.retained_eq_last_written 1).1
  rw [hwritten] at h
  exact h

end TraceTypes
