import TraceTypes.Proofs.Calls
/-!
# All that forgetting changes

A committed pass ends in forgetting the classes that it wrote as unloading. The
whole of what this and the commit before it do to a type set is said in one
equation each:

* `TypeSet.forgetClasses_eq` — the registries, the slots of marks and the ids of
  the leak stream change, and nothing else does;
* `TypeSet.commitMain_eq` — so it is with the commit of a main segment, which
  also notes the bootstrap loader.
-/

namespace TraceTypes

/-- Forget classes on the leak stream. -/
def LeakStream.forgetAll (s : LeakStream) (l : List Handle) : LeakStream :=
  { s with ids := s.ids.forgetAll (l.map Artifact.cls) }

namespace TypeSet

theorem forgetAll_eq (t : TypeSet) (l : List Artifact) :
    t.forgetAll l = { t with
      registries := t.registries.forgetAll l
      marks := l.foldl MarkTable.forget t.marks } := by
  induction l generalizing t with
  | nil => rfl
  | cons a rest ih => exact ih _

theorem forgetClass_eq (t : TypeSet) (methods : List Handle) (n : Handle) :
    t.forgetClass methods n = { t with
      registries := t.registries.forgetAll (methods.map Artifact.method ++ [Artifact.cls n])
      marks := (methods.map Artifact.method ++ [Artifact.cls n]).foldl MarkTable.forget t.marks
      leak := t.leak.forgetAll [n] } := by
  unfold forgetClass
  rw [forgetAll_eq]
  rfl

/-- To forget classes takes the ids and slots of the artifacts that `forgottenBy` lists, and the
leak ids of the classes. -/
theorem forgetClasses_eq (methods : TypeSet → Handle → List Handle) (t : TypeSet)
    (l : List Handle) : t.forgetClasses methods l = { t with
      registries := t.registries.forgetAll (forgottenBy methods t l)
      marks := (forgottenBy methods t l).foldl MarkTable.forget t.marks
      leak := t.leak.forgetAll l } := by
  induction l generalizing t with
  | nil => rfl
  | cons n rest ih =>
      show (t.forgetClass (methods t n) n).forgetClasses methods rest = _
      rw [ih, forgottenBy, List.append_cons, Registries.forgetAll_append, List.foldl_append,
        forgetClass_eq]
      rfl

/-- The commit of a main segment changes the marks, the bootstrap flag, and what forgetting
changes. -/
theorem commitMain_eq (t : TypeSet) (b : Batch) (flushpoint : Bool) :
    t.commitMain b flushpoint = { t with
      registries := t.registries.forgetAll (forgottenBy registeredMethods t b.unloading)
      marks := (forgottenBy registeredMethods t b.unloading).foldl MarkTable.forget
        (t.markWritten b flushpoint).marks
      leak := t.leak.forgetAll b.unloading
      bootstrapWritten := t.bootstrapWritten || b.bootstrapEmitted } := by
  unfold commitMain
  rw [forgetClasses_eq, forgottenBy_congr t (t.markWritten b flushpoint) rfl]
  rfl

/-- Nothing is counted in it. -/
theorem totals_commitMain (t : TypeSet) (b : Batch) (flushpoint : Bool) :
    (t.commitMain b flushpoint).totals = t.totals := by
  rw [commitMain_eq]

end TypeSet

end TraceTypes
