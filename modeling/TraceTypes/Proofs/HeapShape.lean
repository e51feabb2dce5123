import TraceTypes.Metadata.Heap
import TraceTypes.Proofs.Expandable
/-!
# The shape of a heap

A heap in which every edge leads to something is `Closed`. It stays closed when
what is added points only at what is there (`Puts.closed`), and when announced
classes are reclaimed to which nothing else points (`closed_finishUnloading`).

What an operation does to the heap is said through the look-ups of its graph:
an addition gives fields to one artifact (`Puts`), and the end of an unloading
takes away the announced classes and the methods that they declare (`Goes`).
-/

namespace TraceTypes

/-- A filtered table has the entries that pass the test. -/
theorem SlotTable.get?_filter {κ α : Type} [DecidableEq κ] (t : SlotTable κ α)
    (p : κ → α → Bool) (k : κ) : (t.filter p).get? k = (t.get? k).filter (p k) := by
  apply Option.ext
  intro v
  rw [Option.filter_eq_some_iff, get?_eq_some_iff, get?_eq_some_iff]
  exact List.mem_filter

/-- Of the classes and methods, a class names its superclass and its element class only. -/
theorem ArtifactInfo.mem_mentions_cls {i : ClassInfo} {d : Artifact}
    (hd : .artifact d ∈ (ArtifactInfo.cls i).mentions) :
    (∃ k ∈ i.superclass, d = .cls k) ∨ (∃ k ∈ i.element, d = .cls k) ∨
      d.kind ≠ .cls ∧ d.kind ≠ .method := by
  simp only [ArtifactInfo.mentions, List.mem_cons, List.mem_append, Option.mem_toList,
    Option.map_eq_some_iff, reduceCtorEq, Target.artifact.injEq, false_or] at hd
  rcases hd with hd | (⟨p, -, rfl⟩ | ⟨k, hk, rfl⟩) | ⟨k, hk, rfl⟩
  · cases hl : i.loader with
    | none => rw [hl] at hd; cases hd
    | some l => rw [hl] at hd; cases hd; simp
  · simp
  · exact .inl ⟨k, hk, rfl⟩
  · exact .inr (.inl ⟨k, hk, rfl⟩)

namespace Heap

variable {g g' : Heap} {a : Artifact} {i : ArtifactInfo}

/-- The edges of these fields lead to what the heap has. -/
def Rooted (g : Heap) (i : ArtifactInfo) : Prop := ∀ d, .artifact d ∈ i.mentions → g.graph.Has d

/-- Every edge leads to something that the heap has. -/
def Closed (g : Heap) : Prop := ∀ a i, g.graph.describe? a = some i → g.Rooted i

theorem closed_empty : Closed {} := by
  intro a i h
  obtain ⟨k, n⟩ := a
  cases k <;> cases h

/-- In a closed heap there is something at the end of every edge. -/
theorem Closed.has_of_pointsAt (h : g.Closed) {a d : Artifact}
    (hedge : Dependency.PointsAt g.graph a d) : g.graph.Has d := by
  cases hedge with
  | field hi hd => exact h _ _ hi d hd
  | @packageModule n p m i j hn hp hj hm =>
      -- the module is also an edge of the package
      have hdesc : g.graph.describe? (.package p) = some (.package j) := by
        simp [MetadataGraph.describe?, hj]
      exact h _ _ hdesc _ (by simp [ArtifactInfo.mentions, hm])

/-! ## Additions -/

/-- Something was added under the handle handed out next. -/
inductive Added (g : Heap) : Artifact → ArtifactInfo → Heap → Prop
  | classLoader (i : LoaderInfo) :
      Added g (.classLoader g.nextHandle) (.classLoader i) (g.addClassLoader i).2
  | module (i : ModuleInfo) : Added g (.module g.nextHandle) (.module i) (g.addModule i).2
  | package (name : String) (owner : Option Handle) :
      Added g (.package g.nextHandle) (.package { name := name, module := owner })
        (g.addPackage name owner).2
  | cls (i : ClassInfo) : Added g (.cls g.nextHandle) (.cls i) (g.addClass i).2
  | method (holder : Handle) (name descriptor : String) :
      Added g (.method g.nextHandle)
        (.method { holder := holder, name := name, descriptor := descriptor })
        (g.addMethod holder name descriptor).2
  | thread (name : String) (osThreadId : Nat) :
      Added g (.thread g.nextHandle)
        (.thread
          { name := name, osThreadId := osThreadId, managedThreadId := some (g.threads.size + 1) })
        (g.addThread name osThreadId).2

/-- Every method has a handle that was handed out. -/
def MethodsBelow (g : Heap) : Prop := ∀ m i, g.methods.get? m = some i → m < g.nextHandle

/-- One artifact has got fields, and no other look-up has changed. A method gets them under a new
handle. -/
structure Puts (g : Heap) (a : Artifact) (i : ArtifactInfo) (g' : Heap) : Prop where
  describe : ∀ b, g'.graph.describe? b = if b = a then some i else g.graph.describe? b
  next : g.nextHandle ≤ g'.nextHandle
  method : a.kind = .method → g.nextHandle ≤ a.handle ∧ a.handle < g'.nextHandle

/-- An addition takes the next handle. -/
theorem Added.nextHandle_lt (h : g.Added a i g') : g.nextHandle < g'.nextHandle := by
  have hallocated : g'.allocated = g.allocated + 1 := by cases h <;> rfl
  unfold nextHandle
  rw [hallocated]
  apply Nat.add_lt_add_left
  exact Nat.mul_lt_mul_of_pos_right (Nat.lt_succ_self _) (by decide)

theorem Added.puts (h : g.Added a i g') : g.Puts a i g' where
  describe b := by
    obtain ⟨k, n⟩ := b
    cases h <;> cases k <;>
      simp only [MetadataGraph.describe?, graph, addClassLoader, addModule, addPackage, addClass,
        addMethod, addThread, SlotTable.get?_insert, Artifact.mk.injEq, reduceCtorEq, false_and,
        true_and, if_false] <;>
      split <;> rfl
  next := Nat.le_of_lt h.nextHandle_lt
  method _ := by
    have hlt := h.nextHandle_lt
    cases h <;> exact ⟨Nat.le_refl _, hlt⟩

theorem puts_addClassAt (g : Heap) (n : Handle) (i : ClassInfo) :
    g.Puts (.cls n) (.cls i) (g.addClassAt n i) where
  describe b := by
    obtain ⟨k, m⟩ := b
    cases k <;>
      simp only [MetadataGraph.describe?, graph, addClassAt, SlotTable.get?_insert,
        Artifact.mk.injEq, reduceCtorEq, false_and, true_and, if_false]
    split <;> rfl
  next := Nat.le_refl _
  method hkind := by cases hkind

namespace Puts

variable (h : g.Puts a i g')
include h

theorem has {d : Artifact} (hd : g.graph.Has d) : g'.graph.Has d := by
  unfold MetadataGraph.Has
  rw [h.describe]
  split
  · rfl
  · exact hd

/-- A closed heap stays closed when what is added points at what is there. -/
theorem closed (hc : g.Closed) (hi : g.Rooted i) : g'.Closed := by
  intro b j hj d hd
  apply h.has
  rw [h.describe] at hj
  split at hj
  · cases hj
    exact hi d hd
  · exact hc b j hj d hd

/-- A method that is there keeps its fields. -/
theorem method_stays (hm : g.MethodsBelow) {m : Handle} {j : MethodInfo}
    (hj : g.methods.get? m = some j) : g'.methods.get? m = some j := by
  have hdesc : g'.graph.describe? (.method m) = some (.method j) := by
    rw [h.describe, if_neg]
    · simp [MetadataGraph.describe?, graph, hj]
    · rintro rfl
      exact absurd (hm m j hj) (Nat.not_lt_of_le (h.method rfl).1)
  obtain ⟨j', hj', heq⟩ := Option.map_eq_some_iff.mp hdesc
  cases heq
  exact hj'

theorem methodsBelow (hm : g.MethodsBelow) : g'.MethodsBelow := by
  intro m j hj
  have hdesc : g'.graph.describe? (.method m) = some (.method j) := by
    simp [MetadataGraph.describe?, graph, hj]
  rw [h.describe] at hdesc
  split at hdesc
  · rename_i hb
    subst hb
    exact (h.method rfl).2
  · obtain ⟨j', hj', heq⟩ := Option.map_eq_some_iff.mp hdesc
    exact Nat.lt_of_lt_of_le (hm m j' hj') h.next

end Puts

/-! ## The end of an unloading -/

/-- Reclaim classes one after the other. -/
def reclaimAll (g : Heap) (l : List Handle) : Heap := l.foldl reclaim g

theorem finishUnloading_eq (g : Heap) :
    g.finishUnloading.2 = { g with unloading := [] }.reclaimAll g.unloading := by
  have hsnd (l : List Handle) (k : Nat) (g : Heap) :
      (l.foldl (fun s h => (s.1 + if s.2.classes.contains h then 1 else 0, s.2.reclaim h))
        (k, g)).2 = g.reclaimAll l := by
    induction l generalizing k g with
    | nil => rfl
    | cons n rest ih => exact ih _ _
  exact hsnd _ _ _

theorem get?_classes_reclaimAll (g : Heap) (l : List Handle) (n : Handle) :
    (g.reclaimAll l).classes.get? n = if n ∈ l then none else g.classes.get? n := by
  induction l generalizing g with
  | nil => rfl
  | cons k rest ih =>
      show ((g.reclaim k).reclaimAll rest).classes.get? n = _
      rw [ih]
      show (if n ∈ rest then none else (g.classes.erase k).get? n) = _
      rw [SlotTable.get?_erase]
      by_cases hn : n = k <;> simp [hn]

theorem get?_methods_reclaimAll (g : Heap) (l : List Handle) (m : Handle) :
    (g.reclaimAll l).methods.get? m =
      (g.methods.get? m).filter fun i => !l.contains i.holder := by
  induction l generalizing g with
  | nil =>
      show g.methods.get? m = _
      cases g.methods.get? m <;> rfl
  | cons k rest ih =>
      show ((g.reclaim k).reclaimAll rest).methods.get? m = _
      rw [ih]
      show ((g.methods.filter fun _ i => i.holder != k).get? m).filter _ = _
      rw [SlotTable.get?_filter]
      cases g.methods.get? m with
      | none => rfl
      | some i => by_cases hk : i.holder = k <;> simp [Option.filter, hk]

/-- Nothing but classes and methods is reclaimed. -/
theorem reclaimAll_eq (g : Heap) (l : List Handle) : g.reclaimAll l =
    { g with classes := (g.reclaimAll l).classes, methods := (g.reclaimAll l).methods } := by
  induction l generalizing g with
  | nil => rfl
  | cons k rest ih => exact ih _

/-- The artifacts that go at the end of an unloading: the announced classes, and the methods that
they declare. -/
inductive Goes (g : Heap) : Artifact → Prop
  | cls {n : Handle} : n ∈ g.unloading → Goes g (.cls n)
  | method {m : Handle} {i : MethodInfo} :
      g.methods.get? m = some i → i.holder ∈ g.unloading → Goes g (.method m)

/-- What goes has no fields behind the unloading, and what stays has the same. -/
theorem describe?_finishUnloading (g : Heap) (a : Artifact) :
    (g.Goes a → g.finishUnloading.2.graph.describe? a = none) ∧
    (¬ g.Goes a → g.finishUnloading.2.graph.describe? a = g.graph.describe? a) := by
  rw [finishUnloading_eq]
  obtain ⟨k, n⟩ := a
  cases k with
  | cls =>
      simp only [MetadataGraph.describe?, graph, get?_classes_reclaimAll]
      constructor
      · rintro ⟨hn⟩
        rw [if_pos hn]
        rfl
      · intro hgoes
        rw [if_neg fun hn => hgoes (.cls hn)]
  | method =>
      simp only [MetadataGraph.describe?, graph, get?_methods_reclaimAll]
      constructor
      · rintro (_ | ⟨hi, hholder⟩)
        rw [hi]
        simp [Option.filter, hholder]
      · intro hgoes
        cases hi : g.methods.get? n with
        | none => rfl
        | some i =>
            have hholder : i.holder ∉ g.unloading := fun h => hgoes (.method hi h)
            simp [Option.filter, hholder]
  | symbol | classLoader | module | package | thread =>
      rw [reclaimAll_eq]
      refine ⟨?_, fun _ => rfl⟩
      rintro ⟨⟩

/-- What is there behind an unloading was there before, with the same fields, and did not go. -/
theorem describe?_of_finishUnloading (h : g.finishUnloading.2.graph.describe? a = some i) :
    ¬ g.Goes a ∧ g.graph.describe? a = some i := by
  obtain ⟨hgone, hstays⟩ := describe?_finishUnloading g a
  have hnot : ¬ g.Goes a := by
    intro hgoes
    rw [hgone hgoes] at h
    cases h
  rw [hstays hnot] at h
  exact ⟨hnot, h⟩

theorem has_finishUnloading (h : g.graph.Has a) (hgoes : ¬ g.Goes a) :
    g.finishUnloading.2.graph.Has a := by
  unfold MetadataGraph.Has
  rw [(describe?_finishUnloading g a).2 hgoes]
  exact h

/-- A method that does not go keeps its fields. -/
theorem method_finishUnloading {m : Handle} {i : MethodInfo} (h : g.methods.get? m = some i)
    (hgoes : ¬ g.Goes (.method m)) : g.finishUnloading.2.methods.get? m = some i := by
  have hdesc := (describe?_finishUnloading g (.method m)).2 hgoes
  simp only [MetadataGraph.describe?, graph, h] at hdesc
  obtain ⟨j, hj, heq⟩ := Option.map_eq_some_iff.mp hdesc
  cases heq
  exact hj

/-- No class that is not announced itself has an announced class as superclass or element. -/
def Unreferenced (g : Heap) : Prop :=
  ∀ n i, g.classes.get? n = some i → n ∉ g.unloading →
    (∀ k ∈ i.superclass, k ∉ g.unloading) ∧ ∀ k ∈ i.element, k ∉ g.unloading

/-- A closed heap stays closed when classes are reclaimed to which nothing else points. -/
theorem closed_finishUnloading (h : g.Closed) (hfree : g.Unreferenced) :
    g.finishUnloading.2.Closed := by
  intro a i hi d hd
  obtain ⟨hstays, hi⟩ := describe?_of_finishUnloading hi
  apply has_finishUnloading (h a i hi d hd)
  -- the methods of a class go with it, so only other classes could point at it
  intro hgoes
  cases i with
  | cls i =>
      obtain ⟨n, rfl, hn⟩ := MetadataGraph.cls_of_describe? hi
      obtain ⟨hsuper, helement⟩ := hfree n i hn fun hmem => hstays (.cls hmem)
      rcases ArtifactInfo.mem_mentions_cls hd with ⟨k, hk, rfl⟩ | ⟨k, hk, rfl⟩ | ⟨hcls, hmethod⟩
      · cases hgoes with
        | cls hmem => exact hsuper k hk hmem
      · cases hgoes with
        | cls hmem => exact helement k hk hmem
      · cases hgoes with
        | cls => exact hcls rfl
        | method => exact hmethod rfl
  | method i =>
      obtain ⟨k, m⟩ := a
      cases MetadataGraph.kind_of_describe? hi
      obtain ⟨j, hj, heq⟩ := Option.map_eq_some_iff.mp hi
      cases heq
      simp only [ArtifactInfo.mentions, List.mem_cons, List.not_mem_nil, or_false, reduceCtorEq,
        Target.artifact.injEq] at hd
      subst hd
      cases hgoes with
      | cls hmem => exact hstays (.method hj hmem)
  | package i =>
      simp only [ArtifactInfo.mentions, List.mem_cons, Option.mem_toList, Option.map_eq_some_iff,
        reduceCtorEq, Target.artifact.injEq, false_or] at hd
      obtain ⟨m, -, rfl⟩ := hd
      cases hgoes
  | classLoader | module | thread =>
      simp [ArtifactInfo.mentions] at hd

theorem methodsBelow_finishUnloading (h : g.MethodsBelow) :
    g.finishUnloading.2.MethodsBelow := by
  intro m i hi
  have hdesc : g.finishUnloading.2.graph.describe? (.method m) = some (.method i) := by
    simp [MetadataGraph.describe?, graph, hi]
  obtain ⟨j, hj, heq⟩ := Option.map_eq_some_iff.mp (describe?_of_finishUnloading hdesc).2
  cases heq
  rw [finishUnloading_eq, reclaimAll_eq]
  exact h m i hj

end Heap

end TraceTypes
