import Mathlib.Data.List.Nodup
import TraceTypes.Proofs.Expansion
/-!
# How long an expansion takes

The graph may go round in circles or have no end; an expansion comes to one all
the same. `Expansion.Leads` follows its walk step by step and notes which
artifacts have got a frame. Two accounts are kept of it:

* **the stack** — each step makes it lighter (`Expansion.weight_step_lt`), so the
  steps of a walk are no more than the weight it began with (`Leads.le_weight`);
* **the frames** — an artifact that has got a frame is waiting or placed, and with
  each frame come no more than six steps, five of them for its dependencies and
  one to place it (`Walk.Paced`).

`EmissionPlan.expand_bounded` puts this together for a whole expansion.
-/

namespace TraceTypes

namespace Dependency

/-- The artifacts of the frames by which the stack has grown. -/
def Walk.opened (w w' : Walk) : List Artifact :=
  (w'.stack.take (w'.stack.length - w.stack.length)).map Frame.artifact

/-- The walk leads from the one to the other in so many steps, and these are the artifacts that
have got a frame until then, the latest first. -/
inductive Expansion.Leads (e : Expansion) (w₀ : Walk) : Nat → List Artifact → Walk → Prop
  | start : Leads e w₀ 0 (w₀.stack.map Frame.artifact) w₀
  | step {n : Nat} {framed : List Artifact} {w w' : Walk} :
      Leads e w₀ n framed w → e.step w = .next w' → Leads e w₀ (n + 1) (w.opened w' ++ framed) w'

/-- What is left to do for the frames of a stack: to look at what is pending in them, and to place
their artifacts. -/
def workLeft : List Frame → Nat
  | [] => 0
  | f :: rest => f.pending.length + 1 + workLeft rest

namespace Walk

variable {e : Expansion} {w w' w₀ : Walk} {done₀ framed : List Artifact} {n : Nat}

/-- A walk that has taken so many steps, in which these artifacts have got a frame. -/
structure Paced (e : Expansion) (n : Nat) (framed : List Artifact) (w : Walk) : Prop where
  height : w.stack.length ≤ max e.maxDepth 1
  /-- Who has got a frame is waiting or placed. -/
  accounted : framed.Perm (w.stack.map Frame.artifact ++ w.order.map Prod.fst)
  /-- The steps so far and those that the open frames still ask for. -/
  work : n + workLeft w.stack ≤ 6 * framed.length

theorem paced_start {f : Frame} {a : Artifact} (hf : e.frame a = .ok f) (waiting : List Artifact) :
    Paced e 0 [f.artifact] ⟨done₀, waiting, [f], []⟩ where
  height := Nat.le_max_right ..
  accounted := .refl _
  work := by
    have := e.length_pending_le hf
    simp only [workLeft, List.length_singleton]
    omega

namespace Paced

/-- The innermost frame is done with, and its artifact is placed instead. -/
theorem place {a : Artifact} {i : ArtifactInfo} {rest : List Frame} (h : w.Paced e n framed)
    (hs : w.stack = ⟨a, i, []⟩ :: rest) :
    Paced e (n + 1) framed ⟨w.done.insert a, w.waiting.erase a, rest, w.order ++ [(a, i)]⟩ := by
  obtain ⟨hheight, hframed, hwork⟩ := h
  rw [hs] at hheight hframed hwork
  refine ⟨Nat.le_of_succ_le hheight, hframed.trans ?_, ?_⟩
  · show (a :: rest.map Frame.artifact ++ w.order.map Prod.fst).Perm
      (rest.map Frame.artifact ++ (w.order ++ [(a, i)]).map Prod.fst)
    rw [List.map_append, ← List.append_assoc]
    exact (List.perm_append_singleton a _).symm
  · simp only [workLeft, List.length_nil] at hwork ⊢
    omega

/-- The innermost frame has looked at one more dependency. -/
theorem skip {a d : Artifact} {i : ArtifactInfo} {pending : List Artifact} {rest : List Frame}
    (h : w.Paced e n framed) (hs : w.stack = ⟨a, i, d :: pending⟩ :: rest) :
    Paced e (n + 1) framed { w with stack := ⟨a, i, pending⟩ :: rest } := by
  obtain ⟨hheight, hframed, hwork⟩ := h
  rw [hs] at hheight hframed hwork
  refine ⟨hheight, hframed, ?_⟩
  simp only [workLeft, List.length_cons] at hwork ⊢
  omega

/-- The dependency has got a frame, for which there was room. -/
theorem push {a d : Artifact} {i : ArtifactInfo} {pending : List Artifact} {rest : List Frame}
    {f : Frame} (h : w.Paced e n framed) (hs : w.stack = ⟨a, i, d :: pending⟩ :: rest)
    (hroom : w.stack.length < e.maxDepth) (hf : e.frame d = .ok f) (waiting : List Artifact) :
    Paced e (n + 1) (f.artifact :: framed)
      { w with waiting := waiting, stack := f :: ⟨a, i, pending⟩ :: rest } := by
  obtain ⟨-, hframed, hwork⟩ := h
  rw [hs] at hroom hframed hwork
  refine ⟨Nat.le_trans hroom (Nat.le_max_left ..), hframed.cons _, ?_⟩
  have := e.length_pending_le hf
  simp only [workLeft, List.length_cons] at hwork ⊢
  omega

/-- Every step that leads on keeps the pace. -/
theorem step (h : w.Paced e n framed) (hstep : e.step w = .next w') :
    w'.Paced e (n + 1) (w.opened w' ++ framed) := by
  rcases Expansion.next_cases hstep with ⟨a, i, rest, hs, rfl⟩ |
    ⟨a, i, d, pending, rest, hs, -, rfl⟩ | ⟨a, i, d, pending, rest, f, hs, -, -, -, hroom, hf, rfl⟩
  · have hopened : w.opened ⟨w.done.insert a, w.waiting.erase a, rest, w.order ++ [(a, i)]⟩ = [] := by
      simp [opened, hs]
    rw [hopened]
    exact h.place hs
  · have hopened : w.opened { w with stack := ⟨a, i, pending⟩ :: rest } = [] := by
      simp [opened, hs]
    rw [hopened]
    exact h.skip hs
  · have hopened : w.opened { w with
        waiting := d :: w.waiting, stack := f :: ⟨a, i, pending⟩ :: rest } = [f.artifact] := by
      simp [opened, hs]
    rw [hopened]
    exact h.push hs hroom hf _

/-- No artifact gets a second frame: the waiting ones differ from each other, the placed ones do,
and who waits is not placed. -/
theorem nodup (h : w.Paced e n framed) (hinv : w.Inv e done₀) : framed.Nodup := by
  rw [h.accounted.nodup_iff, List.nodup_append']
  refine ⟨hinv.nodup, hinv.placed.nodup, fun a hwaiting hplaced => ?_⟩
  exact hinv.unplaced a hwaiting ((hinv.done a).mpr (.inr hplaced))

end Paced

end Walk

namespace Expansion.Leads

variable {e : Expansion} {w w₀ : Walk} {done₀ framed : List Artifact} {n : Nat}

theorem inv (h : e.Leads w₀ n framed w) (h₀ : w₀.Inv e done₀) : w.Inv e done₀ := by
  induction h with
  | start => exact h₀
  | step _ hstep ih => exact ih.step hstep

theorem paced (h : e.Leads w₀ n framed w) (h₀ : w₀.Paced e 0 (w₀.stack.map Frame.artifact)) :
    w.Paced e n framed := by
  induction h with
  | start => exact h₀
  | step _ hstep ih => exact ih.step hstep

/-- The stack has lost weight with each step. -/
theorem le_weight (h : e.Leads w₀ n framed w) :
    n + weight e.maxDepth w.stack ≤ weight e.maxDepth w₀.stack := by
  induction h with
  | start => exact Nat.le_of_eq (Nat.zero_add _)
  | step _ hstep ih =>
      have := e.weight_step_lt hstep
      omega

/-- From wherever it has come to, the walk goes on to the end of its run. -/
theorem exists_end (h : e.Leads w₀ n framed w) :
    ∃ n' framed' w', e.Leads w₀ n' framed' w' ∧
      (e.step w' = .finished ∧ e.run w = .ok () w' ∨
        ∃ v, e.step w' = .failed v ∧ e.run w = .error v w') := by
  fun_induction e.run w generalizing n framed with
  | case1 w hstep => exact ⟨n, framed, w, h, .inl ⟨hstep, rfl⟩⟩
  | case2 w v hstep => exact ⟨n, framed, w, h, .inr ⟨v, hstep, rfl⟩⟩
  | case3 w w₁ hstep ih => exact ih (h.step hstep)

end Expansion.Leads

/-- What bounds a walk that has taken so many steps, in which these artifacts have got a frame. -/
structure Walk.Bounded (e : Expansion) (n : Nat) (framed : List Artifact) (w : Walk) : Prop where
  height : w.stack.length ≤ max e.maxDepth 1
  distinct : (w.stack.map Frame.artifact).Nodup
  waiting : w.waiting = w.stack.map Frame.artifact
  /-- No artifact has got two frames. -/
  once : framed.Nodup
  steps_le : n ≤ 6 * framed.length
  /-- However many artifacts the graph has. -/
  steps_le_load : n ≤ 6 * Expansion.load (e.maxDepth - 1)

end Dependency

open Dependency

/-- An expansion answers what its walk found. -/
theorem EmissionPlan.expand_of_run_ok {g : MetadataGraph} {stillValid : Artifact → Bool}
    {root : Artifact} {p : EmissionPlan} {f : Frame} {w : Walk} (hroot : root ∉ p.done)
    (hf : (⟨g, stillValid, p.maxDepth, root⟩ : Expansion).frame root = .ok f)
    (hrun : (⟨g, stillValid, p.maxDepth, root⟩ : Expansion).run ⟨p.done, [root], [f], []⟩ =
      .ok () w) :
    p.expand g stillValid root = .ok w.order { p with done := w.done } := by
  rw [EmissionPlan.expand, if_neg (by simpa [isDone] using hroot)]
  simp only [hf, hrun]

/-- An expansion fails where its walk does, and keeps what the walk has placed. -/
theorem EmissionPlan.expand_of_run_error {g : MetadataGraph} {stillValid : Artifact → Bool}
    {root : Artifact} {p : EmissionPlan} {f : Frame} {v : Violation} {w : Walk}
    (hroot : root ∉ p.done)
    (hf : (⟨g, stillValid, p.maxDepth, root⟩ : Expansion).frame root = .ok f)
    (hrun : (⟨g, stillValid, p.maxDepth, root⟩ : Expansion).run ⟨p.done, [root], [f], []⟩ =
      .error v w) :
    p.expand g stillValid root = .error v { p with done := w.done } := by
  rw [EmissionPlan.expand, if_neg (by simpa [isDone] using hroot)]
  simp only [hf, hrun]

/-- Every expansion comes to an end, be the graph as it may. If its root was placed before, or has no
frame, there is nothing to walk. Else the walk leads to a state in which it is finished or fails,
which is what the expansion answers, and all the way to there its stack, its frames and its steps
are bounded. -/
theorem EmissionPlan.expand_bounded (g : MetadataGraph) (stillValid : Artifact → Bool)
    (root : Artifact) (p : EmissionPlan) :
    let e : Expansion := ⟨g, stillValid, p.maxDepth, root⟩
    (root ∈ p.done → p.expand g stillValid root = .ok [] p) ∧
    (root ∉ p.done → ∀ v, e.frame root = .error v → p.expand g stillValid root = .error v p) ∧
    (root ∉ p.done → ∀ f, e.frame root = .ok f →
      (∃ n framed w, e.Leads ⟨p.done, [root], [f], []⟩ n framed w ∧
        (e.step w = .finished ∧
            p.expand g stillValid root = .ok w.order { p with done := w.done } ∨
          ∃ v, e.step w = .failed v ∧
            p.expand g stillValid root = .error v { p with done := w.done })) ∧
      ∀ n framed w, e.Leads ⟨p.done, [root], [f], []⟩ n framed w → w.Bounded e n framed) := by
  intro e
  refine ⟨fun hroot => ?_, fun hroot v hv => ?_, fun hroot f hf => ⟨?_, fun n framed w h => ?_⟩⟩
  · rw [EmissionPlan.expand, if_pos (by simpa [isDone] using hroot)]
  · rw [EmissionPlan.expand, if_neg (by simpa [isDone] using hroot)]
    simp only [e] at hv ⊢
    rw [hv]
  · have hstart : e.Leads ⟨p.done, [root], [f], []⟩ 0 [f.artifact] _ := .start
    obtain ⟨n, framed, w, hleads, ⟨hend, hrun⟩ | ⟨v, hend, hrun⟩⟩ := hstart.exists_end
    · exact ⟨n, framed, w, hleads, .inl ⟨hend, expand_of_run_ok hroot hf hrun⟩⟩
    · exact ⟨n, framed, w, hleads, .inr ⟨v, hend, expand_of_run_error hroot hf hrun⟩⟩
  · have hinv := h.inv (Walk.Inv.start hf hroot)
    have hpaced := h.paced (Walk.paced_start hf _)
    have hpending := e.length_pending_le hf
    have hload : Expansion.weight e.maxDepth [f] ≤ 6 * Expansion.load (e.maxDepth - 1) := by
      simp only [Expansion.weight, List.length_nil, Nat.zero_add, Nat.add_zero]
      exact Nat.mul_le_mul_right _ (Nat.succ_le_succ hpending)
    refine ⟨hpaced.height, hinv.nodup, hinv.waiting, hpaced.nodup hinv,
      Nat.le_trans (Nat.le_add_right ..) hpaced.work, ?_⟩
    exact Nat.le_trans (Nat.le_add_right ..) (Nat.le_trans h.le_weight hload)

/-- Every class has another one over it. -/
def endlessGraph : MetadataGraph where
  classLoader _ := none
  module _ := none
  package _ := none
  cls n := some { name := "C", superclass := some (n + 1) }
  method _ := none
  thread _ := none
  unloading := []

/-- The walk into such a graph ends where its stack is full. -/
theorem expand_bounded_endless :
    let e : Expansion := ⟨endlessGraph, fun _ => false, 3, .cls 0⟩
    .cls 0 ∉ ({ maxDepth := 3 } : EmissionPlan).done ∧
    e.frame (.cls 0) = .ok ⟨.cls 0, .cls { name := "C", superclass := some 1 }, [.cls 1]⟩ ∧
    EmissionPlan.expand endlessGraph (fun _ => false) (.cls 0) { maxDepth := 3 } =
      .error (.dependencyTooDeep (.cls 0) 3) { maxDepth := 3 } ∧
    ∃ n framed w, e.step w = .failed (.dependencyTooDeep (.cls 0) 3) ∧ w.Bounded e n framed := by
  have hexpand : EmissionPlan.expand endlessGraph (fun _ => false) (.cls 0) { maxDepth := 3 } =
      .error (.dependencyTooDeep (.cls 0) 3) { maxDepth := 3 } := by
    with_unfolding_all rfl
  obtain ⟨⟨n, framed, w, hleads, ⟨-, hok⟩ | ⟨v, hfailed, herror⟩⟩, hbounded⟩ :=
    (EmissionPlan.expand_bounded endlessGraph (fun _ => false) (.cls 0) { maxDepth := 3 }).2.2
      (by decide) _ rfl
  · rw [hexpand] at hok
    cases hok
  · rw [hexpand] at herror
    injection herror with hv
    subst hv
    exact ⟨by decide, rfl, hexpand, n, framed, w, hfailed, hbounded n framed w hleads⟩

end TraceTypes
