import TraceTypes.Dependency.Edges
/-!
# Expansion of a tag

An emission plan remembers which artifacts a pass has placed already. To expand
an artifact is to list it behind everything that it depends on, directly or
not, leaving out what was placed before and what an earlier record still
stands for. The expansion walks the dependencies depth first with a stack of
its own, one frame per artifact that is waiting for its dependencies.

Three things end it early: an artifact that the graph does not have, a
dependency on an artifact that is still waiting, and a stack as high as the
plan's limit when one more frame is needed. What was placed until then stays
placed.

The walk ends on every graph, also on one with endlessly many artifacts. A
frame weighs one load for each dependency that it still has to look at, and one
load more. A load is the heavier the lower the frame stands: seven times that
of the frame above. An artifact has at most five dependencies, so a new frame
weighs less than the dependency that is taken off for it.
-/

namespace TraceTypes

/-- Which artifacts a pass has placed, and how high the stack of an expansion may grow. -/
structure EmissionPlan where
  done : List Artifact := []
  maxDepth : Nat
  deriving DecidableEq

namespace EmissionPlan

/-- Whether an artifact was placed. -/
def isDone (p : EmissionPlan) (a : Artifact) : Bool := p.done.contains a

/-- Place an artifact without a look at its dependencies. -/
def markDone (p : EmissionPlan) (a : Artifact) : EmissionPlan := { p with done := p.done.insert a }

/-- The number of artifacts placed. -/
def size (p : EmissionPlan) : Nat := p.done.length

end EmissionPlan

namespace Dependency

/-- An artifact that waits for its dependencies. -/
structure Frame where
  artifact : Artifact
  info : ArtifactInfo
  /-- The dependencies not looked at yet. -/
  pending : List Artifact
  deriving DecidableEq

/-- The state of an expansion. -/
structure Walk where
  /-- The artifacts placed, in this expansion or before. -/
  done : List Artifact
  /-- The artifacts that are waiting. -/
  waiting : List Artifact
  /-- Their frames, the innermost first. -/
  stack : List Frame
  /-- What this expansion has placed, in order. -/
  order : List (Artifact × ArtifactInfo)
  deriving DecidableEq

/-- What stays the same during an expansion. -/
structure Expansion where
  graph : MetadataGraph
  /-- Whether an earlier record of a dependency can still be referred to. -/
  stillValid : Artifact → Bool
  maxDepth : Nat
  root : Artifact

/-- What one step of an expansion comes to. -/
inductive Progress where
  | finished
  | failed (v : Violation)
  | next (w : Walk)

namespace Expansion

variable (e : Expansion)

/-- The frame of an artifact that starts to wait. -/
def frame (a : Artifact) : Except Violation Frame :=
  match describe e.graph a with
  | .error v => .error v
  | .ok i =>
    match direct e.graph a i with
    | .error v => .error v
    | .ok deps => .ok ⟨a, i, deps⟩

/-- One step: look at the next dependency of the innermost frame, or place its artifact. -/
def step (w : Walk) : Progress :=
  match w.stack with
  | [] => .finished
  | ⟨a, i, []⟩ :: rest =>
    .next ⟨w.done.insert a, w.waiting.erase a, rest, w.order ++ [(a, i)]⟩
  | ⟨a, i, d :: pending⟩ :: rest =>
    let stack := ⟨a, i, pending⟩ :: rest
    if w.done.contains d || e.stillValid d then .next { w with stack := stack }
    else if w.waiting.contains d then .failed (.dependencyCycle d)
    else if e.maxDepth ≤ stack.length then .failed (.dependencyTooDeep e.root e.maxDepth)
    else
      match e.frame d with
      | .error v => .failed v
      | .ok f => .next { w with waiting := d :: w.waiting, stack := f :: stack }

/-- The load of a frame that may have so many frames above it. -/
def load : Nat → Nat
  | 0 => 1
  | n + 1 => 7 * load n

theorem load_pos : ∀ n, 0 < load n
  | 0 => Nat.one_pos
  | n + 1 => Nat.mul_pos (by decide) (load_pos n)

/-- The weight of a stack whose frames may stand at heights up to `d`. -/
def weight (d : Nat) : List Frame → Nat
  | [] => 0
  | f :: rest => (f.pending.length + 1) * load (d - (rest.length + 1)) + weight d rest

theorem length_pending_le {a : Artifact} {f : Frame} (h : e.frame a = .ok f) :
    f.pending.length ≤ 5 := by
  unfold frame at h
  split at h
  · cases h
  · split at h
    · cases h
    · rename_i hd
      cases h
      exact length_direct_le hd

/-- Every step that leads on makes the stack lighter. -/
theorem weight_step_lt {w w' : Walk} (h : e.step w = .next w') :
    weight e.maxDepth w'.stack < weight e.maxDepth w.stack := by
  unfold step at h
  split at h
  · cases h
  · rename_i a i rest hs
    cases h
    rw [hs]
    simp only [weight, List.length_nil]
    have := load_pos (e.maxDepth - (rest.length + 1))
    omega
  · rename_i a i d pending rest hs
    rw [hs]
    have hpos := load_pos (e.maxDepth - (rest.length + 1))
    simp only [weight, List.length_cons]
    dsimp only at h
    split at h
    · cases h
      simp only [weight, Nat.add_mul]
      omega
    · split at h
      · cases h
      · split at h
        · cases h
        · rename_i hdepth
          simp only [List.length_cons] at hdepth
          split at h
          · cases h
          · rename_i f hf
            cases h
            have hlen := e.length_pending_le hf
            obtain ⟨k, hk⟩ := Nat.exists_eq_add_of_lt (Nat.lt_of_not_le hdepth)
            simp only [weight, List.length_cons]
            rw [show e.maxDepth - (rest.length + 1 + 1) = k by omega,
              show e.maxDepth - (rest.length + 1) = k + 1 by omega, load]
            have hle : (f.pending.length + 1) * load k ≤ 6 * load k :=
              Nat.mul_le_mul_right _ (by omega)
            have hk0 := load_pos k
            rw [Nat.add_mul (pending.length + 1) 1]
            omega

/-- Step until the stack is empty or a violation is found; the last state is kept either way. -/
def run (w : Walk) : EStateM.Result Violation Walk Unit :=
  match _h : e.step w with
  | .finished => .ok () w
  | .failed v => .error v w
  | .next w' => run w'
termination_by weight e.maxDepth w.stack
decreasing_by exact e.weight_step_lt _h

end Expansion

end Dependency

namespace EmissionPlan

open Dependency

/-- List an artifact behind everything that it depends on, with its fields. Empty if the artifact
was placed before. -/
def expand (g : MetadataGraph) (stillValid : Artifact → Bool) (root : Artifact) :
    EStateM Violation EmissionPlan (List (Artifact × ArtifactInfo)) := fun p =>
  if p.isDone root then .ok [] p
  else
    let e : Expansion := ⟨g, stillValid, p.maxDepth, root⟩
    match e.frame root with
    | .error v => .error v p
    | .ok f =>
      match e.run ⟨p.done, [root], [f], []⟩ with
      | .error v w => .error v { p with done := w.done }
      | .ok () w => .ok w.order { p with done := w.done }

end EmissionPlan

end TraceTypes
