import TraceTypes.Dependency.Expansion
import TraceTypes.Proofs.Actions
/-!
# What an expansion places

The walk of an expansion keeps one invariant (`Walk.Inv`), stated for a single
step and carried to the end of the run:

* **order** — what was placed is a list in which every artifact stands once,
  with its fields, behind all of its direct dependencies that no earlier record
  covers (`Placeable`);
* **stack** — the waiting artifacts are those of the frames, and each frame has
  looked at its dependencies up to the artifact of the frame above (`FramesOk`);
* **least set** — nothing is placed that the root does not need (`Closure`).

What a step can do is said once, for steps that lead on (`Expansion.next_cases`)
and for those that fail (`Expansion.failed_cases`). `EmissionPlan.expand_cases`
and `EmissionPlan.expand_error` put this together for a whole expansion.
-/

namespace TraceTypes

namespace Dependency

/-- The graph has fields for `a`, and `d` is among the direct dependencies that they make. -/
def DependsOn (g : MetadataGraph) (a d : Artifact) : Prop :=
  ∃ i l, g.describe? a = some i ∧ direct g a i = .ok l ∧ d ∈ l

/-- The least set with all roots in it and, for each artifact in it, the direct dependencies that
are not covered. -/
inductive Closure (g : MetadataGraph) (root covered : Artifact → Prop) : Artifact → Prop
  | root {a : Artifact} : root a → Closure g root covered a
  | dependency {a d : Artifact} : Closure g root covered a → DependsOn g a d → ¬ covered d →
      Closure g root covered d

/-- Where the roots of a closure lie in another one and the cover is larger, so does the closure. -/
theorem Closure.mono {g : MetadataGraph} {root root' covered covered' : Artifact → Prop}
    {a : Artifact} (h : Closure g root covered a)
    (hroot : ∀ b, root b → Closure g root' covered' b) (hcover : ∀ b, covered' b → covered b) :
    Closure g root' covered' a := by
  induction h with
  | root hr => exact hroot _ hr
  | dependency _ hd hnc ih => exact .dependency ih hd fun hc => hnc (hcover _ hc)

/-- The list can be placed behind the artifacts in `placed`: each artifact comes with its fields,
is new, and has its direct dependencies before it or covered. -/
def Placeable (g : MetadataGraph) (covered : Artifact → Prop) :
    (placed : Artifact → Prop) → List (Artifact × ArtifactInfo) → Prop
  | _, [] => True
  | placed, (a, i) :: rest =>
      g.describe? a = some i ∧ ¬ placed a ∧
        (∃ l, direct g a i = .ok l ∧ ∀ d ∈ l, covered d ∨ placed d) ∧
        Placeable g covered (fun b => placed b ∨ b = a) rest

section Placeable

variable {g : MetadataGraph} {covered placed : Artifact → Prop}
  {l l' : List (Artifact × ArtifactInfo)}

theorem placeable_append :
    Placeable g covered placed (l ++ l') ↔
      Placeable g covered placed l ∧
        Placeable g covered (fun b => placed b ∨ b ∈ l.map Prod.fst) l' := by
  induction l generalizing placed with
  | nil => simp [Placeable]
  | cons e rest ih =>
      obtain ⟨a, i⟩ := e
      simp only [List.cons_append, Placeable, ih, List.map_cons, List.mem_cons, or_assoc,
        and_assoc]

/-- What is placeable is new and comes with its fields. -/
theorem Placeable.mem (h : Placeable g covered placed l) {a : Artifact} {i : ArtifactInfo}
    (hmem : (a, i) ∈ l) : g.describe? a = some i ∧ ¬ placed a := by
  induction l generalizing placed with
  | nil => cases hmem
  | cons e rest ih =>
      obtain ⟨b, j⟩ := e
      obtain ⟨hdesc, hnew, -, hrest⟩ := h
      rcases List.mem_cons.mp hmem with heq | hmem
      · cases heq
        exact ⟨hdesc, hnew⟩
      · obtain ⟨h1, h2⟩ := ih hrest hmem
        exact ⟨h1, fun hp => h2 (.inl hp)⟩

/-- Each artifact of a placeable list has its direct dependencies in front of it, or placed, or
covered. -/
theorem Placeable.behind {before after : List (Artifact × ArtifactInfo)} {a : Artifact}
    {i : ArtifactInfo} (h : Placeable g covered placed (before ++ (a, i) :: after)) :
    ∃ l, direct g a i = .ok l ∧
      ∀ d ∈ l, covered d ∨ placed d ∨ d ∈ before.map Prod.fst := by
  obtain ⟨-, -, -, hdir, -⟩ := placeable_append.mp h
  exact hdir

/-- A placeable list has, with an artifact, all of its dependencies that are not covered, but for
those that were placed. -/
theorem Placeable.closed (h : Placeable g covered placed l) {a d : Artifact}
    (ha : a ∈ l.map Prod.fst) (hdep : DependsOn g a d) (hd : ¬ covered d) :
    placed d ∨ d ∈ l.map Prod.fst := by
  obtain ⟨⟨_, i⟩, hmem, rfl⟩ := List.mem_map.mp ha
  have hdesc := (h.mem hmem).1
  obtain ⟨before, after, rfl⟩ := List.append_of_mem hmem
  obtain ⟨l, hl, hcovered⟩ := h.behind
  obtain ⟨j, l', hj, hl', hmem'⟩ := hdep
  -- the graph has one description for it, and the list is the one that this makes
  dsimp only at hj hl'
  rw [hdesc] at hj
  cases hj
  rw [hl] at hl'
  cases hl'
  rcases hcovered d hmem' with hc | hp | hb
  · exact absurd hc hd
  · exact .inl hp
  · refine .inr ?_
    rw [List.map_append]
    exact List.mem_append_left _ hb

/-- No artifact is placed twice. -/
theorem Placeable.nodup (h : Placeable g covered placed l) : (l.map Prod.fst).Nodup := by
  induction l generalizing placed with
  | nil => simp
  | cons e rest ih =>
      obtain ⟨a, i⟩ := e
      obtain ⟨-, -, -, hrest⟩ := h
      rw [List.map_cons, List.nodup_cons]
      refine ⟨?_, ih hrest⟩
      intro hmem
      obtain ⟨⟨b, j⟩, hb, rfl⟩ := List.mem_map.mp hmem
      exact (hrest.mem hb).2 (.inr rfl)

end Placeable

namespace Expansion

variable (e : Expansion)

/-- An artifact that the graph describes, with its direct dependencies. -/
theorem frame_eq_ok {a : Artifact} {f : Frame} (h : e.frame a = .ok f) :
    f.artifact = a ∧ e.graph.describe? a = some f.info ∧
      direct e.graph a f.info = .ok f.pending := by
  unfold frame describe at h
  cases hd : e.graph.describe? a with
  | none => rw [hd] at h; cases h
  | some i =>
      rw [hd] at h
      dsimp only at h
      cases hl : direct e.graph a i with
      | error v => rw [hl] at h; cases h
      | ok l =>
          rw [hl] at h
          cases h
          exact ⟨rfl, rfl, hl⟩

/-! ### The cases of a step -/

variable {e} in
/-- A step that leads on places the artifact of the innermost frame, passes over its next
dependency, or lets that one wait. -/
theorem next_cases {w w' : Walk} (h : e.step w = .next w') :
    (∃ a i rest, w.stack = ⟨a, i, []⟩ :: rest ∧
      w' = ⟨w.done.insert a, w.waiting.erase a, rest, w.order ++ [(a, i)]⟩) ∨
    (∃ a i d pending rest, w.stack = ⟨a, i, d :: pending⟩ :: rest ∧
      (d ∈ w.done ∨ e.stillValid d = true) ∧ w' = { w with stack := ⟨a, i, pending⟩ :: rest }) ∨
    ∃ a i d pending rest f, w.stack = ⟨a, i, d :: pending⟩ :: rest ∧ d ∉ w.done ∧
      e.stillValid d ≠ true ∧ d ∉ w.waiting ∧ w.stack.length < e.maxDepth ∧ e.frame d = .ok f ∧
      w' = { w with waiting := d :: w.waiting, stack := f :: ⟨a, i, pending⟩ :: rest } := by
  unfold step at h
  split at h
  · cases h
  · rename_i a i rest hs
    cases h
    exact .inl ⟨a, i, rest, hs, rfl⟩
  · rename_i a i d pending rest hs
    dsimp only at h
    split at h
    · rename_i hd
      cases h
      exact .inr (.inl ⟨a, i, d, pending, rest, hs, by simpa using hd, rfl⟩)
    · rename_i hd
      simp only [Bool.or_eq_true, List.contains_iff_mem, not_or] at hd
      split at h
      · cases h
      · rename_i hw
        split at h
        · cases h
        · rename_i hdepth
          split at h
          · cases h
          · rename_i f hf
            cases h
            refine .inr (.inr ⟨a, i, d, pending, rest, f, hs, hd.1, hd.2, by simpa using hw, ?_,
              hf, rfl⟩)
            rw [hs]
            exact Nat.lt_of_not_le hdepth

variable {e} in
/-- A step fails at a dependency that is neither placed nor covered: it is waiting, there is no room
for one more frame, or it has no frame. -/
theorem failed_cases {w : Walk} {v : Violation} (h : e.step w = .failed v) :
    ∃ a i d pending rest, w.stack = ⟨a, i, d :: pending⟩ :: rest ∧ d ∉ w.done ∧
      e.stillValid d ≠ true ∧
      (d ∈ w.waiting ∧ v = .dependencyCycle d ∨
        d ∉ w.waiting ∧ e.maxDepth ≤ w.stack.length ∧
          v = .dependencyTooDeep e.root e.maxDepth ∨
        d ∉ w.waiting ∧ e.frame d = .error v) := by
  unfold step at h
  split at h
  · cases h
  · cases h
  · rename_i a i d pending rest hs
    refine ⟨a, i, d, pending, rest, hs, ?_⟩
    dsimp only at h
    split at h
    · cases h
    · rename_i hd
      simp only [Bool.or_eq_true, List.contains_iff_mem, not_or] at hd
      refine ⟨hd.1, hd.2, ?_⟩
      split at h
      · rename_i hw
        cases h
        exact .inl ⟨by simpa using hw, rfl⟩
      · rename_i hw
        split at h
        · rename_i hdepth
          cases h
          refine .inr (.inl ⟨by simpa using hw, ?_, rfl⟩)
          rw [hs]
          exact hdepth
        · split at h
          · rename_i hf
            cases h
            exact .inr (.inr ⟨by simpa using hw, hf⟩)
          · cases h

theorem stack_of_finished {w : Walk} (h : e.step w = .finished) : w.stack = [] := by
  unfold step at h
  split at h
  · assumption
  · cases h
  · dsimp only at h
    repeat' split at h
    all_goals cases h

/-- Each frame holds the fields of its artifact. Among the dependencies, those that the frame has
looked at come first: they are covered or placed, but for the last one if a frame stands above. The
artifact of that frame is this last one, and it is not covered. -/
def FramesOk (done : List Artifact) : (above : Option Artifact) → List Frame → Prop
  | _, [] => True
  | above, f :: rest =>
      (e.graph.describe? f.artifact = some f.info ∧ (∀ d, above = some d → e.stillValid d ≠ true) ∧
        ∃ seen, direct e.graph f.artifact f.info = .ok (seen ++ (above.toList ++ f.pending)) ∧
          ∀ d ∈ seen, e.stillValid d = true ∨ d ∈ done) ∧
      FramesOk done (some f.artifact) rest

theorem FramesOk.mono {done done' : List Artifact} (hle : ∀ a ∈ done, a ∈ done')
    {stack : List Frame} {above : Option Artifact} (h : e.FramesOk done above stack) :
    e.FramesOk done' above stack := by
  induction stack generalizing above with
  | nil => trivial
  | cons f rest ih =>
      obtain ⟨⟨hdesc, habove, seen, hdir, hseen⟩, hrest⟩ := h
      exact ⟨⟨hdesc, habove, seen, hdir, fun d hd => (hseen d hd).imp_right (hle d)⟩, ih hrest⟩

/-- The artifact above was placed. -/
theorem FramesOk.placed {done : List Artifact} {a : Artifact} {stack : List Frame}
    (h : e.FramesOk done (some a) stack) : e.FramesOk (done.insert a) none stack := by
  cases stack with
  | nil => trivial
  | cons f rest =>
      obtain ⟨⟨hdesc, -, seen, hdir, hseen⟩, hrest⟩ := h
      refine ⟨⟨hdesc, fun _ h => (by cases h), seen ++ [a], by simpa using hdir, ?_⟩,
        hrest.mono e fun _ => List.mem_insert_of_mem⟩
      intro d hd
      rcases List.mem_append.mp hd with hd | hd
      · exact (hseen d hd).imp_right List.mem_insert_of_mem
      · rw [List.mem_singleton.mp hd]
        exact .inr List.mem_insert_self

end Expansion

/-- The invariant of a walk that began with the artifacts of `done₀` placed. -/
structure Walk.Inv (e : Expansion) (done₀ : List Artifact) (w : Walk) : Prop where
  placed : Placeable e.graph (fun d => e.stillValid d = true) (· ∈ done₀) w.order
  done : ∀ a, a ∈ w.done ↔ a ∈ done₀ ∨ a ∈ w.order.map Prod.fst
  waiting : w.waiting = w.stack.map Frame.artifact
  unplaced : ∀ a ∈ w.stack.map Frame.artifact, a ∉ w.done
  nodup : (w.stack.map Frame.artifact).Nodup
  frames : e.FramesOk w.done none w.stack
  needed : ∀ a, a ∈ w.order.map Prod.fst ∨ a ∈ w.stack.map Frame.artifact →
    Closure e.graph (· = e.root) (fun d => e.stillValid d = true ∨ d ∈ done₀) a
  root : (w.stack.map Frame.artifact).getLast? = some e.root ∨
    w.stack = [] ∧ (w.order.map Prod.fst).getLast? = some e.root

namespace Walk.Inv

variable {e : Expansion} {done₀ : List Artifact} {w : Walk}

/-- The walk over an artifact that was not placed before, with its frame on the stack. -/
theorem start {f : Frame} (hf : e.frame e.root = .ok f) (hroot : e.root ∉ done₀) :
    Inv e done₀ ⟨done₀, [e.root], [f], []⟩ := by
  obtain ⟨hart, hdesc, hdir⟩ := e.frame_eq_ok hf
  constructor
  case placed => trivial
  case done => simp
  case waiting => simp [hart]
  case unplaced => simpa [hart] using hroot
  case nodup => simp
  case frames =>
    exact ⟨⟨by rw [hart]; exact hdesc, fun _ h => (by cases h), [], by rw [hart]; exact hdir,
      by simp⟩, trivial⟩
  case needed =>
    intro a ha
    have : a = e.root := by simpa [hart] using ha
    exact .root this
  case root => exact .inl (by simp [hart])

/-- The innermost frame has no dependency left: its artifact is placed. -/
theorem place {a : Artifact} {i : ArtifactInfo} {rest : List Frame} (h : w.Inv e done₀)
    (hs : w.stack = ⟨a, i, []⟩ :: rest) :
    Inv e done₀ ⟨w.done.insert a, w.waiting.erase a, rest, w.order ++ [(a, i)]⟩ := by
  have hframes := h.frames
  have hnodup := h.nodup
  rw [hs] at hframes hnodup
  obtain ⟨⟨hdesc, -, seen, hdir, hseen⟩, hrest⟩ := hframes
  rw [List.map_cons, List.nodup_cons] at hnodup
  have hunplaced := h.unplaced
  rw [hs] at hunplaced
  have hnew : a ∉ w.done := hunplaced a List.mem_cons_self
  constructor
  case placed =>
    rw [placeable_append]
    refine ⟨h.placed, hdesc, ?_, ⟨seen, by simpa using hdir, ?_⟩, trivial⟩
    · intro hp
      exact hnew ((h.done a).mpr hp)
    · -- there is no frame above, so what the frame has looked at is covered or placed
      exact fun d hd => (hseen d hd).imp_right (h.done d).mp
  case done =>
    intro b
    rw [List.mem_insert_iff, h.done b, List.map_append, List.mem_append]
    simp only [List.map_cons, List.map_nil, List.mem_singleton]
    constructor
    · rintro (rfl | hb | hb)
      · exact .inr (.inr rfl)
      · exact .inl hb
      · exact .inr (.inl hb)
    · rintro (hb | hb | rfl)
      · exact .inr (.inl hb)
      · exact .inr (.inr hb)
      · exact .inl rfl
  case waiting =>
    rw [h.waiting, hs]
    simp
  case unplaced =>
    intro b hb hmem
    rcases List.mem_insert_iff.mp hmem with rfl | hmem
    · exact hnodup.1 hb
    · exact hunplaced b (List.mem_cons_of_mem _ hb) hmem
  case nodup => exact hnodup.2
  case frames => exact hrest.placed e
  case needed =>
    intro b hb
    refine h.needed b ?_
    rw [hs]
    rw [List.map_append, List.mem_append, List.map_cons, List.map_nil, List.mem_singleton] at hb
    rw [List.map_cons, List.mem_cons]
    rcases hb with (hb | hb) | hb
    · exact .inl hb
    · exact .inr (.inl hb)
    · exact .inr (.inr hb)
  case root =>
    rcases h.root with hroot | ⟨hnil, -⟩
    · rw [hs] at hroot
      cases rest with
      | nil => exact .inr ⟨rfl, by simpa using hroot⟩
      | cons f fs => exact .inl (by simpa using hroot)
    · rw [hnil] at hs
      cases hs

/-- The next dependency of the innermost frame is covered or placed: the frame has looked at it. -/
theorem skip {a d : Artifact} {i : ArtifactInfo} {pending : List Artifact} {rest : List Frame}
    (h : w.Inv e done₀) (hs : w.stack = ⟨a, i, d :: pending⟩ :: rest)
    (hd : d ∈ w.done ∨ e.stillValid d = true) :
    Inv e done₀ { w with stack := ⟨a, i, pending⟩ :: rest } := by
  obtain ⟨hplaced, hdone, hwaiting, hunplaced, hnodup, hframes, hneeded, hroot⟩ := h
  rw [hs] at hwaiting hunplaced hnodup hframes hneeded hroot
  obtain ⟨⟨hdesc, habove, seen, hdir, hseen⟩, hrest⟩ := hframes
  refine ⟨hplaced, hdone, hwaiting, hunplaced, hnodup,
    ⟨⟨hdesc, habove, seen ++ [d], ?_, ?_⟩, hrest⟩, hneeded, ?_⟩
  · simpa using hdir
  · intro b hb
    rcases List.mem_append.mp hb with hb | hb
    · exact hseen b hb
    · rw [List.mem_singleton.mp hb]
      exact hd.symm
  · rcases hroot with hroot | ⟨hnil, -⟩
    · exact .inl hroot
    · cases hnil

/-- The next dependency of the innermost frame starts to wait on a frame of its own. -/
theorem push {a d : Artifact} {i : ArtifactInfo} {pending : List Artifact} {rest : List Frame}
    {f : Frame} (h : w.Inv e done₀) (hs : w.stack = ⟨a, i, d :: pending⟩ :: rest)
    (hdone : d ∉ w.done) (hvalid : e.stillValid d ≠ true) (hwaiting : d ∉ w.waiting)
    (hf : e.frame d = .ok f) :
    Inv e done₀
      { w with waiting := d :: w.waiting, stack := f :: ⟨a, i, pending⟩ :: rest } := by
  obtain ⟨hplaced, hdone', hwait, hunplaced, hnodup, hframes, hneeded, hroot⟩ := h
  rw [hs] at hwait hunplaced hnodup hframes hneeded hroot
  obtain ⟨⟨hdesc, -, seen, hdir, hseen⟩, hrest⟩ := hframes
  obtain ⟨hart, hfdesc, hfdir⟩ := e.frame_eq_ok hf
  have hclosure : Closure e.graph (· = e.root)
      (fun b => e.stillValid b = true ∨ b ∈ done₀) d := by
    refine .dependency (hneeded a (.inr List.mem_cons_self)) ⟨i, _, hdesc, hdir, by simp⟩ ?_
    rintro (hv | hmem)
    · exact hvalid hv
    · exact hdone ((hdone' d).mpr (.inl hmem))
  refine ⟨hplaced, hdone', ?_, ?_, ?_, ⟨⟨?_, fun _ h => (by cases h), [], ?_, by simp⟩,
    ⟨hdesc, ?_, seen, ?_, hseen⟩, hrest⟩, ?_, ?_⟩
  · rw [hwait, List.map_cons, List.map_cons, List.map_cons, hart]
  · intro b hb
    rw [List.map_cons, List.mem_cons, hart] at hb
    rcases hb with rfl | hb
    · exact hdone
    · exact hunplaced b hb
  · rw [List.map_cons, List.nodup_cons, hart]
    exact ⟨hwait ▸ hwaiting, hnodup⟩
  · rw [hart]
    exact hfdesc
  · rw [hart]
    exact hfdir
  · rintro _ ⟨⟩
    rwa [hart]
  · simpa [hart] using hdir
  · intro b hb
    rcases hb with hb | hb
    · exact hneeded b (.inl hb)
    · rw [List.map_cons, List.mem_cons, hart] at hb
      rcases hb with rfl | hb
      · exact hclosure
      · exact hneeded b (.inr hb)
  · rcases hroot with hroot | ⟨hnil, -⟩
    · exact .inl (by simpa using hroot)
    · cases hnil

/-- Every step that leads on keeps the invariant. -/
theorem step {w' : Walk} (h : w.Inv e done₀) (hstep : e.step w = .next w') :
    w'.Inv e done₀ := by
  rcases Expansion.next_cases hstep with ⟨a, i, rest, hs, rfl⟩ |
    ⟨a, i, d, pending, rest, hs, hd, rfl⟩ |
    ⟨a, i, d, pending, rest, f, hs, hdone, hvalid, hwaiting, -, hf, rfl⟩
  · exact h.place hs
  · exact h.skip hs hd
  · exact h.push hs hdone hvalid hwaiting hf

/-- A run that does not fail ends with the invariant and an empty stack. -/
theorem run {w' : Walk} (h : w.Inv e done₀) (hrun : e.run w = .ok () w') :
    w'.Inv e done₀ ∧ w'.stack = [] := by
  fun_induction e.run w with
  | case1 w hstep =>
      cases hrun
      exact ⟨h, e.stack_of_finished hstep⟩
  | case2 w v hstep => cases hrun
  | case3 w w₁ hstep ih => exact ih (h.step hstep) hrun

/-- A run that fails ends with the invariant, before the step that fails. -/
theorem run_error {v : Violation} {w' : Walk} (h : w.Inv e done₀) (hrun : e.run w = .error v w') :
    w'.Inv e done₀ ∧ e.step w' = .failed v := by
  fun_induction e.run w with
  | case1 w hstep => cases hrun
  | case2 w v hstep =>
      cases hrun
      exact ⟨h, hstep⟩
  | case3 w w₁ hstep ih => exact ih (h.step hstep) hrun

end Walk.Inv

end Dependency

open Dependency

/-- All that an expansion can answer: nothing for an artifact that was placed before, else a list
that ends in the artifact, is placeable, and has nothing in it that the artifact does not need. -/
theorem EmissionPlan.expand_cases {g : MetadataGraph} {stillValid : Artifact → Bool}
    {root : Artifact} {p p' : EmissionPlan} {order : List (Artifact × ArtifactInfo)}
    (h : p.expand g stillValid root = .ok order p') :
    (root ∈ p.done ∧ order = [] ∧ p' = p) ∨
    (root ∉ p.done ∧
      Placeable g (fun d => stillValid d = true) (· ∈ p.done) order ∧
      (∀ a, a ∈ p'.done ↔ a ∈ p.done ∨ a ∈ order.map Prod.fst) ∧
      (order.map Prod.fst).getLast? = some root ∧
      ∀ a ∈ order.map Prod.fst,
        Closure g (· = root) (fun d => stillValid d = true ∨ d ∈ p.done) a) := by
  unfold EmissionPlan.expand at h
  split at h
  · rename_i hdone
    cases h
    exact .inl ⟨by simpa [EmissionPlan.isDone] using hdone, rfl, rfl⟩
  · rename_i hdone
    have hroot : root ∉ p.done := by simpa [EmissionPlan.isDone] using hdone
    dsimp only at h
    split at h
    · cases h
    · rename_i f hf
      split at h
      · cases h
      · rename_i w hrun
        cases h
        obtain ⟨hinv, hnil⟩ := (Walk.Inv.start hf hroot).run hrun
        refine .inr ⟨hroot, hinv.placed, hinv.done, ?_, fun a ha => hinv.needed a (.inl ha)⟩
        -- with the stack empty, the root has been placed, and after all others
        rcases hinv.root with hlast | ⟨-, hlast⟩
        · rw [hnil] at hlast
          cases hlast
        · exact hlast

/-- The limit stays the same, however an expansion ends. -/
theorem EmissionPlan.maxDepth_expand (g : MetadataGraph) (stillValid : Artifact → Bool)
    (root : Artifact) (p : EmissionPlan) :
    (endState (p.expand g stillValid root)).maxDepth = p.maxDepth := by
  unfold EmissionPlan.expand
  dsimp only
  repeat' split
  all_goals rfl

/-- An expansion fails for want of the root's frame, or at a step of its walk. -/
theorem EmissionPlan.expand_error {g : MetadataGraph} {stillValid : Artifact → Bool}
    {root : Artifact} {p p' : EmissionPlan} {v : Violation}
    (h : p.expand g stillValid root = .error v p') :
    root ∉ p.done ∧
      ((Expansion.mk g stillValid p.maxDepth root).frame root = .error v ∨
        ∃ w : Walk, w.Inv ⟨g, stillValid, p.maxDepth, root⟩ p.done ∧
          (Expansion.mk g stillValid p.maxDepth root).step w = .failed v) := by
  unfold EmissionPlan.expand at h
  split at h
  · cases h
  · rename_i hdone
    have hroot : root ∉ p.done := by simpa [EmissionPlan.isDone] using hdone
    refine ⟨hroot, ?_⟩
    dsimp only at h
    split at h
    · rename_i hf
      cases h
      exact .inl hf
    · rename_i f hf
      split at h
      · rename_i w hrun
        cases h
        exact .inr ⟨w, (Walk.Inv.start hf hroot).run_error hrun⟩
      · cases h

end TraceTypes
