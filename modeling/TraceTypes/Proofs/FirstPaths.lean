import Mathlib.Data.List.Chain
import Mathlib.Logic.Relation
import TraceTypes.Proofs.Expansion
/-!
# How deep an expansion goes

The stack of an expansion, read from its root upwards, is a path along direct
dependencies. Which paths it follows depends on what was reached before: a
dependency that is placed already is passed over, so an artifact stands as high
as the path by which the search first comes to it (`FirstPath`).

* `Walk.Inv.chain` — the waiting artifacts form a path of uncovered
  dependencies, which begins at the root;
* `Walk.Inv.firstPath` — and it is a first path, if what was placed before was
  closed under uncovered dependencies;
* `Walk.Ahead` — conversely a search that has a first path ahead of it follows
  the path to its end, or fails on the way;
* `EmissionPlan.expand_error_cases`, `EmissionPlan.length_firstPath_le` — what
  this says about a whole expansion.
-/

namespace TraceTypes

namespace Dependency

/-- The artifact has a direct dependency that is not covered. -/
def Pulls (g : MetadataGraph) (covered : Artifact → Prop) (a d : Artifact) : Prop :=
  DependsOn g a d ∧ ¬ covered d

/-- A path by which a depth-first search first comes to its last artifact, when those in `before`
were reached already. Every artifact of the path is new when the search comes to it: it was not
reached before, and not through a dependency that stands in front of it, all the way down. -/
inductive FirstPath (g : MetadataGraph) (covered : Artifact → Prop) :
    (before : Artifact → Prop) → List Artifact → Prop
  | last {before : Artifact → Prop} {a : Artifact} : ¬ before a → FirstPath g covered before [a]
  | step {before : Artifact → Prop} {a d : Artifact} {i : ArtifactInfo} {l l' p : List Artifact} :
      ¬ before a → g.describe? a = some i → direct g a i = .ok (l ++ d :: l') → ¬ covered d →
      FirstPath g covered
        (fun x => before x ∨ Closure g (fun x => x ∈ l ∧ ¬ covered x) covered x) (d :: p) →
      FirstPath g covered before (a :: d :: p)

section FirstPath

variable {g : MetadataGraph} {covered before before' : Artifact → Prop} {a : Artifact}
  {p : List Artifact}

/-- With less reached before, a first path is still one. -/
theorem FirstPath.anti (h : FirstPath g covered before p) (hle : ∀ x, before' x → before x) :
    FirstPath g covered before' p := by
  induction h generalizing before' with
  | last ha => exact .last fun hb => ha (hle _ hb)
  | step ha hi hl hd _ ih =>
      exact .step (fun hb => ha (hle _ hb)) hi hl hd (ih fun x hx => hx.imp_left (hle x))

theorem FirstPath.not_before (h : FirstPath g covered before (a :: p)) : ¬ before a := by
  cases h with
  | last ha => exact ha
  | step ha => exact ha

/-- A first path follows uncovered dependencies. -/
theorem FirstPath.chain (h : FirstPath g covered before p) : List.IsChain (Pulls g covered) p := by
  induction h with
  | last => exact .singleton _
  | step _ hi hl hd _ ih => exact .cons_cons ⟨⟨_, _, hi, hl, by simp⟩, hd⟩ ih

/-- What a search comes to in the given dependencies is closed under uncovered dependencies. -/
theorem closed_or_closure {l : List Artifact}
    (hclosed : ∀ x y, before x → Pulls g covered x y → before y) (x y : Artifact)
    (hx : before x ∨ Closure g (fun x => x ∈ l ∧ ¬ covered x) covered x)
    (hxy : Pulls g covered x y) :
    before y ∨ Closure g (fun x => x ∈ l ∧ ¬ covered x) covered y :=
  hx.imp (fun hx => hclosed x y hx hxy) fun hx => .dependency hx hxy.1 hxy.2

/-- A closure lies in every closed set that has its roots. -/
theorem Closure.subset {root : Artifact → Prop} (h : Closure g root covered a)
    (hroot : ∀ x, root x → before x)
    (hclosed : ∀ x y, before x → Pulls g covered x y → before y) : before a := by
  induction h with
  | root hr => exact hroot _ hr
  | dependency _ hd hnc ih => exact hclosed _ _ ih ⟨hd, hnc⟩

end FirstPath

/-! ## The path on the stack -/

/-- From each member of a chain that was followed from its end, the relation leads to the first. -/
theorem reaches_of_isChain {R : Artifact → Artifact → Prop} {a b : Artifact} {l : List Artifact}
    (hc : List.IsChain (fun d a => R a d) (a :: l)) (hb : b ∈ a :: l) :
    Relation.ReflTransGen R b a := by
  induction l generalizing a with
  | nil => rw [List.mem_singleton.mp hb]
  | cons c rest ih =>
      rw [List.isChain_cons_cons] at hc
      rcases List.mem_cons.mp hb with rfl | hb
      · exact .refl
      · exact (ih hc.2 hb).tail hc.1

/-- An edge that an expansion follows. -/
abbrev Expansion.Pulls (e : Expansion) : Artifact → Artifact → Prop :=
  Dependency.Pulls e.graph fun d => e.stillValid d = true

/-- A path by which an expansion first comes to an artifact. -/
abbrev Expansion.FirstPath (e : Expansion) : (Artifact → Prop) → List Artifact → Prop :=
  Dependency.FirstPath e.graph fun d => e.stillValid d = true

namespace Expansion

variable {e : Expansion} {done : List Artifact} {f : Frame} {rest : List Frame}
  {above : Option Artifact}

/-- What is pending in a frame is among its dependencies. -/
theorem FramesOk.dependsOn (h : e.FramesOk done above (f :: rest)) {d : Artifact}
    (hd : d ∈ f.pending) : DependsOn e.graph f.artifact d := by
  obtain ⟨⟨hdesc, -, seen, hdir, -⟩, -⟩ := h
  exact ⟨f.info, _, hdesc, hdir, by simp [hd]⟩

/-- The stack below an artifact is a path to it. -/
theorem FramesOk.chain {d : Artifact} {stack : List Frame} (h : e.FramesOk done (some d) stack) :
    List.IsChain (fun d a => e.Pulls a d)
      (d :: stack.map Frame.artifact) := by
  induction stack generalizing d with
  | nil => exact .singleton d
  | cons f rest ih =>
      obtain ⟨⟨hdesc, hvalid, seen, hdir, -⟩, hrest⟩ := h
      exact .cons_cons ⟨⟨f.info, _, hdesc, hdir, by simp⟩, hvalid d rfl⟩ (ih hrest)

/-- What stands in front of the path on the stack was placed, so the path is a first path with all
that was reached when its last artifact was. -/
theorem FramesOk.firstPath {stack : List Frame} {d : Artifact} {p : List Artifact}
    (h : e.FramesOk done (some d) stack)
    (hclosed : ∀ x y, x ∈ done → e.Pulls x y → y ∈ done)
    (hunplaced : ∀ a ∈ stack.map Frame.artifact, a ∉ done)
    (hp : e.FirstPath (· ∈ done) (d :: p)) :
    e.FirstPath (· ∈ done)
      ((stack.map Frame.artifact).reverse ++ d :: p) := by
  induction stack generalizing d p with
  | nil => exact hp
  | cons f rest ih =>
      obtain ⟨⟨hdesc, hvalid, seen, hdir, hseen⟩, hrest⟩ := h
      rw [List.map_cons, List.reverse_cons, List.append_assoc, List.singleton_append]
      refine ih hrest (fun a ha => hunplaced a (List.mem_cons_of_mem _ ha)) ?_
      refine .step (hunplaced _ List.mem_cons_self) hdesc (by simpa using hdir) (hvalid d rfl)
        (hp.anti ?_)
      -- the dependencies in front were placed, with all that they pull
      rintro x (hx | hx)
      · exact hx
      · exact hx.subset (fun y hy => (hseen y hy.1).resolve_left hy.2) hclosed

end Expansion

namespace Walk.Inv

variable {e : Expansion} {done₀ : List Artifact} {w : Walk} {a d : Artifact} {i : ArtifactInfo}
  {pending : List Artifact} {rest : List Frame}

/-- The frame of an artifact and the frames below, when the next dependency is not covered, make the
path to that dependency. -/
theorem framesOk_next (h : w.Inv e done₀) (hs : w.stack = ⟨a, i, d :: pending⟩ :: rest)
    (hvalid : e.stillValid d ≠ true) :
    e.FramesOk w.done (some d) (⟨a, i, pending⟩ :: rest) := by
  have hframes := h.frames
  rw [hs] at hframes
  obtain ⟨⟨hdesc, -, seen, hdir, hseen⟩, hrest⟩ := hframes
  refine ⟨⟨hdesc, ?_, seen, by simpa using hdir, hseen⟩, hrest⟩
  rintro _ ⟨⟩
  exact hvalid

/-- The way from the root to the next dependency, innermost first. -/
theorem chain (h : w.Inv e done₀) (hs : w.stack = ⟨a, i, d :: pending⟩ :: rest)
    (hvalid : e.stillValid d ≠ true) :
    List.IsChain (fun d a => e.Pulls a d)
      (d :: w.stack.map Frame.artifact) := by
  have := (h.framesOk_next hs hvalid).chain
  rwa [hs]

/-- What the frames have placed is closed under uncovered dependencies, if that was so before. -/
theorem closed (h : w.Inv e done₀)
    (hclosed : ∀ x y, x ∈ done₀ → e.Pulls x y →
      y ∈ done₀) (x y : Artifact) (hx : x ∈ w.done)
    (hxy : e.Pulls x y) : y ∈ w.done := by
  rw [h.done] at hx ⊢
  rcases hx with hx | hx
  · exact .inl (hclosed x y hx hxy)
  · exact h.placed.closed hx hxy.1 hxy.2

/-- The way to the next dependency is a first path. -/
theorem firstPath (h : w.Inv e done₀)
    (hclosed : ∀ x y, x ∈ done₀ → e.Pulls x y → y ∈ done₀)
    (hs : w.stack = ⟨a, i, d :: pending⟩ :: rest) (hdone : d ∉ w.done)
    (hvalid : e.stillValid d ≠ true) :
    e.FirstPath (· ∈ done₀)
      ((w.stack.map Frame.artifact).reverse ++ [d]) := by
  have hunplaced := h.unplaced
  rw [hs] at hunplaced ⊢
  exact ((h.framesOk_next hs hvalid).firstPath (h.closed hclosed) hunplaced (.last hdone)).anti
    fun x hx => (h.done x).mpr (.inl hx)

end Walk.Inv

/-! ## The path ahead -/

namespace Walk

variable {e : Expansion} {done₀ : List Artifact} {w w' : Walk} {before : Artifact → Prop}
  {upper lower : List Frame} {a d : Artifact} {i : ArtifactInfo} {front back p : List Artifact}

/-- The search has a first path ahead of it that is longer than the limit. The lower frames and the
frame of `a` have followed the path so far, and `d` is the next artifact on it. The frames above,
and the dependencies in front of `d`, belong to what is reached before `d`. -/
structure Ahead (e : Expansion) (w : Walk) (before : Artifact → Prop) (upper : List Frame)
    (a : Artifact) (i : ArtifactInfo) (front : List Artifact) (d : Artifact)
    (back : List Artifact) (lower : List Frame) (p : List Artifact) : Prop where
  stack : w.stack = upper ++ ⟨a, i, front ++ d :: back⟩ :: lower
  closed : ∀ x y, before x → e.Pulls x y → before y
  done : ∀ x ∈ w.done, before x
  upper : ∀ f ∈ upper, before f.artifact
  front : ∀ x ∈ front, e.stillValid x ≠ true → before x
  uncovered : e.stillValid d ≠ true
  path : e.FirstPath before (d :: p)
  long : e.maxDepth < lower.length + 2 + p.length

/-- The search has some such path ahead of it. -/
def HasAhead (e : Expansion) (w : Walk) : Prop :=
  ∃ before upper a i front d back lower p, w.Ahead e before upper a i front d back lower p

/-- The search begins with the path ahead of it. -/
theorem hasAhead_start {f : Frame} (hf : e.frame e.root = .ok f)
    (hclosed : ∀ x y, before x → e.Pulls x y → before y) (hdone : ∀ x ∈ done₀, before x)
    (hpath : e.FirstPath before (e.root :: p)) (hne : p ≠ []) (hlong : e.maxDepth < p.length + 1) :
    HasAhead e ⟨done₀, [e.root], [f], []⟩ := by
  obtain ⟨hart, hdesc, hdir⟩ := e.frame_eq_ok hf
  obtain ⟨a, i, pending⟩ := f
  dsimp only at hart hdesc hdir
  subst hart
  cases hpath with
  | last => exact absurd rfl hne
  | @step _ _ d j l l' p _ hj hl hd hrest =>
      rw [hdesc] at hj
      cases hj
      rw [hdir] at hl
      cases hl
      refine ⟨fun x => before x ∨ Closure e.graph (fun x => x ∈ l ∧ ¬ e.stillValid x = true)
        (fun d => e.stillValid d = true) x, [], e.root, i, l, d, l', [], p, ?_⟩
      constructor
      case stack => rfl
      case closed => exact closed_or_closure hclosed
      case done => exact fun x hx => .inl (hdone x hx)
      case upper => exact fun f hf => by cases hf
      case front => exact fun x hx hv => .inr (.root ⟨hx, hv⟩)
      case uncovered => exact hd
      case path => exact hrest
      case long =>
        simp only [List.length_cons, List.length_nil] at hlong ⊢
        omega

namespace Ahead

/-- An upper frame places its artifact. -/
theorem place {b : Artifact} {j : ArtifactInfo}
    (h : w.Ahead e before (⟨b, j, []⟩ :: upper) a i front d back lower p) :
    Ahead e ⟨w.done.insert b, w.waiting.erase b, upper ++ ⟨a, i, front ++ d :: back⟩ :: lower,
      w.order ++ [(b, j)]⟩ before upper a i front d back lower p where
  stack := rfl
  closed := h.closed
  done x hx := by
    rcases List.mem_insert_iff.mp hx with rfl | hx
    · exact h.upper _ List.mem_cons_self
    · exact h.done x hx
  upper f hf := h.upper f (List.mem_cons_of_mem _ hf)
  front := h.front
  uncovered := h.uncovered
  path := h.path
  long := h.long

/-- New upper frames, of artifacts that are reached before the next one on the path. -/
theorem raise (h : w.Ahead e before upper a i front d back lower p) (upper' : List Frame)
    {front' waiting : List Artifact} (hupper : ∀ f ∈ upper', before f.artifact)
    (hfront : ∀ x ∈ front', x ∈ front) :
    Ahead e { w with
      waiting := waiting, stack := upper' ++ ⟨a, i, front' ++ d :: back⟩ :: lower }
      before upper' a i front' d back lower p where
  stack := rfl
  closed := h.closed
  done := h.done
  upper := hupper
  front x hx := h.front x (hfront x hx)
  uncovered := h.uncovered
  path := h.path
  long := h.long

/-- The next artifact on the path gets its frame. It cannot be the last one, since then there would
have been no room for it. -/
theorem advance (h : w.Ahead e before [] a i [] d back lower p) {f : Frame}
    (hf : e.frame d = .ok f) (hroom : w.stack.length < e.maxDepth) (waiting : List Artifact) :
    HasAhead e { w with waiting := waiting, stack := f :: ⟨a, i, back⟩ :: lower } := by
  obtain ⟨hart, hdesc, hdir⟩ := e.frame_eq_ok hf
  obtain ⟨b, j, pending⟩ := f
  dsimp only at hart hdesc hdir
  subst hart
  have hlong := h.long
  rw [h.stack] at hroom
  simp only [List.nil_append, List.length_cons] at hroom
  have hpath := h.path
  cases hpath with
  | last =>
      simp only [List.length_nil] at hlong
      omega
  | @step _ _ d j' l l' p _ hj hl hd hrest =>
      rw [hdesc] at hj
      cases hj
      rw [hdir] at hl
      cases hl
      refine ⟨fun x => before x ∨ Closure e.graph (fun x => x ∈ l ∧ ¬ e.stillValid x = true)
        (fun d => e.stillValid d = true) x, [], b, j, l, d, l', ⟨a, i, back⟩ :: lower, p, ?_⟩
      constructor
      case stack => rfl
      case closed => exact closed_or_closure h.closed
      case done => exact fun x hx => .inl (h.done x hx)
      case upper => exact fun f hf => by cases hf
      case front => exact fun x hx hv => .inr (.root ⟨hx, hv⟩)
      case uncovered => exact hd
      case path => exact hrest
      case long =>
        simp only [List.length_cons] at hlong ⊢
        omega

end Ahead

/-- A step that leads on leaves a path ahead. -/
theorem HasAhead.step (h : w.HasAhead e) (hinv : w.Inv e done₀) (hstep : e.step w = .next w') :
    w'.HasAhead e := by
  obtain ⟨before, upper, a, i, front, d, back, lower, p, h⟩ := h
  have hframes := hinv.frames
  have hstack := h.stack
  cases upper with
  | nil =>
      -- the frame of the path is the innermost one
      cases front with
      | nil =>
          rcases Expansion.next_cases hstep with ⟨b, j, rest, hs, rfl⟩ |
            ⟨b, j, x, pending, rest, hs, hx, rfl⟩ |
            ⟨b, j, x, pending, rest, f, hs, hdone, hvalid, -, hroom, hf, rfl⟩ <;>
            rw [hstack] at hs <;> cases hs
          · -- the next artifact on the path is new
            rcases hx with hx | hx
            · exact absurd (h.done _ hx) h.path.not_before
            · exact absurd hx h.uncovered
          · exact h.advance hf hroom _
      | cons y front =>
          rcases Expansion.next_cases hstep with ⟨b, j, rest, hs, rfl⟩ |
            ⟨b, j, x, pending, rest, hs, hx, rfl⟩ |
            ⟨b, j, x, pending, rest, f, hs, hdone, hvalid, -, hroom, hf, rfl⟩ <;>
            rw [hstack] at hs <;> cases hs
          · exact ⟨_, _, _, _, _, _, _, _, _,
              h.raise [] (fun f hf => by cases hf) fun _ => List.mem_cons_of_mem _⟩
          · refine ⟨_, _, _, _, _, _, _, _, _,
              h.raise [f] ?_ fun _ => List.mem_cons_of_mem _⟩
            intro f' hf'
            rw [List.mem_singleton.mp hf', (e.frame_eq_ok hf).1]
            exact h.front _ List.mem_cons_self hvalid
  | cons u upper =>
      rcases Expansion.next_cases hstep with ⟨b, j, rest, hs, rfl⟩ |
        ⟨b, j, x, pending, rest, hs, hx, rfl⟩ |
        ⟨b, j, x, pending, rest, f, hs, hdone, hvalid, -, hroom, hf, rfl⟩ <;>
        rw [hs] at hstack hframes <;> cases hstack
      · exact ⟨_, _, _, _, _, _, _, _, _, h.place⟩
      · refine ⟨_, _, _, _, _, _, _, _, _,
          h.raise (⟨b, j, pending⟩ :: upper) ?_ fun _ hx => hx⟩
        exact List.forall_mem_cons.mpr (List.forall_mem_cons.mp h.upper)
      · refine ⟨_, _, _, _, _, _, _, _, _,
          h.raise (f :: ⟨b, j, pending⟩ :: upper) ?_ fun _ hx => hx⟩
        obtain ⟨hb, hupper⟩ := List.forall_mem_cons.mp h.upper
        refine List.forall_mem_cons.mpr ⟨?_, List.forall_mem_cons.mpr ⟨hb, hupper⟩⟩
        rw [(e.frame_eq_ok hf).1]
        exact h.closed b x hb ⟨hframes.dependsOn List.mem_cons_self, hvalid⟩

/-- With a path ahead the run does not come to its end. -/
theorem HasAhead.run (h : w.HasAhead e) (hinv : w.Inv e done₀) : e.run w ≠ .ok () w' := by
  fun_induction e.run w with
  | case1 w hstep =>
      obtain ⟨before, upper, a, i, front, d, back, lower, p, h⟩ := h
      have hnil := e.stack_of_finished hstep
      rw [h.stack] at hnil
      simp at hnil
  | case2 w v hstep => exact fun h => by cases h
  | case3 w w₁ hstep ih => exact ih (h.step hinv hstep) (hinv.step hstep)

end Walk

/-- The innermost waiting artifact is reached from the root, and every waiting one leads to it. -/
theorem Walk.Inv.reaches {e : Expansion} {done₀ : List Artifact} {w : Walk} {a b d : Artifact}
    {i : ArtifactInfo} {pending : List Artifact} {rest : List Frame} (h : w.Inv e done₀)
    (hs : w.stack = ⟨a, i, d :: pending⟩ :: rest) (hvalid : e.stillValid d ≠ true)
    (hb : b ∈ w.stack.map Frame.artifact) :
    Relation.ReflTransGen e.Pulls e.root b ∧ Relation.TransGen e.Pulls b d := by
  have hchain := h.chain hs hvalid
  have hlast := h.root.resolve_right (by simp [hs])
  -- from a waiting artifact the stack leads up to the innermost one, and from there to `d`
  have hup : ∀ c ∈ w.stack.map Frame.artifact, Relation.TransGen e.Pulls c d := by
    intro c hc
    rw [hs] at hchain hc
    obtain ⟨hpull, hchain⟩ := List.isChain_cons_cons.mp hchain
    exact .tail' (reaches_of_isChain hchain hc) hpull
  refine ⟨?_, hup b hb⟩
  obtain ⟨front, back, hfb⟩ := List.append_of_mem hb
  rw [hfb] at hchain hlast
  have hbelow := (List.isChain_cons.mp hchain).2.right_of_append
  exact reaches_of_isChain hbelow (List.mem_of_getLast? (by simpa using hlast))

/-- Read from below, a stack that is not empty begins with the root. -/
theorem Walk.Inv.rooted {e : Expansion} {done₀ : List Artifact} {w : Walk} (h : w.Inv e done₀)
    (hne : w.stack ≠ []) : ∃ path, (w.stack.map Frame.artifact).reverse = e.root :: path := by
  have hlast := h.root.resolve_right fun hnil => hne hnil.1
  rw [← List.head?_reverse] at hlast
  exact List.head?_eq_some_iff.mp hlast

end Dependency

open Dependency

namespace EmissionPlan

variable {g : MetadataGraph} {stillValid : Artifact → Bool} {root : Artifact}
  {p p' : EmissionPlan}

/-- An expansion fails at an artifact below the root that has no frame, at one that leads back to
itself, or at the end of a path from the root that is longer than the limit. A single artifact is
never too deep. -/
theorem expand_error_cases {v : Violation} (h : p.expand g stillValid root = .error v p') :
    (∃ a, Relation.ReflTransGen (Pulls g fun d => stillValid d = true) root a ∧
      (Expansion.mk g stillValid p.maxDepth root).frame a = .error v) ∨
    (∃ a, Relation.ReflTransGen (Pulls g fun d => stillValid d = true) root a ∧
      Relation.TransGen (Pulls g fun d => stillValid d = true) a a ∧ v = .dependencyCycle a) ∨
    ∃ path, List.IsChain (Pulls g fun d => stillValid d = true) (root :: path) ∧
      max p.maxDepth 1 < (root :: path).length ∧ v = .dependencyTooDeep root p.maxDepth ∧
      ((∀ x y, x ∈ p.done → Pulls g (fun d => stillValid d = true) x y → y ∈ p.done) →
        FirstPath g (fun d => stillValid d = true) (· ∈ p.done) (root :: path)) := by
  obtain ⟨-, hframe | ⟨w, hinv, hstep⟩⟩ := expand_error h
  · exact .inl ⟨root, .refl, hframe⟩
  · obtain ⟨a, i, d, pending, rest, hs, hdone, hvalid, hcase⟩ := Expansion.failed_cases hstep
    have ha : a ∈ w.stack.map Frame.artifact := by simp [hs]
    rcases hcase with ⟨hwaiting, rfl⟩ | ⟨-, hdepth, rfl⟩ | ⟨-, hframe⟩
    · rw [hinv.waiting] at hwaiting
      obtain ⟨hfrom, hto⟩ := hinv.reaches hs hvalid hwaiting
      exact .inr (.inl ⟨d, hfrom, hto, rfl⟩)
    · obtain ⟨path, hpath⟩ := hinv.rooted (by simp [hs])
      have hlength := congrArg List.length hpath
      simp only [hs, List.length_reverse, List.length_map, List.length_cons] at hlength
      refine .inr (.inr ⟨path ++ [d], ?_, ?_, rfl, fun hclosed => ?_⟩)
      · rw [← List.cons_append, ← hpath, ← List.reverse_cons, List.isChain_reverse]
        exact hinv.chain hs hvalid
      · dsimp only at hdepth
        simp only [hs, List.length_append, List.length_cons, List.length_nil] at hdepth ⊢
        omega
      · rw [← List.cons_append, ← hpath]
        exact hinv.firstPath hclosed hs hdone hvalid
    · obtain ⟨hfrom, -⟩ := hinv.reaches hs hvalid ha
      have hpull := (List.isChain_cons.mp (hinv.chain hs hvalid)).1 a (by simp [hs])
      exact .inl ⟨d, hfrom.tail hpull, hframe⟩

/-- If an expansion does not fail, no first path from its root is longer than the limit, whatever
else was reached before. -/
theorem length_firstPath_le {before : Artifact → Prop} {path : List Artifact}
    {order : List (Artifact × ArtifactInfo)} (h : p.expand g stillValid root = .ok order p')
    (hclosed : ∀ x y, before x → Pulls g (fun d => stillValid d = true) x y → before y)
    (hdone : ∀ x ∈ p.done, before x)
    (hpath : FirstPath g (fun d => stillValid d = true) before (root :: path)) :
    (root :: path).length ≤ max p.maxDepth 1 := by
  by_contra hlong
  rw [List.length_cons, not_le] at hlong
  have hroot : root ∉ p.done := fun hr => hpath.not_before (hdone root hr)
  unfold expand at h
  rw [if_neg (by simpa [isDone] using hroot)] at h
  dsimp only at h
  split at h
  · cases h
  · rename_i f hf
    split at h
    · cases h
    · rename_i w hrun
      have hahead := Walk.hasAhead_start hf hclosed hdone hpath
        (by rintro rfl; simp at hlong) (by dsimp only; omega)
      exact hahead.run (Walk.Inv.start hf hroot) hrun

end EmissionPlan

end TraceTypes
