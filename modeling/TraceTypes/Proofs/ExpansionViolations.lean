import Mathlib.Data.List.Nodup
import TraceTypes.Proofs.EmissionOrder
import TraceTypes.Proofs.Expandable
/-!
# What the violations of an expansion say about the graph

An expansion that fails names a violation, and the graph bears it out
(`BorneOut`): a cycle is a closed walk of dependencies, a chain that is too deep
is a path without repetition that is one artifact longer than the stack may grow,
and a dangling artifact is one that the graph does not have. An expansion does not
fail in any other way.

All three are read off the stack at the step that fails: it is a path from the root
to the innermost artifact (`Walk.Inv.chain`), without repetition, and all of it but
the root was new when it began to wait (`Walk.Inv.new_of_mem`).

Conversely, below a root where the graph has nothing of the kind (`SoundBelow`) the
expansion does not fail.
-/

namespace TraceTypes

namespace Dependency

/-- The graph has what the violation complains of, for an expansion of `root` by the plan `p`. -/
inductive BorneOut (g : MetadataGraph) (stillValid : Artifact → Bool) (p : EmissionPlan)
    (root : Artifact) : Violation → Prop
  /-- From `d` the dependencies lead back to it through other artifacts. None of these, nor `d`, was
  placed or has a record to refer to, unless it is the root. -/
  | cycle {d : Artifact} {walk : List Artifact} :
      Relation.ReflTransGen (DependsOn g) root d →
      walk ≠ [] → List.IsChain (DependsOn g) (d :: walk ++ [d]) → (d :: walk).Nodup →
      (∀ x ∈ d :: walk, x ≠ root → x ∉ p.done ∧ stillValid x ≠ true) →
      BorneOut g stillValid p root (.dependencyCycle d)
  /-- A chain of different artifacts has one more than the stack may have frames. -/
  | tooDeep {path : List Artifact} :
      List.IsChain (DependsOn g) (root :: path) → (root :: path).Nodup →
      (root :: path).length = max p.maxDepth 1 + 1 →
      BorneOut g stillValid p root (.dependencyTooDeep root p.maxDepth)
  /-- The graph does not have the artifact, which is the root, or a dependency, or the package of a
  class that the dependencies lead to. -/
  | dangling {x : Artifact} :
      ¬ g.Has x →
      (x = root ∨ Relation.TransGen (DependsOn g) root x ∨
        ∃ n i q, Relation.ReflTransGen (DependsOn g) root (.cls n) ∧ g.cls n = some i ∧
          i.package = some q ∧ x = .package q) →
      BorneOut g stillValid p root (.danglingArtifact x)

/-- Below the root everything is in the graph, with the packages of the classes; nothing leads back
to itself, and no chain from the root is longer than the limit. -/
structure SoundBelow (g : MetadataGraph) (limit : Nat) (root : Artifact) : Prop where
  has : ∀ a, Relation.ReflTransGen (DependsOn g) root a → g.Has a
  packages : ∀ n i q, Relation.ReflTransGen (DependsOn g) root (.cls n) → g.cls n = some i →
    i.package = some q → g.Has (.package q)
  acyclic : ∀ a, Relation.ReflTransGen (DependsOn g) root a →
    ¬ Relation.TransGen (DependsOn g) a a
  chains : ∀ path, List.IsChain (DependsOn g) (root :: path) → (root :: path).length ≤ limit

/-- Where the graph is sound, it does not bear out any violation. -/
theorem SoundBelow.not_borneOut {g : MetadataGraph} {stillValid : Artifact → Bool}
    {p : EmissionPlan} {root : Artifact} {v : Violation} (h : SoundBelow g p.maxDepth root) :
    ¬ BorneOut g stillValid p root v := by
  intro hv
  cases hv with
  | @cycle d walk hroot hne hchain =>
      obtain ⟨x, rest, rfl⟩ := List.exists_cons_of_ne_nil hne
      obtain ⟨hstep, hback⟩ := List.isChain_cons_cons.mp hchain
      have hreturn := List.relationReflTransGen_of_exists_isChain_cons _ hback (b := d) (by simp)
      exact h.acyclic d hroot (.head' hstep hreturn)
  | @tooDeep path hchain _ hlength =>
      have := h.chains path hchain
      omega
  | dangling hnot hx =>
      rcases hx with rfl | hx | ⟨n, i, q, hn, hi, hq, rfl⟩
      · exact hnot (h.has _ .refl)
      · exact hnot (h.has _ hx.to_reflTransGen)
      · exact hnot (h.packages n i q hn hi hq)

/-- A rank that falls along the dependencies bounds the chains, and nothing leads back to itself. -/
theorem SoundBelow.of_rank {g : MetadataGraph} {limit : Nat} {root : Artifact}
    (rank : Artifact → Nat) (hrank : ∀ a d, DependsOn g a d → rank d < rank a)
    (hlimit : rank root < limit) (hroot : g.Has root) (hhas : ∀ a d, DependsOn g a d → g.Has d)
    (hpackages : ∀ n i q, g.cls n = some i → i.package = some q → g.Has (.package q)) :
    SoundBelow g limit root where
  has a ha := by
    rcases Relation.ReflTransGen.cases_tail ha with rfl | ⟨b, -, hb⟩
    · exact hroot
    · exact hhas b a hb
  packages n i q _ hn hq := hpackages n i q hn hq
  acyclic a _ hback := by
    have hfalls : ∀ d, Relation.TransGen (DependsOn g) a d → rank d < rank a := by
      intro d hd
      induction hd with
      | single h => exact hrank _ _ h
      | tail _ h ih => exact Nat.lt_trans (hrank _ _ h) ih
    exact Nat.lt_irrefl _ (hfalls a hback)
  chains path hchain := by
    have hlength : ∀ a, List.IsChain (DependsOn g) (a :: path) → path.length ≤ rank a := by
      clear hchain
      induction path with
      | nil => exact fun a _ => Nat.zero_le _
      | cons b rest ih =>
          intro a hchain
          rw [List.isChain_cons_cons] at hchain
          have h1 := hrank a b hchain.1
          have h2 := ih b hchain.2
          rw [List.length_cons]
          omega
    have h := hlength root hchain
    rw [List.length_cons]
    omega

/-- No artifact is a direct dependency of its own. -/
theorem DependsOn.ne {g : MetadataGraph} {a d : Artifact} (h : DependsOn g a d) : d ≠ a := by
  obtain ⟨i, l, -, hl, hd⟩ := h
  obtain ⟨t, -, hmem⟩ := direct_eq_ok hl
  exact ((hmem d).mp hd).2

/-! ## An artifact without a frame -/

theorem direct_eq_error {g : MetadataGraph} {a : Artifact} {i : ArtifactInfo} {v : Violation}
    (h : direct g a i = .error v) : ∃ c q, i = .cls c ∧ c.package = some q ∧
      ¬ g.Has (.package q) ∧ v = .danglingArtifact (.package q) := by
  have htargets : targets g i = .error v := by
    unfold direct at h
    cases ht : targets g i with
    | error v' => rw [ht] at h; cases h; rfl
    | ok l => rw [ht] at h; cases h
  cases i with
  | cls c =>
      cases hq : c.package with
      | none => simp [targets, hq] at htargets
      | some q =>
          cases hg : g.package q with
          | none =>
              simp only [targets, hq, Option.elim_some, ofPackage, hg] at htargets
              cases htargets
              exact ⟨c, q, rfl, hq, by simp [MetadataGraph.Has, MetadataGraph.describe?, hg], rfl⟩
          | some j => simp [targets, hq, ofPackage, hg] at htargets
  | method | package | module | classLoader | thread => cases htargets

/-- An artifact has no frame if the graph does not have it, or not its package. -/
theorem Expansion.frame_eq_error {e : Expansion} {a : Artifact} {v : Violation}
    (h : e.frame a = .error v) :
    (¬ e.graph.Has a ∧ v = .danglingArtifact a) ∨
    ∃ n i q, a = .cls n ∧ e.graph.cls n = some i ∧ i.package = some q ∧
      ¬ e.graph.Has (.package q) ∧ v = .danglingArtifact (.package q) := by
  unfold frame describe at h
  cases hd : e.graph.describe? a with
  | none =>
      rw [hd] at h
      cases h
      exact .inl ⟨by simp [MetadataGraph.Has, hd], rfl⟩
  | some i =>
      rw [hd] at h
      dsimp only at h
      cases hl : direct e.graph a i with
      | ok l => rw [hl] at h; cases h
      | error v' =>
          rw [hl] at h
          cases h
          obtain ⟨c, q, rfl, hq, hnot, rfl⟩ := direct_eq_error hl
          obtain ⟨n, rfl, hn⟩ := MetadataGraph.cls_of_describe? hd
          exact .inr ⟨n, c, q, rfl, hn, hq, hnot, rfl⟩

/-- For want of a frame below the root, the expansion says what is missing. -/
theorem Expansion.borneOut_of_frame {e : Expansion} {stillValid : Artifact → Bool}
    {p : EmissionPlan} {a : Artifact} {v : Violation}
    (ha : Relation.ReflTransGen (DependsOn e.graph) e.root a) (h : e.frame a = .error v) :
    BorneOut e.graph stillValid p e.root v := by
  rcases frame_eq_error h with ⟨hnot, rfl⟩ | ⟨n, i, q, rfl, hn, hq, hnot, rfl⟩
  · refine .dangling hnot ?_
    rcases Relation.reflTransGen_iff_eq_or_transGen.mp ha with rfl | ha
    · exact .inl rfl
    · exact .inr (.inl ha)
  · exact .dangling hnot (.inr (.inr ⟨n, i, q, ha, hn, hq, rfl⟩))

/-! ## The stack at the step that fails -/

namespace Walk.Inv

variable {e : Expansion} {done₀ : List Artifact} {w : Walk} {a d : Artifact} {i : ArtifactInfo}
  {pending : List Artifact} {rest : List Frame}

/-- What waits was not placed before, and it has no record to refer to unless it is the root. -/
theorem new_of_mem (h : w.Inv e done₀) (hs : w.stack = ⟨a, i, d :: pending⟩ :: rest)
    (hvalid : e.stillValid d ≠ true) {x : Artifact} (hx : x ∈ w.stack.map Frame.artifact) :
    x ∉ done₀ ∧ (x ≠ e.root → e.stillValid x ≠ true) := by
  refine ⟨fun hmem => h.unplaced x hx ((h.done x).mpr (.inl hmem)), fun hne => ?_⟩
  have hchain := h.chain hs hvalid
  have hlast := h.root.resolve_right (by simp [hs])
  obtain ⟨front, back, hfb⟩ := List.append_of_mem hx
  rw [hfb] at hchain hlast
  -- below it stands the artifact that pulled it in
  cases back with
  | nil => exact absurd (by simpa using hlast) hne
  | cons y back =>
      have hbelow : List.IsChain (fun d a => e.Pulls a d) (x :: y :: back) :=
        (List.isChain_cons.mp hchain).2.right_of_append
      exact (List.isChain_cons_cons.mp hbelow).1.2

/-- A dependency on a waiting artifact closes a walk: from that artifact up the stack and back. -/
theorem exists_cycle (h : w.Inv e done₀) (hs : w.stack = ⟨a, i, d :: pending⟩ :: rest)
    (hvalid : e.stillValid d ≠ true) (hd : d ∈ w.stack.map Frame.artifact) :
    ∃ walk, walk ≠ [] ∧ List.IsChain (DependsOn e.graph) (d :: walk ++ [d]) ∧
      (d :: walk).Nodup ∧ ∀ x ∈ d :: walk, x ∈ w.stack.map Frame.artifact := by
  have hchain := h.chain hs hvalid
  have hnodup := h.nodup
  obtain ⟨front, back, hfb⟩ := List.append_of_mem hd
  rw [hfb] at hchain hnodup
  -- the part of the stack that stands above `d`, from below
  have hreverse : (d :: front ++ [d]).reverse = d :: front.reverse ++ [d] := by simp
  refine ⟨front.reverse, ?_, ?_, ?_, ?_⟩
  · -- the innermost artifact does not depend on itself
    intro hnil
    have had : a = d := by
      rw [hs, List.reverse_eq_nil_iff.mp hnil] at hfb
      simpa using (List.cons.inj hfb).1
    have hframes := h.frames
    rw [hs] at hframes
    exact (hframes.dependsOn (d := d) List.mem_cons_self).ne had.symm
  · rw [← hreverse, List.isChain_reverse]
    have hupper : List.IsChain (fun d a => e.Pulls a d) ((d :: front ++ [d]) ++ back) := by
      simpa using hchain
    exact hupper.left_of_append.imp fun _ _ hpull => hpull.1
  · have hupper : (front ++ [d]).Nodup := hnodup.sublist (by simp)
    rw [← List.nodup_reverse] at hupper
    simpa using hupper
  · intro x hx
    rw [hfb]
    simp only [List.mem_cons, List.mem_reverse] at hx
    simp only [List.mem_append, List.mem_cons]
    tauto

/-- A dependency that does not wait extends the stack to a path from the root without repetition. -/
theorem exists_path (h : w.Inv e done₀) (hs : w.stack = ⟨a, i, d :: pending⟩ :: rest)
    (hvalid : e.stillValid d ≠ true) (hd : d ∉ w.stack.map Frame.artifact) :
    ∃ path, List.IsChain (DependsOn e.graph) (e.root :: path) ∧ (e.root :: path).Nodup ∧
      path.length = w.stack.length := by
  obtain ⟨path, hpath⟩ := h.rooted (by simp [hs])
  have hreverse : e.root :: (path ++ [d]) = (d :: w.stack.map Frame.artifact).reverse := by
    rw [List.reverse_cons, hpath, List.cons_append]
  have hlength := congrArg List.length hreverse
  refine ⟨path ++ [d], ?_, ?_, ?_⟩
  · rw [hreverse, List.isChain_reverse]
    exact (h.chain hs hvalid).imp fun _ _ hpull => hpull.1
  · rw [hreverse, List.nodup_reverse, List.nodup_cons]
    exact ⟨hd, h.nodup⟩
  · simpa using hlength

/-- A step that fails names a violation that the graph bears out. -/
theorem borneOut (h : w.Inv e done₀) {p : EmissionPlan} (hdone : p.done = done₀)
    (hdepth : p.maxDepth = e.maxDepth) {v : Violation} (hstep : e.step w = .failed v) :
    BorneOut e.graph e.stillValid p e.root v := by
  subst hdone
  obtain ⟨a, i, d, pending, rest, hs, -, hvalid, hcase⟩ := Expansion.failed_cases hstep
  rw [h.waiting] at hcase
  have reaches {x : Artifact} (hx : x ∈ w.stack.map Frame.artifact) :
      Relation.ReflTransGen (DependsOn e.graph) e.root x :=
    Relation.ReflTransGen.mono (fun _ _ hpull => hpull.1) _ _ (h.reaches hs hvalid hx).1
  rcases hcase with ⟨hd, rfl⟩ | ⟨hd, hlimit, rfl⟩ | ⟨-, hframe⟩
  · obtain ⟨walk, hne, hchain, hnodup, hmem⟩ := h.exists_cycle hs hvalid hd
    refine .cycle (reaches hd) hne hchain hnodup fun x hx hroot => ?_
    obtain ⟨hnew, hvalid'⟩ := h.new_of_mem hs hvalid (hmem x hx)
    exact ⟨hnew, hvalid' hroot⟩
  · obtain ⟨path, hchain, hnodup, hlength⟩ := h.exists_path hs hvalid hd
    -- the stack may be higher than it needs to be for the violation, so the path is cut
    have hlong : max p.maxDepth 1 ≤ path.length := by
      rw [hlength, hdepth, hs]
      rw [hs] at hlimit
      simp only [List.length_cons] at hlimit ⊢
      omega
    have hcut : e.root :: path.take (max p.maxDepth 1) <+: e.root :: path :=
      List.take_prefix (max p.maxDepth 1 + 1) (e.root :: path)
    have hchain := List.IsChain.prefix hchain hcut
    rw [← hdepth]
    refine .tooDeep hchain (hnodup.sublist hcut.sublist) ?_
    rw [List.length_cons, List.length_take_of_le hlong]
  · have ha : a ∈ w.stack.map Frame.artifact := by simp [hs]
    have hframes := h.frames
    rw [hs] at hframes
    have hdep := hframes.dependsOn (d := d) List.mem_cons_self
    exact Expansion.borneOut_of_frame ((reaches ha).tail hdep) hframe

end Walk.Inv

end Dependency

open Dependency

/-- An expansion that fails names a violation that the graph bears out, and below a root where the
graph is sound it does not fail. -/
theorem EmissionPlan.expand_violations (g : MetadataGraph) (stillValid : Artifact → Bool)
    (root : Artifact) (p : EmissionPlan) :
    (∀ v p', p.expand g stillValid root = .error v p' → BorneOut g stillValid p root v) ∧
    (SoundBelow g p.maxDepth root →
      ∃ order p', p.expand g stillValid root = .ok order p') := by
  have hviolation : ∀ v p', p.expand g stillValid root = .error v p' →
      BorneOut g stillValid p root v := by
    intro v p' h
    obtain ⟨-, hframe | ⟨w, hinv, hstep⟩⟩ := expand_error h
    · exact Expansion.borneOut_of_frame (e := ⟨g, stillValid, p.maxDepth, root⟩) .refl hframe
    · exact hinv.borneOut rfl rfl hstep
  refine ⟨hviolation, fun hsound => ?_⟩
  cases h : p.expand g stillValid root with
  | ok order p' => exact ⟨order, p', rfl⟩
  | error v p' => exact absurd (hviolation v p' h) hsound.not_borneOut

/-- The number of steps that lead down from an artifact of the diamond. -/
def diamondRank : Artifact → Nat
  | ⟨.cls, 4⟩ => 3
  | ⟨.cls, 2⟩ | ⟨.cls, 3⟩ => 2
  | ⟨.cls, 1⟩ | ⟨.package, 1⟩ => 1
  | _ => 0

theorem rank_diamondGraph {a d : Artifact} (h : DependsOn diamondGraph a d) :
    diamondRank d < diamondRank a ∧ diamondGraph.Has d := by
  obtain ⟨i, l, hi, hl, hd⟩ := h
  obtain ⟨k, n⟩ := a
  cases k with
  | cls =>
      obtain ⟨c, hc, rfl⟩ := Option.map_eq_some_iff.mp hi
      dsimp only [diamondGraph] at hc
      split at hc <;> cases hc <;> cases hl <;> simp at hd
      · subst hd
        decide
      · rcases hd with rfl | rfl | rfl <;> decide
      · subst hd
        decide
      · rcases hd with rfl | rfl | rfl <;> decide
  | package =>
      obtain ⟨c, hc, rfl⟩ := Option.map_eq_some_iff.mp hi
      dsimp only [diamondGraph] at hc
      split at hc <;> cases hc
      cases hl
      simp at hd
      subst hd
      decide
  | module | classLoader =>
      obtain ⟨c, hc, rfl⟩ := Option.map_eq_some_iff.mp hi
      cases hl
      cases hd
  | symbol | method | thread => cases hi

/-- The chains of the diamond have up to four artifacts. -/
theorem soundBelow_diamondGraph : SoundBelow diamondGraph 4 (.cls 4) := by
  refine .of_rank diamondRank (fun a d h => (rank_diamondGraph h).1) (by decide) (by decide)
    (fun a d h => (rank_diamondGraph h).2) fun n i q hn hq => ?_
  dsimp only [diamondGraph] at hn
  split at hn <;> cases hn <;> cases hq
  decide

/-- Three classes over one another in a ring, a class over the ring, and one over a class whose
package is missing. -/
def corruptGraph : MetadataGraph where
  classLoader _ := none
  module _ := none
  package _ := none
  cls
    | 1 => some { name := "A", superclass := some 3 }
    | 2 => some { name := "B", superclass := some 1 }
    | 3 => some { name := "C", superclass := some 2 }
    | 4 => some { name := "D", superclass := some 3 }
    | 5 => some { name := "E", package := some 9 }
    | 6 => some { name := "F", element := some 5 }
    | _ => none
  method _ := none
  thread _ := none
  unloading := []

/-- The ring is found if the stack has room for all of it, else the chain into it is too deep; the
missing package is named; and the diamond is expanded although its chains are as long as the
limit. -/
theorem expand_violations_corrupt :
    BorneOut corruptGraph (fun _ => false) { maxDepth := 4 } (.cls 4) (.dependencyCycle (.cls 3)) ∧
    BorneOut corruptGraph (fun _ => false) { maxDepth := 3 } (.cls 4)
      (.dependencyTooDeep (.cls 4) 3) ∧
    BorneOut corruptGraph (fun _ => false) { maxDepth := 4 } (.cls 6)
      (.danglingArtifact (.package 9)) ∧
    SoundBelow diamondGraph 4 (.cls 4) ∧
    ∃ order p', EmissionPlan.expand diamondGraph (fun _ => false) (.cls 4) { maxDepth := 4 } =
      .ok order p' := by
  refine ⟨?_, ?_, ?_, soundBelow_diamondGraph, ?_⟩
  · exact (EmissionPlan.expand_violations ..).1 _ { maxDepth := 4 } (by with_unfolding_all rfl)
  · exact (EmissionPlan.expand_violations ..).1 _ { maxDepth := 3 } (by with_unfolding_all rfl)
  · exact (EmissionPlan.expand_violations ..).1 _ { maxDepth := 4 } (by with_unfolding_all rfl)
  · exact (EmissionPlan.expand_violations ..).2 soundBelow_diamondGraph

end TraceTypes
