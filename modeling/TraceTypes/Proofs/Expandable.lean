import TraceTypes.Proofs.FirstPaths
import TraceTypes.Proofs.References
/-!
# Expansions that do not fail

An expansion succeeds if everything below its root is in the graph, no artifact
there leads back to itself, and no chain from the root is longer than the limit
(`Expandable`). The edges are those that the fields have (`PointsAt`), so an
artifact that points at itself leads back to itself.

Every dependency that an expansion follows is at the end of such an edge, so each
of the ways in which an expansion can fail contradicts one of the three.
-/

namespace TraceTypes

/-- The graph has fields for the artifact. -/
def MetadataGraph.Has (g : MetadataGraph) (a : Artifact) : Prop := (g.describe? a).isSome = true

instance (g : MetadataGraph) (a : Artifact) : Decidable (g.Has a) :=
  inferInstanceAs (Decidable ((g.describe? a).isSome = true))

namespace Dependency

/-- An edge of the graph: the fields of `a` name `d`, or `a` is a class in a package of the module
`d`. Nothing is said about whether the graph has `d`, which may also be `a`. -/
inductive PointsAt (g : MetadataGraph) : Artifact → Artifact → Prop
  | field {a d : Artifact} {i : ArtifactInfo} :
      g.describe? a = some i → .artifact d ∈ i.mentions → PointsAt g a d
  | packageModule {n p m : Handle} {i : ClassInfo} {j : PackageInfo} :
      g.cls n = some i → i.package = some p → g.package p = some j → j.module = some m →
      PointsAt g (.cls n) (.module m)

section Edges

variable {g : MetadataGraph} {a d : Artifact} {i : ArtifactInfo} {l : List Artifact}

theorem mem_ofPackage {p : Handle} (h : ofPackage g p = .ok l) (hd : d ∈ l) :
    d = .package p ∨ ∃ j m, g.package p = some j ∧ j.module = some m ∧ d = .module m := by
  unfold ofPackage at h
  split at h
  · cases h
  · rename_i j hj
    cases h
    rcases List.mem_append.mp hd with hd | hd
    · obtain ⟨m, hm, rfl⟩ := Option.map_eq_some_iff.mp (Option.mem_toList.mp hd)
      exact .inr ⟨j, m, hj, hm, rfl⟩
    · exact .inl (List.mem_singleton.mp hd)

/-- All targets of an artifact's dependencies are at the end of an edge. -/
theorem pointsAt_of_mem_targets (hi : g.describe? a = some i) (h : targets g i = .ok l)
    (hd : d ∈ l) : PointsAt g a d := by
  cases i with
  | cls c =>
      obtain ⟨n, rfl, hn⟩ := MetadataGraph.cls_of_describe? hi
      simp only [targets] at h
      split at h
      · cases h
      · rename_i first hfirst
        cases h
        have hpackage : d ∈ first → PointsAt g (.cls n) d := by
          intro hmem
          cases hp : c.package with
          | none =>
              rw [hp] at hfirst
              cases hfirst
              cases hmem
          | some p =>
              rw [hp] at hfirst
              rcases mem_ofPackage hfirst hmem with rfl | ⟨j, m, hj, hm, rfl⟩
              · exact .field hi (by simp [ArtifactInfo.mentions, hp])
              · exact .packageModule hn hp hj hm
        simp only [List.mem_append, Option.mem_toList, Option.map_eq_some_iff] at hd
        rcases hd with ((hd | ⟨x, hx, rfl⟩) | ⟨x, hx, rfl⟩) | ⟨x, hx, rfl⟩
        · exact hpackage hd
        · exact .field hi (by simp [ArtifactInfo.mentions, Target.loader, hx])
        · exact .field hi (by simp [ArtifactInfo.mentions, hx])
        · exact .field hi (by simp [ArtifactInfo.mentions, hx])
  | method m =>
      cases h
      exact .field hi (by simpa [ArtifactInfo.mentions] using hd)
  | package p =>
      cases h
      obtain ⟨m, hm, rfl⟩ := Option.map_eq_some_iff.mp (Option.mem_toList.mp hd)
      exact .field hi (by simp [ArtifactInfo.mentions, hm])
  | module | classLoader | thread =>
      cases h
      cases hd

/-- A direct dependency is at the end of an edge. -/
theorem DependsOn.pointsAt (h : DependsOn g a d) : PointsAt g a d := by
  obtain ⟨i, l, hi, hl, hd⟩ := h
  obtain ⟨t, ht, hmem⟩ := direct_eq_ok hl
  exact pointsAt_of_mem_targets hi ht ((hmem d).mp hd).1

/-- The direct dependencies of an artifact can be read off if its edges lead to what the graph
has. -/
theorem exists_direct (hi : g.describe? a = some i) (hhas : ∀ d, PointsAt g a d → g.Has d) :
    ∃ l, direct g a i = .ok l := by
  have htargets : ∃ t, targets g i = .ok t := by
    cases i with
    | cls c =>
        -- only the package of a class has to be looked up
        cases hp : c.package with
        | none => exact ⟨_, by simp only [targets, hp, Option.elim_none]; rfl⟩
        | some p =>
            have hpkg := hhas (.package p) (.field hi (by simp [ArtifactInfo.mentions, hp]))
            obtain ⟨j, hj⟩ := Option.isSome_iff_exists.mp hpkg
            obtain ⟨k, hk, -⟩ := Option.map_eq_some_iff.mp hj
            exact ⟨_, by simp only [targets, hp, Option.elim_some, ofPackage, hk]; rfl⟩
    | method | package | module | classLoader | thread => exact ⟨_, rfl⟩
  obtain ⟨t, ht⟩ := htargets
  exact ⟨_, by rw [direct, ht]; rfl⟩

end Edges

/-! ## Below a root -/

/-- Below the root everything is in the graph, nothing leads back to itself, and no chain is longer
than the limit. -/
structure Expandable (g : MetadataGraph) (limit : Nat) (root : Artifact) : Prop where
  has : ∀ a, Relation.ReflTransGen (PointsAt g) root a → g.Has a
  acyclic : ∀ a, Relation.ReflTransGen (PointsAt g) root a → ¬ Relation.TransGen (PointsAt g) a a
  chains : ∀ l, List.IsChain (PointsAt g) (root :: l) → (root :: l).length ≤ limit

theorem Expandable.exists_frame {e : Expansion} {limit : Nat}
    (h : Expandable e.graph limit e.root) {a : Artifact}
    (ha : Relation.ReflTransGen (PointsAt e.graph) e.root a) : ∃ f, e.frame a = .ok f := by
  obtain ⟨i, hi⟩ := Option.isSome_iff_exists.mp (h.has a ha)
  obtain ⟨l, hl⟩ := exists_direct hi fun d hd => h.has d (ha.tail hd)
  exact ⟨⟨a, i, l⟩, by simp only [Expansion.frame, describe, hi, hl]⟩

end Dependency

open Dependency

/-- An artifact below which all is well is expanded without a violation. -/
theorem EmissionPlan.expand_succeeds {g : MetadataGraph} {root : Artifact} {p : EmissionPlan}
    (stillValid : Artifact → Bool) (hroot : Expandable g p.maxDepth root) :
    ∃ order p', p.expand g stillValid root = .ok order p' := by
  cases h : p.expand g stillValid root with
  | ok order p' => exact ⟨order, p', rfl⟩
  | error v p' =>
      exfalso
      rcases expand_error_cases h with ⟨a, ha, hframe⟩ | ⟨a, ha, hback, -⟩ | ⟨path, hpath, hlong, -⟩
      · obtain ⟨f, hf⟩ := hroot.exists_frame (e := ⟨g, stillValid, p.maxDepth, root⟩)
          (Relation.ReflTransGen.mono (fun _ _ h => h.1.pointsAt) _ _ ha)
        rw [hf] at hframe
        cases hframe
      · exact hroot.acyclic a (Relation.ReflTransGen.mono (fun _ _ h => h.1.pointsAt) _ _ ha)
          (Relation.TransGen.mono (fun _ _ h => h.1.pointsAt) _ _ hback)
      · have hfits := hroot.chains path (hpath.imp fun _ _ h => h.1.pointsAt)
        omega

end TraceTypes
