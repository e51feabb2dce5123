import TraceTypes.Metadata
import TraceTypes.Violation
/-!
# Direct dependencies

The record of a class names its module, package, loader, element class and
superclass, so these need records before it. A method needs its class, and a
package its module. The module of a class is found through its package, which
therefore has to be in the graph. What points at itself needs nothing more.
-/

namespace TraceTypes.Dependency

/-- The fields of an artifact. That the graph has none is a violation. -/
def describe (g : MetadataGraph) (a : Artifact) : Except Violation ArtifactInfo :=
  match g.describe? a with
  | none => .error (.danglingArtifact a)
  | some i => .ok i

/-- What a class needs for the sake of its package: the package's module and the package. -/
def ofPackage (g : MetadataGraph) (p : Handle) : Except Violation (List Artifact) :=
  match g.package p with
  | none => .error (.danglingArtifact (.package p))
  | some i => .ok ((i.module.map Artifact.module).toList ++ [.package p])

/-- The artifacts that fields point at, most fundamental first. -/
def targets (g : MetadataGraph) : ArtifactInfo → Except Violation (List Artifact)
  | .cls c =>
    match c.package.elim (.ok []) (ofPackage g) with
    | .error v => .error v
    | .ok first => .ok (first ++ (c.loader.map Artifact.classLoader).toList
        ++ (c.element.map Artifact.cls).toList ++ (c.superclass.map Artifact.cls).toList)
  | .method m => .ok [.cls m.holder]
  | .package p => .ok (p.module.map Artifact.module).toList
  | .module _ | .classLoader _ | .thread _ => .ok []

/-- The direct dependencies of an artifact with these fields, most fundamental first. -/
def direct (g : MetadataGraph) (a : Artifact) (i : ArtifactInfo) :
    Except Violation (List Artifact) :=
  (targets g i).map fun l => l.filter fun d => d ≠ a

theorem length_targets_le {g : MetadataGraph} {i : ArtifactInfo} {l : List Artifact}
    (h : targets g i = .ok l) : l.length ≤ 5 := by
  have opt (f : Handle → Artifact) (o : Option Handle) : (o.map f).toList.length ≤ 1 := by
    cases o <;> simp
  cases i with
  | cls c =>
    simp only [targets] at h
    split at h
    · cases h
    · rename_i first hfirst
      cases h
      have hf : first.length ≤ 2 := by
        cases hp : c.package with
        | none =>
          rw [hp] at hfirst
          cases hfirst
          simp
        | some p =>
          rw [hp] at hfirst
          simp only [Option.elim_some, ofPackage] at hfirst
          split at hfirst
          · cases hfirst
          · rename_i i _
            cases hfirst
            have := opt Artifact.module i.module
            simp only [List.length_append, List.length_singleton]
            omega
      have h1 := opt Artifact.classLoader c.loader
      have h2 := opt Artifact.cls c.element
      have h3 := opt Artifact.cls c.superclass
      simp only [List.length_append]
      omega
  | method m => cases h; simp
  | package p =>
    cases h
    have := opt Artifact.module p.module
    omega
  | module | classLoader | thread => cases h; simp

/-- An artifact has at most five direct dependencies. -/
theorem length_direct_le {g : MetadataGraph} {a : Artifact} {i : ArtifactInfo} {l : List Artifact}
    (h : direct g a i = .ok l) : l.length ≤ 5 := by
  unfold direct at h
  cases ht : targets g i with
  | error v => rw [ht] at h; cases h
  | ok t =>
    rw [ht] at h
    cases h
    exact Nat.le_trans (List.length_filter_le _ _) (length_targets_le ht)

end TraceTypes.Dependency
