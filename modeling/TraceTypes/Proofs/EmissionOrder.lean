import TraceTypes.Proofs.Expansion
/-!
# The order of an expansion

What an expansion answers is described here by the graph and by what was placed
before, without the stack and its frames (`EmissionOrder`): every artifact is
listed once and behind its dependencies, the root is the last one, and the
artifacts are those that the root needs and that have no record to refer to.

`EmissionPlan.expand_order` says that every expansion that does not fail gives
such an order, or nothing if its root was placed before. That they are the least
set follows from two halves: the walk places nothing that the root does not need
(`Walk.Inv.needed`), and what it has placed is closed (`Placeable.closed`).
-/

namespace TraceTypes

open Dependency

/-- The list of artifacts, with their fields, by which a root is placed behind those in `done`. -/
structure EmissionOrder (g : MetadataGraph) (stillValid : Artifact → Bool) (done : List Artifact)
    (root : Artifact) (order : List (Artifact × ArtifactInfo)) : Prop where
  nodup : (order.map Prod.fst).Nodup
  new : ∀ a ∈ order.map Prod.fst, a ∉ done
  last : (order.map Prod.fst).getLast? = some root
  described : ∀ a i, (a, i) ∈ order → g.describe? a = some i
  /-- The direct dependencies of an artifact stand in front of it, but for those that were placed
  before and those that an earlier record still stands for. -/
  behind : ∀ before a i after, order = before ++ (a, i) :: after →
    ∃ l, direct g a i = .ok l ∧
      ∀ d ∈ l, d ∈ before.map Prod.fst ∨ d ∈ done ∨ stillValid d = true
  /-- The artifacts are the least set that has the root and, with each artifact, its other direct
  dependencies. -/
  least : ∀ a, a ∈ order.map Prod.fst ↔
    Closure g (· = root) (fun d => d ∈ done ∨ stillValid d = true) a

/-- A placeable list with the root at its end is an order for it, if the root needs all of it. -/
theorem EmissionOrder.of_placeable {g : MetadataGraph} {stillValid : Artifact → Bool}
    {done : List Artifact} {root : Artifact} {order : List (Artifact × ArtifactInfo)}
    (hplaced : Placeable g (fun d => stillValid d = true) (· ∈ done) order)
    (hlast : (order.map Prod.fst).getLast? = some root)
    (hneeded : ∀ a ∈ order.map Prod.fst,
      Closure g (· = root) (fun d => d ∈ done ∨ stillValid d = true) a) :
    EmissionOrder g stillValid done root order where
  nodup := hplaced.nodup
  new a ha := by
    obtain ⟨e, he, rfl⟩ := List.mem_map.mp ha
    exact (hplaced.mem he).2
  last := hlast
  described a i hmem := (hplaced.mem hmem).1
  behind before a i after heq := by
    subst heq
    obtain ⟨l, hl, hcovered⟩ := hplaced.behind
    refine ⟨l, hl, fun d hd => ?_⟩
    rcases hcovered d hd with hvalid | hdone | hbefore
    · exact .inr (.inr hvalid)
    · exact .inr (.inl hdone)
    · exact .inl hbefore
  least a := by
    refine ⟨hneeded a, fun ha => ?_⟩
    -- by induction on the closure: the list is closed under what is new and not covered
    induction ha with
    | root hr =>
        rw [hr]
        exact List.mem_of_getLast? hlast
    | dependency _ hdep hnc ih =>
        have hd := hplaced.closed ih hdep fun hvalid => hnc (.inr hvalid)
        exact hd.resolve_left fun hdone => hnc (.inl hdone)

/-- An expansion that does not fail gives an order in which its root can be placed, and places all
of it. If the root was placed before, nothing is left to do. -/
theorem EmissionPlan.expand_order {g : MetadataGraph} {stillValid : Artifact → Bool}
    {root : Artifact} {p p' : EmissionPlan} {order : List (Artifact × ArtifactInfo)}
    (h : p.expand g stillValid root = .ok order p') :
    (root ∈ p.done → order = [] ∧ p' = p) ∧
    (root ∉ p.done →
      EmissionOrder g stillValid p.done root order ∧
      p'.maxDepth = p.maxDepth ∧
      ∀ a, a ∈ p'.done ↔ a ∈ p.done ∨ a ∈ order.map Prod.fst) := by
  rcases expand_cases h with ⟨hroot, rfl, rfl⟩ | ⟨hroot, hplaced, hdone, hlast, hneeded⟩
  · exact ⟨fun _ => ⟨rfl, rfl⟩, fun hnew => absurd hroot hnew⟩
  · refine ⟨fun hold => absurd hold hroot, fun _ => ⟨.of_placeable hplaced hlast ?_, ?_, hdone⟩⟩
    · intro a ha
      exact (hneeded a ha).mono (fun _ hb => .root hb) fun _ hd => hd.symm
    · have hdepth := maxDepth_expand g stillValid root p
      rwa [h] at hdepth

/-- Four classes: the last one depends on two others that both depend on the first. One of the two
is in a package, whose module they share. -/
def diamondGraph : MetadataGraph where
  classLoader
    | 1 => some { typeName := "Loader" }
    | _ => none
  module
    | 1 => some { name := "app" }
    | _ => none
  package
    | 1 => some { name := "p", module := some 1 }
    | _ => none
  cls
    | 1 => some { name := "A", loader := some 1 }
    | 2 => some { name := "B", package := some 1, superclass := some 1 }
    | 3 => some { name := "C", superclass := some 1 }
    | 4 => some { name := "D", loader := some 1, element := some 3, superclass := some 2 }
    | _ => none
  method _ := none
  thread _ := none
  unloading := []

/-- The loader has a record that can be referred to, and so has the last class. -/
def diamondValid (a : Artifact) : Bool := a = .classLoader 1 || a = .cls 4

/-- The module was placed before. -/
def diamondPlan : EmissionPlan := { done := [.module 1], maxDepth := 3 }

/-- The element class of the root comes behind what it depends on, then the superclass behind its
package. -/
def diamondOrder : List (Artifact × ArtifactInfo) :=
  [Artifact.cls 1, .cls 3, .package 1, .cls 2, .cls 4].filterMap fun a =>
    (diamondGraph.describe? a).map (a, ·)

/-- The first class is placed once, the loader and the module are left out, and the root is placed
although it has a record. -/
theorem expand_order_diamond :
    diamondPlan.expand diamondGraph diamondValid (.cls 4) =
      .ok diamondOrder { done := [.cls 4, .cls 2, .package 1, .cls 3, .cls 1, .module 1],
                         maxDepth := 3 } ∧
    .cls 4 ∉ diamondPlan.done ∧
    EmissionOrder diamondGraph diamondValid diamondPlan.done (.cls 4) diamondOrder := by
  have h : diamondPlan.expand diamondGraph diamondValid (.cls 4) =
      .ok diamondOrder { done := [.cls 4, .cls 2, .package 1, .cls 3, .cls 1, .module 1],
                         maxDepth := 3 } := by
    -- the walk is not by structural recursion, so `rfl` alone does not run it
    with_unfolding_all rfl
  have hnew : Artifact.cls 4 ∉ diamondPlan.done := by decide
  obtain ⟨horder, -, -⟩ := (EmissionPlan.expand_order h).2 hnew
  exact ⟨h, hnew, horder⟩

end TraceTypes
