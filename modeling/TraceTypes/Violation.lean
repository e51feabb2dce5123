import TraceTypes.Artifact
/-!
# Violations

What can be wrong with the metadata graph or with the bookkeeping about it. A
violation is a defect and not a passing failure: a type set that has reported
one refuses to serialize from then on.
-/

namespace TraceTypes

/-- A defect of the metadata graph or of the state kept beside it. -/
inductive Violation where
  /-- Something points at an artifact that the graph does not have. -/
  | danglingArtifact (artifact : Artifact)
  /-- A dependency leads back to an artifact whose dependencies are being expanded. -/
  | dependencyCycle (artifact : Artifact)
  /-- A chain of dependencies that starts at `root` is longer than the limit. -/
  | dependencyTooDeep (root : Artifact) (limit : Nat)
  /-- An id that has an owner was about to be given to another artifact. -/
  | idCollision (id : TraceId) (owner requested : Artifact)
  /-- The id belonged to an artifact that was forgotten. -/
  | forgottenId (id : TraceId)
  deriving DecidableEq

namespace Violation

/-- A violation in words. -/
def message : Violation → String
  | danglingArtifact a => "dangling artifact " ++ a.text ++ ": not present in the metadata graph"
  | dependencyCycle a => "dependency cycle through " ++ a.text
  | dependencyTooDeep root limit =>
    "dependency chain below " ++ root.text ++ " exceeds depth " ++ toString limit
  | idCollision id owner requested =>
    "identifier " ++ toString id ++ " already owned by " ++ owner.text ++ ", requested for "
      ++ requested.text
  | forgottenId id => "identifier " ++ toString id ++ " belongs to a forgotten artifact"

end Violation

end TraceTypes
