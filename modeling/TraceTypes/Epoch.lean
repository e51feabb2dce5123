/-!
# Epochs

The trace is cut into chunks, and each chunk belongs to one epoch. Epochs are
numbered by generation, and the parity of the generation is the epoch bit.
-/

namespace TraceTypes

/-- A generation together with its epoch bit. -/
structure Epoch where
  bit : Bool
  generation : Nat
  deriving DecidableEq

namespace Epoch

/-- The epoch of a generation: the bit is set in odd generations. -/
def ofGeneration (n : Nat) : Epoch := ⟨n % 2 == 1, n⟩

/-- The epoch before this one. The first generation has itself as predecessor, but the bit
flips all the same. -/
def previous (e : Epoch) : Epoch := ⟨!e.bit, e.generation - 1⟩

end Epoch

/-- Counts the rotations of the trace, without a bound: a counter of 64 bits is equal to it for fewer
than `2 ^ 64` of them. -/
structure EpochCounter where
  generation : Nat := 0
  deriving DecidableEq

namespace EpochCounter

/-- The epoch now. -/
def current (c : EpochCounter) : Epoch := .ofGeneration c.generation

/-- The counter after one more rotation. -/
def rotate (c : EpochCounter) : EpochCounter := ⟨c.generation + 1⟩

end EpochCounter

end TraceTypes
