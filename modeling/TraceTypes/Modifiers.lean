/-!
# Access modifiers

The access flags of a class or method, as a bit set. A set of flags is
contained in another if the other has all its bits.
-/

namespace TraceTypes

/-- The access flags of a class or method. -/
abbrev Modifiers := Nat

namespace Modifiers

/-- The flags that have a name, each with its bit. -/
def named : List (String × Modifiers) :=
  [("public", 0x0001), ("private", 0x0002), ("protected", 0x0004), ("static", 0x0008),
    ("final", 0x0010), ("interface", 0x0200), ("abstract", 0x0400), ("synthetic", 0x1000)]

/-- The flag of public artifacts, which is what an artifact has by default. -/
def publicFlag : Modifiers := 0x0001

/-- Whether all bits of `flags` are set. -/
def contains (m flags : Modifiers) : Bool := m &&& flags == flags

/-- The names of the flags that are set, in the order of `named`. -/
def names (m : Modifiers) : List String := (named.filter fun e => contains m e.2).map Prod.fst

end Modifiers

end TraceTypes
