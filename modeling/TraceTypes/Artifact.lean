/-!
# Artifacts

What a trace event can point at: interned symbols and the runtime's class
loaders, modules, packages, classes, methods and threads. An artifact is named
by its kind and a handle that is unique within the kind. In the trace it is
named by a number, its trace id.
-/

namespace TraceTypes

/-- The kinds of artifact, in the order in which their records are written. -/
inductive Kind where
  | symbol
  | classLoader
  | module
  | package
  | cls
  | method
  | thread
  deriving DecidableEq

namespace Kind

/-- All kinds, in emission order. -/
def all : List Kind := [symbol, classLoader, module, package, cls, method, thread]

/-- The position of a kind in emission order. -/
def index : Kind → Nat
  | symbol => 0
  | classLoader => 1
  | module => 2
  | package => 3
  | cls => 4
  | method => 5
  | thread => 6

/-- The name of a kind in messages. -/
def name : Kind → String
  | symbol => "symbol"
  | classLoader => "classloader"
  | module => "module"
  | package => "package"
  | cls => "class"
  | method => "method"
  | thread => "thread"

theorem mem_all (k : Kind) : k ∈ all := by cases k <;> decide

end Kind

/-- The address by which the runtime knows an artifact of a given kind. -/
abbrev Handle := Nat

/-- The number that stands for an artifact in the trace. Ids have no bound here; in the trace they are
words of 64 bits, so what is said of them is about fewer than `2 ^ 64 - 1` registrations. -/
abbrev TraceId := Nat

/-- The id of the bootstrap loader, which has no handle and is never allocated. -/
def bootstrapId : TraceId := 0

/-- The lower-case hexadecimal digits of a number. -/
def hexText (n : Nat) : String := String.ofList (Nat.toDigits 16 n)

/-- One artifact: its kind and its handle. -/
structure Artifact where
  kind : Kind
  handle : Handle
  deriving DecidableEq

namespace Artifact

/-- The interned symbol with a handle. -/
abbrev symbol (h : Handle) : Artifact := ⟨.symbol, h⟩

/-- The class loader with a handle. -/
abbrev classLoader (h : Handle) : Artifact := ⟨.classLoader, h⟩

/-- The module with a handle. -/
abbrev module (h : Handle) : Artifact := ⟨.module, h⟩

/-- The package with a handle. -/
abbrev package (h : Handle) : Artifact := ⟨.package, h⟩

/-- The class with a handle. -/
abbrev cls (h : Handle) : Artifact := ⟨.cls, h⟩

/-- The method with a handle. -/
abbrev method (h : Handle) : Artifact := ⟨.method, h⟩

/-- The thread with a handle. -/
abbrev thread (h : Handle) : Artifact := ⟨.thread, h⟩

/-- An artifact in messages: the kind's name and the handle in hexadecimal. -/
def text (a : Artifact) : String := a.kind.name ++ "@0x" ++ hexText a.handle

/-- Artifacts are ordered by kind, then by handle. -/
def le (a b : Artifact) : Bool :=
  decide (a.kind.index < b.kind.index) ||
    (decide (a.kind = b.kind) && decide (a.handle ≤ b.handle))

/-- A list of artifacts in their order. -/
def sort (l : List Artifact) : List Artifact := l.mergeSort le

end Artifact

end TraceTypes
