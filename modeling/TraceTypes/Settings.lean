/-!
# Settings

The knobs of a type set. They can be read from a TOML document, in which an
absent key keeps its default.
-/

namespace TraceTypes

/-- The knobs of a type set. -/
structure Settings where
  /-- The longest chain of dependencies that is not taken for a defect of the graph. -/
  maxDependencyDepth : Nat := 1024
  /-- The name under which the bootstrap loader is written. -/
  bootstrapLoaderName : String := "bootstrap"
  /-- Whether the bootstrap loader gets a record when something refers to it. -/
  emitBootstrapLoader : Bool := true
  /-- Whether classes written to the leak stream can be looked up later. -/
  retainLeakRecords : Bool := true
  deriving DecidableEq

/-- Why settings could not be loaded. -/
inductive SettingsError where
  /-- The file could not be read. -/
  | unreadable (path cause : String)
  /-- The text is not TOML, or a value does not have its key's type. -/
  | malformed
  deriving DecidableEq

end TraceTypes
