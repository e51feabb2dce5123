import TraceTypes.Settings
import TraceTypes.Toml.Reader
/-!
# Settings in a file

Settings are read from the top table of a TOML document. An absent key keeps
its default, unknown keys are passed over, and a value must have its key's type.
-/

namespace TraceTypes.Settings

/-- The value under a key, read as its type demands, or the default if the key is absent. -/
def entryOr {α : Type} (es : Toml.Entries) (key : String) (read : Toml.Value → Option α)
    (dflt : α) : Option α :=
  match es.lookup key with
  | none => some dflt
  | some v => read v

/-- A depth: a number of 64 bits. -/
def depth : Toml.Value → Option Nat
  | .integer n => if 0 ≤ n ∧ n < UInt64.size then some n.toNat else none
  | _ => none

/-- A name. -/
def name : Toml.Value → Option String
  | .string s => some s
  | _ => none

/-- A switch. -/
def switch : Toml.Value → Option Bool
  | .boolean b => some b
  | _ => none

/-- The settings in the entries of a table. -/
def ofEntries? (es : Toml.Entries) : Option Settings := do
  let d : Settings := {}
  return {
    maxDependencyDepth := ← entryOr es "max_dependency_depth" depth d.maxDependencyDepth
    bootstrapLoaderName := ← entryOr es "bootstrap_loader_name" name d.bootstrapLoaderName
    emitBootstrapLoader := ← entryOr es "emit_bootstrap_loader" switch d.emitBootstrapLoader
    retainLeakRecords := ← entryOr es "retain_leak_records" switch d.retainLeakRecords }

/-- The settings in a TOML text. -/
def parse (text : String) : Except SettingsError Settings :=
  match Toml.parse? text >>= ofEntries? with
  | none => .error .malformed
  | some s => .ok s

/-- Why a file that does not exist cannot be read. -/
def missingFile : String := "No such file or directory (os error 2)"

/-- Why a file that is not text cannot be read. -/
def notText : String := "stream did not contain valid UTF-8"

/-- The settings in a file with this content; without content the file does not exist. -/
def load (path : String) (content : Option ByteArray) : Except SettingsError Settings :=
  match content with
  | none => .error (.unreadable path missingFile)
  | some bytes =>
    match String.fromUTF8? bytes with
    | none => .error (.unreadable path notText)
    | some text => parse text

end TraceTypes.Settings
