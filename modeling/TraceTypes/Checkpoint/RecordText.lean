import TraceTypes.Checkpoint.Record
import TraceTypes.Json.Reader
/-!
# Records as JSON text

A record can be written as a JSON object with its type under `type` and a field
of each name, or as an array with the type first and then all fields in order.
In an object an optional field may be missing, and fields that the type does
not have are passed over. No name that counts may appear twice.
-/

namespace TraceTypes.RecordText

open Json (Value)

/-- The fields of a record type, in order. -/
def fieldNames : String → Option (List String)
  | "symbol" => some ["id", "text"]
  | "class_loader" => some ["id", "name", "type_name"]
  | "module" => some ["id", "name", "version", "location"]
  | "package" => some ["id", "name", "module", "exported"]
  | "class" =>
    some ["id", "name", "loader", "package", "super_class", "element", "modifiers", "hidden",
      "unloading"]
  | "method" => some ["id", "class", "name", "descriptor", "modifiers", "hidden"]
  | "thread" => some ["id", "name", "os_thread_id", "managed_thread_id"]
  | "class_unload" => some ["id", "name", "loader", "loader_name"]
  | "leak_class" => some ["id", "name", "loader_name"]
  | _ => none

/-- A natural number below a bound. -/
def natural (bound : Nat) : Value → Option Nat
  | .integer n => if 0 ≤ n ∧ n < bound then some n.toNat else none
  | _ => none

/-- A number of 64 bits, such as an id. -/
def word : Value → Option Nat := natural UInt64.size

/-- A set of 32 flags. -/
def flags : Value → Option Modifiers := natural UInt32.size

/-- A truth value. -/
def truth : Value → Option Bool
  | .bool b => some b
  | _ => none

/-- A text. -/
def text : Value → Option String
  | .string s => some s
  | _ => none

/-- A field that may be missing or null. -/
def optional {α : Type} (f : Value → Option α) : Option Value → Option (Option α)
  | none | some .null => some none
  | some v => (f v).map some

/-- The record of a type from its fields in order, where some may be missing. -/
def ofFields : String → List (Option Value) → Option Record
  | "symbol", [id, t] => return .symbol (← id >>= word) (← t >>= text)
  | "class_loader", [id, name, typeName] =>
    return .classLoader (← id >>= word) (← optional word name) (← typeName >>= word)
  | "module", [id, name, version, location] =>
    return .module (← id >>= word) (← name >>= word) (← optional word version)
      (← optional word location)
  | "package", [id, name, owner, exported] =>
    return .package (← id >>= word) (← name >>= word) (← optional word owner)
      (← exported >>= truth)
  | "class", [id, name, loader, package, superclass, element, modifiers, hidden, unloading] =>
    return .cls (← id >>= word) (← name >>= word) (← loader >>= word) (← optional word package)
      (← optional word superclass) (← optional word element) (← modifiers >>= flags)
      (← hidden >>= truth) (← unloading >>= truth)
  | "method", [id, holder, name, descriptor, modifiers, hidden] =>
    return .method (← id >>= word) (← holder >>= word) (← name >>= word) (← descriptor >>= word)
      (← modifiers >>= flags) (← hidden >>= truth)
  | "thread", [id, name, osThreadId, managedThreadId] =>
    return .thread (← id >>= word) (← name >>= word) (← osThreadId >>= word)
      (← optional word managedThreadId)
  | "class_unload", [id, name, loader, loaderName] =>
    return .unloadedClass (← id >>= word) (← name >>= text) (← optional word loader)
      (← optional text loaderName)
  | "leak_class", [id, name, loaderName] =>
    return .leakClass (← id >>= word) (← name >>= text) (← loaderName >>= text)
  | _, _ => none

/-- The value under a name that stands in an object at most once. -/
def unique (fields : List (String × Value)) (name : String) : Option (Option Value) :=
  match fields.filter fun f => f.1 == name with
  | [] => some none
  | [f] => some (some f.2)
  | _ => none

/-- The record that a JSON value stands for. -/
def ofValue? : Value → Option Record
  | .object fields => do
    let type ← text (← (← unique fields "type"))
    ofFields type (← (← fieldNames type).mapM (unique fields))
  | .array (type :: values) => do
    ofFields (← text type) (values.map some)
  | _ => none

/-- The record that a JSON text stands for. -/
def parse? (s : String) : Option Record := Json.parse? s >>= ofValue?

end TraceTypes.RecordText
