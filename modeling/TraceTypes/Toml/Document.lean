/-!
# TOML documents

A TOML document is a table of values, some of them tables again. How a table
came to be decides how it may grow. A table that only occurred on the way to
another one may still get a header of its own; a table made by a dotted key
grows by dotted keys; one with a header grows by what follows the header; an
inline table does not grow at all. A header in double brackets begins a new
table in an array, and a path through the array leads to its last table.
-/

namespace TraceTypes.Toml

/-- How a table came to be. -/
inductive Origin where
  /-- It occurred on the way to a table with a header. -/
  | passage
  /-- It was made by a dotted key. -/
  | dotted
  /-- It has a header. -/
  | header
  deriving DecidableEq

/-- A value in a document. Of floats and times only the sort is kept. -/
inductive Value where
  | string (s : String)
  | integer (n : Int)
  | float
  | boolean (b : Bool)
  | time
  | array (items : List Value)
  /-- A table in braces. -/
  | inline (entries : List (String × Value))
  | table (origin : Origin) (entries : List (String × Value))
  /-- The tables begun by headers in double brackets. -/
  | tables (items : List (List (String × Value)))

/-- The entries of a table, oldest first. -/
abbrev Entries := List (String × Value)

namespace Entries

/-- Write a value under a key, in the place of the value that is there. -/
def put (es : Entries) (key : String) (v : Value) : Entries :=
  if (es.lookup key).isSome then es.map fun e => if e.1 = key then (key, v) else e
  else es ++ [(key, v)]

/-- Enter a value under a dotted key. Only the last part may be new in a table with another
origin than a dotted key. -/
def define (v : Value) : List String → Entries → Option Entries
  | [], _ => none
  | [key], es => if (es.lookup key).isSome then none else some (es ++ [(key, v)])
  | key :: path, es =>
    match es.lookup key with
    | none => (define v path []).map fun sub => es.put key (.table .dotted sub)
    | some (.table .dotted sub) => (define v path sub).map fun sub => es.put key (.table .dotted sub)
    | some (.table .passage sub) =>
      if path.length = 1 then none
      else (define v path sub).map fun sub => es.put key (.table .passage sub)
    | some (.tables items) =>
      if path.length = 1 then none
      else do
        let sub ← define v path (← items.getLast?)
        return es.put key (.tables (items.dropLast ++ [sub]))
    | some _ => none

/-- Change the entries of the table that a header's path leads to. Tables that are missing are
made on the way. -/
def within (f : Entries → Option Entries) : List String → Entries → Option Entries
  | [], es => f es
  | key :: path, es =>
    match es.lookup key with
    | none => (within f path []).map fun sub => es.put key (.table .passage sub)
    | some (.table origin sub) => (within f path sub).map fun sub => es.put key (.table origin sub)
    | some (.tables items) => do
      let sub ← within f path (← items.getLast?)
      return es.put key (.tables (items.dropLast ++ [sub]))
    | some _ => none

/-- Give a table its header. -/
def openTable (key : String) (es : Entries) : Option Entries :=
  match es.lookup key with
  | none => some (es.put key (.table .header []))
  | some (.table .passage sub) => some (es.put key (.table .header sub))
  | some _ => none

/-- Begin a new table in an array of tables. -/
def appendTable (key : String) (es : Entries) : Option Entries :=
  match es.lookup key with
  | none => some (es.put key (.tables [[]]))
  | some (.tables items) => some (es.put key (.tables (items ++ [[]])))
  | some _ => none

end Entries

/-- A line of a document. -/
inductive Statement where
  /-- A value under a dotted key of the current table. -/
  | entry (key : List String) (v : Value)
  /-- The header of a table, which is current from here on. -/
  | header (path : List String)
  /-- The header of a new table in an array of tables. -/
  | element (path : List String)

/-- A document as far as it was read. -/
structure Document where
  root : Entries := []
  /-- The path of the current table. -/
  current : List String := []

namespace Document

/-- Change the table that holds the last key of a path. -/
def atPath (d : Document) (path : List String) (f : String → Entries → Option Entries) :
    Option Document := do
  let key ← path.getLast?
  return ⟨← d.root.within (f key) path.dropLast, path⟩

/-- Read one more line. -/
def add (d : Document) : Statement → Option Document
  | .entry key v => do return { d with root := ← d.root.within (Entries.define v key) d.current }
  | .header path => d.atPath path Entries.openTable
  | .element path => d.atPath path Entries.appendTable

/-- The entries of the table that lines make up. -/
def ofStatements? (l : List Statement) : Option Entries :=
  (l.foldlM add ({} : Document)).map Document.root

end Document

end TraceTypes.Toml
