import TraceTypes.Toml.Scalar
/-!
# Reading TOML

The reader takes TOML 1.1. Arrays and inline tables nest at most 80 deep, and a
key has at most 80 parts. A byte order mark in front of the text is passed
over, line breaks in a string of several lines stay as they are, and control
characters are refused everywhere but for tabs and line breaks.
-/

namespace TraceTypes.Toml

open Reader

/-- How deep arrays and inline tables may nest. -/
def maxNesting : Nat := 80

/-- How many parts a key may have. -/
def maxKeyParts : Nat := 80

/-- Whether a character may stand in a comment or, unescaped, in a string of one line. -/
def isPrintable (c : Char) : Bool := c == '\t' || (0x20 ≤ c.toNat && c.toNat != 0x7F)

/-- Drop spaces and tabs. -/
def spaces : Reader Unit := skipWhile fun c => c == ' ' || c == '\t'

/-- Take a line break, if one is next; tells whether there was one. -/
def newline : Reader Bool := do
  if ← accept '\n' then return true
  else acceptText "\r\n"

/-- Drop a comment, if one is next. -/
def comment : Reader Unit := do
  if ← accept '#' then skipWhile isPrintable

/-- Drop spaces, comments and line breaks. -/
def layout : Reader Unit := loop () fun () => do
  spaces
  comment
  if ← newline then return .inl () else return .inr ()

/-! ## Strings -/

/-- A character by its code in so many hexadecimal digits. -/
def codeEscape (n : Nat) : Reader Char := do
  match Numeral.scalar? (← exactly n Numeral.isHex) with
  | none => failure
  | some c => return c

/-- The character of an escape, after its backslash. -/
def escape : Reader Char := do
  match ← next with
  | '"' => return '"'
  | '\\' => return '\\'
  | 'b' => return '\x08'
  | 'e' => return '\x1b'
  | 'f' => return '\x0c'
  | 'n' => return '\n'
  | 'r' => return '\r'
  | 't' => return '\t'
  | 'x' => codeEscape 2
  | 'u' => codeEscape 4
  | 'U' => codeEscape 8
  | _ => failure

/-- A string of one line, after its opening quote. -/
def lineString (quote : Char) (escapes : Bool) : Reader String := loop [] fun reversed => do
  let c ← next
  if c == quote then return .inr (String.ofList reversed.reverse)
  else if escapes && c == '\\' then return .inl ((← escape) :: reversed)
  else if isPrintable c then return .inl (c :: reversed)
  else failure

/-- Take the rest of a line that ends in a backslash, and all blanks and line breaks behind it. -/
def continuation : Reader Unit := do
  spaces
  if !(← newline) then failure
  loop () fun () => do
    spaces
    if ← newline then return .inl () else return .inr ()

/-- A string of several lines, after its opening quotes. A line break right behind them does not
count, and up to two quotes may stand in front of the closing ones. -/
def blockString (quote : Char) (escapes : Bool) : Reader String := do
  let _ ← newline
  loop [] fun reversed => do
    if ← nextIs (· == quote) then
      let quotes ← takeWhile (· == quote)
      if quotes.length < 3 then return .inl (quotes ++ reversed)
      else if 5 < quotes.length then failure
      else return .inr (String.ofList (quotes.drop 3 ++ reversed).reverse)
    else if ← acceptText "\r\n" then return .inl ('\n' :: '\r' :: reversed)
    else
      let c ← next
      if escapes && c == '\\' then
        if ← nextIs fun c => c == ' ' || c == '\t' || c == '\r' || c == '\n' then
          continuation
          return .inl reversed
        else return .inl ((← escape) :: reversed)
      else if isPrintable c || c == '\n' then return .inl (c :: reversed)
      else failure

/-- A quoted string, of one line or of several. -/
def quoted (quote : Char) (escapes : Bool) : Reader String := do
  if ← acceptText (String.ofList [quote, quote, quote]) then blockString quote escapes
  else
    char quote
    lineString quote escapes

/-! ## Keys -/

/-- The characters of a key without quotes. -/
def isBareKeyChar (c : Char) : Bool := c.isAlphanum || c == '_' || c == '-'

/-- One part of a key. -/
def simpleKey : Reader String := do
  match ← peek with
  | some '"' => char '"'; lineString '"' true
  | some '\'' => char '\''; lineString '\'' false
  | _ => return String.ofList (← takeWhile1 isBareKeyChar)

/-- The parts of a key, with dots between and spaces around them. -/
def keyParts : Reader (List String) := loop [] fun reversed => do
  spaces
  let k ← simpleKey
  spaces
  if ← accept '.' then return .inl (k :: reversed)
  else return .inr (k :: reversed).reverse

/-- A key. -/
def key : Reader (List String) := do
  let parts ← keyParts
  if maxKeyParts < parts.length then failure
  return parts

/-! ## Values -/

/-- A value in one word, or a date and a time of day with a space between them. -/
def word : Reader Value := do
  let first ← takeWhile1 isWordChar
  let isDate := (date.run first).any fun r => r.2.isEmpty
  let spaced := (← get).head? = some ' ' ∧ ((← get).drop 1).head?.any Numeral.isDecimal
  let l ← if isDate && spaced then
      char ' '
      pure (first ++ ' ' :: (← takeWhile1 isWordChar))
    else pure first
  match ofWord? l with
  | none => failure
  | some v => return v

/-- A value that is neither an array nor an inline table. -/
def scalar : Reader Value := do
  match ← peek with
  | some '"' => return .string (← quoted '"' true)
  | some '\'' => return .string (← quoted '\'' false)
  | _ => word

/-- Items with commas between them and perhaps one behind them, after the opening bracket. -/
def items {α : Type} (close : Char) (item : Reader α) : Reader (List α) :=
  loop [] fun reversed => do
    layout
    if ← accept close then return .inr reversed.reverse
    let v ← item
    layout
    if ← accept close then return .inr (v :: reversed).reverse
    char ','
    return .inl (v :: reversed)

/-- A key and a value, with an equals sign between them and a gap on both sides of the sign. -/
def pairOf (gap : Reader Unit) (value : Reader Value) : Reader (List String × Value) := do
  let k ← key
  gap
  char '='
  gap
  return (k, ← value)

/-- A value in which arrays and inline tables nest at most so deep. Between the brackets of either
the text may run over several lines, but a key stays on one. -/
def value : Nat → Reader Value
  | 0 => scalar
  | depth + 1 => do
    match ← peek with
    | some '[' => char '['; return .array (← items ']' (value depth))
    | some '{' =>
      char '{'
      let pairs ← items '}' (pairOf layout (value depth))
      match pairs.foldlM (fun es p => Entries.define p.2 p.1 es) [] with
      | none => failure
      | some es => return .inline es
    | _ => scalar

/-! ## Documents -/

/-- A header, after its opening brackets. -/
def header (close : String) : Reader (List String) := do
  let path ← key
  literal close
  return path

/-- A line that says something. -/
def statement : Reader Statement := do
  if ← acceptText "[[" then return .element (← header "]]")
  else if ← accept '[' then return .header (← header "]")
  else
    let p ← pairOf spaces (value maxNesting)
    return .entry p.1 p.2

/-- The lines of a document. -/
def statements : Reader (List Statement) := do
  let _ ← accept '\uFEFF'
  loop [] fun reversed => do
    layout
    if (← get).isEmpty then return .inr reversed.reverse
    let s ← statement
    spaces
    comment
    if !(← newline) then atEnd
    return .inl (s :: reversed)

/-- The entries of the table that a TOML text stands for. -/
def parse? (text : String) : Option Entries :=
  Reader.parse? statements text >>= Document.ofStatements?

end TraceTypes.Toml
