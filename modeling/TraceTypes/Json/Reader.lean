import TraceTypes.Json.Value
import TraceTypes.Text.Numeral
import TraceTypes.Text.Reader
/-!
# Reading JSON

The reader takes exactly the texts of the JSON grammar, with two bounds: arrays
and objects nest at most 127 deep, and a number must not be too large for a
double. A character outside the basic plane may be escaped as a pair of
surrogates; a surrogate by itself is refused.
-/

namespace TraceTypes.Json

open Reader

/-- How deep arrays and objects may nest. -/
def maxNesting : Nat := 127

/-- The blanks between tokens. -/
def isBlank (c : Char) : Bool := c == ' ' || c == '\t' || c == '\n' || c == '\r'

/-- Drop blanks. -/
def blanks : Reader Unit := skipWhile isBlank

/-- Take four hexadecimal digits. -/
def hexUnit : Reader Nat := do return Numeral.value 16 (← exactly 4 Numeral.isHex)

/-- The character of an escape that is written in hexadecimal, one unit or a pair of surrogates. -/
def hexEscape : Reader Char := do
  let n ← hexUnit
  if 0xD800 ≤ n ∧ n ≤ 0xDBFF then
    literal "\\u"
    let m ← hexUnit
    if 0xDC00 ≤ m ∧ m ≤ 0xDFFF then
      return Char.ofNat (0x10000 + (n - 0xD800) * 0x400 + (m - 0xDC00))
    else failure
  else if 0xDC00 ≤ n ∧ n ≤ 0xDFFF then failure
  else return Char.ofNat n

/-- The character of an escape, after its backslash. -/
def escape : Reader Char := do
  match ← next with
  | '"' => return '"'
  | '\\' => return '\\'
  | '/' => return '/'
  | 'b' => return '\x08'
  | 'f' => return '\x0c'
  | 'n' => return '\n'
  | 'r' => return '\r'
  | 't' => return '\t'
  | 'u' => hexEscape
  | _ => failure

/-- A string, after its opening quote. -/
def stringRest : Reader String := loop [] fun reversed => do
  let c ← next
  if c == '"' then return .inr (String.ofList reversed.reverse)
  else if c == '\\' then return .inl ((← escape) :: reversed)
  else if c.toNat < 0x20 then failure
  else return .inl (c :: reversed)

/-- A decimal significand of 64 bits and a power of ten. -/
structure Decimal where
  significand : Nat
  exponent : Int

namespace Decimal

/-- Add the digits in front of the point. Digits that do not fit only raise the exponent. -/
def addInteger (digits : List Char) : Decimal :=
  digits.foldl (fun d c =>
    let m := d.significand * 10 + Numeral.digitValue c
    if d.exponent = 0 ∧ m < UInt64.size then ⟨m, 0⟩ else ⟨d.significand, d.exponent + 1⟩) ⟨0, 0⟩

/-- Add the digits behind the point, up to the first that does not fit. -/
def addFraction (d : Decimal) : List Char → Decimal
  | [] => d
  | c :: rest =>
    let m := d.significand * 10 + Numeral.digitValue c
    if m < UInt64.size then addFraction ⟨m, d.exponent - 1⟩ rest else d

/-- Whether the double nearest to the significand, times the one nearest to the power of ten, is
finite. -/
def isFinite (d : Decimal) : Bool :=
  d.significand = 0 || d.exponent < 0 ||
    (d.exponent ≤ 308 &&
      Numeral.roundDouble d.significand * Numeral.roundDouble (Numeral.powerOfTen d.exponent.toNat)
        < Numeral.doubleOverflow)

end Decimal

/-- The exponent of a number, if it has one. -/
def exponent : Reader (Option Int) := do
  if ← nextIs fun c => c == 'e' || c == 'E' then
    let _ ← next
    let negative ← accept '-'
    if !negative then
      let _ ← accept '+'
    let n := Numeral.value 10 (← takeWhile1 Numeral.isDecimal)
    return some (if negative then -n else n)
  else return none

/-- The digits behind the point of a number, if it has one. -/
def fraction : Reader (Option (List Char)) := do
  if ← accept '.' then return some (← takeWhile1 Numeral.isDecimal)
  else return none

/-- A number. Nothing may follow a leading zero, and there is no negative integer zero. -/
def number : Reader Value := do
  let negative ← accept '-'
  let digits ← takeWhile1 Numeral.isDecimal
  if digits.head? = some '0' ∧ digits.length ≠ 1 then failure
  let fraction ← fraction
  let exponent ← exponent
  let n := Numeral.value 10 digits
  let integral := fraction.isNone && exponent.isNone
  if integral && !negative && n < UInt64.size then return .integer n
  else if integral && negative && 0 < n && n ≤ UInt64.size / 2 then return .integer (-n)
  else
    let d := (Decimal.addInteger digits).addFraction (fraction.getD [])
    if { d with exponent := d.exponent + exponent.getD 0 : Decimal }.isFinite then return .float
    else failure

/-- A value that is neither an array nor an object. -/
def scalar : Reader Value := do
  match ← peek with
  | some 'n' => literal "null"; return .null
  | some 't' => literal "true"; return .bool true
  | some 'f' => literal "false"; return .bool false
  | some '"' => char '"'; return .string (← stringRest)
  | _ => number

/-- Items with commas between them, after the opening bracket. -/
def items {α : Type} (close : Char) (item : Reader α) : Reader (List α) := do
  blanks
  if ← accept close then return []
  loop [] fun reversed => do
    let v ← item
    blanks
    if ← accept close then return .inr (v :: reversed).reverse
    char ','
    blanks
    return .inl (v :: reversed)

/-- A name and a value, with a colon between them. -/
def member (value : Reader Value) : Reader (String × Value) := do
  char '"'
  let name ← stringRest
  blanks
  char ':'
  blanks
  return (name, ← value)

/-- A value in which arrays and objects nest at most so deep. -/
def value : Nat → Reader Value
  | 0 => scalar
  | depth + 1 => do
    match ← peek with
    | some '[' => char '['; return .array (← items ']' (value depth))
    | some '{' => char '{'; return .object (← items '}' (member (value depth)))
    | _ => scalar

/-- The value of a JSON text, with blanks around it. -/
def parse? (text : String) : Option Value :=
  Reader.parse? (do blanks; let v ← value maxNesting; blanks; return v) text

end TraceTypes.Json
