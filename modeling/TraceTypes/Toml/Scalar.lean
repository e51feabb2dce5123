import TraceTypes.Text.Numeral
import TraceTypes.Text.Reader
import TraceTypes.Toml.Document
/-!
# Numbers, truth values and times in TOML

These values are written as one word, a row of letters, digits and the signs
`_`, `+`, `-`, `.` and `:`. Only a date and a time of day may have a space
between them.
-/

namespace TraceTypes.Toml

open Numeral

/-- The characters of a word. -/
def isWordChar (c : Char) : Bool :=
  c.isAlphanum || c == '_' || c == '+' || c == '-' || c == '.' || c == ':'

/-- Digits that may have single underscores between them, without the underscores. -/
def digits (p : Char → Bool) : List Char → Option (List Char)
  | [] => none
  | [c] => if p c then some [c] else none
  | c :: '_' :: rest => if p c then (digits p rest).map (c :: ·) else none
  | c :: rest => if p c then (digits p rest).map (c :: ·) else none

/-- The digits of a decimal integer, which has no leading zero. -/
def decimalDigits (l : List Char) : Option (List Char) := do
  let ds ← digits isDecimal l
  if ds.head? = some '0' ∧ ds.length ≠ 1 then none
  return ds

/-- A sign in front of a word, and the rest of the word. -/
def splitSign : List Char → Bool × List Char
  | '-' :: rest => (true, rest)
  | '+' :: rest => (false, rest)
  | l => (false, l)

/-- The number that the digits of an integer stand for, in any of the four bases. Only a decimal
integer has a sign. -/
def integerValue? : List Char → Option Int
  | '0' :: 'x' :: rest => (digits isHex rest).map fun ds => value 16 ds
  | '0' :: 'o' :: rest => (digits (fun c => '0' ≤ c && c ≤ '7') rest).map fun ds => value 8 ds
  | '0' :: 'b' :: rest => (digits (fun c => c == '0' || c == '1') rest).map fun ds => value 2 ds
  | word =>
    let (negative, rest) := splitSign word
    (decimalDigits rest).map fun ds => if negative then -(value 10 ds) else value 10 ds

/-- How many values 128 bits have. -/
def wideSize : Nat := UInt64.size * UInt64.size

/-- An integer. It has to fit into 128 bits, signed or unsigned. -/
def integer? (word : List Char) : Option Int :=
  (integerValue? word).filter fun n => -(wideSize / 2 : Nat) ≤ n && n < wideSize

/-- Whether a word is a float: an infinity, not a number, or a numeral with a fraction, an exponent
or both, which must not be too large for a double. -/
def isFloat (word : List Char) : Bool :=
  let (_, l) := splitSign word
  if l = "inf".toList ∨ l = "nan".toList then true
  else
    let isExp (c : Char) : Bool := c == 'e' || c == 'E'
    let mantissa := l.takeWhile fun c => !isExp c
    let whole := mantissa.takeWhile (· != '.')
    let fraction? : Option (List Char) := match mantissa.drop whole.length with
      | [] => some []
      | _ :: rest => digits isDecimal rest
    let exponent? : Option Int := match l.drop mantissa.length with
      | [] => some 0
      | _ :: rest =>
        let (negative, rest) := splitSign rest
        (digits isDecimal rest).map fun ds => if negative then -(value 10 ds) else value 10 ds
    if whole.length = l.length then false
    else match decimalDigits whole, fraction?, exponent? with
    | some w, some f, some e => isFiniteDouble (value 10 (w ++ f)) (e - f.length)
    | _, _, _ => false

/-- The number of days of a month. -/
def daysInMonth (year month : Nat) : Nat :=
  if month = 2 then
    if year % 4 = 0 ∧ (year % 100 ≠ 0 ∨ year % 400 = 0) then 29 else 28
  else if month ∈ [4, 6, 9, 11] then 30
  else 31

/-- Two digits with a value of at most so much. -/
def pair (most : Nat) : Reader Unit := do
  if most < value 10 (← Reader.exactly 2 isDecimal) then failure

/-- A date. -/
def date : Reader Unit := do
  let year := value 10 (← Reader.exactly 4 isDecimal)
  Reader.char '-'
  let month := value 10 (← Reader.exactly 2 isDecimal)
  Reader.char '-'
  let day := value 10 (← Reader.exactly 2 isDecimal)
  if month < 1 ∨ 12 < month ∨ day < 1 ∨ daysInMonth year month < day then failure

/-- A time of day, perhaps with seconds and a fraction of a second. -/
def timeOfDay : Reader Unit := do
  pair 23
  Reader.char ':'
  pair 59
  if ← Reader.accept ':' then
    pair 60
    if ← Reader.accept '.' then
      let _ ← Reader.takeWhile1 isDecimal

/-- The distance of a time from universal time. -/
def offset : Reader Unit := do
  match ← Reader.next with
  | 'Z' | 'z' => return
  | '+' | '-' =>
    pair 23
    Reader.char ':'
    pair 59
  | _ => failure

/-- Whether a word is a date, a time of day, or both with or without an offset. -/
def isTime (word : List Char) : Bool :=
  let accepts (r : Reader Unit) : Bool := (do r; Reader.atEnd : Reader Unit).run word |>.isSome
  let both : Reader Unit := do
    date
    if (← Reader.next) ∉ ['T', 't', ' '] then failure
    timeOfDay
  accepts date || accepts timeOfDay || accepts both || accepts do both; offset

/-- The value that a word stands for. -/
def ofWord? (word : List Char) : Option Value :=
  if word = "true".toList then some (.boolean true)
  else if word = "false".toList then some (.boolean false)
  else if isTime word then some .time
  else match integer? word with
    | some n => some (.integer n)
    | none => if isFloat word then some .float else none

end TraceTypes.Toml
