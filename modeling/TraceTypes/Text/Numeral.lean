/-!
# Numerals

The value of a row of digits, and when a decimal numeral is too large for a
binary floating-point number of 64 bits.
-/

namespace TraceTypes.Numeral

/-- Whether a character is a decimal digit. -/
def isDecimal (c : Char) : Bool := '0' ≤ c && c ≤ '9'

/-- Whether a character is a hexadecimal digit of either case. -/
def isHex (c : Char) : Bool := isDecimal c || ('a' ≤ c && c ≤ 'f') || ('A' ≤ c && c ≤ 'F')

/-- The value of a digit. -/
def digitValue (c : Char) : Nat :=
  if isDecimal c then c.toNat - '0'.toNat
  else if 'a' ≤ c && c ≤ 'f' then c.toNat - 'a'.toNat + 10
  else c.toNat - 'A'.toNat + 10

/-- The value of a row of digits in a base. -/
def value (base : Nat) (digits : List Char) : Nat :=
  digits.foldl (fun n c => n * base + digitValue c) 0

/-- The character with a code that is written in hexadecimal digits. -/
def scalar? (digits : List Char) : Option Char :=
  let n := value 16 digits
  if h : n.isValidChar then some (Char.ofNatAux n h) else none

/-- A power of ten. -/
def powerOfTen (n : Nat) : Nat := Nat.pow 10 n

/-- The least number that rounds to more than the greatest finite double. -/
def doubleOverflow : Nat := 1 <<< 1024 - 1 <<< 970

/-- A number rounded to 53 significant bits, ties to even. -/
def roundDouble (n : Nat) : Nat :=
  let unit := 1 <<< (n.log2 - 52)
  let q := n / unit
  let r := n % unit
  if unit < 2 * r ∨ (unit = 2 * r ∧ q % 2 = 1) then (q + 1) * unit else q * unit

/-- Whether `m * 10 ^ e` rounds to a finite double. -/
def isFiniteDouble (m : Nat) (e : Int) : Bool :=
  if m = 0 then true
  else if 0 ≤ e then e ≤ 308 && m * powerOfTen e.toNat < doubleOverflow
  else
    -- a numeral with far fewer digits than its exponent takes away is below one
    let k := (-e).toNat
    m.log2 < k || m < doubleOverflow * powerOfTen k

end TraceTypes.Numeral
