/-!
# Readers

A reader takes characters from the front of a text and either fails or gives a
value. Readers are run on the characters that are left; a failed reader has
taken nothing. Loops are bounded by the length of the text, which is enough for
every loop whose steps take at least one character.
-/

namespace TraceTypes

/-- A reader of a text. -/
abbrev Reader (α : Type) := StateT (List Char) Option α

namespace Reader

variable {α β : Type}

/-- The next character, not taken. -/
def peek : Reader (Option Char) := do return (← get).head?

/-- Whether the next character passes a test. -/
def nextIs (p : Char → Bool) : Reader Bool := do return (← peek).any p

/-- Take a character. -/
def next : Reader Char := fun s =>
  match s with
  | [] => none
  | c :: rest => some (c, rest)

/-- Take this character. -/
def char (c : Char) : Reader Unit := do
  if (← next) != c then failure

/-- Take this text. -/
def literal (t : String) : Reader Unit := t.toList.forM char

/-- Take a character if it is this one; tells whether it was. -/
def accept (c : Char) : Reader Bool := do
  if ← nextIs (· == c) then
    let _ ← next
    return true
  else return false

/-- Take this text if it is next; tells whether it was. -/
def acceptText (t : String) : Reader Bool :=
  (do literal t; return true) <|> return false

/-- Take characters as long as they pass a test. -/
def takeWhile (p : Char → Bool) : Reader (List Char) := fun s =>
  some (s.takeWhile p, s.dropWhile p)

/-- Take characters as long as they pass a test, at least one of them. -/
def takeWhile1 (p : Char → Bool) : Reader (List Char) := do
  let l ← takeWhile p
  if l.isEmpty then failure
  return l

/-- Drop characters as long as they pass a test. -/
def skipWhile (p : Char → Bool) : Reader Unit := do
  let _ ← takeWhile p

/-- Succeed only at the end of the text. -/
def atEnd : Reader Unit := do
  if !(← get).isEmpty then failure

/-- Take exactly so many characters that all pass a test. -/
def exactly (n : Nat) (p : Char → Bool) : Reader (List Char) := do
  let l := (← get).take n
  if l.length = n ∧ l.all p then
    modify fun s => s.drop n
    return l
  else failure

/-- Repeat a step, at most as often as the bound says, until it gives a result. -/
def iterate (step : β → Reader (β ⊕ α)) : Nat → β → Reader α
  | 0, _ => failure
  | n + 1, b => do
    match ← step b with
    | .inl b => iterate step n b
    | .inr a => return a

/-- Repeat a step until it gives a result. Each step but the last takes a character. -/
def loop (start : β) (step : β → Reader (β ⊕ α)) : Reader α := do
  iterate step ((← get).length + 1) start

/-- The value of a whole text. -/
def parse? (r : Reader α) (text : String) : Option α :=
  ((do let v ← r; atEnd; return v : Reader α).run text.toList).map Prod.fst

end Reader

end TraceTypes
