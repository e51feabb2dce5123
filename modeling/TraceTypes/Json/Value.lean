/-!
# JSON values

What a JSON text says. Objects keep their fields in order and repeated names,
so that a decoder can decide what to make of them. Of numbers only integers of
64 bits are kept; no other number is an id, a count or a set of flags.
-/

namespace TraceTypes.Json

/-- A JSON value. -/
inductive Value where
  | null
  | bool (b : Bool)
  /-- A number without fraction and exponent that fits into 64 bits, signed or unsigned. -/
  | integer (n : Int)
  /-- Any other number. -/
  | float
  | string (s : String)
  | array (items : List Value)
  | object (fields : List (String × Value))

end TraceTypes.Json
