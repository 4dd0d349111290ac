namespace SegmentQuery

/-- A number in decimal digits, with an optional fraction and an optional power of ten. -/
structure Numeral where
  negative : Bool
  whole : List Char
  fraction : Option (List Char)
  /-- The power of ten: whether it is negative, and its digits. -/
  exponent : Option (Bool × List Char)
  deriving Repr, DecidableEq

/-- A JSON value. The members of an object are kept in their order, repeated keys included. -/
inductive Json where
  | null
  | bool (b : Bool)
  /-- A whole number from 0 to the largest of 64 bits. -/
  | natural (n : UInt64)
  /-- Any other number. -/
  | numeral (n : Numeral)
  | string (s : String)
  | array (items : List Json)
  | object (members : List (String × Json))

namespace Json

/-- The text of a JSON string. -/
def text? : Json → Option String
  | string s => some s
  | _ => none

def natural? : Json → Option UInt64
  | natural n => some n
  | _ => none

def null? : Json → Option Unit
  | null => some ()
  | _ => none

/-- The texts of a list of JSON strings. -/
def texts? : Json → Option (List String)
  | array items => items.mapM text?
  | _ => none

end Json

end SegmentQuery
