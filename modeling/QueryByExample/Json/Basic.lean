/-
JSON values. An object keeps its members in the order of the text, repeated
keys included; `lastWins` settles the repetitions. A number without fraction
and exponent stays an integer as long as it fits 64 bits, signed or not.
-/
import QueryByExample.Decimal.Binary64
import QueryByExample.Keyed

namespace QueryByExample

inductive Json where
  | null
  | bool (value : Bool)
  | int (value : Int)
  | double (value : Binary64)
  | string (value : String)
  | array (items : List Json)
  | object (members : List (String × Json))

namespace Json

inductive Kind where
  | null
  | boolean
  | number
  | string
  | array
  | object

/-- A kind with its article, as it stands in a sentence. -/
def Kind.text : Kind → String
  | .null => "null"
  | .boolean => "a boolean"
  | .number => "a number"
  | .string => "a string"
  | .array => "an array"
  | .object => "an object"

def kind : Json → Kind
  | .null => .null
  | .bool _ => .boolean
  | .int _ | .double _ => .number
  | .string _ => .string
  | .array _ => .array
  | .object _ => .object

mutual
/-- The value in which each object has a key once, at its first place and
with its last value. -/
def lastWins : Json → Json
  | .array items => .array (lastWinsItems items)
  | .object members => .object (lastWinsMembers [] members)
  | value => value

def lastWinsItems : List Json → List Json
  | [] => []
  | item :: rest => item.lastWins :: lastWinsItems rest

def lastWinsMembers (seen : List (String × Json)) : List (String × Json) → List (String × Json)
  | [] => seen
  | (key, value) :: rest => lastWinsMembers (Keyed.insert key value.lastWins seen) rest
end

end Json
end QueryByExample
