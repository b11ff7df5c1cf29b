/-
Documents of a known shape. The whole first value of a text is read before
its shape is looked at, and what follows it is looked at last: a fault in the
value comes before a wrong shape, and a wrong shape before trailing text.
-/
import QueryByExample.Json.Reader

namespace QueryByExample.Json

inductive DocumentError where
  /-- The text is not one JSON value. -/
  | malformed
  /-- It is one, but not of the shape that the named type has. -/
  | mismatched (type : String)

/-- The wording for a mismatch; malformed text has none of its own. -/
def DocumentError.message? : DocumentError → Option String
  | .malformed => none
  | .mismatched type => some ("data did not match any variant of untagged enum " ++ type)

def readAs {α : Type} (type : String) (ofJson? : Json → Option α) (text : String) :
    Except DocumentError α :=
  match readFirst? text with
  | none => .error .malformed
  | some (value, rest) =>
    match ofJson? value with
    | none => .error (.mismatched type)
    | some a => if isEnd rest then .ok a else .error .malformed

/-- The strings of an array that holds nothing else. -/
def strings? : Json → Option (List String)
  | .array items => items.mapM fun
    | .string s => some s
    | _ => none
  | _ => none

end QueryByExample.Json
