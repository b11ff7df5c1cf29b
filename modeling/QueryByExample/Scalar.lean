/-
Scalars: the values that a field compares with. Each has one text, the one
that stands in a path expression, and scalars of different kinds are never
equal, whatever their texts.
-/
import QueryByExample.Decimal.Layout
import QueryByExample.Json.Basic

namespace QueryByExample

inductive Scalar where
  | bool (value : Bool)
  | int (value : Int)
  | float (value : Binary64)
  | string (value : String)

namespace Scalar

/-- Equality within a kind; doubles are compared as numbers. -/
def equal : Scalar → Scalar → Bool
  | .bool a, .bool b => a == b
  | .int a, .int b => a == b
  | .float x, .float y => x == y
  | .string s, .string t => s == t
  | _, _ => false

instance : BEq Scalar := ⟨equal⟩

def text : Scalar → List Char
  | .bool true => ['t', 'r', 'u', 'e']
  | .bool false => ['f', 'a', 'l', 's', 'e']
  | .int n => Decimal.integer n
  | .float x => x.write .plain
  | .string s => s.toList

/-- A JSON number as a scalar: an integer where 64 signed bits hold it, and
else the nearest double. -/
def ofInt (n : Int) : Scalar :=
  if Int64.minValue.toInt ≤ n ∧ n ≤ Int64.maxValue.toInt then .int n
  else .float (Binary64.nearest (n < 0) n.natAbs 0)

/-- The scalar that a JSON value is, if it is one. -/
def ofJson? : Json → Option Scalar
  | .bool b => some (.bool b)
  | .int n => some (ofInt n)
  | .double x => some (.float x)
  | .string s => some (.string s)
  | .null | .array _ | .object _ => none

end Scalar
end QueryByExample
