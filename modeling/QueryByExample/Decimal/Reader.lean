/-
Reading numbers: the parts that every numeral has, and the text of a double.
The text of a double is a name of an infinity or of NaN in any letter case,
or digits with a point before, among or after them and an optional exponent,
after an optional sign.
-/
import QueryByExample.Decimal.Binary64

namespace QueryByExample

namespace Decimal

/-- The digits at the start of the text, and the text after them. -/
def spanDigits (cs : List Char) : List Char × List Char :=
  (cs.takeWhile Char.isDigit, cs.dropWhile Char.isDigit)

/-- A sign at the start of the text, true for a minus, and the text after it. -/
def spanSign : List Char → Bool × List Char
  | '-' :: rest => (true, rest)
  | '+' :: rest => (false, rest)
  | rest => (false, rest)

/-- The integer, with an optional sign, at the start of the text. -/
def spanInteger? (cs : List Char) : Option (Int × List Char) :=
  let (negative, rest) := spanSign cs
  match spanDigits rest with
  | ([], _) => none
  | (ds, rest) => some (if negative then -(valueOf ds : Int) else valueOf ds, rest)

/-- The power of ten at the start of the text, 0 when there is none. An `e`
without digits after it is no number. -/
def spanExponent? : List Char → Option (Int × List Char)
  | 'e' :: rest | 'E' :: rest => spanInteger? rest
  | rest => some (0, rest)

end Decimal

namespace Binary64
open Decimal

/-- The double that a numeral without a sign writes. -/
def ofNumeral? (negative : Bool) (cs : List Char) : Option Binary64 :=
  let (whole, rest) := spanDigits cs
  let (fraction, rest) := match rest with
    | '.' :: rest => spanDigits rest
    | rest => ([], rest)
  match whole ++ fraction, spanExponent? rest with
  | d :: ds, some (exponent, []) =>
    some (nearest negative (valueOf (d :: ds)) (exponent - fraction.length))
  | _, _ => none

def ofText? (s : String) : Option Binary64 :=
  let (negative, body) := spanSign s.toList
  match String.ofList (body.map Char.toLower) with
  | "nan" => some nan
  | "inf" | "infinity" => some (infinite negative)
  | _ => ofNumeral? negative body

end Binary64
end QueryByExample
