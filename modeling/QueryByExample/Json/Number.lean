/-
Numbers of JSON text, from their digits. One without fraction and exponent is
an integer where 64 bits hold it, signed or not; every other is a double.

A double comes about in steps, each of them rounded: the digits are a number
as far as 64 bits hold them, this number becomes a double, and the double is
multiplied or divided by the double of a power of ten. So the result can be a
neighbour of the double that is nearest to what was written. A number that
leaves the doubles on the way is refused, and one that gets too small is a
zero.
-/
import QueryByExample.Decimal.Binary64
import QueryByExample.Json.Basic

namespace QueryByExample.Json
open Decimal

/-- A number with as many of the digits behind it as 64 bits hold, and how
many these are. -/
def appendDigits (n : Nat) : List Char → Nat × Nat
  | [] => (n, 0)
  | c :: rest =>
    let longer := Nat.ofDigitChars 10 [c] n
    if longer < UInt64.size then
      let (value, count) := appendDigits longer rest
      (value, count + 1)
    else (n, 0)

/-- The double of a power of ten. -/
def power (n : Nat) : Binary64 :=
  .nearest false 1 n

/-- The largest power of ten that is not infinite as a double. -/
def maxPower : Nat := 308

/-- `x / 10^n`, by as many divisions as the powers of ten make necessary. -/
def divideByPower (x : Binary64) (n : Nat) : Binary64 :=
  if _h : maxPower < n ∧ x.isZero = false then divideByPower (x / power maxPower) (n - maxPower)
  else x / power n
termination_by n
decreasing_by
  simp only [maxPower] at *
  omega

/-- `x * 10^exponent`, unless that is infinite. -/
def scale? (x : Binary64) (exponent : Int) : Option Binary64 :=
  if exponent < 0 then some (divideByPower x exponent.natAbs)
  else if x.isZero then some x
  else
    let y := x * power exponent.toNat
    if y.isInfinite then none else some y

/-- The double with given digits before and after the point. A digit before it
that was left out still counts as a place. -/
def double? (negative : Bool) (whole fraction : List Char) (exponent : Int) : Option Json := do
  let (significand, places) := appendDigits 0 whole
  let (significand, fractionPlaces) := appendDigits significand fraction
  let x ← scale? (.nearest negative significand 0)
    (exponent + (whole.length - places : Nat) - fractionPlaces)
  return .double x

/-- A number without fraction and exponent. Minus zero is a double, which keeps
the sign. -/
def wholeNumber? (negative : Bool) (whole : List Char) : Option Json :=
  let n := valueOf whole
  if negative then
    if 0 < n ∧ n ≤ UInt64.size / 2 then some (.int (-n)) else double? true whole [] 0
  else
    if n < UInt64.size then some (.int n) else double? false whole [] 0

end QueryByExample.Json
