/-
Double-precision numbers as plain data: comparison, the double nearest to a
decimal, products and quotients.

A finite double is `± significand * 2^scale / 2^1074`. Everything is exact
arithmetic on natural numbers: two doubles are compared by how many units of
`2^-1074` they are, and a value is rounded by one division with remainder.
-/
import QueryByExample.Decimal.Numeral

namespace QueryByExample

/-- A finite double has the value `significand * 2^scale / 2^1074`, negated or
not: the least positive double is one unit of `2^-1074`. `nearest` builds the
canonical form: a significand below `2^53`, and not below `2^52` unless the
scale is 0. -/
inductive Binary64 where
  | nan
  | infinite (negative : Bool)
  | finite (negative : Bool) (significand scale : Nat)

namespace Binary64

/-- How many of the least positive doubles make 1. -/
def unitsInOne : Nat := 1 <<< 1074

/-- A signed zero. -/
def zero (negative : Bool) : Binary64 := .finite negative 0 0

/-- The value of a finite double in units. -/
def scaled (negative : Bool) (significand scale : Nat) : Int :=
  let magnitude : Int := (significand <<< scale : Nat)
  if negative then -magnitude else magnitude

/-- Numeric equality: NaN differs from itself, and the two zeros are equal. -/
def equal : Binary64 → Binary64 → Bool
  | .infinite s, .infinite t => s == t
  | .finite s m e, .finite t n f => scaled s m e == scaled t n f
  | _, _ => false

instance : BEq Binary64 := ⟨equal⟩

/-- `a / d` to the nearest integer, a tie to the even one. -/
def roundQuotient (a d : Nat) : Nat :=
  let q := a / d
  let r := a % d
  if 2 * r < d then q
  else if d < 2 * r then q + 1
  else if q % 2 = 0 then q else q + 1

/-- The largest scale of a finite double. -/
def maxScale : Nat := 2045

/-- A double of any scale, infinite beyond the largest one. -/
def ofParts (negative : Bool) (significand scale : Nat) : Binary64 :=
  if scale ≤ maxScale then .finite negative significand scale else .infinite negative

/-- The double nearest to `a / d`, given a positive `d`: infinite from half a
unit above the largest finite double. -/
def ofQuotient (negative : Bool) (a d : Nat) : Binary64 :=
  let units := a * unitsInOne
  let scale := (units / d).log2 - 52
  let significand := roundQuotient units (d <<< scale)
  if significand < 1 <<< 53 then ofParts negative significand scale
  else ofParts negative (1 <<< 52) (scale + 1)

/-- The double nearest to `mantissa * 10^exponent`. With `magnitude` digits
before the point the value is below `10^magnitude` and not below a tenth of
it, so the first two bounds answer without writing out a power of ten. -/
def nearest (negative : Bool) (mantissa : Nat) (exponent : Int) : Binary64 :=
  let magnitude : Int := (Decimal.digits mantissa).length + exponent
  if mantissa = 0 ∨ magnitude < -323 then zero negative
  else if 309 < magnitude then .infinite negative
  else if 0 ≤ exponent then ofQuotient negative (mantissa * Nat.pow 10 exponent.toNat) 1
  else ofQuotient negative mantissa (Nat.pow 10 exponent.natAbs)

def isInfinite : Binary64 → Bool
  | .infinite _ => true
  | _ => false

def isZero : Binary64 → Bool
  | .finite _ significand _ => significand = 0
  | _ => false

/-- The exact product of two finite doubles is rounded once, as is their quotient. -/
def mul : Binary64 → Binary64 → Binary64
  | .finite s m e, .finite t n f => ofQuotient (s != t) ((m * n) <<< (e + f)) (unitsInOne * unitsInOne)
  | .infinite s, .infinite t => .infinite (s != t)
  | .infinite s, .finite t n _ | .finite s n _, .infinite t =>
    if n = 0 then .nan else .infinite (s != t)
  | _, _ => .nan

def div : Binary64 → Binary64 → Binary64
  | .finite s m e, .finite t n f =>
    if n ≠ 0 then ofQuotient (s != t) (m <<< e) (n <<< f)
    else if m = 0 then .nan
    else .infinite (s != t)
  | .infinite s, .finite t _ _ => .infinite (s != t)
  | .finite s _ _, .infinite t => zero (s != t)
  | _, _ => .nan

instance : Mul Binary64 := ⟨mul⟩
instance : Div Binary64 := ⟨div⟩

end Binary64
end QueryByExample
