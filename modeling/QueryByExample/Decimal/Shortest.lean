/-
The shortest decimal that reads back as a given double.

The reals that round to a double form an interval around it, whose ends
belong to it when the significand is even. On each grid of multiples of a
power of ten, from coarse to fine, only the double's two neighbours need
testing; the first grid with a hit has the fewest digits. Of two hits the
nearer wins, and of two equally near the upper.
-/
import QueryByExample.Decimal.Binary64

namespace QueryByExample
open Binary64 (unitsInOne)

/-- The decimal `mantissa * 10^exponent`. -/
structure Decimal where
  mantissa : Nat
  exponent : Int

namespace Decimal

/-- The decimal without the zeros at the end of its mantissa. -/
def withoutTrailingZeros (d : Decimal) : Decimal :=
  if h : d.mantissa ≠ 0 ∧ d.mantissa % 10 = 0 then
    withoutTrailingZeros ⟨d.mantissa / 10, d.exponent + 1⟩
  else d
termination_by d.mantissa
decreasing_by omega

/-- A positive double and the ends of the interval of reals that round to it,
all counted in quarter units. -/
structure Surroundings where
  low : Nat
  value : Nat
  high : Nat
  closed : Bool

/-- The lower neighbour of a power of two is only half as far away as the
upper one, unless it has the smallest scale. -/
def Surroundings.of (significand scale : Nat) : Surroundings :=
  let unit := 1 <<< scale
  let value := 4 * significand * unit
  let below := if significand = 1 <<< 52 ∧ 0 < scale then unit else 2 * unit
  ⟨value - below, value, value + 2 * unit, significand % 2 = 0⟩

/-- The distance of two neighbours on the grid of multiples of `10^exponent`,
and the factor that brings quarter units to the same measure, so that both
are whole. -/
def gridStep (exponent : Int) : Nat × Nat :=
  if 0 ≤ exponent then (Nat.pow 10 exponent.toNat * (4 * unitsInOne), 1)
  else (4 * unitsInOne, Nat.pow 10 exponent.natAbs)

/-- Whether the `k`-th point of a grid reads back. -/
def Surroundings.holds (s : Surroundings) (step factor k : Nat) : Bool :=
  let x := k * step
  if s.closed then s.low * factor ≤ x && x ≤ s.high * factor
  else s.low * factor < x && x < s.high * factor

/-- The best multiple of `10^exponent` that reads back, if one does. -/
def Surroundings.onGrid? (s : Surroundings) (exponent : Int) : Option Decimal :=
  let (step, factor) := gridStep exponent
  let value := s.value * factor
  let below := value / step
  let above := below + 1
  match s.holds step factor below, s.holds step factor above with
  | true, true =>
    if value - below * step < above * step - value then some ⟨below, exponent⟩
    else some ⟨above, exponent⟩
  | true, false => some ⟨below, exponent⟩
  | false, true => some ⟨above, exponent⟩
  | false, false => none

/-- The exponent of the first digit of a positive number of units. Below 1 it
is `-j` for the least `j` with `1 ≤ a * 10^j`, that is, with more digits in
`10^j` than in the number below the rounded-up reciprocal. -/
def leadingExponent (a : Nat) : Int :=
  if unitsInOne ≤ a then (digits (a / unitsInOne)).length - 1
  else -((digits ((unitsInOne + a - 1) / a - 1)).length : Int)

/-- The shortest decimal that reads back as `significand * 2^scale` units;
seventeen digits always do. -/
def shortest (significand scale : Nat) : Decimal :=
  if significand = 0 then ⟨0, 0⟩
  else
    let s := Surroundings.of significand scale
    let first := leadingExponent (significand <<< scale)
    match (List.range 17).findSome? fun (n : Nat) => s.onGrid? (first - n) with
    | some d => d.withoutTrailingZeros
    | none => ⟨0, 0⟩

end Decimal
end QueryByExample
