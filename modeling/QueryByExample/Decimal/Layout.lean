/-
How a double is written: the shortest digits that read back, laid out with a
point among them or with an exponent. A `NumberStyle` says where positional
layout ends and whether a whole number keeps `.0`; the three styles at the end
are the ones this library writes.
-/
import QueryByExample.Decimal.Shortest

namespace QueryByExample

/-- A number from `10^least` on and below `10^bound` is written positionally,
any other with an exponent; without bounds every number is positional. -/
structure NumberStyle where
  bounds : Option (Int × Int)
  keepsPointZero : Bool

/-- Whether a number with `point` digits before the point is positional. -/
def NumberStyle.isPositional (style : NumberStyle) (point : Int) : Bool :=
  match style.bounds with
  | none => true
  | some (least, bound) => least < point && point ≤ bound

namespace Decimal

/-- The digits with the point after the first `point` of them, zeros standing
in for the digits that are not there. -/
def positional (style : NumberStyle) (ds : List Char) (point : Int) : List Char :=
  if point ≤ 0 then '0' :: '.' :: List.replicate point.natAbs '0' ++ ds
  else
    let whole := ds.take point.toNat ++ List.replicate (point.toNat - ds.length) '0'
    match ds.drop point.toNat with
    | [] => if style.keepsPointZero then whole ++ ['.', '0'] else whole
    | fraction => whole ++ '.' :: fraction

/-- One digit before the point, and the power of ten after an `e`. -/
def scientific (ds : List Char) (point : Int) : List Char :=
  let mantissa := match ds with
    | [] => []
    | [d] => [d]
    | d :: rest => d :: '.' :: rest
  mantissa ++ 'e' :: integer (point - 1)

/-- The digits of a decimal in a given style. Zero has the one digit `0`,
before the point. -/
def write (style : NumberStyle) (d : Decimal) : List Char :=
  let ds := digits d.mantissa
  let point : Int := if d.mantissa = 0 then 1 else ds.length + d.exponent
  if style.isPositional point then positional style ds point else scientific ds point

end Decimal

namespace Binary64

/-- The text of a double; a zero keeps its sign. -/
def write (style : NumberStyle) : Binary64 → List Char
  | .nan => ['N', 'a', 'N']
  | .infinite negative => if negative then ['-', 'i', 'n', 'f'] else ['i', 'n', 'f']
  | .finite negative significand scale =>
    let unsigned := (Decimal.shortest significand scale).write style
    if negative then '-' :: unsigned else unsigned

end Binary64

/-- In a path expression a number is all digits, and a whole number has no
point. -/
def NumberStyle.plain : NumberStyle := ⟨none, false⟩

/-- An inspected number always shows that it is a double. -/
def NumberStyle.inspected : NumberStyle := ⟨some (-4, 16), true⟩

/-- A number in JSON text is told from an integer by its point or exponent. -/
def NumberStyle.json : NumberStyle := ⟨some (-5, 16), true⟩

end QueryByExample
