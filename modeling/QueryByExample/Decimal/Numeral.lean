/-
Decimal numerals: a natural number as its digits, most significant first and
without leading zeros, and a run of digits as a number. Reading undoes
writing (`valueOf_digits`).
-/
namespace QueryByExample.Decimal

abbrev digits (n : Nat) : List Char :=
  Nat.toDigits 10 n

abbrev valueOf (cs : List Char) : Nat :=
  Nat.ofDigitChars 10 cs 0

/-- An integer's digits, after a minus sign when it is negative. -/
def integer (n : Int) : List Char :=
  if n < 0 then '-' :: digits n.natAbs else digits n.natAbs

theorem valueOf_digits (n : Nat) : valueOf (digits n) = n :=
  Nat.ofDigitChars_ten_toDigits

end QueryByExample.Decimal
