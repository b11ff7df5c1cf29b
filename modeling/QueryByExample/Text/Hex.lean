/-
Hexadecimal digits. They are written in lower case and read in either, so
reading undoes writing (`hexValue?_digitChar`) and not the other way round.
-/
namespace QueryByExample

def hexValue? (c : Char) : Option Nat :=
  if '0' ≤ c ∧ c ≤ '9' then some (c.toNat - '0'.toNat)
  else if 'a' ≤ c ∧ c ≤ 'f' then some (c.toNat - 'a'.toNat + 10)
  else if 'A' ≤ c ∧ c ≤ 'F' then some (c.toNat - 'A'.toNat + 10)
  else none

theorem hexValue?_digitChar : ∀ n < 16, hexValue? n.digitChar = some n := by decide

end QueryByExample
