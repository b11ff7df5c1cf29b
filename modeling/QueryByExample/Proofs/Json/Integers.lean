/-
Integers that 64 bits hold, signed or not.

In JSON text such an integer, in its own digits, is read as itself
(`value?_integer`). As a scalar it has its digits again as long as 64 signed
bits hold it; beyond them it has the text of the nearest double. So the texts
of two of them differ, unless both are beyond 64 signed bits and near the same
double (`text_ofInt_eq_iff`).
-/
import Mathlib.Data.List.Basic
import QueryByExample.Json.Reader
import QueryByExample.Proofs.Decimal.Integers
import QueryByExample.Proofs.Json.Layout
import QueryByExample.Scalar

namespace QueryByExample

namespace Decimal

theorem isDigit_of_mem_digits {n : Nat} {c : Char} (h : c ∈ digits n) : c.isDigit = true :=
  Nat.isDigit_of_mem_toDigits (by decide) (by decide) h

theorem minus_not_mem_digits (n : Nat) : '-' ∉ digits n :=
  fun hmem => absurd (isDigit_of_mem_digits hmem) (by decide)

/-- Only zero begins with a zero. -/
theorem head?_digits_ne_zero (n : Nat) (h : 0 < n) : (digits n).head? ≠ some '0' := by
  induction n using Nat.strongRecOn with
  | ind n ih =>
    by_cases hsmall : n < 10
    · rw [digits, Nat.toDigits_of_lt_base hsmall, List.head?_cons, ne_eq, Option.some.injEq]
      exact (by decide : ∀ d < 10, 0 < d → Nat.digitChar d ≠ '0') n hsmall h
    · rw [Nat.not_lt] at hsmall
      have hfront := ih (n / 10) (by omega) (by omega)
      rw [digits, Nat.toDigits_of_base_le (by decide) hsmall, List.head?_append_of_ne_nil _ Nat.toDigits_ne_nil]
      exact hfront

theorem digits_ne_zero_cons (n : Nat) (d : Char) (ds : List Char) : digits n ≠ '0' :: d :: ds := by
  intro h
  obtain rfl | hpos := Nat.eq_zero_or_pos n
  · cases h
  · exact head?_digits_ne_zero n hpos (by rw [h]; rfl)

theorem integer_of_nonneg {n : Int} (h : 0 ≤ n) : integer n = digits n.toNat := by
  rw [integer, if_neg (by omega)]
  congr 1
  omega

theorem integer_of_neg {n : Int} (h : n < 0) : integer n = '-' :: digits n.natAbs := by
  rw [integer, if_pos h]

theorem mem_integer {n : Int} {c : Char} (h : c ∈ integer n) : c = '-' ∨ c.isDigit = true := by
  rw [integer] at h
  split at h
  · exact (List.mem_cons.1 h).imp_right isDigit_of_mem_digits
  · exact .inr (isDigit_of_mem_digits h)

theorem integer_injective {n m : Int} (h : integer n = integer m) : n = m := by
  have hvalue {k l : Nat} (hkl : digits k = digits l) : k = l := by
    rw [← valueOf_digits k, hkl, valueOf_digits]
  obtain hn | hn := Int.lt_or_le n 0 <;> obtain hm | hm := Int.lt_or_le m 0
  · rw [integer_of_neg hn, integer_of_neg hm, List.cons.injEq] at h
    have := hvalue h.2
    omega
  · rw [integer_of_neg hn, integer_of_nonneg hm] at h
    exact absurd (h ▸ List.mem_cons_self) (minus_not_mem_digits _)
  · rw [integer_of_nonneg hn, integer_of_neg hm] at h
    exact absurd (h ▸ List.mem_cons_self) (minus_not_mem_digits _)
  · rw [integer_of_nonneg hn, integer_of_nonneg hm] at h
    have := hvalue h
    omega

end Decimal

namespace Json
open Decimal

/-- 64 bits hold the integer, signed or not. -/
def IsExact (n : Int) : Prop :=
  Int64.minValue.toInt ≤ n ∧ n < UInt64.size

instance (n : Int) : Decidable (IsExact n) := inferInstanceAs (Decidable (_ ∧ _))

theorem isExact_iff {n : Int} : IsExact n ↔ -9223372036854775808 ≤ n ∧ n < 18446744073709551616 := Iff.rfl

/-- No number goes on in what comes next. -/
def EndsNumber (rest : List Char) : Prop :=
  ∀ c ∈ rest.head?, c.isDigit = false ∧ c ≠ '.' ∧ c ≠ 'e' ∧ c ≠ 'E'

section Reading
variable {rest : List Char} {n : Int} (hrest : EndsNumber rest)
include hrest

theorem spanDigits_digits (n : Nat) : spanDigits (digits n ++ rest) = (digits n, rest) := by
  have hdigits : ∀ c ∈ digits n, c.isDigit = true := fun c => isDigit_of_mem_digits
  have hstop : rest.takeWhile Char.isDigit = [] ∧ rest.dropWhile Char.isDigit = rest := by
    cases rest with
    | nil => exact ⟨rfl, rfl⟩
    | cons c cs =>
      have hc := (hrest c rfl).1
      exact ⟨List.takeWhile_cons_of_neg (by simp [hc]), List.dropWhile_cons_of_neg (by simp [hc])⟩
  rw [spanDigits, List.takeWhile_append_of_pos hdigits, List.dropWhile_append_of_pos hdigits, hstop.1, hstop.2,
    List.append_nil]

theorem fraction?_rest : fraction? rest = some ([], rest) := by
  rw [fraction?.eq_2]
  intro cs h
  exact (hrest '.' (by rw [h]; rfl)).2.1 rfl

theorem spanExponent?_rest : spanExponent? rest = some (0, rest) := by
  rw [spanExponent?.eq_3]
  · intro cs h
    exact (hrest 'e' (by rw [h]; rfl)).2.2.1 rfl
  · intro cs h
    exact (hrest 'E' (by rw [h]; rfl)).2.2.2 rfl

theorem unsigned?_digits (negative : Bool) (n : Nat) :
    unsigned? negative (digits n ++ rest) = (wholeNumber? negative (digits n)).map (·, rest) := by
  simp only [unsigned?, spanDigits_digits hrest]
  split
  next h => exact absurd h Nat.toDigits_ne_nil
  next h => exact absurd h (digits_ne_zero_cons n _ _)
  next =>
    simp only [fraction?_rest hrest, spanExponent?_rest hrest, Option.bind_eq_bind, Option.bind_some, if_true]
    cases wholeNumber? negative (digits n) <;> rfl

theorem number?_integer (hn : IsExact n) : number? (integer n ++ rest) = some (.int n, rest) := by
  obtain ⟨hmin, hmax⟩ := isExact_iff.1 hn
  obtain hneg | hpos := Int.lt_or_le n 0
  · rw [integer_of_neg hneg, List.cons_append, number?, unsigned?_digits hrest, wholeNumber?, valueOf_digits]
    have hhalf : n.natAbs ≤ UInt64.size / 2 := by
      show n.natAbs ≤ 9223372036854775808
      omega
    rw [if_pos rfl, if_pos ⟨by omega, hhalf⟩, Option.map_some]
    congr 3
    omega
  · have hsize : n.toNat < UInt64.size := by
      show n.toNat < 18446744073709551616
      omega
    rw [integer_of_nonneg hpos, number?.eq_2, unsigned?_digits hrest, wholeNumber?, valueOf_digits,
      if_neg (by decide), if_pos hsize, Option.map_some, Int.toNat_of_nonneg hpos]
    intro cs h
    obtain ⟨d, ds, hds⟩ := List.exists_cons_of_ne_nil (Nat.toDigits_ne_nil (n := n.toNat) (b := 10))
    rw [digits, hds, List.cons_append, List.cons.injEq] at h
    rw [h.1] at hds
    exact minus_not_mem_digits n.toNat (by rw [digits, hds]; exact List.mem_cons_self)

end Reading

theorem value?_number (depth : Nat) {c : Char} (hc : c = '-' ∨ c.isDigit = true) (cs : List Char) :
    value? depth (c :: cs) = number? (c :: cs) := by
  have hne (d : Char) (hminus : d ≠ '-') (hdigit : d.isDigit = false) : c ≠ d := by
    rintro rfl
    rcases hc with hc | hc
    · exact hminus hc
    · exact absurd hc (by simp [hdigit])
  have hspace : isSpace c = false := by
    simp [isSpace, hne ' ' (by decide) (by decide), hne '\t' (by decide) (by decide),
      hne '\n' (by decide) (by decide), hne '\r' (by decide) (by decide)]
  rw [value?.eq_def, skipSpaces_cons hspace]
  split
  next h => exact absurd (List.cons.inj h).1 (hne _ (by decide) (by decide))
  next h => exact absurd (List.cons.inj h).1 (hne _ (by decide) (by decide))
  next h => exact absurd (List.cons.inj h).1 (hne _ (by decide) (by decide))
  next h => exact absurd (List.cons.inj h).1 (hne _ (by decide) (by decide))
  next h => exact absurd (List.cons.inj h).1 (hne _ (by decide) (by decide))
  next h => exact absurd (List.cons.inj h).1 (hne _ (by decide) (by decide))
  next => rfl

/-- **Integers are read as they are written**, whatever is around them. -/
theorem value?_integer (depth : Nat) {n : Int} (hn : IsExact n) {rest : List Char} (hrest : EndsNumber rest) :
    value? depth (integer n ++ rest) = some (.int n, rest) := by
  obtain ⟨c, cs, hcs⟩ : ∃ c cs, integer n = c :: cs := by
    rw [integer]
    split
    · exact ⟨_, _, rfl⟩
    · exact List.exists_cons_of_ne_nil Nat.toDigits_ne_nil
  have hc : c = '-' ∨ c.isDigit = true := mem_integer (n := n) (by rw [hcs]; exact List.mem_cons_self)
  rw [← number?_integer hrest hn, hcs, List.cons_append, value?_number depth hc]

end Json

namespace Scalar
open Json (IsExact isExact_iff)
open Decimal
variable {n m : Int}

theorem text_ofInt_of_le (hn : IsExact n) (h : n ≤ Int64.maxValue.toInt) : (ofInt n).text = integer n := by
  rw [ofInt, if_pos ⟨hn.1, h⟩, text]

theorem ofInt_of_lt (h : Int64.maxValue.toInt < n) : ofInt n = .float (Binary64.nearest false n.toNat 0) := by
  have hmax : 9223372036854775807 < n := h
  have hsign : decide (n < 0) = false := decide_eq_false (by omega)
  have hnat : n.natAbs = n.toNat := by omega
  rw [ofInt, if_neg fun hn => absurd hn.2 (Int.not_le.2 h), hsign, hnat]

/-- Beyond 64 signed bits the text is that of a large double. -/
theorem exists_isLarge_of_lt (hn : IsExact n) (h : Int64.maxValue.toInt < n) :
    ∃ significand scale, IsLarge significand scale ∧
      Binary64.nearest false n.toNat 0 = .finite false significand (1074 + scale) := by
  have hmax : 9223372036854775807 < n := h
  have hsize := (isExact_iff.1 hn).2
  exact Decimal.exists_isLarge (by omega) (by omega)

/-- Signs and digits alone. -/
theorem mem_text_ofInt (hn : IsExact n) {c : Char} (hc : c ∈ (ofInt n).text) : c = '-' ∨ c.isDigit = true := by
  obtain hlt | hle := Int.lt_or_le Int64.maxValue.toInt n
  · obtain ⟨significand, scale, hlarge, hnearest⟩ := exists_isLarge_of_lt hn hlt
    rw [ofInt_of_lt hlt, hnearest] at hc
    exact .inr (hlarge.write_plain.2.2 c hc)
  · rw [text_ofInt_of_le hn hle] at hc
    exact mem_integer hc

theorem text_ofInt_ne (hn : IsExact n) (hlt : Int64.maxValue.toInt < n) (hm : IsExact m)
    (hle : m ≤ Int64.maxValue.toInt) : (ofInt n).text ≠ (ofInt m).text := by
  obtain ⟨significand, scale, hlarge, hnearest⟩ := exists_isLarge_of_lt hn hlt
  obtain ⟨hvalue, -, hdigits⟩ := hlarge.write_plain
  rw [ofInt_of_lt hlt, hnearest, text_ofInt_of_le hm hle]
  intro heq
  change _ = integer m at heq
  rw [text] at heq
  rw [heq] at hvalue hdigits
  obtain hneg | hpos := Int.lt_or_le m 0
  · rw [integer_of_neg hneg] at hdigits
    exact absurd (hdigits '-' List.mem_cons_self) (by decide)
  · have hmax : m ≤ 9223372036854775807 := hle
    rw [integer_of_nonneg hpos, valueOf_digits] at hvalue
    omega

/-- The text tells the integer, up to the rounding of those that 64 signed bits
do not hold. -/
theorem text_ofInt_eq_iff (hn : IsExact n) (hm : IsExact m) : (ofInt n).text = (ofInt m).text ↔
    n = m ∨ Int64.maxValue.toInt < n ∧ Int64.maxValue.toInt < m ∧
      Binary64.nearest false n.toNat 0 = Binary64.nearest false m.toNat 0 := by
  constructor
  · intro heq
    obtain hlt | hle := Int.lt_or_le Int64.maxValue.toInt n <;>
      obtain hlt' | hle' := Int.lt_or_le Int64.maxValue.toInt m
    · obtain ⟨significand, scale, hlarge, hnearest⟩ := exists_isLarge_of_lt hn hlt
      obtain ⟨significand', scale', hlarge', hnearest'⟩ := exists_isLarge_of_lt hm hlt'
      rw [ofInt_of_lt hlt, ofInt_of_lt hlt', hnearest, hnearest'] at heq
      rw [hnearest, hnearest']
      exact .inr ⟨hlt, hlt', hlarge.eq_of_write_eq hlarge' heq⟩
    · exact absurd heq (text_ofInt_ne hn hlt hm hle')
    · exact absurd heq.symm (text_ofInt_ne hm hlt' hn hle)
    · rw [text_ofInt_of_le hn hle, text_ofInt_of_le hm hle'] at heq
      exact .inl (integer_injective heq)
  · rintro (rfl | ⟨hlt, hlt', hnearest⟩)
    · rfl
    · rw [ofInt_of_lt hlt, ofInt_of_lt hlt', hnearest]

end Scalar
end QueryByExample
