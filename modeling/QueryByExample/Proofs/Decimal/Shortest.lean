/-
What the shortest decimal tells of its double.

A decimal reads back as one double at most: the surroundings of two doubles
have no point in common (`Surroundings.holds_unique`). The shortest decimal of
a double reads back as this double, and that of a large enough whole double is
a whole number (`shortest_whole`), which in plain text is a run of digits.
-/
import Mathlib.Algebra.Group.Nat.Defs
import QueryByExample.Decimal.Layout

namespace QueryByExample
open Binary64 (unitsInOne)

namespace Decimal

/-- The form in which `nearest` gives a finite double. -/
structure IsCanonical (significand scale : Nat) : Prop where
  lt : significand < 2 ^ 53
  le : 2 ^ 52 ≤ significand ∨ scale = 0

namespace Surroundings
variable {m m' e e' : Nat}

theorem high_of (m e : Nat) : (of m e).high = 4 * (m * 2 ^ e) + 2 * 2 ^ e := by
  simp only [of, Nat.shiftLeft_eq, Nat.one_mul, Nat.mul_assoc]

theorem low_of (m e : Nat) : (of m e).low =
    4 * (m * 2 ^ e) - if m = 2 ^ 52 ∧ 0 < e then 2 ^ e else 2 * 2 ^ e := by
  simp only [of, Nat.shiftLeft_eq, Nat.one_mul, Nat.mul_assoc]

theorem closed_of (m e : Nat) : (of m e).closed = decide (m % 2 = 0) := rfl

/-- On one scale the next double is four quarter units away. -/
theorem high_le_low_of_lt (hlt : m < m') : (of m e).high ≤ (of m' e).low ∧
    ((of m e).high = (of m' e).low → m % 2 = 0 → m' % 2 ≠ 0) := by
  rw [high_of, low_of]
  have hpos : 0 < 2 ^ e := Nat.two_pow_pos e
  generalize 2 ^ e = u at hpos
  have hp : (m + 1) * u ≤ m' * u := Nat.mul_le_mul_right u hlt
  have hnext : m' * u = (m + 1) * u → m' = m + 1 := Nat.eq_of_mul_eq_mul_right hpos
  rw [Nat.add_mul, Nat.one_mul] at hp hnext
  split <;> omega

/-- The least significand of a scale is above the greatest of the one before. -/
theorem high_le_low_of_scale_lt (hm : m < 2 ^ 53) (hm' : 2 ^ 52 ≤ m') (hlt : e < e') :
    (of m e).high ≤ (of m' e').low ∧ ((of m e).high = (of m' e').low → m % 2 = 0 → m' % 2 ≠ 0) := by
  rw [high_of, low_of]
  have hpos : 0 < 2 ^ e := Nat.two_pow_pos e
  have hscale : 2 ^ (e + 1) ≤ 2 ^ e' := Nat.pow_le_pow_right (by decide) hlt
  rw [Nat.pow_succ] at hscale
  generalize 2 ^ e = u at hpos hscale
  generalize 2 ^ e' = u' at hscale
  have hlast : m ≤ 9007199254740991 := by omega
  have hp : m * u ≤ 9007199254740991 * u := Nat.mul_le_mul_right u hlast
  split
  next h =>
    have hlow : 18014398509481983 * (u * 2) ≤ 18014398509481983 * u' := Nat.mul_le_mul_left _ hscale
    have hvalue : 4 * (m' * u') - u' = 18014398509481983 * u' := by
      rw [h.1]
      omega
    rw [hvalue]
    refine ⟨Nat.le_trans (by omega) hlow, fun heq heven => ?_⟩
    rw [← heq] at hlow
    have hlast : m = 9007199254740991 := Nat.eq_of_mul_eq_mul_right hpos (by omega)
    omega
  next h =>
    have hfirst : 4503599627370497 ≤ m' := by omega
    have hp' : 4503599627370497 * u' ≤ m' * u' := Nat.mul_le_mul_right u' hfirst
    have hapart : 4 * (m * u) + 2 * u < 4 * (m' * u') - 2 * u' := by omega
    exact ⟨Nat.le_of_lt hapart, fun heq => absurd heq (Nat.ne_of_lt hapart)⟩

/-- The surroundings of a double end where those of a greater one begin or
before that, and where they meet, not both have the end. -/
theorem high_le_low (hc : IsCanonical m e) (hc' : IsCanonical m' e') (hlt : e < e' ∨ e = e' ∧ m < m') :
    (of m e).high ≤ (of m' e').low ∧ ((of m e).high = (of m' e').low → m % 2 = 0 → m' % 2 ≠ 0) := by
  rcases hlt with hlt | ⟨rfl, hlt⟩
  · exact high_le_low_of_scale_lt hc.lt (hc'.le.resolve_right (Nat.ne_zero_of_lt hlt)) hlt
  · exact high_le_low_of_lt hlt

theorem holds_iff {s : Surroundings} {step factor k : Nat} : s.holds step factor k = true ↔
    s.low * factor ≤ k * step ∧ k * step ≤ s.high * factor ∧
      (s.closed = true ∨ s.low * factor ≠ k * step ∧ k * step ≠ s.high * factor) := by
  rw [holds]
  split
  next h => simp [h]
  next h =>
    simp only [h, Bool.and_eq_true, decide_eq_true_eq, Bool.false_eq_true, false_or]
    omega

/-- What reads back as a double reads back as no greater one. -/
theorem not_holds_of_lt {step factor k : Nat} (hc : IsCanonical m e) (hc' : IsCanonical m' e')
    (hlt : e < e' ∨ e = e' ∧ m < m') (hfactor : 0 < factor) (h : (of m e).holds step factor k = true) :
    ¬ (of m' e').holds step factor k = true := by
  intro h'
  obtain ⟨-, hhigh, hends⟩ := holds_iff.1 h
  obtain ⟨hlow, -, hends'⟩ := holds_iff.1 h'
  obtain ⟨hle, hmeet⟩ := high_le_low hc hc' hlt
  have hboth : (of m' e').low * factor ≤ (of m e).high * factor := Nat.le_trans hlow hhigh
  have heq : (of m e).high = (of m' e').low := Nat.le_antisymm hle (Nat.le_of_mul_le_mul_right hboth hfactor)
  rw [closed_of, decide_eq_true_eq] at hends hends'
  rw [← heq] at hlow hends'
  have hx : k * step = (of m e).high * factor := Nat.le_antisymm hhigh hlow
  exact hmeet heq (hends.resolve_right fun hne => hne.2 hx) (hends'.resolve_right fun hne => hne.1 hx.symm)

/-- A decimal reads back as one double at most. -/
theorem holds_unique {step factor k : Nat} (hc : IsCanonical m e) (hc' : IsCanonical m' e') (hfactor : 0 < factor)
    (h : (of m e).holds step factor k = true) (h' : (of m' e').holds step factor k = true) : m = m' ∧ e = e' := by
  have hnot : ¬ (e < e' ∨ e = e' ∧ m < m') := fun hlt => not_holds_of_lt hc hc' hlt hfactor h h'
  have hnot' : ¬ (e' < e ∨ e' = e ∧ m' < m) := fun hlt => not_holds_of_lt hc' hc hlt hfactor h' h
  omega

/-- What is found on a grid is on this grid and reads back. -/
theorem onGrid?_eq_some {s : Surroundings} {exponent : Int} {d : Decimal} (h : s.onGrid? exponent = some d) :
    d.exponent = exponent ∧ s.holds (gridStep exponent).1 (gridStep exponent).2 d.mantissa = true := by
  rw [onGrid?] at h
  dsimp only at h
  split at h
  next hbelow habove =>
    split at h <;> cases h
    · exact ⟨rfl, hbelow⟩
    · exact ⟨rfl, habove⟩
  next hbelow _ =>
    cases h
    exact ⟨rfl, hbelow⟩
  next _ habove =>
    cases h
    exact ⟨rfl, habove⟩
  next => cases h

theorem onGrid?_isSome_of_below {s : Surroundings} {exponent : Int}
    (h : s.holds (gridStep exponent).1 (gridStep exponent).2
      (s.value * (gridStep exponent).2 / (gridStep exponent).1) = true) : (s.onGrid? exponent).isSome = true := by
  rw [onGrid?]
  dsimp only
  rw [h]
  split <;> simp_all
  split <;> rfl

end Surroundings

/-- Zeros at the end of a mantissa go into the exponent. -/
theorem withoutTrailingZeros_eq (d : Decimal) : ∃ k : Nat, d.withoutTrailingZeros.exponent = d.exponent + k ∧
    d.mantissa = d.withoutTrailingZeros.mantissa * 10 ^ k := by
  induction d using withoutTrailingZeros.induct with
  | case1 d h ih =>
    obtain ⟨k, hexponent, hmantissa⟩ := ih
    rw [withoutTrailingZeros, dif_pos h]
    refine ⟨k + 1, ?_, ?_⟩
    · rw [hexponent]
      push_cast
      omega
    · dsimp only at hmantissa
      rw [Nat.pow_succ, ← Nat.mul_assoc, ← hmantissa]
      omega
  | case2 d h =>
    rw [withoutTrailingZeros, dif_neg h]
    exact ⟨0, by simp, by simp⟩

/-- A whole decimal is written as its mantissa with zeros. -/
theorem write_plain_of_whole {d : Decimal} (hexponent : 0 ≤ d.exponent) (hmantissa : d.mantissa ≠ 0) :
    d.write .plain = digits d.mantissa ++ List.replicate d.exponent.toNat '0' := by
  have hpoint : ¬ ((digits d.mantissa).length + d.exponent : Int) ≤ 0 := by
    have hdigits : 0 < (digits d.mantissa).length := Nat.length_toDigits_pos
    omega
  have htoNat : ((digits d.mantissa).length + d.exponent : Int).toNat =
      (digits d.mantissa).length + d.exponent.toNat := by omega
  rw [write, if_neg hmantissa]
  simp only [NumberStyle.isPositional, NumberStyle.plain, if_true, positional, if_neg hpoint, htoNat]
  rw [List.take_of_length_le (Nat.le_add_right _ _), List.drop_eq_nil_of_le (Nat.le_add_right _ _),
    Nat.add_sub_cancel_left]
  rfl

theorem valueOf_write_plain {d : Decimal} (hexponent : 0 ≤ d.exponent) (hmantissa : d.mantissa ≠ 0) :
    valueOf (d.write .plain) = d.mantissa * 10 ^ d.exponent.toNat := by
  rw [write_plain_of_whole hexponent hmantissa, valueOf, Nat.ofDigitChars_append, Nat.ofDigitChars_ten_toDigits,
    Nat.ofDigitChars_replicate_zero, Nat.mul_comm]

theorem isDigit_of_mem_write_plain {d : Decimal} (hexponent : 0 ≤ d.exponent) (hmantissa : d.mantissa ≠ 0) :
    ∀ c ∈ d.write .plain, c.isDigit = true := by
  rw [write_plain_of_whole hexponent hmantissa, List.forall_mem_append]
  refine ⟨fun c hc => Nat.isDigit_of_mem_toDigits (by decide) (by decide) hc, fun c hc => ?_⟩
  rw [List.eq_of_mem_replicate hc]
  rfl

theorem one_shiftLeft_pos (k : Nat) : 0 < 1 <<< k := by
  rw [Nat.one_shiftLeft]
  exact Nat.two_pow_pos k

theorem two_pow_add_eq (k j : Nat) : 2 ^ (k + j) = 2 ^ j * 1 <<< k := by
  rw [Nat.one_shiftLeft, Nat.pow_add, Nat.mul_comm]

theorem unitsInOne_pos : 0 < unitsInOne := one_shiftLeft_pos 1074

/-- The units in a power of two. -/
theorem two_pow_scale (j : Nat) : 2 ^ (1074 + j) = 2 ^ j * unitsInOne := two_pow_add_eq 1074 j

theorem gridStep_of_nonneg {exponent : Int} (h : 0 ≤ exponent) :
    gridStep exponent = (10 ^ exponent.toNat * (4 * unitsInOne), 1) := if_pos h

/-- The units of a whole double. -/
theorem shift_whole (m j : Nat) : m * 2 ^ (1074 + j) = m * 2 ^ j * unitsInOne := by
  rw [two_pow_scale, Nat.mul_assoc]

theorem leadingExponent_whole {m j : Nat} (hm : m ≠ 0) :
    leadingExponent (m <<< (1074 + j)) = (digits (m * 2 ^ j)).length - 1 := by
  have hvalue : 0 < m * 2 ^ j := Nat.mul_pos (Nat.pos_of_ne_zero hm) (Nat.two_pow_pos j)
  have hle : unitsInOne ≤ m * 2 ^ j * unitsInOne := Nat.le_mul_of_pos_left _ hvalue
  rw [Nat.shiftLeft_eq, shift_whole, leadingExponent, if_pos hle, Nat.mul_div_cancel _ unitsInOne_pos]

/-- A grid finer than the surroundings has a point in them. -/
theorem Surroundings.onGrid?_isSome_of_step_le {m j n : Nat} (hm : m ≠ 0)
    (hstep : 4 * 10 ^ n ≤ if m = 2 ^ 52 then 2 ^ j else 2 * 2 ^ j) : ((of m (1074 + j)).onGrid? n).isSome = true := by
  have hscale : 0 < 2 ^ (1074 + j) := Nat.two_pow_pos _
  have hunits : 2 ^ (1074 + j) ≤ m * 2 ^ (1074 + j) := Nat.le_mul_of_pos_left _ (Nat.pos_of_ne_zero hm)
  have hpos : 0 < 10 ^ n * (4 * unitsInOne) :=
    Nat.mul_pos (Nat.pow_pos (by decide)) (Nat.mul_pos (by decide) unitsInOne_pos)
  have hgap : 10 ^ n * (4 * unitsInOne) ≤
      if m = 2 ^ 52 ∧ 0 < 1074 + j then 2 ^ (1074 + j) else 2 * 2 ^ (1074 + j) := by
    rw [← Nat.mul_assoc, Nat.mul_comm (10 ^ n), two_pow_scale]
    split at hstep
    next hm =>
      rw [if_pos ⟨hm, by omega⟩]
      exact Nat.mul_le_mul_right _ hstep
    next hm =>
      rw [if_neg fun h => hm h.1, ← Nat.mul_assoc]
      exact Nat.mul_le_mul_right _ hstep
  have hvalue : (of m (1074 + j)).value = 4 * (m * 2 ^ (1074 + j)) := by
    simp only [of, Nat.shiftLeft_eq, Nat.one_mul, Nat.mul_assoc]
  refine onGrid?_isSome_of_below (holds_iff.2 ?_)
  rw [gridStep_of_nonneg (Int.natCast_nonneg n), Int.toNat_natCast, low_of, high_of, hvalue]
  simp only [Nat.mul_one]
  generalize 10 ^ n * (4 * unitsInOne) = step at hpos hgap ⊢
  generalize 2 ^ (1074 + j) = u at hscale hunits hgap ⊢
  -- the point is at most one step below the value, the surroundings begin at least one step below it
  have hpoint := Nat.div_add_mod' (4 * (m * u)) step
  have hrest := Nat.mod_lt (4 * (m * u)) hpos
  split at hgap
  next h =>
    rw [if_pos h]
    omega
  next h =>
    rw [if_neg h]
    omega

/-- A whole number reads back as the double: it is `n`, in quarter units. -/
def ReadsBack (m e n : Nat) : Prop :=
  (Surroundings.of m e).holds (4 * unitsInOne) 1 n = true

theorem ReadsBack.unique {m m' e e' n : Nat} (hc : IsCanonical m e) (hc' : IsCanonical m' e')
    (h : ReadsBack m e n) (h' : ReadsBack m' e' n) : m = m' ∧ e = e' :=
  Surroundings.holds_unique hc hc' Nat.one_pos h h'

/-- A whole double that is not zero reads back from a positive number only. -/
theorem ReadsBack.pos {m e n : Nat} (hm : m ≠ 0) (h : ReadsBack m e n) : 0 < n := by
  obtain ⟨hlow, -⟩ := Surroundings.holds_iff.1 h
  have hscale : 0 < 2 ^ e := Nat.two_pow_pos e
  have hunits : 2 ^ e ≤ m * 2 ^ e := Nat.le_mul_of_pos_left _ (Nat.pos_of_ne_zero hm)
  rw [Surroundings.low_of] at hlow
  refine Nat.pos_of_ne_zero fun hn => ?_
  rw [hn] at hlow
  split at hlow <;> omega

/-- The shortest decimal of a large enough whole double is whole. -/
theorem shortest_whole {m j : Nat} (hm : m ≠ 0) (hdigits : 17 ≤ (digits (m * 2 ^ j)).length)
    (hstep : 4 * 10 ^ ((digits (m * 2 ^ j)).length - 17) ≤ if m = 2 ^ 52 then 2 ^ j else 2 * 2 ^ j) :
    0 ≤ (shortest m (1074 + j)).exponent ∧ (shortest m (1074 + j)).mantissa ≠ 0 ∧
      ReadsBack m (1074 + j)
        ((shortest m (1074 + j)).mantissa * 10 ^ (shortest m (1074 + j)).exponent.toNat) := by
  rw [shortest, if_neg hm, leadingExponent_whole hm]
  generalize hlength : (digits (m * 2 ^ j)).length = length at hdigits hstep
  dsimp only
  split
  next d hfound =>
    obtain ⟨n, hn, hgrid⟩ := List.exists_of_findSome?_eq_some hfound
    rw [List.mem_range] at hn
    obtain ⟨hexponent, hholds⟩ := Surroundings.onGrid?_eq_some hgrid
    have hwhole : 0 ≤ d.exponent := by omega
    rw [← hexponent, gridStep_of_nonneg hwhole] at hholds
    have hback : ReadsBack m (1074 + j) (d.mantissa * 10 ^ d.exponent.toNat) := by
      rw [ReadsBack, Surroundings.holds_iff, Nat.mul_assoc]
      exact Surroundings.holds_iff.1 hholds
    obtain ⟨k, hexponent', hmantissa⟩ := withoutTrailingZeros_eq d
    have htoNat : d.withoutTrailingZeros.exponent.toNat = k + d.exponent.toNat := by omega
    have hsame : d.withoutTrailingZeros.mantissa * 10 ^ d.withoutTrailingZeros.exponent.toNat =
        d.mantissa * 10 ^ d.exponent.toNat := by
      rw [htoNat, Nat.pow_add, ← Nat.mul_assoc, ← hmantissa]
    refine ⟨by omega, fun hzero => ?_, hsame ▸ hback⟩
    have hpos := hback.pos hm
    rw [← hsame, hzero, Nat.zero_mul] at hpos
    exact absurd hpos (Nat.lt_irrefl 0)
  next hnone =>
    have hlast := List.findSome?_eq_none_iff.1 hnone 16 (by decide)
    have hexponent : (length - 1 - (16 : Nat) : Int) = (length - 17 : Nat) := by omega
    have hhit := Surroundings.onGrid?_isSome_of_step_le hm hstep
    rw [hexponent] at hlast
    rw [hlast] at hhit
    cases hhit

end Decimal
end QueryByExample
