/-
Integers as doubles.

An integer beyond 64 signed bits, but not beyond 64 unsigned ones, is near a
whole double (`exists_isLarge`). The plain text of such a double is a number
beyond 64 signed bits as well, in digits alone (`IsLarge.write_plain`), and it
tells the double (`IsLarge.eq_of_write_eq`).
-/
import QueryByExample.Proofs.Decimal.Shortest

namespace QueryByExample
open Binary64 (unitsInOne)

namespace Decimal

deriving instance DecidableEq for Decimal

/-- Significand and scale, above that of 1, of a double from `2 ^ 63` to `2 ^ 64`. -/
structure IsLarge (m j : Nat) : Prop where
  le : 2 ^ 52 ≤ m
  lt : m < 2 ^ 53
  scale : j = 11 ∨ j = 12 ∧ m = 2 ^ 52

namespace IsLarge
variable {m m' j j' n : Nat}

theorem isCanonical (h : IsLarge m j) : IsCanonical m (1074 + j) := ⟨h.lt, .inl h.le⟩

theorem ne_zero (h : IsLarge m j) : m ≠ 0 := Nat.ne_zero_of_lt h.le

theorem value_bounds (h : IsLarge m j) : 2 ^ 63 ≤ m * 2 ^ j ∧ m * 2 ^ j ≤ 2 ^ 64 := by
  have hle := h.le
  have hlt := h.lt
  obtain rfl | ⟨rfl, rfl⟩ := h.scale <;> omega

/-- The next number below is farther than seventeen digits are apart. -/
theorem step_le (h : IsLarge m j) : 17 ≤ (digits (m * 2 ^ j)).length ∧
    4 * 10 ^ ((digits (m * 2 ^ j)).length - 17) ≤ if m = 2 ^ 52 then 2 ^ j else 2 * 2 ^ j := by
  obtain ⟨hlow, hhigh⟩ := h.value_bounds
  have hlong : ¬ (digits (m * 2 ^ j)).length ≤ 18 := by
    rw [Nat.length_toDigits_le_iff (by decide) (by decide)]
    omega
  have hshort : (digits (m * 2 ^ j)).length ≤ 20 := by
    rw [Nat.length_toDigits_le_iff (by decide) (by decide)]
    omega
  by_cases hdigits : (digits (m * 2 ^ j)).length ≤ 19
  · have hlength : (digits (m * 2 ^ j)).length = 19 := by omega
    rw [hlength]
    obtain rfl | ⟨rfl, -⟩ := h.scale <;> exact ⟨by decide, by split <;> decide⟩
  · have hlength : (digits (m * 2 ^ j)).length = 20 := by omega
    rw [Nat.length_toDigits_le_iff (by decide) (by decide)] at hdigits
    rw [hlength]
    refine ⟨by decide, ?_⟩
    obtain rfl | ⟨rfl, -⟩ := h.scale
    · rw [if_neg (by omega)]
      decide
    · split <;> decide

end IsLarge

theorem shortest_least : shortest (2 ^ 52) (1074 + 11) = ⟨9223372036854776, 3⟩ := by
  have hfirst : leadingExponent ((2 ^ 52) <<< (1074 + 11)) = 18 := by decide +kernel
  have hfound : ((List.range 17).findSome? fun (n : Nat) =>
      (Surroundings.of (2 ^ 52) (1074 + 11)).onGrid? (18 - n)) = some ⟨9223372036854776, 3⟩ := by decide +kernel
  rw [shortest, if_neg (by decide), hfirst]
  dsimp only
  rw [hfound]
  dsimp only
  rw [withoutTrailingZeros, dif_neg (by decide)]

/-- A quotient is rounded down or up. -/
theorem roundQuotient_eq_or (a d : Nat) :
    Binary64.roundQuotient a d = a / d ∨ Binary64.roundQuotient a d = a / d + 1 := by
  rw [Binary64.roundQuotient]
  split
  · exact .inl rfl
  · split
    · exact .inr rfl
    · split
      · exact .inl rfl
      · exact .inr rfl

theorem log2_mul_two_pow {n : Nat} (hn : n ≠ 0) (k : Nat) : (n * 2 ^ k).log2 = n.log2 + k := by
  have hpos : 0 < 2 ^ k := Nat.two_pow_pos k
  rw [Nat.log2_eq_iff (Nat.mul_ne_zero hn (Nat.ne_of_gt hpos)), Nat.add_right_comm, Nat.pow_add, Nat.pow_add _ _ k]
  obtain ⟨hle, hlt⟩ := (Nat.log2_eq_iff hn).1 rfl
  exact ⟨Nat.mul_le_mul_right _ hle, Nat.mul_lt_mul_of_pos_right hlt hpos⟩

theorem log2_mul_one_shiftLeft {n : Nat} (hn : n ≠ 0) (k : Nat) : (n * 1 <<< k).log2 = n.log2 + k := by
  rw [Nat.one_shiftLeft, log2_mul_two_pow hn]

theorem log2_mul_units {n : Nat} (hn : n ≠ 0) : (n * unitsInOne).log2 = n.log2 + 1074 :=
  log2_mul_one_shiftLeft hn 1074

theorem one_shiftLeft_scale (j : Nat) : 1 <<< (1074 + j) = 2 ^ j * unitsInOne := by
  rw [Nat.one_shiftLeft, two_pow_scale]

/-- An integer beyond 64 signed bits, but not beyond 64 unsigned ones, is near
a large double. -/
theorem exists_isLarge {n : Nat} (hlow : 2 ^ 63 ≤ n) (hhigh : n < 2 ^ 64) :
    ∃ m j, IsLarge m j ∧ Binary64.nearest false n 0 = .finite false m (1074 + j) := by
  have hn : n ≠ 0 := by omega
  have hshort : (digits n).length ≤ 20 := by
    rw [Nat.length_toDigits_le_iff (by decide) (by decide)]
    omega
  have hsmall : ¬ (n = 0 ∨ ((digits n).length : Int) + 0 < -323) := by omega
  have hlarge : ¬ 309 < ((digits n).length : Int) + 0 := by omega
  have hwhole : n * Nat.pow 10 (0 : Int).toNat = n := Nat.mul_one n
  have hscale : (n * unitsInOne).log2 - 52 = 1074 + 11 := by
    rw [log2_mul_units hn, (Nat.log2_eq_iff hn).2 ⟨hlow, hhigh⟩]
  have hround : Binary64.roundQuotient (n * unitsInOne) (2 ^ 11 * unitsInOne) = n / 2 ^ 11 ∨
      Binary64.roundQuotient (n * unitsInOne) (2 ^ 11 * unitsInOne) = n / 2 ^ 11 + 1 := by
    rw [← Nat.mul_div_mul_right n (2 ^ 11) unitsInOne_pos]
    exact roundQuotient_eq_or _ _
  rw [Binary64.nearest, if_neg hsmall, if_neg hlarge, if_pos (Int.le_refl 0), hwhole, Binary64.ofQuotient,
    Nat.div_one, hscale, one_shiftLeft_scale]
  generalize Binary64.roundQuotient (n * unitsInOne) (2 ^ 11 * unitsInOne) = m at hround
  rw [Nat.one_shiftLeft, Nat.one_shiftLeft]
  by_cases hm : m < 2 ^ 53
  · refine ⟨m, 11, ⟨by omega, hm, .inl rfl⟩, ?_⟩
    rw [if_pos hm]
    rfl
  · refine ⟨2 ^ 52, 12, ⟨by decide, by decide, .inr ⟨rfl, rfl⟩⟩, ?_⟩
    rw [if_neg hm]
    rfl

/-- A number that reads back as a large double is beyond 64 signed bits, the
least of these doubles apart. -/
theorem IsLarge.le_of_readsBack {m j n : Nat} (h : IsLarge m j) (hleast : m = 2 ^ 52 → j = 12)
    (hn : ReadsBack m (1074 + j) n) : 2 ^ 63 ≤ n := by
  obtain ⟨hlow, -⟩ := Surroundings.holds_iff.1 hn
  rw [Surroundings.low_of, Nat.mul_one, shift_whole, two_pow_scale, Nat.mul_left_comm n] at hlow
  have hpos : 0 < unitsInOne := unitsInOne_pos
  generalize unitsInOne = u at hlow hpos
  suffices hunits : 2 ^ 63 * u ≤ n * u from Nat.le_of_mul_le_mul_right hunits hpos
  obtain rfl | ⟨rfl, rfl⟩ := h.scale
  · have hm : 2 ^ 52 + 1 ≤ m := Nat.lt_of_le_of_ne h.le fun heq => absurd (hleast heq.symm) (by decide)
    have hmu : (2 ^ 52 + 1) * u ≤ m * u := Nat.mul_le_mul_right u hm
    rw [if_neg (by omega), Nat.mul_right_comm] at hlow
    omega
  · rw [if_pos ⟨rfl, by decide⟩] at hlow
    omega

/-- The plain text of a large double is a number beyond 64 signed bits that
reads back. -/
theorem IsLarge.write_plain {m j : Nat} (h : IsLarge m j) :
    let text := (Binary64.finite false m (1074 + j)).write .plain
    2 ^ 63 ≤ valueOf text ∧ ReadsBack m (1074 + j) (valueOf text) ∧ ∀ c ∈ text, c.isDigit = true := by
  obtain ⟨hdigits, hstep⟩ := h.step_le
  obtain ⟨hexponent, hmantissa, hback⟩ := shortest_whole h.ne_zero hdigits hstep
  have hvalue := valueOf_write_plain hexponent hmantissa
  refine ⟨?_, hvalue ▸ hback, isDigit_of_mem_write_plain hexponent hmantissa⟩
  by_cases hleast : m = 2 ^ 52 → j = 12
  · exact h.le_of_readsBack hleast (hvalue ▸ hback)
  · obtain ⟨rfl, hj⟩ := Classical.not_imp.1 hleast
    obtain rfl : j = 11 := h.scale.resolve_right fun hscale => hj hscale.1
    show 2 ^ 63 ≤ valueOf ((shortest (2 ^ 52) (1074 + 11)).write .plain)
    rw [hvalue, shortest_least]
    decide

theorem IsLarge.eq_of_write_eq {m m' j j' : Nat} (h : IsLarge m j) (h' : IsLarge m' j')
    (heq : (Binary64.finite false m (1074 + j)).write .plain = (Binary64.finite false m' (1074 + j')).write .plain) :
    Binary64.finite false m (1074 + j) = Binary64.finite false m' (1074 + j') := by
  obtain ⟨-, hback, -⟩ := h.write_plain
  obtain ⟨-, hback', -⟩ := h'.write_plain
  rw [← heq] at hback'
  obtain ⟨rfl, hscale⟩ := hback.unique h.isCanonical h'.isCanonical hback'
  rw [hscale]

end Decimal
end QueryByExample
