import ArithFormula.Decimal.Literal
import ArithFormula.Proofs.Binary64.Exact
import Mathlib.Tactic.NormNum

/-!
# Literals beyond the finite numbers

A literal stands for the nearest finite number, or for none if its exact value is too large. The
limit is not the largest finite number, `2 ^ 1024 - 2 ^ 971`, but half a step above it: up to there
values are rounded down to it. At the limit itself there is a tie, and it goes to the even code,
which is that of `2 ^ 1024`. So `2 ^ 1024 - 2 ^ 970` is the first value that is too large.

## Main results

* `nearestCode_le_iff` — a rounding stays at or below an odd code exactly below the middle of the
  step behind it.
* `overflowCode_le_nearestCode_iff` — a quotient is rounded beyond the finite numbers exactly from
  the limit on.
* `Literal.value?_eq_none_iff` — a literal stands for nothing exactly from the limit on.
* `Literal.value?_eq_some_iff` — below it, it stands for the nearest number, with its own sign.
-/

namespace ArithFormula

/-! ## The limit -/

/-- A rounding stays at or below an odd code exactly below the middle of the step behind it, since a
tie goes to the even code. -/
theorem nearestCode_le_iff {num den code : Nat} (hden : 0 < den) (hodd : code % 2 = 1) :
    nearestCode num den ≤ code ↔ 2 * num < (unitsOf code + unitsOf (code + 1)) * den := by
  obtain ⟨below, hle, hlt, hcode⟩ := nearestCode_between num hden
  have hmono : ∀ {a b : Nat}, a ≤ b → unitsOf a * den ≤ unitsOf b * den := by
    intro a b hab
    exact Nat.mul_le_mul_right den (unitsOf_le_unitsOf hab)
  have hstep : unitsOf code * den ≤ unitsOf (code + 1) * den := hmono (Nat.le_add_right code 1)
  rw [Nat.add_mul]
  rcases Nat.lt_trichotomy below code with hbelow | heq | habove
  · have hfar : unitsOf (below + 1) * den ≤ unitsOf code * den := hmono hbelow
    have hcodeLe := nearestCode_le_of_le hden (show num ≤ unitsOf code * den by omega)
    omega
  · -- The quotient is in the step itself; in its middle the odd code loses.
    subst heq
    rw [Nat.add_mul] at hcode
    by_cases hcloser : 2 * num < unitsOf below * den + unitsOf (below + 1) * den
    · rw [if_pos hcloser] at hcode
      omega
    · rw [if_neg hcloser, if_neg (show ¬below % 2 = 0 by omega), ite_self] at hcode
      omega
  · have hfar : unitsOf (code + 1) * den ≤ unitsOf below * den := hmono habove
    have hcodeGe := le_nearestCode_of_le hden hle
    omega

/-- The middle of the step from the largest finite number to two to the top exponent. -/
theorem unitsOf_overflowCode_pred_add :
    unitsOf (overflowCode - 1) + unitsOf overflowCode =
      2 * ((2 ^ 1024 - 2 ^ 970) * unitsPerOne) := by
  have hmod : (overflowCode - 1) % 2 ^ 52 = 2 ^ 52 - 1 := by decide
  -- The exponent gets a name, so that no step writes its power out.
  generalize hexp : 970 = k
  have hdiv : (overflowCode - 1) / 2 ^ 52 - 1 = k + 1 + unitExponent := by
    rw [unitExponent, ← hexp]
    decide
  have htop : (2 : Nat) ^ 1024 = 2 ^ 54 * 2 ^ k := by rw [← hexp, ← Nat.pow_add]
  rw [unitsOf_overflowCode, topExponent, unitsOf_of_ge (by decide), hmod, hdiv, Nat.pow_add,
    Nat.pow_succ 2 k, ← unitsPerOne, htop]
  generalize (2 : Nat) ^ k = t
  have hlimit : 2 ^ 54 * t - t = (2 ^ 54 - 1) * t := by omega
  rw [hlimit, Nat.mul_right_comm t, Nat.mul_assoc (2 ^ 54), Nat.mul_assoc (2 ^ 54 - 1)]
  generalize t * unitsPerOne = limit
  omega

/-- A quotient is rounded beyond the finite numbers from the limit on. -/
theorem overflowCode_le_nearestCode_iff {num den : Nat} (hden : 0 < den) :
    overflowCode ≤ nearestCode num den ↔ (2 ^ 1024 - 2 ^ 970) * unitsPerOne * den ≤ num := by
  have hlast := @nearestCode_le_iff num den (overflowCode - 1) hden (by decide)
  rw [show overflowCode - 1 + 1 = overflowCode by decide, unitsOf_overflowCode_pred_add,
    Nat.mul_assoc 2] at hlast
  have hbelow : nearestCode num den < overflowCode ↔ nearestCode num den ≤ overflowCode - 1 :=
    Nat.lt_iff_le_pred (by decide)
  rw [← Nat.not_lt, hbelow, hlast]
  generalize (2 ^ 1024 - 2 ^ 970) * unitsPerOne * den = limit
  omega

theorem cast_two_pow_sub {k n : Nat} (h : k ≤ n) :
    ((2 ^ n - 2 ^ k : Nat) : ℚ) = (2 : ℚ) ^ n - (2 : ℚ) ^ k := by
  rw [Nat.cast_sub (Nat.pow_le_pow_right Nat.two_pos h)]
  push_cast
  rfl

/-! ## Exact values -/

namespace Decimal

/-- The exact value of a decimal. -/
def toRat (d : Decimal) : ℚ := d.digits * (10 : ℚ) ^ d.exponent

theorem toRat_nonneg (d : Decimal) : 0 ≤ d.toRat :=
  mul_nonneg (Nat.cast_nonneg _) (zpow_nonneg (by norm_num) _)

/-- The exact value is the quotient that is rounded. -/
theorem toRat_eq (d : Decimal) : d.toRat = (d.numerator : ℚ) / (d.denominator * unitsPerOne) := by
  have hunit : (unitsPerOne : ℚ) ≠ 0 := (Binary64.unitsPerOne_cast_pos).ne'
  rw [toRat, numerator, denominator]
  push_cast
  rw [mul_div_mul_right _ _ hunit, mul_div_assoc]
  congr 1
  rcases Int.le_total 0 d.exponent with hpos | hneg
  · rw [show (-d.exponent).toNat = 0 by omega, pow_zero, div_one, ← zpow_natCast,
      Int.toNat_of_nonneg hpos]
  · rw [show d.exponent.toNat = 0 by omega, pow_zero, one_div, ← zpow_natCast,
      Int.toNat_of_nonneg (by omega), zpow_neg, inv_inv]

/-- A decimal has no nearest magnitude exactly from the limit on. -/
theorem nearest?_eq_none_iff {d : Decimal} :
    d.nearest? = none ↔ (2 : ℚ) ^ 1024 - (2 : ℚ) ^ 970 ≤ d.toRat := by
  have hden : (0 : ℚ) < d.denominator * unitsPerOne :=
    mul_pos (Nat.cast_pos.mpr d.denominator_pos) Binary64.unitsPerOne_cast_pos
  rw [nearest?_eq, Magnitude.nearest?, dite_eq_right_iff, ← cast_two_pow_sub (by decide), toRat_eq,
    le_div_iff₀ hden]
  have hcode := @overflowCode_le_nearestCode_iff d.numerator d.denominator d.denominator_pos
  rw [Nat.mul_assoc, Nat.mul_comm unitsPerOne] at hcode
  constructor
  · intro h
    exact_mod_cast hcode.mp (Nat.not_lt.mp fun hlt => by simpa using h hlt)
  · intro h hlt
    exact absurd (hcode.mpr (by exact_mod_cast h)) (Nat.not_le.mpr hlt)

end Decimal

/-! ## Literals -/

/-- Numbers of one sign and one exact value have one magnitude. -/
theorem magnitude_eq_of_toRat_eq {negative : Bool} {m n : Magnitude}
    (h : (Binary64.finite negative m).toRat = (Binary64.finite negative n).toRat) : m = n := by
  obtain ⟨_, hm, hn⟩ := Binary64.numericEq_iff.mp (Binary64.numericEq_of_toRat_eq rfl rfl h)
  have hplace : Binary64.signed negative m.code = Binary64.signed negative n.code :=
    Option.some.inj (hm.trans hn.symm)
  refine Magnitude.ext_code ?_
  cases negative <;> simpa [Binary64.signed] using hplace

namespace Literal

/-- The exact value of a literal, its sign applied. -/
def toRat (literal : Literal) : ℚ :=
  if literal.negative then -literal.magnitude.toRat else literal.magnitude.toRat

theorem abs_toRat (literal : Literal) : |literal.toRat| = literal.magnitude.toRat := by
  rw [toRat]
  split
  · rw [abs_neg, abs_of_nonneg literal.magnitude.toRat_nonneg]
  · rw [abs_of_nonneg literal.magnitude.toRat_nonneg]

theorem toRat_eq (literal : Literal) :
    literal.toRat = (Binary64.signed literal.negative literal.magnitude.numerator : ℚ) /
      (literal.magnitude.denominator * unitsPerOne) := by
  rw [toRat, Decimal.toRat_eq, Binary64.signed]
  split
  · push_cast
    rw [neg_div]
  · rfl

/-- A literal stands for nothing exactly from the limit on. -/
theorem value?_eq_none_iff {literal : Literal} :
    literal.value? = none ↔ (2 : ℚ) ^ 1024 - (2 : ℚ) ^ 970 ≤ |literal.toRat| := by
  rw [value?, Option.map_eq_none_iff, abs_toRat, Decimal.nearest?_eq_none_iff]

/-- Below the limit a literal stands for the finite number nearest to its exact value, with its own
sign. There is only one, since the exact value of a magnitude is that of no other. -/
theorem value?_eq_some_iff {literal : Literal} {x : Binary64} :
    literal.value? = some x ↔
      |literal.toRat| < (2 : ℚ) ^ 1024 - (2 : ℚ) ^ 970 ∧
        ∃ magnitude, x = .finite literal.negative magnitude ∧
          Binary64.IsNearestTo literal.toRat x := by
  have hnearest : ∀ {m : Magnitude}, literal.magnitude.nearest? = some m →
      Binary64.IsNearestTo literal.toRat (.finite literal.negative m) := by
    intro m hm
    rw [toRat_eq]
    exact Binary64.isNearestTo_of_nearestCode literal.magnitude.denominator_pos
      (Decimal.nearest?_eq_some_iff.mp hm)
  constructor
  · intro h
    have hlimit := mt value?_eq_none_iff.mpr (Option.ne_none_iff_exists'.mpr ⟨x, h⟩)
    obtain ⟨m, hm, rfl⟩ := Option.map_eq_some_iff.mp h
    exact ⟨not_le.mp hlimit, m, rfl, hnearest hm⟩
  · rintro ⟨hlimit, m, rfl, hm⟩
    obtain ⟨y, hy⟩ := Option.ne_none_iff_exists'.mp
      (mt value?_eq_none_iff.mp (not_le.mpr hlimit))
    obtain ⟨n, hn, rfl⟩ := Option.map_eq_some_iff.mp hy
    rw [hy, magnitude_eq_of_toRat_eq ((hnearest hn).toRat_eq hm)]

end Literal

end ArithFormula
