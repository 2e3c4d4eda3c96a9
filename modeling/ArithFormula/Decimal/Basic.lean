import ArithFormula.Binary64.Basic

/-!
# Decimal numbers

A decimal is `digits * 10 ^ exponent`, exactly. Its nearest binary magnitude is the
rounding of that quotient, whatever the number of digits; two bounds on the
exponent only spare the arithmetic on numbers that are certainly too large or too
small.

## Main results

* `nearest?_eq` — the bounds never change the result: it is the rounding of the
  exact quotient for every decimal.
* `nearest?_shift` — the same number written with one more digit has the same
  nearest magnitude.
-/

namespace ArithFormula

/-- The number `digits * 10 ^ exponent`. -/
structure Decimal where
  digits : Nat
  exponent : Int
deriving DecidableEq

namespace Decimal

/-! ## The exact quotient -/

/-- The numerator of a decimal, counted in units. -/
def numerator (d : Decimal) : Nat := d.digits * 10 ^ d.exponent.toNat * unitsPerOne

/-- The denominator of a decimal. -/
def denominator (d : Decimal) : Nat := 10 ^ (-d.exponent).toNat

theorem denominator_pos (d : Decimal) : 0 < d.denominator := Nat.pow_pos (by decide)

/-! ## The nearest magnitude -/

/-- Ten to this power is far above every finite magnitude, and its inverse far below half
a unit. -/
def farExponent : Nat := 400

/-- The magnitude nearest to a decimal; none if that is beyond the finite ones. -/
def nearest? (d : Decimal) : Option Magnitude :=
  if d.digits = 0 then some .zero
  else if farExponent < d.exponent then none
  else if d.exponent + (d.digits.log2 + 1 : Nat) ≤ -(farExponent : Int) then some .zero
  else Magnitude.nearest? d.numerator d.denominator

private theorem two_pow_le_ten_pow {a b : Nat} (h : a ≤ 3 * b) : 2 ^ a ≤ 10 ^ b :=
  calc 2 ^ a ≤ 2 ^ (3 * b) := Nat.pow_le_pow_right (by decide) h
    _ = (2 ^ 3) ^ b := Nat.pow_mul _ _ _
    _ ≤ 10 ^ b := Nat.pow_le_pow_left (by decide) b

/-- A decimal with a digit and a far exponent is beyond the finite numbers. -/
private theorem nearest?_of_far {d : Decimal} (hdigits : d.digits ≠ 0)
    (hfar : farExponent < d.exponent) :
    Magnitude.nearest? d.numerator d.denominator = none := by
  have hden : d.denominator = 1 := by
    rw [denominator, show (-d.exponent).toNat = 0 by omega, Nat.pow_zero]
  have hbig : unitsOf overflowCode ≤ d.numerator := by
    rw [unitsOf_overflowCode, numerator]
    refine Nat.mul_le_mul_right _ ?_
    calc 2 ^ topExponent ≤ 10 ^ farExponent := two_pow_le_ten_pow (by decide)
      _ ≤ 10 ^ d.exponent.toNat := Nat.pow_le_pow_right (by decide) (by omega)
      _ ≤ d.digits * 10 ^ d.exponent.toNat :=
        Nat.le_mul_of_pos_left _ (Nat.pos_of_ne_zero hdigits)
  have hcode : overflowCode ≤ nearestCode d.numerator d.denominator := by
    have hmono : nearestCode (unitsOf overflowCode * 1) 1 ≤ nearestCode d.numerator 1 :=
      nearestCode_mono (by decide) (by decide) (by simpa using hbig)
    rwa [nearestCode_unitsOf _ (by decide), ← hden] at hmono
  rw [Magnitude.nearest?, dif_neg (Nat.not_lt.mpr hcode)]

/-- A decimal far below half a unit is rounded to zero. -/
private theorem nearest?_of_tiny {d : Decimal}
    (htiny : d.exponent + (d.digits.log2 + 1 : Nat) ≤ -(farExponent : Int)) :
    Magnitude.nearest? d.numerator d.denominator = some .zero := by
  rw [Magnitude.nearest?_eq_some_iff]
  refine nearestCode_of_below_half ?_
  have hnum : d.numerator = d.digits * unitsPerOne := by
    rw [numerator, show d.exponent.toNat = 0 by omega, Nat.pow_zero, Nat.mul_one]
  have hdigits : d.digits < 10 ^ (d.digits.log2 + 1) :=
    Nat.lt_of_lt_of_le Nat.lt_log2_self (Nat.pow_le_pow_left (by decide) _)
  have hden : 10 ^ (d.digits.log2 + 1) * 10 ^ farExponent ≤ d.denominator := by
    rw [denominator, ← Nat.pow_add]
    exact Nat.pow_le_pow_right (by decide) (by omega)
  have hunits : 2 * unitsPerOne ≤ 10 ^ farExponent := by
    rw [unitsPerOne, Nat.mul_comm, ← Nat.pow_succ]
    refine two_pow_le_ten_pow ?_
    rw [unitExponent, farExponent]
    decide
  calc 2 * d.numerator = d.digits * (2 * unitsPerOne) := by rw [hnum, Nat.mul_left_comm]
    _ ≤ d.digits * 10 ^ farExponent := Nat.mul_le_mul_left _ hunits
    _ < 10 ^ (d.digits.log2 + 1) * 10 ^ farExponent :=
      Nat.mul_lt_mul_of_pos_right hdigits (Nat.pow_pos (by decide))
    _ ≤ d.denominator := hden

/-- The nearest magnitude is the rounding of the exact quotient. -/
theorem nearest?_eq (d : Decimal) :
    d.nearest? = Magnitude.nearest? d.numerator d.denominator := by
  unfold nearest?
  split
  · next h =>
      have hzero : d.numerator = 0 := by rw [numerator, h, Nat.zero_mul, Nat.zero_mul]
      rw [hzero, eq_comm, Magnitude.nearest?_eq_some_iff]
      exact nearestCode_zero d.denominator_pos
  · next hdigits =>
      split
      · next hfar => exact (nearest?_of_far hdigits hfar).symm
      · split
        · next htiny => exact (nearest?_of_tiny htiny).symm
        · rfl

theorem nearest?_eq_some_iff {d : Decimal} {m : Magnitude} :
    d.nearest? = some m ↔ nearestCode d.numerator d.denominator = m.code := by
  rw [nearest?_eq, Magnitude.nearest?_eq_some_iff]

/-- The same number written with one more digit has the same nearest magnitude. -/
theorem nearest?_shift (digits : Nat) (exponent : Int) :
    nearest? ⟨digits * 10, exponent - 1⟩ = nearest? ⟨digits, exponent⟩ := by
  rw [nearest?_eq, nearest?_eq]
  rcases Int.lt_or_le 0 exponent with h | h
  · have hnum : numerator ⟨digits * 10, exponent - 1⟩ = numerator ⟨digits, exponent⟩ := by
      simp only [numerator]
      rw [show exponent.toNat = (exponent - 1).toNat + 1 by omega, Nat.pow_succ,
        Nat.mul_assoc digits, Nat.mul_comm 10]
    have hden : denominator ⟨digits * 10, exponent - 1⟩ = denominator ⟨digits, exponent⟩ := by
      simp only [denominator]
      rw [show (-(exponent - 1)).toNat = (-exponent).toNat by omega]
    rw [hnum, hden]
  · have hnum : numerator ⟨digits * 10, exponent - 1⟩ = numerator ⟨digits, exponent⟩ * 10 := by
      simp only [numerator]
      rw [show exponent.toNat = 0 by omega, show (exponent - 1).toNat = 0 by omega,
        Nat.pow_zero, Nat.mul_one, Nat.mul_one, Nat.mul_right_comm]
    have hden : denominator ⟨digits * 10, exponent - 1⟩ =
        denominator ⟨digits, exponent⟩ * 10 := by
      simp only [denominator]
      rw [show (-(exponent - 1)).toNat = (-exponent).toNat + 1 by omega, Nat.pow_succ]
    rw [hnum, hden, Magnitude.nearest?_scale _ _ (by decide)]

end Decimal

end ArithFormula
