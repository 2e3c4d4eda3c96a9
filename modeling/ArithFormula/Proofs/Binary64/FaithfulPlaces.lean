import ArithFormula.Proofs.Binary64.Exact
import ArithFormula.Proofs.Binary64.KeptPlaces
import Mathlib.Data.Rat.Floor

/-!
# What rounding to places promises

Rounding to decimal places takes three roundings, of the product with the scale, of that to an
integer and of the quotient, so the integer it goes through is not always the one nearest to the
exact product. It is never further off than a half and the error of the product, though, and below
the threshold these are less than one together. So it is one of the two integers around the exact
product, and the product itself if that is an integer.

## Main results

* `roundedProduct_near` — how far the integer is from the exact product.
* `isNearestTo_of_small` — the result is the number nearest to that integer of places.
* `roundToPlaces_isNearestTo` — all that rounding to places promises, in both modes.
-/

namespace ArithFormula.Binary64

/-! ## The integer -/

/-- The product is off by one part in `2 ^ 53` at most, and the integer by a half of one. -/
theorem roundedProduct_near (mode : RoundingMode) (num : Nat) :
    2 ^ 53 * (2 * num) ≤
        2 ^ 53 * (2 * (roundedProduct mode num * unitsPerOne) + unitsPerOne) + 2 * num ∧
      2 ^ 53 * (2 * (roundedProduct mode num * unitsPerOne)) ≤
        2 ^ 53 * (2 * num + unitsPerOne) + 2 * num := by
  have hproduct := nearestCode_error Nat.one_pos (.inl (Nat.one_dvd num))
  have hinteger := roundQuotient_near mode (unitsOf (nearestCode num 1)) unitsPerOne_pos
  rw [Nat.mul_one] at hproduct
  change _ ≤ 2 * (roundedProduct mode num * unitsPerOne) + _ ∧
    2 * (roundedProduct mode num * unitsPerOne) ≤ _ at hinteger
  omega

/-- The integer is no further from the exact product than a half and one part in `2 ^ 53`. -/
theorem abs_roundedProduct_sub_le (mode : RoundingMode) (num : Nat) :
    |(roundedProduct mode num : ℚ) - num / unitsPerOne| ≤
      1 / 2 + num / unitsPerOne / 2 ^ 53 := by
  have hunit := unitsPerOne_cast_pos
  have hnear := roundedProduct_near mode num
  have hbelow : (2 : ℚ) ^ 53 * (2 * num) ≤
      2 ^ 53 * (2 * (roundedProduct mode num * unitsPerOne) + unitsPerOne) + 2 * num := by
    exact_mod_cast hnear.1
  have habove : (2 : ℚ) ^ 53 * (2 * (roundedProduct mode num * unitsPerOne)) ≤
      2 ^ 53 * (2 * num + unitsPerOne) + 2 * num := by
    exact_mod_cast hnear.2
  have hnum : (num : ℚ) = num / unitsPerOne * unitsPerOne := by field_simp
  generalize (num : ℚ) / unitsPerOne = x at hnum ⊢
  generalize (roundedProduct mode num : ℚ) = n at hbelow habove ⊢
  generalize (unitsPerOne : ℚ) = unit at hunit hbelow habove hnum
  rw [hnum] at hbelow habove
  rw [abs_le]
  constructor
  · apply le_of_mul_le_mul_right _ hunit
    linarith
  · apply le_of_mul_le_mul_right _ hunit
    linarith

/-- Below the threshold that is less than one. -/
theorem abs_roundedProduct_sub_lt_one (mode : RoundingMode) {num : Nat}
    (h : num < 2 ^ 52 * unitsPerOne) :
    |(roundedProduct mode num : ℚ) - num / unitsPerOne| < 1 := by
  have hbound : (num : ℚ) / unitsPerOne < 2 ^ 52 := by
    rw [div_lt_iff₀ unitsPerOne_cast_pos]
    exact_mod_cast h
  have hnear := abs_roundedProduct_sub_le mode num
  linarith

/-- An integer less than one away is one of the two around a rational. -/
theorem eq_floor_or_ceil {n : ℤ} {x : ℚ} (h : |(n : ℚ) - x| < 1) : n = ⌊x⌋ ∨ n = ⌈x⌉ := by
  obtain ⟨hbelow, habove⟩ := abs_lt.mp h
  rcases le_total (n : ℚ) x with hle | hge
  · left
    exact (Int.floor_eq_iff.mpr ⟨hle, by linarith⟩).symm
  · right
    exact (Int.ceil_eq_iff.mpr ⟨by linarith, hge⟩).symm

/-! ## The result -/

theorem abs_signed_div (negative : Bool) (n : Nat) :
    |(signed negative n : ℚ) / unitsPerOne| = n / unitsPerOne := by
  have hsame := abs_signed_sub negative 0 n unitsPerOne
  have hzero : signed negative 0 = 0 := by cases negative <;> rfl
  rw [hzero, Int.cast_zero, Nat.cast_zero, zero_sub, zero_sub, abs_neg, abs_neg] at hsame
  rw [hsame]
  exact abs_of_nonneg (div_nonneg (Nat.cast_nonneg n) unitsPerOne_cast_pos.le)

/-- Below the threshold the result is the number nearest to the integer, scaled back, and a zero
result is positive. -/
theorem isNearestTo_of_small {mode : RoundingMode} {places : Nat} {negative : Bool}
    {m : Magnitude} (hplaces : places ≤ maxRoundedPlaces)
    (hsmall : unitsOf (nearestCode (m.units * 10 ^ places) 1) < 2 ^ 52 * unitsPerOne) :
    IsNearestTo
        ((signed negative (roundedProduct mode (m.units * 10 ^ places)) : ℚ) / 10 ^ places)
        (roundToPlaces mode places (finite negative m)) ∧
      roundToPlaces mode places (finite negative m) ≠ .finite true .zero ∧
      (roundedProduct mode (m.units * 10 ^ places) = 0 →
        roundToPlaces mode places (finite negative m) = zero) := by
  rw [roundToPlaces_finite hplaces, if_pos hsmall]
  generalize hn : roundedProduct mode (m.units * 10 ^ places) = n
  have hlt : n < 2 ^ 53 := by
    rw [← hn]
    exact Nat.lt_of_le_of_lt (roundedProduct_le (Nat.le_of_lt hsmall)) (by decide)
  obtain ⟨k, hk⟩ := exists_nearestCode_eq hlt (ten_pow_pos places)
  have hquotient : ofQuotient negative (n * unitsPerOne) (10 ^ places) = finite negative k :=
    ofQuotient_eq_finite_iff.mpr ⟨rfl, hk⟩
  have hexact : (signed negative (n * unitsPerOne) : ℚ) /
      ((10 ^ places : Nat) * unitsPerOne) = signed negative n / 10 ^ places := by
    rw [signed_mul, mul_div_mul_right _ _ unitsPerOne_cast_pos.ne', Nat.cast_pow, Nat.cast_ofNat]
  have hnearest := @isNearestTo_of_nearestCode negative _ _ k (ten_pow_pos places) hk
  rw [hexact] at hnearest
  rw [hquotient]
  refine ⟨hnearest.withoutNegativeZero, withoutNegativeZero_ne _, ?_⟩
  intro hzero
  rw [hzero, Nat.zero_mul, nearestCode_zero (ten_pow_pos places)] at hk
  obtain rfl : k = .zero := Magnitude.ext_code hk.symm
  rw [withoutNegativeZero, if_pos (isZero_iff.mpr ⟨negative, rfl⟩)]

/-- Rounding to at most 15 places a finite number whose product with the scale is below `2 ^ 52` in
magnitude gives the number nearest to an integer of places, ties to even and zero positive. The
integer is off the exact product by no more than a half and one part in `2 ^ 53` of it. So it is one
of the two integers around the exact product, and a number whose exact product is an integer stays
what it is. All other finite numbers stay as they are. -/
theorem roundToPlaces_isNearestTo (mode : RoundingMode) (places : Nat) {x : Binary64}
    (hx : x.isFinite = true) :
    (places ≤ 15 ∧ (x * ofNat (10 ^ places)).abs.less (ofNat (2 ^ 52)) = true →
      ∃ n : ℤ,
        |n - x.toRat * (10 : ℚ) ^ places| ≤ 1 / 2 + |x.toRat * (10 : ℚ) ^ places| / (2 : ℚ) ^ 53 ∧
        IsNearestTo (n / (10 : ℚ) ^ places) (roundToPlaces mode places x) ∧
        roundToPlaces mode places x ≠ .finite true .zero ∧
        (n = 0 → roundToPlaces mode places x = zero) ∧
        (n = ⌊x.toRat * (10 : ℚ) ^ places⌋ ∨ n = ⌈x.toRat * (10 : ℚ) ^ places⌉) ∧
        ∀ k : ℤ, x.toRat * (10 : ℚ) ^ places = k →
          (roundToPlaces mode places x).numericEq x = true) ∧
    (¬(places ≤ 15 ∧ (x * ofNat (10 ^ places)).abs.less (ofNat (2 ^ 52)) = true) →
      roundToPlaces mode places x = x) := by
  constructor
  · intro ⟨hplaces, hless⟩
    obtain ⟨negative, m, rfl⟩ := exists_of_isFinite hx
    rw [finite_mul_ofNat negative m (ten_pow_lt hplaces)] at hless
    have hsmall := (abs_less_integerThreshold negative _).mp hless
    obtain ⟨hnearest, hsign, hzero⟩ := @isNearestTo_of_small mode _ _ _ hplaces hsmall
    have hexact := toRat_mul negative m (10 ^ places)
    rw [Nat.cast_pow, Nat.cast_ofNat] at hexact
    have hnear := abs_roundedProduct_sub_le mode (m.units * 10 ^ places)
    rw [← abs_signed_sub negative, ← abs_signed_div negative, ← hexact] at hnear
    have hone := abs_roundedProduct_sub_lt_one mode (lt_of_product_lt hsmall)
    rw [← abs_signed_sub negative, ← hexact] at hone
    refine ⟨_, hnear, hnearest, hsign, ?_, eq_floor_or_ceil hone, ?_⟩
    · intro hn
      apply hzero
      cases negative <;> simpa [signed] using hn
    · intro k hk
      rw [hk, ← Int.cast_sub, ← Int.cast_abs, ← Int.cast_one, Int.cast_lt,
        Int.abs_lt_one_iff, sub_eq_zero] at hone
      rw [hone, ← hk, mul_div_cancel_right₀ _ (by positivity)] at hnearest
      exact numericEq_of_isNearestTo hx hnearest
  · intro hother
    unfold roundToPlaces
    by_cases hplaces : maxRoundedPlaces < places
    · rw [if_pos hplaces]
    · rw [if_neg hplaces]
      exact if_neg fun hless => hother ⟨Nat.le_of_not_lt hplaces, hless⟩

/-- The number nearest to `-45035996273704.955`. -/
def belowThreshold : Binary64 := .ofQuotient true (45035996273704955 * unitsPerOne) 1000

/-- The statement for a number that is rounded to two places, although its product with the scale is
within a unit of the threshold, and is not rounded to three. -/
theorem roundToPlaces_isNearestTo_belowThreshold :
    belowThreshold.isFinite = true ∧
      (2 ≤ 15 ∧ (belowThreshold * ofNat (10 ^ 2)).abs.less (ofNat (2 ^ 52)) = true) ∧
      (∃ n : ℤ,
        |n - belowThreshold.toRat * (10 : ℚ) ^ 2| ≤
          1 / 2 + |belowThreshold.toRat * (10 : ℚ) ^ 2| / (2 : ℚ) ^ 53 ∧
        IsNearestTo (n / (10 : ℚ) ^ 2) (roundToPlaces .halfAwayFromZero 2 belowThreshold) ∧
        (n = ⌊belowThreshold.toRat * (10 : ℚ) ^ 2⌋ ∨ n = ⌈belowThreshold.toRat * (10 : ℚ) ^ 2⌉)) ∧
      ¬(3 ≤ 15 ∧ (belowThreshold * ofNat (10 ^ 3)).abs.less (ofNat (2 ^ 52)) = true) ∧
      roundToPlaces .halfAwayFromZero 3 belowThreshold = belowThreshold := by
  have hfinite : belowThreshold.isFinite = true := by decide +kernel
  have hsmall : 2 ≤ 15 ∧
      (belowThreshold * ofNat (10 ^ 2)).abs.less (ofNat (2 ^ 52)) = true := by decide +kernel
  have hlarge : ¬(3 ≤ 15 ∧
      (belowThreshold * ofNat (10 ^ 3)).abs.less (ofNat (2 ^ 52)) = true) := by decide +kernel
  obtain ⟨n, hnear, hnearest, _, _, haround, _⟩ :=
    (roundToPlaces_isNearestTo .halfAwayFromZero 2 hfinite).1 hsmall
  exact ⟨hfinite, hsmall, ⟨n, hnear, hnearest, haround⟩, hlarge,
    (roundToPlaces_isNearestTo .halfAwayFromZero 3 hfinite).2 hlarge⟩

end ArithFormula.Binary64
