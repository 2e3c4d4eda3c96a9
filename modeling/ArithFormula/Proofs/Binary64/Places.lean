import ArithFormula.Binary64.Arithmetic
import ArithFormula.Proofs.Binary64.Nearest

/-!
# Rounding to decimal places, exactly

Rounding to places is three operations of the format: a product, a rounding to an
integer, a quotient. The scale and the integer are exact numbers, so only the product
and the quotient are rounded, and both are rounded from quotients of natural numbers.
What the three do together is said here without the format's numbers in between.

## Main results

* `Binary64.ofNat_eq` — the natural numbers below `2 ^ 53` are exact.
* `Binary64.roundToPlaces_finite` — the result, by the integer that the product is
  rounded to.
-/

namespace ArithFormula

/-! ## Exact natural numbers -/

theorem unitsPerOne_mul_lt {n : Nat} (hn : n < 2 ^ 53) :
    n * unitsPerOne < unitsOf overflowCode := by
  rw [unitsOf_overflowCode]
  have htop : 53 < topExponent := by decide
  refine Nat.mul_lt_mul_of_pos_right (Nat.lt_trans hn ?_) unitsPerOne_pos
  exact Nat.pow_lt_pow_right (by decide) htop

/-- A natural number of 53 binary digits is the value of a magnitude. -/
theorem Magnitude.exists_units_eq {n : Nat} (hn : n < 2 ^ 53) :
    ∃ m : Magnitude, m.units = n * unitsPerOne := by
  obtain ⟨code, hcode⟩ := exists_unitsOf_eq hn unitExponent
  have hlt : code < overflowCode := by
    apply Nat.lt_of_not_le
    intro hle
    have hunits := unitsOf_le_unitsOf hle
    have hbound := unitsPerOne_mul_lt hn
    rw [hcode] at hunits
    exact absurd hunits (Nat.not_le.mpr hbound)
  exact ⟨⟨code, hlt⟩, hcode⟩

theorem Magnitude.ne_zero_of_units_eq {n : Nat} {m : Magnitude} (hpos : 0 < n)
    (hm : m.units = n * unitsPerOne) : m ≠ .zero := by
  intro hzero
  rw [hzero, Magnitude.units_zero] at hm
  have := Nat.mul_pos hpos unitsPerOne_pos
  omega

namespace Binary64

/-- The signed natural number of a magnitude that has its value. -/
theorem ofQuotient_of_units_eq (negative : Bool) {n : Nat} {m : Magnitude}
    (hm : m.units = n * unitsPerOne) :
    ofQuotient negative (n * unitsPerOne) 1 = .finite negative m := by
  rw [← hm, ← Nat.mul_one m.units]
  exact ofQuotient_units negative m Nat.one_pos

/-- The natural numbers below `2 ^ 53` are exact. -/
theorem ofNat_eq {n : Nat} (hn : n < 2 ^ 53) :
    ∃ m : Magnitude, ofNat n = .finite false m ∧ m.units = n * unitsPerOne := by
  obtain ⟨m, hm⟩ := Magnitude.exists_units_eq hn
  exact ⟨m, ofQuotient_of_units_eq false hm, hm⟩

/-! ## Scaling -/

/-- The product with an exact natural number is rounded once. -/
theorem finite_mul_ofNat (negative : Bool) (m : Magnitude) {n : Nat} (hn : n < 2 ^ 53) :
    finite negative m * ofNat n = ofQuotient negative (m.units * n) 1 := by
  obtain ⟨k, hk, hunits⟩ := ofNat_eq hn
  rw [hk]
  show ofQuotient (negative ^^ false) (m.units * k.units) unitsPerOne = _
  have hscale := ofQuotient_scale negative (m.units * n) 1 unitsPerOne_pos
  rw [Nat.one_mul] at hscale
  rw [Bool.xor_false, hunits, ← Nat.mul_assoc, hscale]

/-- The quotient by an exact natural number is rounded once. -/
theorem finite_div_ofNat (negative : Bool) (m : Magnitude) {n : Nat} (hpos : 0 < n)
    (hn : n < 2 ^ 53) : finite negative m / ofNat n = ofQuotient negative m.units n := by
  obtain ⟨k, hk, hunits⟩ := ofNat_eq hn
  rw [hk]
  show (if k = .zero then _ else ofQuotient (negative ^^ false) (m.units * unitsPerOne) k.units) = _
  rw [if_neg (Magnitude.ne_zero_of_units_eq hpos hunits), Bool.xor_false, hunits]
  exact ofQuotient_scale negative m.units n unitsPerOne_pos

/-- The threshold is a number without a sign, with the value it is named for. -/
theorem integerThreshold_eq :
    ∃ m : Magnitude, integerThreshold = .finite false m ∧ m.units = 2 ^ 52 * unitsPerOne := by
  have hlt : 2 ^ 52 < 2 ^ 53 := by decide
  exact ofNat_eq hlt

theorem unitsOf_lt_unitsOf_iff {code code' : Nat} :
    unitsOf code < unitsOf code' ↔ code < code' := by
  constructor
  · intro hlt
    apply Nat.lt_of_not_le
    intro hle
    exact absurd (unitsOf_le_unitsOf hle) (Nat.not_le.mpr hlt)
  · exact unitsOf_lt_unitsOf

/-- An infinity is not below a finite number in magnitude. -/
theorem not_abs_infinity_less (negative : Bool) (m : Magnitude) :
    ¬(infinity negative).abs.less (.finite false m) = true := by
  have hlt := m.code_lt
  simp only [less, abs, place?, signed, Bool.false_eq_true, if_false, decide_eq_true_eq,
    Int.ofNat_lt]
  omega

/-- A rounded integer quotient is below the threshold exactly if its value is. -/
theorem abs_less_integerThreshold (negative : Bool) (num : Nat) :
    (ofQuotient negative num 1).abs.less integerThreshold = true ↔
      unitsOf (nearestCode num 1) < 2 ^ 52 * unitsPerOne := by
  obtain ⟨threshold, hthreshold, hunits⟩ := integerThreshold_eq
  rw [hthreshold, ← hunits, Magnitude.units, unitsOf_lt_unitsOf_iff]
  by_cases hfinite : nearestCode num 1 < overflowCode
  · have hx : ofQuotient negative num 1 = .finite negative ⟨nearestCode num 1, hfinite⟩ := by
      rw [ofQuotient, Magnitude.nearest?, dif_pos hfinite]
      rfl
    rw [hx]
    simp [less, abs, place?, signed]
  · have hx : ofQuotient negative num 1 = .infinity negative := by
      rw [ofQuotient, Magnitude.nearest?, dif_neg hfinite]
      rfl
    have hlt := threshold.code_lt
    rw [hx]
    exact iff_of_false (not_abs_infinity_less negative threshold) (by omega)

/-! ## Rounding -/

/-- The integer to which a product of so many units is rounded: first to a number of the format,
then to an integer. -/
def roundedProduct (mode : RoundingMode) (num : Nat) : Nat :=
  roundQuotient mode (unitsOf (nearestCode num 1)) unitsPerOne

/-- A product that becomes a number not above an integer is not rounded to more than that. -/
theorem roundedProduct_le {mode : RoundingMode} {num bound : Nat}
    (h : unitsOf (nearestCode num 1) ≤ bound * unitsPerOne) : roundedProduct mode num ≤ bound := by
  have hmono := roundQuotient_mono mode unitsPerOne_pos unitsPerOne_pos
    (Nat.mul_le_mul_right unitsPerOne h)
  rwa [roundQuotient_mul _ _ unitsPerOne_pos] at hmono

theorem ten_pow_lt {places : Nat} (h : places ≤ maxRoundedPlaces) : 10 ^ places < 2 ^ 53 := by
  have hmax : 10 ^ maxRoundedPlaces < 2 ^ 53 := by decide
  exact Nat.lt_of_le_of_lt (Nat.pow_le_pow_right (by decide) h) hmax

theorem ten_pow_pos (places : Nat) : 0 < 10 ^ places := Nat.pow_pos (by decide)

/-! ## Negative zero -/

/-- A zero result is positive. -/
def withoutNegativeZero (x : Binary64) : Binary64 := if x.isZero then zero else x

theorem withoutNegativeZero_ne (x : Binary64) : withoutNegativeZero x ≠ .finite true .zero := by
  unfold withoutNegativeZero
  by_cases hzero : x.isZero = true
  · rw [if_pos hzero]
    decide
  · rw [if_neg hzero]
    intro hx
    exact hzero (isZero_iff.mpr ⟨true, hx⟩)

theorem withoutNegativeZero_eq_self {x : Binary64} (h : x ≠ .finite true .zero) :
    withoutNegativeZero x = x := by
  unfold withoutNegativeZero
  by_cases hzero : x.isZero = true
  · obtain ⟨negative, hx⟩ := isZero_iff.mp hzero
    rw [if_pos hzero, hx]
    cases negative with
    | false => rfl
    | true => exact absurd hx h
  · rw [if_neg hzero]

theorem isFinite_withoutNegativeZero {x : Binary64} (h : x.isFinite = true) :
    (withoutNegativeZero x).isFinite = true := by
  unfold withoutNegativeZero
  split
  · rfl
  · exact h

theorem withoutNegativeZero_withoutNegativeZero (x : Binary64) :
    withoutNegativeZero (withoutNegativeZero x) = withoutNegativeZero x :=
  withoutNegativeZero_eq_self (withoutNegativeZero_ne x)

theorem place?_withoutNegativeZero (x : Binary64) :
    (withoutNegativeZero x).place? = x.place? := by
  unfold withoutNegativeZero
  split
  · next hzero =>
      obtain ⟨negative, rfl⟩ := isZero_iff.mp hzero
      cases negative <;> decide
  · rfl

theorem exists_withoutNegativeZero (negative : Bool) (m : Magnitude) :
    ∃ negative', withoutNegativeZero (.finite negative m) = .finite negative' m := by
  unfold withoutNegativeZero
  by_cases hzero : (finite negative m).isZero = true
  · obtain ⟨_, hm⟩ := isZero_iff.mp hzero
    rw [if_pos hzero, (finite.inj hm).2]
    exact ⟨false, rfl⟩
  · rw [if_neg hzero]
    exact ⟨negative, rfl⟩

/-! ## Rounding to places -/

/-- Rounding to places, with two roundings of the format left. -/
theorem roundToPlaces_finite {mode : RoundingMode} {places : Nat}
    (h : places ≤ maxRoundedPlaces) (negative : Bool) (m : Magnitude) :
    roundToPlaces mode places (.finite negative m) =
      if unitsOf (nearestCode (m.units * 10 ^ places) 1) < 2 ^ 52 * unitsPerOne then
        withoutNegativeZero (ofQuotient negative
          (roundedProduct mode (m.units * 10 ^ places) * unitsPerOne) (10 ^ places))
      else .finite negative m := by
  have hscale := ten_pow_lt h
  have hless := abs_less_integerThreshold negative (m.units * 10 ^ places)
  simp only [roundToPlaces, if_neg (Nat.not_lt.mpr h), finite_mul_ofNat negative m hscale]
  by_cases hsmall : unitsOf (nearestCode (m.units * 10 ^ places) 1) < 2 ^ 52 * unitsPerOne
  · rw [if_pos (hless.mpr hsmall), if_pos hsmall]
    -- The product is finite, since its value is below the threshold.
    have hfinite : nearestCode (m.units * 10 ^ places) 1 < overflowCode := by
      refine unitsOf_lt_unitsOf_iff.mp (Nat.lt_trans hsmall ?_)
      exact unitsPerOne_mul_lt (by decide)
    have hproduct : ofQuotient negative (m.units * 10 ^ places) 1 =
        .finite negative ⟨nearestCode (m.units * 10 ^ places) 1, hfinite⟩ := by
      rw [ofQuotient, Magnitude.nearest?, dif_pos hfinite]
      rfl
    obtain ⟨k, hk⟩ := Magnitude.exists_units_eq
      (Nat.lt_of_le_of_lt (@roundedProduct_le mode _ _ (Nat.le_of_lt hsmall)) (by decide))
    have hinteger : roundToInteger mode (ofQuotient negative (m.units * 10 ^ places) 1) =
        .finite negative k := by
      rw [hproduct]
      exact ofQuotient_of_units_eq negative hk
    rw [hinteger, finite_div_ofNat negative k (ten_pow_pos places) hscale, hk]
    rfl
  · rw [if_neg fun hlt => hsmall (hless.mp hlt), if_neg hsmall]

theorem ofQuotient_eq_finite_iff {negative negative' : Bool} {num den : Nat} {m : Magnitude} :
    ofQuotient negative num den = .finite negative' m ↔
      negative = negative' ∧ nearestCode num den = m.code := by
  rw [← Magnitude.nearest?_eq_some_iff, ofQuotient]
  cases Magnitude.nearest? num den with
  | none => simp
  | some k => simp

/-- An integer of 53 binary digits over a natural number does not overflow. -/
theorem exists_nearestCode_eq {n den : Nat} (hn : n < 2 ^ 53) (hden : 0 < den) :
    ∃ m : Magnitude, nearestCode (n * unitsPerOne) den = m.code := by
  obtain ⟨bound, hbound⟩ := Magnitude.exists_units_eq hn
  have hle : n * unitsPerOne ≤ unitsOf bound.code * den := by
    rw [← hbound]
    exact Nat.le_mul_of_pos_right _ hden
  exact ⟨⟨_, Nat.lt_of_le_of_lt (nearestCode_le_of_le hden hle) bound.code_lt⟩, rfl⟩

/-- A number that is rounded to places at all becomes the one nearest to an integer of places,
and no negative zero. -/
theorem exists_rounded {mode : RoundingMode} {places : Nat} (negative : Bool) {num : Nat}
    (hsmall : unitsOf (nearestCode num 1) < 2 ^ 52 * unitsPerOne) :
    ∃ negative' m, withoutNegativeZero (ofQuotient negative
          (roundedProduct mode num * unitsPerOne) (10 ^ places)) = .finite negative' m ∧
        nearestCode (roundedProduct mode num * unitsPerOne) (10 ^ places) = m.code := by
  have hlt : roundedProduct mode num < 2 ^ 53 :=
    Nat.lt_of_le_of_lt (roundedProduct_le (Nat.le_of_lt hsmall)) (by decide)
  obtain ⟨m, hm⟩ := exists_nearestCode_eq hlt (ten_pow_pos places)
  obtain ⟨negative', hresult⟩ := exists_withoutNegativeZero negative m
  rw [ofQuotient_eq_finite_iff.mpr ⟨rfl, hm⟩]
  exact ⟨negative', m, hresult, hm⟩

/-- Numbers are not rounded to more than `maxRoundedPlaces` places. -/
theorem roundToPlaces_of_many {places : Nat} (h : ¬places ≤ maxRoundedPlaces) (mode : RoundingMode)
    (x : Binary64) : roundToPlaces mode places x = x := by
  rw [roundToPlaces, if_pos (Nat.lt_of_not_le h)]

/-- A finite number is rounded to the one nearest to an integer of places if its product with the
scale is below the threshold. -/
theorem roundToPlaces_of_small {mode : RoundingMode} {places : Nat} {m : Magnitude}
    (hplaces : places ≤ maxRoundedPlaces) (negative : Bool)
    (hsmall : unitsOf (nearestCode (m.units * 10 ^ places) 1) < 2 ^ 52 * unitsPerOne) :
    ∃ negative' k, roundToPlaces mode places (.finite negative m) = .finite negative' k ∧
      finite negative' k ≠ .finite true .zero ∧
      nearestCode (roundedProduct mode (m.units * 10 ^ places) * unitsPerOne) (10 ^ places) =
        k.code := by
  have hround := @roundToPlaces_finite mode places hplaces negative m
  obtain ⟨negative', k, hresult, hk⟩ := @exists_rounded mode places negative _ hsmall
  rw [if_pos hsmall] at hround
  refine ⟨negative', k, hround.trans hresult, ?_, hk⟩
  rw [← hresult]
  exact withoutNegativeZero_ne _

/-- It stays as it is if the product is not. -/
theorem roundToPlaces_of_large {mode : RoundingMode} {places : Nat} {m : Magnitude}
    (hplaces : places ≤ maxRoundedPlaces) (negative : Bool)
    (hlarge : ¬unitsOf (nearestCode (m.units * 10 ^ places) 1) < 2 ^ 52 * unitsPerOne) :
    roundToPlaces mode places (.finite negative m) = .finite negative m := by
  rw [roundToPlaces_finite hplaces, if_neg hlarge]

/-- Rounding to places keeps numbers finite. -/
theorem isFinite_roundToPlaces (mode : RoundingMode) (places : Nat) {x : Binary64}
    (h : x.isFinite = true) : (roundToPlaces mode places x).isFinite = true := by
  by_cases hplaces : places ≤ maxRoundedPlaces
  · obtain ⟨negative, m, rfl⟩ := exists_of_isFinite h
    by_cases hsmall : unitsOf (nearestCode (m.units * 10 ^ places) 1) < 2 ^ 52 * unitsPerOne
    · obtain ⟨_, _, hresult, _⟩ := @roundToPlaces_of_small mode _ _ hplaces negative hsmall
      rw [hresult]
      rfl
    · rw [roundToPlaces_of_large hplaces negative hsmall]
      rfl
  · rw [roundToPlaces_of_many hplaces]
    exact h

/-- A result with the sign of its operand is that operand exactly if it has its code. -/
theorem withoutNegativeZero_eq_iff {negative : Bool} {num den : Nat} {m : Magnitude}
    (hsign : finite negative m ≠ .finite true .zero) :
    withoutNegativeZero (ofQuotient negative num den) = .finite negative m ↔
      nearestCode num den = m.code := by
  unfold withoutNegativeZero
  by_cases hzero : (ofQuotient negative num den).isZero = true
  · rw [if_pos hzero]
    obtain ⟨negative', hresult⟩ := isZero_iff.mp hzero
    obtain ⟨_, hcode⟩ := ofQuotient_eq_finite_iff.mp hresult
    rw [hcode, zero, finite.injEq]
    constructor
    · intro h
      exact congrArg Magnitude.code h.2
    · intro h
      have hm : m = .zero := Magnitude.ext_code h.symm
      refine ⟨?_, hm.symm⟩
      cases negative with
      | false => rfl
      | true => exact absurd (congrArg (finite true) hm) hsign
  · rw [if_neg hzero, ofQuotient_eq_finite_iff]
    simp

end Binary64

end ArithFormula
