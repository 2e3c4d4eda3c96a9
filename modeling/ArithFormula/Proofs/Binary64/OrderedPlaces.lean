import ArithFormula.Proofs.Binary64.KeptPlaces

/-!
# Rounding to places keeps the order

Rounding to places is a function of codes that leaves signs alone, and it is the identity on the
infinities, so it keeps the order of numbers if it keeps the order of codes. Where both codes are
rounded it does because every step does.

Codes from the threshold on stay as they are, and one just below it may be rounded up to the number
nearest to `2 ^ 52` of places. That does not pass any code which stays: one that is scaled to less
than the threshold is no further below it than a quarter, and codes around there are more than a
quarter apart when scaled, so the threshold's own number is that code or one below.

## Main results

* `unitsOf_succ_le` — a code is above the last one by one part in `2 ^ 53` of itself at least.
* `nearestCode_threshold_le` — no code that stays is below the number nearest to the threshold.
* `placedCode_mono` — rounding to places keeps the order of codes.
* `roundToPlaces_mono` — rounding to places keeps the order of numbers.
-/

namespace ArithFormula

/-! ## The gap between two codes -/

/-- Two codes in a row are multiples in a row of a power of two. -/
theorem exists_significand (code : Nat) :
    ∃ significand shift, significand < 2 ^ 53 ∧ unitsOf code = significand * 2 ^ shift ∧
      unitsOf (code + 1) = (significand + 1) * 2 ^ shift := by
  by_cases hsmall : code < 2 ^ 52
  · have hunits := @unitsOf_significand code 0 (.inl rfl) (by omega)
    have hnext := @unitsOf_significand (code + 1) 0 (.inl rfl) (by omega)
    rw [Nat.zero_mul, Nat.add_zero] at hunits hnext
    exact ⟨code, 0, by omega, hunits, hnext⟩
  · have hcode : 2 ^ 52 + code % 2 ^ 52 + (code / 2 ^ 52 - 1) * 2 ^ 52 = code := by omega
    have hmod := Nat.mod_lt code (Nat.two_pow_pos 52)
    have hunits := @unitsOf_significand (2 ^ 52 + code % 2 ^ 52) (code / 2 ^ 52 - 1)
      (.inr (by omega)) (by omega)
    have hnext := @unitsOf_significand (2 ^ 52 + code % 2 ^ 52 + 1) (code / 2 ^ 52 - 1)
      (.inr (by omega)) (by omega)
    rw [Nat.add_right_comm, hcode] at hnext
    rw [hcode] at hunits
    exact ⟨_, _, by omega, hunits, hnext⟩

/-- A code is above the last one by one part in `2 ^ 53` of itself at least. -/
theorem unitsOf_succ_le (code : Nat) :
    unitsOf (code + 1) + 2 ^ 53 * unitsOf code ≤ 2 ^ 53 * unitsOf (code + 1) := by
  obtain ⟨significand, shift, hlt, hcode, hnext⟩ := exists_significand code
  have hstep := Nat.mul_le_mul_right (2 ^ shift) hlt
  rw [hcode, hnext, Nat.add_mul, Nat.one_mul]
  rw [Nat.succ_mul] at hstep
  omega

namespace Binary64

/-! ## The threshold -/

/-- No code that is scaled to the threshold or more is below the number nearest to the
threshold, scaled back. -/
theorem nearestCode_threshold_le {places code : Nat}
    (h : 2 ^ 52 * unitsPerOne ≤ unitsOf (nearestCode (unitsOf code * 10 ^ places) 1)) :
    nearestCode (2 ^ 52 * unitsPerOne) (10 ^ places) ≤ code := by
  have hden := ten_pow_pos places
  have hquarter := le_of_le_product h
  by_cases hle : 2 ^ 52 * unitsPerOne ≤ unitsOf code * 10 ^ places
  · exact nearestCode_le_of_le hden hle
  · apply Nat.le_of_not_lt
    intro hlt
    -- The nearest number is no further off than the code is: both are within a quarter.
    have hcloser := (isNearest_nearestCode (2 ^ 52 * unitsPerOne) hden).closest code
    have hnext : unitsOf (code + 1) * 10 ^ places ≤
        unitsOf (nearestCode (2 ^ 52 * unitsPerOne) (10 ^ places)) * 10 ^ places :=
      Nat.mul_le_mul_right _ (unitsOf_le_unitsOf hlt)
    have hgap := Nat.mul_le_mul_right (10 ^ places) (unitsOf_succ_le code)
    have hunits := unitsPerOne_eq_two_mul
    have hpos := halfUnits_pos
    rw [Nat.add_mul, Nat.mul_assoc, Nat.mul_assoc] at hgap
    unfold distance at hcloser
    generalize unitsOf (nearestCode (2 ^ 52 * unitsPerOne) (10 ^ places)) * 10 ^ places = nearest
      at hcloser hnext
    generalize unitsOf (code + 1) * 10 ^ places = next at hnext hgap
    generalize unitsOf code * 10 ^ places = scaled at hquarter hle hcloser hgap
    omega

/-! ## Codes -/

/-- The code to which a code is rounded; the infinities have one, too. -/
def placedCode (mode : RoundingMode) (places code : Nat) : Nat :=
  if unitsOf (nearestCode (unitsOf code * 10 ^ places) 1) < 2 ^ 52 * unitsPerOne then
    nearestCode (roundedProduct mode (unitsOf code * 10 ^ places) * unitsPerOne) (10 ^ places)
  else code

theorem placedCode_zero (mode : RoundingMode) (places : Nat) : placedCode mode places 0 = 0 := by
  have hunits : unitsOf 0 = 0 := Magnitude.units_zero
  have hproduct : nearestCode 0 1 = 0 := nearestCode_zero Nat.one_pos
  have hinteger : roundedProduct mode 0 = 0 := by
    rw [roundedProduct, hproduct, hunits]
    exact roundQuotient_zero mode unitsPerOne_pos
  have hsmall : 0 < 2 ^ 52 * unitsPerOne := Nat.mul_pos (by decide) unitsPerOne_pos
  rw [placedCode, hunits, Nat.zero_mul, hproduct, hunits, if_pos hsmall, hinteger, Nat.zero_mul]
  exact nearestCode_zero (ten_pow_pos places)

/-- The infinities stay as they are. -/
theorem placedCode_overflowCode (mode : RoundingMode) (places : Nat) :
    placedCode mode places overflowCode = overflowCode := by
  have hproduct : overflowCode ≤ nearestCode (unitsOf overflowCode * 10 ^ places) 1 := by
    apply le_nearestCode_of_le Nat.one_pos
    rw [Nat.mul_one]
    exact Nat.le_mul_of_pos_right _ (ten_pow_pos places)
  have hlarge := Nat.lt_of_lt_of_le (@unitsPerOne_mul_lt (2 ^ 52) (by decide))
    (unitsOf_le_unitsOf hproduct)
  rw [placedCode, if_neg (Nat.lt_asymm hlarge)]

/-- Rounding to places keeps the order of codes. -/
theorem placedCode_mono (mode : RoundingMode) (places : Nat) {code code' : Nat}
    (h : code ≤ code') : placedCode mode places code ≤ placedCode mode places code' := by
  have hscaled := Nat.mul_le_mul_right (10 ^ places) (unitsOf_le_unitsOf h)
  have hproduct := unitsOf_le_unitsOf (nearestCode_mono Nat.one_pos Nat.one_pos
    (Nat.mul_le_mul_right 1 hscaled))
  unfold placedCode
  by_cases hsmall' : unitsOf (nearestCode (unitsOf code' * 10 ^ places) 1) < 2 ^ 52 * unitsPerOne
  · have hinteger := roundQuotient_mono mode unitsPerOne_pos unitsPerOne_pos
      (Nat.mul_le_mul_right unitsPerOne hproduct)
    rw [if_pos (Nat.lt_of_le_of_lt hproduct hsmall'), if_pos hsmall']
    apply nearestCode_mono (ten_pow_pos places) (ten_pow_pos places)
    exact Nat.mul_le_mul_right _ (Nat.mul_le_mul_right _ hinteger)
  · rw [if_neg hsmall']
    by_cases hsmall : unitsOf (nearestCode (unitsOf code * 10 ^ places) 1) < 2 ^ 52 * unitsPerOne
    · rw [if_pos hsmall]
      have hinteger := @roundedProduct_le mode _ _ (Nat.le_of_lt hsmall)
      refine Nat.le_trans ?_ (nearestCode_threshold_le (Nat.le_of_not_lt hsmall'))
      apply nearestCode_mono (ten_pow_pos places) (ten_pow_pos places)
      exact Nat.mul_le_mul_right _ (Nat.mul_le_mul_right _ hinteger)
    · rw [if_neg hsmall]
      exact h

/-! ## Numbers -/

/-- A function that keeps the order of codes, and zero, keeps it also under signs. -/
theorem signed_le_signed_of_mono {f : Nat → Nat} (hzero : f 0 = 0)
    (hmono : ∀ {a b : Nat}, a ≤ b → f a ≤ f b) {s t : Bool} {a b : Nat}
    (h : signed s a ≤ signed t b) : signed s (f a) ≤ signed t (f b) := by
  cases s <;> cases t <;> simp only [signed, Bool.false_eq_true, if_true, if_false] at h ⊢
  · have := @hmono a b (by omega)
    omega
  · obtain rfl : a = 0 := by omega
    obtain rfl : b = 0 := by omega
    omega
  · omega
  · have := @hmono b a (by omega)
    omega

/-- The infinities are not rounded. -/
theorem roundToPlaces_infinity (mode : RoundingMode) (places : Nat) (negative : Bool) :
    roundToPlaces mode places (.infinity negative) = .infinity negative := by
  by_cases hplaces : places ≤ maxRoundedPlaces
  · obtain ⟨scale, hscale, hunits⟩ := ofNat_eq (ten_pow_lt hplaces)
    obtain ⟨threshold, hthreshold, _⟩ := integerThreshold_eq
    have hproduct : infinity negative * ofNat (10 ^ places) = .infinity negative := by
      rw [hscale]
      show (if scale = .zero then _ else infinity (negative ^^ false)) = _
      rw [if_neg (Magnitude.ne_zero_of_units_eq (ten_pow_pos places) hunits), Bool.xor_false]
    simp only [roundToPlaces, hproduct, hthreshold,
      if_neg (not_abs_infinity_less negative threshold), ite_self]
  · rw [roundToPlaces_of_many hplaces]

/-- Rounding to places moves a number to the place of its rounded code, on its own side of zero. -/
theorem exists_place_roundToPlaces {mode : RoundingMode} {places : Nat}
    (hplaces : places ≤ maxRoundedPlaces) {x : Binary64} (hx : x ≠ .nan) :
    ∃ s code, x.place? = some (signed s code) ∧
      (roundToPlaces mode places x).place? = some (signed s (placedCode mode places code)) := by
  cases x with
  | nan => exact absurd rfl hx
  | infinity negative =>
      refine ⟨negative, overflowCode, rfl, ?_⟩
      rw [roundToPlaces_infinity, placedCode_overflowCode]
      rfl
  | finite negative m =>
      refine ⟨negative, m.code, rfl, ?_⟩
      by_cases hsmall : unitsOf (nearestCode (m.units * 10 ^ places) 1) < 2 ^ 52 * unitsPerOne
      · have hplaced : placedCode mode places m.code =
            nearestCode (roundedProduct mode (m.units * 10 ^ places) * unitsPerOne) (10 ^ places) :=
          if_pos hsmall
        have hlt := Nat.lt_of_le_of_lt (@roundedProduct_le mode _ _ (Nat.le_of_lt hsmall))
          (by decide : 2 ^ 52 < 2 ^ 53)
        obtain ⟨k, hk⟩ := exists_nearestCode_eq hlt (ten_pow_pos places)
        rw [roundToPlaces_finite hplaces, if_pos hsmall, place?_withoutNegativeZero,
          ofQuotient_eq_finite_iff.mpr ⟨rfl, hk⟩, hplaced, hk]
        rfl
      · have hplaced : placedCode mode places m.code = m.code := if_neg hsmall
        rw [roundToPlaces_of_large hplaces negative hsmall, hplaced]
        rfl

/-- Rounding to places keeps the order of numbers, the infinities included. -/
theorem roundToPlaces_mono (mode : RoundingMode) (places : Nat) {x y : Binary64}
    (h : x.atMost y = true) :
    (roundToPlaces mode places x).atMost (roundToPlaces mode places y) = true := by
  by_cases hplaces : places ≤ maxRoundedPlaces
  · obtain ⟨i, j, hi, hj, hle⟩ := atMost_iff.mp h
    have hx : x ≠ .nan := by
      rintro rfl
      cases hi
    have hy : y ≠ .nan := by
      rintro rfl
      cases hj
    obtain ⟨s, code, hcode, hplaced⟩ := @exists_place_roundToPlaces mode _ hplaces _ hx
    obtain ⟨t, code', hcode', hplaced'⟩ := @exists_place_roundToPlaces mode _ hplaces _ hy
    obtain rfl : signed s code = i := Option.some.inj (hcode.symm.trans hi)
    obtain rfl : signed t code' = j := Option.some.inj (hcode'.symm.trans hj)
    refine atMost_iff.mpr ⟨_, _, hplaced, hplaced', ?_⟩
    exact signed_le_signed_of_mono (placedCode_zero mode places) (placedCode_mono mode places) hle
  · rw [roundToPlaces_of_many hplaces, roundToPlaces_of_many hplaces]
    exact h

/-- The number nearest to `2 ^ 52` of nine places. -/
def nineThreshold : Binary64 := .ofQuotient false (2 ^ 52 * unitsPerOne) (10 ^ 9)

/-- The number nearest to one less of nine places. -/
def nineBelow : Binary64 := .ofQuotient false ((2 ^ 52 - 1) * unitsPerOne) (10 ^ 9)

/-- The statement for a number that is rounded up to the next one, which is not rounded. -/
theorem roundToPlaces_mono_nineThreshold :
    nineBelow.less nineThreshold = true ∧ nineBelow.atMost nineThreshold = true ∧
      (nineBelow * ofNat (10 ^ 9)).abs.less integerThreshold = true ∧
      ¬(nineThreshold * ofNat (10 ^ 9)).abs.less integerThreshold = true ∧
      roundToPlaces .halfEven 9 nineBelow = nineThreshold ∧
      (roundToPlaces .halfEven 9 nineBelow).atMost (roundToPlaces .halfEven 9 nineThreshold) =
        true := by
  have hle : nineBelow.atMost nineThreshold = true := by decide +kernel
  refine ⟨by decide +kernel, hle, by decide +kernel, by decide +kernel, by decide +kernel, ?_⟩
  exact roundToPlaces_mono .halfEven 9 hle

end Binary64

end ArithFormula
