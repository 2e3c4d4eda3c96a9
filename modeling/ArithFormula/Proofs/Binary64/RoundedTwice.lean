import ArithFormula.Proofs.Binary64.KeptPlaces

/-!
# Rounding to places twice

A number that drifts is moved by rounding to places although it is the one nearest to an
integer of places. No such number is itself the result of rounding to as many places, halves
to even.

Drifting takes an odd integer from `2 ^ 51` on. There a tie goes to an even integer, so an odd
one is found only if the product is rounded to it as a number already, and then the operand was
at most a quarter off. The result is the number nearest to the integer of places, hence no
further off than the operand; so it does not drift.

## Main results

* `close_of_roundedProduct_odd` — which operands are rounded to odd integers.
* `not_drifts_of_rounded` — no result drifts.
* `roundToPlaces_roundToPlaces` — rounding to places settles in one step.
-/

namespace ArithFormula.Binary64

/-- From `2 ^ 51` up to `2 ^ 52` only products at most a quarter off are rounded to an odd
integer. -/
theorem close_of_roundedProduct_odd {num : Nat} (hle : 2 ^ 51 * unitsPerOne ≤ num)
    (hlt : num < 2 ^ 52 * unitsPerOne) (hodd : roundedProduct .halfEven num % 2 = 1) :
    4 * ((num : Int) - (roundedProduct .halfEven num * unitsPerOne : Nat)).natAbs ≤
      unitsPerOne := by
  have hunits := unitsPerOne_eq_two_mul
  have hnear := roundQuotient_near .halfEven num halfUnits_pos
  rw [roundedProduct_eq_halves .halfEven hle hlt, roundQuotient_two] at hodd ⊢
  generalize roundQuotient .halfEven num halfUnits = halves at hodd hnear ⊢
  by_cases htie : halves % 4 = 3
  · rw [if_pos htie] at hodd
    omega
  · rw [if_neg htie] at hodd ⊢
    have heven : halves = halves / 2 * 2 := by omega
    have hsame : halves / 2 * unitsPerOne = halves * halfUnits := by
      rw [hunits, ← Nat.mul_assoc, ← heven]
    rw [hsame]
    omega

/-- A product below an integer is not rounded to more than that. -/
theorem roundedProduct_le_of_lt {mode : RoundingMode} {num bound : Nat} (hbound : bound < 2 ^ 53)
    (h : num < bound * unitsPerOne) : roundedProduct mode num ≤ bound := by
  obtain ⟨code, hcode⟩ : ∃ code, unitsOf code = bound * unitsPerOne :=
    exists_unitsOf_eq hbound unitExponent
  have hle : num ≤ unitsOf code * 1 := by
    rw [Nat.mul_one, hcode]
    exact Nat.le_of_lt h
  have hvalue := unitsOf_le_unitsOf (nearestCode_le_of_le Nat.one_pos hle)
  rw [hcode] at hvalue
  exact roundedProduct_le hvalue

/-- An integer that is near to a product from `2 ^ 51` on is itself from there on. -/
theorem NearInteger.le_of_le {num n : Nat} (h : NearInteger num n)
    (hle : 2 ^ 51 * unitsPerOne ≤ num) : 2 ^ 51 ≤ n := by
  apply Nat.le_of_not_lt
  intro hlt
  have hnext := Nat.mul_le_mul_right unitsPerOne hlt
  have habove := h.above
  have hpos := unitsPerOne_pos
  rw [Nat.succ_mul] at hnext
  omega

/-- The result of rounding to places does not drift. -/
theorem not_drifts_of_rounded {places : Nat} {operand m : Magnitude}
    (hsmall : unitsOf (nearestCode (operand.units * 10 ^ places) 1) < 2 ^ 52 * unitsPerOne)
    (hm : nearestCode (roundedProduct .halfEven (operand.units * 10 ^ places) * unitsPerOne)
      (10 ^ places) = m.code) :
    ¬Drifts places m (roundedProduct .halfEven (operand.units * 10 ^ places)) := by
  intro h
  have hodd := h.odd
  -- The operand is in the range of the result: an odd integer from `2 ^ 51` on is above that.
  have hfrom := (nearInteger_of_nearestCode h.rounded hm).le_of_le (h.product_bounds hm).1
  have hle : 2 ^ 51 * unitsPerOne ≤ operand.units * 10 ^ places := by
    apply Nat.le_of_not_lt
    intro hlow
    have hupto := @roundedProduct_le_of_lt .halfEven _ (2 ^ 51) (by decide) hlow
    omega
  have hclose := close_of_roundedProduct_odd hle (lt_of_product_lt hsmall) hodd
  have hnearest := (nearestCode_eq_iff (ten_pow_pos places)).mp hm
  have hbeats := hnearest.closest operand.code
  have hfar := h.far
  have hoperand : distance (roundedProduct .halfEven (operand.units * 10 ^ places) * unitsPerOne)
      (10 ^ places) operand.code =
        ((operand.units * 10 ^ places : Nat) -
          (roundedProduct .halfEven (operand.units * 10 ^ places) * unitsPerOne : Nat) :
            Int).natAbs := rfl
  omega

/-- Rounding to places settles in one step. -/
theorem roundToPlaces_roundToPlaces (places : Nat) {x : Binary64} (h : x.isFinite = true) :
    roundToPlaces .halfEven places (roundToPlaces .halfEven places x) =
      roundToPlaces .halfEven places x := by
  by_cases hplaces : places ≤ maxRoundedPlaces
  · obtain ⟨negative, operand, rfl⟩ := exists_of_isFinite h
    by_cases hsmall :
        unitsOf (nearestCode (operand.units * 10 ^ places) 1) < 2 ^ 52 * unitsPerOne
    · obtain ⟨negative', m, hround, hsign, hm⟩ :=
        @roundToPlaces_of_small .halfEven _ _ hplaces negative hsmall
      rw [hround]
      exact (roundToPlaces_eq_self_iff hsign hm).mpr (not_drifts_of_rounded hsmall hm)
    · have hround := @roundToPlaces_of_large .halfEven _ _ hplaces negative hsmall
      rw [hround, hround]
  · rw [roundToPlaces_of_many hplaces, roundToPlaces_of_many hplaces]

end ArithFormula.Binary64
