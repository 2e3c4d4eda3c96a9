import ArithFormula.Proofs.Binary64.FaithfulPlaces

/-!
# Rounding to places twice, halves away from zero

A result of rounding to places is the number nearest to an integer of places. When it is scaled
again, the product may be more than a quarter off that integer, and from `2 ^ 51` on it is then
rounded to one of the halves beside it. A half below is rounded up to the integer again. A half
above is a tie that is none, and it is rounded away from zero to the next integer.

So rounding halves away from zero settles in one step unless the result is more than a quarter
above an integer between `2 ^ 51` and `2 ^ 52` when it is scaled, and then it does not.

## Main results

* `roundedProduct_away_eq_iff` — whether the integer is found again from `2 ^ 51` on.
* `roundToPlaces_away_eq_self_iff` — which numbers nearest to an integer of places are kept.
* `roundToPlaces_away_twice_iff` — for which numbers rounding to places settles in one step.
-/

namespace ArithFormula.Binary64

/-! ## The integer that is found again -/

/-- A half-integer is rounded to the integer above. -/
theorem roundQuotient_two_away (k : Nat) :
    roundQuotient .halfAwayFromZero k 2 = (k + 1) / 2 := by
  simp only [roundQuotient, RoundingMode.tieGoesUp, if_true]
  split <;> (try split) <;> omega

/-- From `2 ^ 51` up to `2 ^ 52` an integer is found again if the product is at most a quarter
above it. -/
theorem roundedProduct_away_eq_iff {num n : Nat} (hnear : NearInteger num n)
    (hle : 2 ^ 51 * unitsPerOne ≤ num) (hlt : num < 2 ^ 52 * unitsPerOne) :
    roundedProduct .halfAwayFromZero num = n ↔
      ¬4 * (n * unitsPerOne) + unitsPerOne < 4 * num := by
  obtain ⟨hclose, hfar⟩ := roundQuotient_halfUnits hnear hlt
  have hhalf := roundQuotient_near .halfEven num halfUnits_pos
  have hunits := unitsPerOne_eq_two_mul
  have hpos := halfUnits_pos
  have htwice : n * unitsPerOne = 2 * n * halfUnits := by
    rw [hunits, Nat.mul_left_comm, Nat.mul_assoc]
  rw [roundedProduct_eq_halves .halfAwayFromZero hle hlt, roundQuotient_two_away]
  by_cases hgap : unitsPerOne < 4 * ((num : Int) - (n * unitsPerOne : Nat)).natAbs
  · have hbeside := hfar hgap
    generalize roundQuotient .halfEven num halfUnits = halves at hbeside hhalf ⊢
    -- The product is on the same side of the integer as the half that it is rounded to.
    rcases hbeside with habove | hbelow
    · have hsplit : halves * halfUnits = n * unitsPerOne + halfUnits := by
        rw [habove, htwice, Nat.succ_mul]
      omega
    · have hsplit : halves * halfUnits + halfUnits = n * unitsPerOne := by
        rw [htwice, ← hbelow, Nat.succ_mul]
      omega
  · rw [hclose (Nat.le_of_not_lt hgap)]
    omega

/-! ## Numbers that are kept -/

/-- The numbers nearest to `n` places that rounding halves away from zero moves: `n` is below
`2 ^ 52`, and the scaled number is more than a quarter above it. -/
structure DriftsUp (places : Nat) (m : Magnitude) (n : Nat) : Prop where
  rounded : places ≤ maxRoundedPlaces
  lt : n < 2 ^ 52
  above : 4 * (n * unitsPerOne) + unitsPerOne < 4 * (m.units * 10 ^ places)

theorem DriftsUp.product_bounds {places n : Nat} {m : Magnitude} (h : DriftsUp places m n)
    (hm : nearestCode (n * unitsPerOne) (10 ^ places) = m.code) :
    2 ^ 51 * unitsPerOne ≤ m.units * 10 ^ places ∧
      m.units * 10 ^ places < 2 ^ 52 * unitsPerOne := by
  have hfar : unitsPerOne < 4 * distance (n * unitsPerOne) (10 ^ places) m.code := by
    have habove := h.above
    rw [Magnitude.units] at habove
    unfold distance
    omega
  exact product_bounds_of_far h.rounded h.lt hfar hm

/-- The number nearest to `n / 10 ^ places` is its own rounding to places, halves away from zero,
unless it drifts up. -/
theorem roundToPlaces_away_eq_self_iff {negative : Bool} {m : Magnitude} {n places : Nat}
    (hsign : finite negative m ≠ .finite true .zero)
    (hm : nearestCode (n * unitsPerOne) (10 ^ places) = m.code) :
    roundToPlaces .halfAwayFromZero places (.finite negative m) = .finite negative m ↔
      ¬DriftsUp places m n := by
  rw [roundToPlaces_eq_self_iff_of_nearest hsign hm]
  constructor
  · intro hfound h
    have hnear := nearInteger_of_nearestCode h.rounded hm
    obtain ⟨hle, hlt⟩ := h.product_bounds hm
    have hsame := hfound h.rounded (hnear.product_lt h.lt)
    exact (roundedProduct_away_eq_iff hnear hle hlt).mp hsame h.above
  · intro hnot hplaces hsmall
    have hnear := nearInteger_of_nearestCode hplaces hm
    have hlt := lt_of_product_lt hsmall
    by_cases hlow : m.units * 10 ^ places < 2 ^ 51 * unitsPerOne
    · exact (roundedProduct_of_lt hnear hlow .halfAwayFromZero).1
    · refine (roundedProduct_away_eq_iff hnear (Nat.le_of_not_lt hlow) hlt).mpr ?_
      intro habove
      have hn : n < 2 ^ 52 := by
        apply Nat.lt_of_mul_lt_mul_right (a := unitsPerOne)
        omega
      exact hnot ⟨hplaces, hn, habove⟩

/-! ## The range above a quarter -/

/-- The number of units is more than a quarter and less than a half above an integer between
`2 ^ 51` and `2 ^ 52`. -/
def AboveQuarter (num : Nat) : Prop :=
  ∃ n, 2 ^ 51 < n ∧ n < 2 ^ 52 ∧ 4 * (n * unitsPerOne) + unitsPerOne < 4 * num ∧
    2 * num < 2 * (n * unitsPerOne) + unitsPerOne

/-- The same of the rational. -/
theorem aboveQuarter_iff (num : Nat) :
    AboveQuarter num ↔ ∃ n : ℕ, 2 ^ 51 < n ∧ n < 2 ^ 52 ∧
      (n : ℚ) + 1 / 4 < num / unitsPerOne ∧ (num : ℚ) / unitsPerOne < n + 1 / 2 := by
  have hunit := unitsPerOne_cast_pos
  have hquarter : ∀ n : ℕ, 4 * (n * unitsPerOne) + unitsPerOne < 4 * num ↔
      (n : ℚ) + 1 / 4 < num / unitsPerOne := by
    intro n
    rw [lt_div_iff₀ hunit, ← Nat.cast_lt (α := ℚ)]
    push_cast
    constructor <;> intro h <;> linarith
  have hhalf : ∀ n : ℕ, 2 * num < 2 * (n * unitsPerOne) + unitsPerOne ↔
      (num : ℚ) / unitsPerOne < n + 1 / 2 := by
    intro n
    rw [div_lt_iff₀ hunit, ← Nat.cast_lt (α := ℚ)]
    push_cast
    constructor <;> intro h <;> linarith
  simp only [AboveQuarter, hquarter, hhalf]

/-- A number near to an integer is in the range exactly if it is more than a quarter above that
integer. -/
theorem NearInteger.aboveQuarter_iff {num n : Nat} (h : NearInteger num n) (hn : n ≤ 2 ^ 52) :
    AboveQuarter num ↔ n < 2 ^ 52 ∧ 4 * (n * unitsPerOne) + unitsPerOne < 4 * num := by
  have hbelow := h.below
  have habove := h.above
  have hpos := unitsPerOne_pos
  have hrange := Nat.mul_le_mul_right unitsPerOne hn
  constructor
  · rintro ⟨k, _, hlt, hquarter, hhalf⟩
    have hle : ¬n < k := by
      intro hless
      have := Nat.mul_le_mul_right unitsPerOne hless
      rw [Nat.succ_mul] at this
      omega
    have hge : ¬k < n := by
      intro hless
      have := Nat.mul_le_mul_right unitsPerOne hless
      rw [Nat.succ_mul] at this
      omega
    obtain rfl : k = n := by omega
    exact ⟨hlt, hquarter⟩
  · rintro ⟨hlt, hquarter⟩
    have hfrom : 2 ^ 51 < n := by
      apply Nat.lt_of_mul_lt_mul_right (a := unitsPerOne)
      omega
    have hnext := Nat.mul_le_mul_right unitsPerOne hlt
    rw [Nat.succ_mul] at hnext
    exact ⟨n, hfrom, hlt, hquarter, by omega⟩

/-- What is scaled to the threshold or more is not in the range. -/
theorem not_aboveQuarter_of_le {num : Nat}
    (h : 2 ^ 52 * unitsPerOne ≤ unitsOf (nearestCode num 1)) : ¬AboveQuarter num := by
  rintro ⟨n, _, hlt, _, hhalf⟩
  have hquarter := le_of_le_product h
  have hunits := unitsPerOne_eq_two_mul
  have hpos := halfUnits_pos
  have hnext := Nat.mul_le_mul_right unitsPerOne hlt
  rw [Nat.succ_mul] at hnext
  omega

/-! ## Rounding twice -/

theorem abs_toRat_mul (negative : Bool) (m : Magnitude) (places : Nat) :
    |(finite negative m).toRat * (10 : ℚ) ^ places| =
      ((m.units * 10 ^ places : ℕ) : ℚ) / unitsPerOne := by
  have hexact := toRat_mul negative m (10 ^ places)
  rw [Nat.cast_pow, Nat.cast_ofNat] at hexact
  rw [hexact, abs_signed_div]

/-- Rounding to places, halves away from zero, settles in one step, unless it is to at most 15
places and the result is more than a quarter and less than a half above an integer between
`2 ^ 51` and `2 ^ 52` when it is scaled. -/
theorem roundToPlaces_away_twice_iff (places : Nat) {x : Binary64} (hx : x.isFinite = true) :
    roundToPlaces .halfAwayFromZero places (roundToPlaces .halfAwayFromZero places x) =
        roundToPlaces .halfAwayFromZero places x ↔
      ¬(places ≤ 15 ∧ ∃ n : ℕ, 2 ^ 51 < n ∧ n < 2 ^ 52 ∧
        (n : ℚ) + 1 / 4 <
          |(roundToPlaces .halfAwayFromZero places x).toRat * (10 : ℚ) ^ places| ∧
        |(roundToPlaces .halfAwayFromZero places x).toRat * (10 : ℚ) ^ places| <
          n + 1 / 2) := by
  by_cases hplaces : places ≤ maxRoundedPlaces
  · obtain ⟨negative, operand, rfl⟩ := exists_of_isFinite hx
    by_cases hsmall :
        unitsOf (nearestCode (operand.units * 10 ^ places) 1) < 2 ^ 52 * unitsPerOne
    · obtain ⟨negative', m, hround, hsign, hm⟩ :=
        @roundToPlaces_of_small .halfAwayFromZero _ _ hplaces negative hsmall
      have hn := @roundedProduct_le .halfAwayFromZero _ _ (Nat.le_of_lt hsmall)
      rw [hround, roundToPlaces_away_eq_self_iff hsign hm, abs_toRat_mul, ← aboveQuarter_iff,
        (nearInteger_of_nearestCode hplaces hm).aboveQuarter_iff hn]
      exact not_congr ⟨fun h => ⟨h.rounded, h.lt, h.above⟩, fun h => ⟨h.1, h.2.1, h.2.2⟩⟩
    · have hround := @roundToPlaces_of_large .halfAwayFromZero _ _ hplaces negative hsmall
      rw [hround, hround, abs_toRat_mul, ← aboveQuarter_iff]
      simp only [not_aboveQuarter_of_le (Nat.le_of_not_lt hsmall), and_false, not_false_eq_true]
  · rw [roundToPlaces_of_many hplaces, roundToPlaces_of_many hplaces]
    simp only [true_iff]
    intro h
    exact hplaces h.1

/-- The number nearest to `40000000000000` and so many thousandths. -/
def fortyTrillion (thousandths : Nat) : Binary64 :=
  .ofQuotient false ((40000000000000000 + thousandths) * unitsPerOne) 1000

/-- The statement for a number whose result is in the range. -/
theorem roundToPlaces_away_twice_iff_fortyTrillion :
    (fortyTrillion 195).isFinite = true ∧
      (roundToPlaces .halfAwayFromZero 2 (fortyTrillion 195)).toRat * (10 : ℚ) ^ 2 =
        4000000000000020 + 5 / 16 ∧
      (roundToPlaces .halfAwayFromZero 2 (roundToPlaces .halfAwayFromZero 2 (fortyTrillion 195)) =
          roundToPlaces .halfAwayFromZero 2 (fortyTrillion 195) ↔
        ¬(2 ≤ 15 ∧ ∃ n : ℕ, 2 ^ 51 < n ∧ n < 2 ^ 52 ∧
          (n : ℚ) + 1 / 4 <
            |(roundToPlaces .halfAwayFromZero 2 (fortyTrillion 195)).toRat * (10 : ℚ) ^ 2| ∧
          |(roundToPlaces .halfAwayFromZero 2 (fortyTrillion 195)).toRat * (10 : ℚ) ^ 2| <
            n + 1 / 2)) := by
  have hfinite : (fortyTrillion 195).isFinite = true := by decide +kernel
  exact ⟨hfinite, by decide +kernel, roundToPlaces_away_twice_iff 2 hfinite⟩

/-- A number that does not settle in one step: the result is a number of two places already, and
rounding it to two places adds a hundredth. -/
theorem roundToPlaces_away_fortyTrillion_ne :
    (fortyTrillion 195).isFinite = true ∧
      roundToPlaces .halfAwayFromZero 2 (fortyTrillion 195) = fortyTrillion 200 ∧
      roundToPlaces .halfAwayFromZero 2 (fortyTrillion 200) = fortyTrillion 210 ∧
      roundToPlaces .halfAwayFromZero 2 (roundToPlaces .halfAwayFromZero 2 (fortyTrillion 195)) ≠
        roundToPlaces .halfAwayFromZero 2 (fortyTrillion 195) := by
  have hfirst : roundToPlaces .halfAwayFromZero 2 (fortyTrillion 195) = fortyTrillion 200 := by
    decide +kernel
  have hsecond : roundToPlaces .halfAwayFromZero 2 (fortyTrillion 200) = fortyTrillion 210 := by
    decide +kernel
  refine ⟨by decide +kernel, hfirst, hsecond, ?_⟩
  rw [hfirst, hsecond]
  decide +kernel

end ArithFormula.Binary64
