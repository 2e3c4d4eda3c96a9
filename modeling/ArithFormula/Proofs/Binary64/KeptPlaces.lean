import ArithFormula.Proofs.Binary64.Places

/-!
# Numbers that rounding to places keeps

The number nearest to `n / 10 ^ places` should be its own rounding to that many places.
Below `2 ^ 51` it is: the product with the scale misses `n` by less than a half, and the
rounding to an integer finds `n` again. From `2 ^ 52` on nothing is rounded.

In between products are multiples of one half. One that is more than a quarter off `n`
is rounded to `n + 1 / 2` or `n - 1 / 2` first, and that tie goes to the even neighbour:
to `n` if it is even, and away from `n` if it is odd.

## Main results

* `Binary64.roundedProduct_of_lt` — the integer is found again below `2 ^ 51`.
* `Binary64.roundedProduct_eq_iff` — whether it is found again up to `2 ^ 52`.
* `Binary64.roundToPlaces_eq_self_iff` — which numbers are kept.
* `Binary64.Drifts.product_bounds` — the range outside which all numbers are kept.
-/

namespace ArithFormula.Binary64

/-! ## Numbers near a multiple of a decimal place -/

/-- The units in one half. -/
def halfUnits : Nat := 2 ^ (unitExponent - 1)

theorem unitsPerOne_eq_two_mul : unitsPerOne = 2 * halfUnits := by
  have hexp : unitExponent = unitExponent - 1 + 1 := by
    rw [unitExponent]
  rw [unitsPerOne, halfUnits, ← Nat.pow_succ']
  exact congrArg (2 ^ ·) hexp

theorem halfUnits_pos : 0 < halfUnits := Nat.two_pow_pos _

/-- The number of units is near to `n`: no further off than one part in `2 ^ 53` of `n`. -/
structure NearInteger (num n : Nat) : Prop where
  below : 2 ^ 53 * (n * unitsPerOne) ≤ 2 ^ 53 * num + n * unitsPerOne
  above : 2 ^ 53 * num ≤ 2 ^ 53 * (n * unitsPerOne) + n * unitsPerOne

/-- The number nearest to `n / 10 ^ places` is near to `n` when it is scaled. -/
theorem nearInteger_of_nearestCode {n places : Nat} {m : Magnitude}
    (hplaces : places ≤ maxRoundedPlaces)
    (hm : nearestCode (n * unitsPerOne) (10 ^ places) = m.code) :
    NearInteger (m.units * 10 ^ places) n := by
  have hfull : 10 ^ places ∣ n * unitsPerOne ∨ 2 ^ 52 * 10 ^ places ≤ n * unitsPerOne := by
    by_cases hzero : n = 0
    · left
      rw [hzero, Nat.zero_mul]
      exact Nat.dvd_zero _
    · right
      have hexp : 52 + 53 ≤ unitExponent := by
        rw [unitExponent]
        decide
      calc 2 ^ 52 * 10 ^ places ≤ 2 ^ 52 * 2 ^ 53 :=
            Nat.mul_le_mul_left _ (Nat.le_of_lt (ten_pow_lt hplaces))
        _ = 2 ^ (52 + 53) := (Nat.pow_add 2 52 53).symm
        _ ≤ unitsPerOne := Nat.pow_le_pow_right (by decide) hexp
        _ ≤ n * unitsPerOne := Nat.le_mul_of_pos_left _ (Nat.pos_of_ne_zero hzero)
  have herror := nearestCode_error (ten_pow_pos places) hfull
  rw [hm] at herror
  exact ⟨herror.1, herror.2⟩

namespace NearInteger

variable {num n : Nat}

/-- Below an integer of the range only integers up to it are near. -/
theorem le_of_lt (h : NearInteger num n) {bound : Nat} (hbound : bound ≤ 2 ^ 52)
    (hlt : num < bound * unitsPerOne) : n ≤ bound := by
  apply Nat.le_of_not_lt
  intro hgt
  have hnext := Nat.mul_le_mul_right unitsPerOne hgt
  have hrange := Nat.mul_le_mul_right unitsPerOne hbound
  have hbelow := h.below
  have hpos := unitsPerOne_pos
  rw [Nat.succ_mul] at hnext
  omega

/-- No two integers of the range are near to the same number. -/
theorem unique {n' : Nat} (h : NearInteger num n) (h' : NearInteger num n') (hn : n ≤ 2 ^ 52)
    (hn' : n' ≤ 2 ^ 52) : n = n' := by
  have hpos := unitsPerOne_pos
  have hordered : ∀ {a b : Nat}, NearInteger num a → NearInteger num b → b ≤ 2 ^ 52 → ¬a < b := by
    intro a b ha hb hle hlt
    have hnext := Nat.mul_le_mul_right unitsPerOne hlt
    have hrange := Nat.mul_le_mul_right unitsPerOne hle
    have habove := ha.above
    have hbelow := hb.below
    rw [Nat.succ_mul] at hnext
    omega
  have hle := hordered h h' hn'
  have hge := hordered h' h hn
  omega

/-- A product near to an integer below `2 ^ 52` is rounded to less than that. -/
theorem product_lt (h : NearInteger num n) (hn : n < 2 ^ 52) :
    unitsOf (nearestCode num 1) < 2 ^ 52 * unitsPerOne := by
  have hunits := unitsPerOne_eq_two_mul
  have hpos := halfUnits_pos
  -- The largest half below `2 ^ 52` is a number of the format.
  obtain ⟨code, hcode⟩ : ∃ code, unitsOf code = (2 ^ 53 - 1) * halfUnits :=
    exists_unitsOf_eq (by decide) (unitExponent - 1)
  have hle : num ≤ unitsOf code * 1 := by
    have hnext := Nat.mul_le_mul_right unitsPerOne hn
    have habove := h.above
    rw [Nat.succ_mul] at hnext
    omega
  have hround := unitsOf_le_unitsOf (nearestCode_le_of_le Nat.one_pos hle)
  omega

end NearInteger

/-- A product that is rounded to less than the threshold is less. -/
theorem lt_of_product_lt {num : Nat}
    (h : unitsOf (nearestCode num 1) < 2 ^ 52 * unitsPerOne) : num < 2 ^ 52 * unitsPerOne := by
  obtain ⟨code, hcode⟩ : ∃ code, unitsOf code = 2 ^ 52 * unitsPerOne :=
    exists_unitsOf_eq (by decide) unitExponent
  apply Nat.lt_of_not_le
  intro hle
  rw [← hcode, ← Nat.mul_one (unitsOf code)] at hle
  have hround := unitsOf_le_unitsOf (le_nearestCode_of_le Nat.one_pos hle)
  omega

/-! ## The integer that is found again -/

/-- Below `2 ^ 51` the integer is found again, and it was at most a quarter off. -/
theorem roundedProduct_of_lt {num n : Nat} (hnear : NearInteger num n)
    (hlt : num < 2 ^ 51 * unitsPerOne) (mode : RoundingMode) :
    roundedProduct mode num = n ∧
      4 * ((num : Int) - (n * unitsPerOne : Nat)).natAbs ≤ unitsPerOne := by
  have hbelow := hnear.below
  have habove := hnear.above
  have herror := nearestCode_error Nat.one_pos (.inl (Nat.one_dvd num))
  have hpos := unitsPerOne_pos
  have hn := Nat.mul_le_mul_right unitsPerOne (hnear.le_of_lt (by decide) hlt)
  rw [Nat.mul_one] at herror
  refine ⟨?_, by omega⟩
  exact roundQuotient_eq_of_near mode (by omega) (by omega)

/-- From `2 ^ 51` up to `2 ^ 52` the product is a multiple of one half. -/
theorem unitsOf_product {num : Nat} (hle : 2 ^ 51 * unitsPerOne ≤ num)
    (hlt : num < 2 ^ 52 * unitsPerOne) :
    unitsOf (nearestCode num 1) = roundQuotient .halfEven num halfUnits * halfUnits := by
  have hunits := unitsPerOne_eq_two_mul
  have hgrid : OnGrid num 1 (unitExponent - 1) := by
    constructor
    · right
      rw [pow_add_mul, Nat.one_mul]
      show 2 ^ 52 * halfUnits ≤ num
      omega
    · rw [pow_add_mul, Nat.one_mul]
      show num < 2 ^ 53 * halfUnits
      omega
  have hproduct := hgrid.unitsOf_nearestCode Nat.one_pos
  rwa [Nat.one_mul] at hproduct

/-- A product that is rounded to the threshold or more is no further below it than half a step,
a quarter. -/
theorem le_of_le_product {num : Nat}
    (h : 2 ^ 52 * unitsPerOne ≤ unitsOf (nearestCode num 1)) :
    2 * (2 ^ 52 * unitsPerOne) ≤ 2 * num + halfUnits := by
  by_cases hlt : num < 2 ^ 52 * unitsPerOne
  · have herror := nearestCode_error Nat.one_pos (.inl (Nat.one_dvd num))
    rw [Nat.mul_one] at herror
    have hle : 2 ^ 51 * unitsPerOne ≤ num := by omega
    have hnear := roundQuotient_near .halfEven num halfUnits_pos
    rw [unitsOf_product hle hlt] at h
    omega
  · omega

/-- There the integer is found in two steps: the nearest half, then an integer next to that. -/
theorem roundedProduct_eq_halves (mode : RoundingMode) {num : Nat}
    (hle : 2 ^ 51 * unitsPerOne ≤ num) (hlt : num < 2 ^ 52 * unitsPerOne) :
    roundedProduct mode num = roundQuotient mode (roundQuotient .halfEven num halfUnits) 2 := by
  rw [roundedProduct, unitsOf_product hle hlt, unitsPerOne_eq_two_mul]
  exact roundQuotient_scale mode _ 2 halfUnits_pos

/-- A half-integer is rounded to its even neighbour. -/
theorem roundQuotient_two (k : Nat) :
    roundQuotient .halfEven k 2 = if k % 4 = 3 then k / 2 + 1 else k / 2 := by
  simp only [roundQuotient, RoundingMode.tieGoesUp, beq_iff_eq]
  split <;> split <;> (try split) <;> (try split) <;> omega

/-- A product is rounded to twice the integer if it is at most a quarter off, and to one of the
halves beside it if it is further off. -/
theorem roundQuotient_halfUnits {num n : Nat} (hnear : NearInteger num n)
    (hlt : num < 2 ^ 52 * unitsPerOne) :
    (4 * ((num : Int) - (n * unitsPerOne : Nat)).natAbs ≤ unitsPerOne →
        roundQuotient .halfEven num halfUnits = 2 * n) ∧
      (unitsPerOne < 4 * ((num : Int) - (n * unitsPerOne : Nat)).natAbs →
        roundQuotient .halfEven num halfUnits = 2 * n + 1 ∨
          roundQuotient .halfEven num halfUnits + 1 = 2 * n) := by
  have hbelow := hnear.below
  have habove := hnear.above
  have hunits := unitsPerOne_eq_two_mul
  have hpos := halfUnits_pos
  have htwice : n * unitsPerOne = 2 * n * halfUnits := by
    rw [hunits, Nat.mul_left_comm, Nat.mul_assoc]
  have hn := Nat.mul_le_mul_right unitsPerOne (hnear.le_of_lt (Nat.le_refl _) hlt)
  constructor
  · intro hclose
    exact roundQuotient_eq_of_even hpos (by omega) (by omega) (by omega)
  · intro hfar
    have hround := roundQuotient_near .halfEven num hpos
    generalize roundQuotient .halfEven num halfUnits = halves at hround ⊢
    -- The product is no more than a half off, so the nearest half is no more than one step off.
    have hmul : ∀ {a b : Nat}, a < b → a * halfUnits + halfUnits ≤ b * halfUnits := by
      intro a b hlt
      have := Nat.mul_le_mul_right halfUnits hlt
      rwa [Nat.succ_mul] at this
    have hne : halves ≠ 2 * n := by
      intro heq
      rw [heq] at hround
      omega
    by_cases hless : halves < 2 * n
    · right
      refine Nat.le_antisymm hless ?_
      apply Nat.le_of_not_lt
      intro hgap
      have := hmul hgap
      rw [Nat.add_mul] at this
      omega
    · left
      have hgreater : 2 * n < halves := by omega
      refine Nat.le_antisymm ?_ hgreater
      apply Nat.le_of_not_lt
      intro hgap
      have := hmul hgap
      rw [Nat.add_mul] at this
      omega

/-- From `2 ^ 51` up to `2 ^ 52` an even integer is found again, and an odd one if the product
is at most a quarter off. -/
theorem roundedProduct_eq_iff {num n : Nat} (hnear : NearInteger num n)
    (hle : 2 ^ 51 * unitsPerOne ≤ num) (hlt : num < 2 ^ 52 * unitsPerOne) :
    roundedProduct .halfEven num = n ↔
      ¬(n % 2 = 1 ∧ unitsPerOne < 4 * ((num : Int) - (n * unitsPerOne : Nat)).natAbs) := by
  obtain ⟨hclose, hfar⟩ := roundQuotient_halfUnits hnear hlt
  rw [roundedProduct_eq_halves .halfEven hle hlt, roundQuotient_two]
  by_cases hgap : unitsPerOne < 4 * ((num : Int) - (n * unitsPerOne : Nat)).natAbs
  · have hhalves := hfar hgap
    generalize roundQuotient .halfEven num halfUnits = halves at hhalves ⊢
    simp only [hgap, and_true]
    split <;> omega
  · rw [hclose (Nat.le_of_not_lt hgap)]
    simp only [hgap, and_false, not_false_eq_true, iff_true]
    split <;> omega

/-! ## Numbers that are kept -/

/-- The numbers nearest to `n` places that rounding to places moves: `n` is odd and below `2 ^ 52`,
and the scaled number is more than a quarter off it. -/
structure Drifts (places : Nat) (m : Magnitude) (n : Nat) : Prop where
  rounded : places ≤ maxRoundedPlaces
  lt : n < 2 ^ 52
  odd : n % 2 = 1
  far : unitsPerOne < 4 * distance (n * unitsPerOne) (10 ^ places) m.code

/-- A number more than a quarter off is from `2 ^ 51` up to `2 ^ 52` when scaled. -/
theorem product_bounds_of_far {places n : Nat} {m : Magnitude}
    (hplaces : places ≤ maxRoundedPlaces) (hn : n < 2 ^ 52)
    (hfar : unitsPerOne < 4 * distance (n * unitsPerOne) (10 ^ places) m.code)
    (hm : nearestCode (n * unitsPerOne) (10 ^ places) = m.code) :
    2 ^ 51 * unitsPerOne ≤ m.units * 10 ^ places ∧
      m.units * 10 ^ places < 2 ^ 52 * unitsPerOne := by
  have hnear := nearInteger_of_nearestCode hplaces hm
  constructor
  · apply Nat.le_of_not_lt
    intro hlow
    obtain ⟨_, hclose⟩ := roundedProduct_of_lt hnear hlow .halfEven
    exact absurd hfar (Nat.not_lt.mpr hclose)
  · exact lt_of_product_lt (hnear.product_lt hn)

/-- A number drifts only if it is from `2 ^ 51` up to `2 ^ 52` when scaled. -/
theorem Drifts.product_bounds {places n : Nat} {m : Magnitude} (h : Drifts places m n)
    (hm : nearestCode (n * unitsPerOne) (10 ^ places) = m.code) :
    2 ^ 51 * unitsPerOne ≤ m.units * 10 ^ places ∧
      m.units * 10 ^ places < 2 ^ 52 * unitsPerOne :=
  product_bounds_of_far h.rounded h.lt h.far hm

/-- From `2 ^ 51` up to `2 ^ 52` an integer is found again exactly if the number does not drift. -/
theorem roundedProduct_eq_iff_not_drifts {places n : Nat} {m : Magnitude}
    (hplaces : places ≤ maxRoundedPlaces) (hnear : NearInteger (m.units * 10 ^ places) n)
    (hle : 2 ^ 51 * unitsPerOne ≤ m.units * 10 ^ places)
    (hlt : m.units * 10 ^ places < 2 ^ 52 * unitsPerOne) :
    roundedProduct .halfEven (m.units * 10 ^ places) = n ↔ ¬Drifts places m n := by
  have hn := hnear.le_of_lt (Nat.le_refl _) hlt
  have hodd : n % 2 = 1 → n < 2 ^ 52 := by omega
  rw [roundedProduct_eq_iff hnear hle hlt]
  constructor
  · intro hnot h
    exact hnot ⟨h.odd, h.far⟩
  · intro hnot h
    exact hnot ⟨hplaces, hodd h.1, h.1, h.2⟩

/-- The number nearest to `n / 10 ^ places` is its own rounding to places, unless it is rounded
at all and to another integer. -/
theorem roundToPlaces_eq_self_iff_of_nearest {mode : RoundingMode} {negative : Bool} {m : Magnitude}
    {n places : Nat} (hsign : finite negative m ≠ .finite true .zero)
    (hm : nearestCode (n * unitsPerOne) (10 ^ places) = m.code) :
    roundToPlaces mode places (.finite negative m) = .finite negative m ↔
      (places ≤ maxRoundedPlaces →
        unitsOf (nearestCode (m.units * 10 ^ places) 1) < 2 ^ 52 * unitsPerOne →
          roundedProduct mode (m.units * 10 ^ places) = n) := by
  by_cases hplaces : places ≤ maxRoundedPlaces
  · rw [roundToPlaces_finite hplaces]
    by_cases hsmall : unitsOf (nearestCode (m.units * 10 ^ places) 1) < 2 ^ 52 * unitsPerOne
    · have hnear := nearInteger_of_nearestCode hplaces hm
      have hn := hnear.le_of_lt (Nat.le_refl _) (lt_of_product_lt hsmall)
      rw [if_pos hsmall, withoutNegativeZero_eq_iff hsign]
      constructor
      · intro hcode _ _
        have hnear' := nearInteger_of_nearestCode hplaces hcode
        exact hnear'.unique hnear (roundedProduct_le (Nat.le_of_lt hsmall)) hn
      · intro heq
        rw [heq hplaces hsmall]
        exact hm
    · rw [if_neg hsmall]
      exact ⟨fun _ _ h => absurd h hsmall, fun _ => rfl⟩
  · rw [roundToPlaces_of_many hplaces]
    exact ⟨fun _ h => absurd h hplaces, fun _ => rfl⟩

/-- The number nearest to `n / 10 ^ places` is its own rounding to places, unless it drifts. -/
theorem roundToPlaces_eq_self_iff {negative : Bool} {m : Magnitude} {n places : Nat}
    (hsign : finite negative m ≠ .finite true .zero)
    (hm : nearestCode (n * unitsPerOne) (10 ^ places) = m.code) :
    roundToPlaces .halfEven places (.finite negative m) = .finite negative m ↔
      ¬Drifts places m n := by
  rw [roundToPlaces_eq_self_iff_of_nearest hsign hm]
  constructor
  · intro hfound h
    have hnear := nearInteger_of_nearestCode h.rounded hm
    obtain ⟨hle, hlt⟩ := h.product_bounds hm
    have hsame := hfound h.rounded (hnear.product_lt h.lt)
    exact (roundedProduct_eq_iff_not_drifts h.rounded hnear hle hlt).mp hsame h
  · intro hnot hplaces hsmall
    have hnear := nearInteger_of_nearestCode hplaces hm
    by_cases hlow : m.units * 10 ^ places < 2 ^ 51 * unitsPerOne
    · exact (roundedProduct_of_lt hnear hlow .halfEven).1
    · have hle := Nat.le_of_not_lt hlow
      exact (roundedProduct_eq_iff_not_drifts hplaces hnear hle (lt_of_product_lt hsmall)).mpr hnot

end ArithFormula.Binary64
