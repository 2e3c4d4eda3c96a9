import ArithFormula.Binary64.Magnitude

/-!
# The code nearest to a quotient

Rounding chooses a grid by the size of the quotient and rounds to a multiple of its
step. The grid is described here by `OnGrid`: the quotients whose codes on both sides
lie a fixed power of two apart. On its grid, rounding is the rounding of one quotient
to a natural number, and that this code is the nearest of all codes is a consequence.

## Main results

* `unitsOf_significand` — the codes of one grid are the multiples of its step.
* `nearestCode_of_onGrid`, `unitsOf_nearestCode` — the rounding of a quotient, on its grid.
* `nearestCode_eq_iff` — the rounding is the nearest code, and of two the even one.
* `nearestCode_error` — rounding moves a quotient by at most one part in `2 ^ 53`.
* `exists_unitsOf_eq` — an integer of 53 binary digits is exact at every scale.
-/

namespace ArithFormula

/-! ## Grids -/

/-- The codes of one grid are the multiples of its step. -/
theorem unitsOf_significand {significand shift : Nat} (hlow : shift = 0 ∨ 2 ^ 52 ≤ significand)
    (hhigh : significand ≤ 2 ^ 53) :
    unitsOf (significand + shift * 2 ^ 52) = significand * 2 ^ shift := by
  by_cases hsmall : significand + shift * 2 ^ 52 < 2 ^ 52
  · have hshift : shift = 0 := by omega
    subst hshift
    rw [unitsOf_of_lt hsmall]
    omega
  · rw [unitsOf_of_ge (Nat.le_of_not_lt hsmall)]
    have hlow' : 2 ^ 52 ≤ significand := by omega
    by_cases hcarry : significand = 2 ^ 53
    · have hmod : (significand + shift * 2 ^ 52) % 2 ^ 52 = 0 := by omega
      have hdiv : (significand + shift * 2 ^ 52) / 2 ^ 52 - 1 = shift + 1 := by omega
      rw [hmod, hdiv, hcarry, Nat.add_zero, ← Nat.pow_add, ← Nat.pow_add]
      congr 1
      omega
    · have hmod : (significand + shift * 2 ^ 52) % 2 ^ 52 = significand - 2 ^ 52 := by omega
      have hdiv : (significand + shift * 2 ^ 52) / 2 ^ 52 - 1 = shift := by omega
      have hadd : 2 ^ 52 + (significand - 2 ^ 52) = significand := by omega
      rw [hmod, hdiv, hadd]

/-- The quotient lies where codes are `2 ^ shift` units apart. -/
structure OnGrid (num den shift : Nat) : Prop where
  low : shift = 0 ∨ 2 ^ (52 + shift) * den ≤ num
  high : num < 2 ^ (53 + shift) * den

/-- The step of a grid, counted like the numerator. -/
theorem step_pos {den : Nat} (hden : 0 < den) (shift : Nat) : 0 < den * 2 ^ shift :=
  Nat.mul_pos hden (Nat.two_pow_pos shift)

theorem pow_add_mul (k shift den : Nat) :
    2 ^ (k + shift) * den = 2 ^ k * (den * 2 ^ shift) := by
  rw [Nat.pow_add, Nat.mul_assoc, Nat.mul_comm (2 ^ shift)]

/-- Every quotient has its grid. -/
theorem exists_onGrid (num : Nat) {den : Nat} (hden : 0 < den) :
    ∃ shift, OnGrid num den shift := by
  refine ⟨(num / den).log2 - 52, ?_, ?_⟩
  · by_cases hshift : (num / den).log2 - 52 = 0
    · exact .inl hshift
    · right
      have hne : num / den ≠ 0 := by
        intro hzero
        rw [hzero, Nat.log2_zero] at hshift
        exact hshift rfl
      have hexp : 52 + ((num / den).log2 - 52) = (num / den).log2 := by omega
      rw [hexp, ← Nat.le_div_iff_mul_le hden]
      exact Nat.log2_self_le hne
  · rw [← Nat.div_lt_iff_lt_mul hden]
    refine Nat.lt_of_lt_of_le Nat.lt_log2_self (Nat.pow_le_pow_right (by decide) ?_)
    omega

namespace OnGrid

variable {num den shift : Nat}

/-- On its grid a quotient is rounded like any other to a natural number. -/
theorem nearestCode_eq (hden : 0 < den) (h : OnGrid num den shift) :
    nearestCode num den = roundQuotient .halfEven num (den * 2 ^ shift) + shift * 2 ^ 52 := by
  have hhigh : num / den < 2 ^ (53 + shift) := (Nat.div_lt_iff_lt_mul hden).mpr h.high
  have hlog : (num / den).log2 - 52 = shift := by
    by_cases hzero : num / den = 0
    · have hshift : shift = 0 := by
        cases h.low with
        | inl hshift => exact hshift
        | inr hlow =>
            have hle := (Nat.le_div_iff_mul_le hden).mpr hlow
            have hpos := Nat.two_pow_pos (52 + shift)
            omega
      rw [hzero, Nat.log2_zero, hshift]
    · have hlt := (Nat.log2_lt hzero).mpr hhigh
      cases h.low with
      | inl hshift => omega
      | inr hlow =>
          have hle := (Nat.le_log2 hzero).mpr ((Nat.le_div_iff_mul_le hden).mpr hlow)
          omega
  simp only [nearestCode, hlog]

/-- The part of the quotient that fills whole steps has 53 binary digits, or as many as there
are on the finest grid. -/
theorem steps (hden : 0 < den) (h : OnGrid num den shift) :
    (shift = 0 ∨ 2 ^ 52 ≤ num / (den * 2 ^ shift)) ∧ num / (den * 2 ^ shift) < 2 ^ 53 := by
  have hpos := step_pos hden shift
  constructor
  · cases h.low with
    | inl hshift => exact .inl hshift
    | inr hlow =>
        right
        rwa [Nat.le_div_iff_mul_le hpos, ← pow_add_mul]
  · rw [Nat.div_lt_iff_lt_mul hpos, ← pow_add_mul]
    exact h.high

/-- The value of the rounding, on its grid. -/
theorem unitsOf_nearestCode (hden : 0 < den) (h : OnGrid num den shift) :
    unitsOf (nearestCode num den) =
      roundQuotient .halfEven num (den * 2 ^ shift) * 2 ^ shift := by
  obtain ⟨hlow, hhigh⟩ := h.steps hden
  rw [h.nearestCode_eq hden]
  cases roundQuotient_eq_or .halfEven num (den * 2 ^ shift) with
  | inl hbelow =>
      rw [hbelow]
      exact unitsOf_significand hlow (by omega)
  | inr habove =>
      rw [habove]
      exact unitsOf_significand (by omega) (by omega)

end OnGrid

/-! ## Nearest codes -/

/-- How far a code is from a quotient, counted like the numerator. -/
def distance (num den code : Nat) : Nat :=
  ((unitsOf code * den : Nat) - (num : Int)).natAbs

/-- No code is closer to the quotient, and if another one is as close, the code is even. -/
structure IsNearest (num den code : Nat) : Prop where
  closest : ∀ other, distance num den code ≤ distance num den other
  even : ∀ other, other ≠ code → distance num den code = distance num den other → code % 2 = 0

/-- The rounding is one of the two codes around the quotient: the nearer one, or the even one. -/
theorem nearestCode_between (num : Nat) {den : Nat} (hden : 0 < den) :
    ∃ below, unitsOf below * den ≤ num ∧ num < unitsOf (below + 1) * den ∧
      nearestCode num den =
        (if 2 * num < (unitsOf below + unitsOf (below + 1)) * den then below
        else if (unitsOf below + unitsOf (below + 1)) * den < 2 * num then below + 1
        else if below % 2 = 0 then below
        else below + 1) := by
  obtain ⟨shift, h⟩ := exists_onGrid num hden
  obtain ⟨hlow, hhigh⟩ := h.steps hden
  have hcode := h.nearestCode_eq hden
  have hdiv := Nat.div_add_mod num (den * 2 ^ shift)
  have hmod := Nat.mod_lt num (step_pos hden shift)
  have hstep : ∀ k : Nat, k * 2 ^ shift * den = k * (den * 2 ^ shift) := by
    intro k
    rw [Nat.mul_assoc, Nat.mul_comm (2 ^ shift)]
  simp only [roundQuotient, RoundingMode.tieGoesUp, beq_iff_eq] at hcode
  generalize den * 2 ^ shift = step at hlow hhigh hcode hdiv hmod hstep
  generalize num / step = steps at hlow hhigh hcode hdiv
  generalize num % step = rest at hcode hdiv hmod
  have hbelow : unitsOf (steps + shift * 2 ^ 52) * den = steps * step := by
    rw [unitsOf_significand hlow (Nat.le_of_lt hhigh), hstep]
  have habove : unitsOf (steps + shift * 2 ^ 52 + 1) * den = steps * step + step := by
    have hlow' : shift = 0 ∨ 2 ^ 52 ≤ steps + 1 := by omega
    rw [Nat.add_right_comm, unitsOf_significand hlow' hhigh, hstep, Nat.add_mul, Nat.one_mul]
  rw [Nat.mul_comm] at hdiv
  refine ⟨steps + shift * 2 ^ 52, ?_, ?_, ?_⟩
  · rw [hbelow]
    omega
  · rw [habove]
    omega
  · rw [Nat.add_mul, hbelow, habove]
    by_cases hbelowHalf : 2 * rest < step
    · rw [if_pos hbelowHalf] at hcode
      rw [hcode, if_pos (by omega)]
    · rw [if_neg hbelowHalf] at hcode
      rw [if_neg (by omega)]
      by_cases haboveHalf : step < 2 * rest
      · rw [if_pos haboveHalf] at hcode
        rw [hcode, if_pos (by omega), Nat.add_right_comm]
      · rw [if_neg haboveHalf] at hcode
        rw [if_neg (by omega)]
        by_cases hodd : steps % 2 = 1
        · rw [if_pos hodd] at hcode
          rw [hcode, if_neg (by omega), Nat.add_right_comm]
        · rw [if_neg hodd] at hcode
          rw [hcode, if_pos (by omega)]

/-- Any other code is further off than one of the two around the quotient. -/
theorem distance_lt_of_ne {num den below other : Nat} (hden : 0 < den)
    (hle : unitsOf below * den ≤ num) (hlt : num < unitsOf (below + 1) * den)
    (hbelow : other ≠ below) (habove : other ≠ below + 1) :
    distance num den below < distance num den other ∨
      distance num den (below + 1) < distance num den other := by
  unfold distance
  by_cases hside : other < below
  · left
    have hunits := Nat.mul_lt_mul_of_pos_right (unitsOf_lt_unitsOf hside) hden
    omega
  · right
    have hbeyond : below + 1 < other := by omega
    have hunits := Nat.mul_lt_mul_of_pos_right (unitsOf_lt_unitsOf hbeyond) hden
    omega

/-- A code is nearest if it wins against the one beside it and these two win against all others. -/
theorem isNearest_of_beside {num den code beside : Nat}
    (hbeside : distance num den code < distance num den beside ∨
      distance num den code = distance num den beside ∧ code % 2 = 0)
    (hother : ∀ other, other ≠ code → other ≠ beside →
      distance num den code < distance num den other ∨
        distance num den beside < distance num den other) :
    IsNearest num den code := by
  constructor
  · intro other
    by_cases hcode : other = code
    · subst hcode
      exact Nat.le_refl _
    · by_cases heq : other = beside
      · rw [heq]
        omega
      · have hfar := hother other hcode heq
        omega
  · intro other hne hsame
    by_cases heq : other = beside
    · rw [heq] at hsame
      omega
    · have hfar := hother other hne heq
      omega

theorem isNearest_nearestCode (num : Nat) {den : Nat} (hden : 0 < den) :
    IsNearest num den (nearestCode num den) := by
  obtain ⟨below, hle, hlt, hcode⟩ := nearestCode_between num hden
  have hother : ∀ other, other ≠ below → other ≠ below + 1 →
      distance num den below < distance num den other ∨
        distance num den (below + 1) < distance num den other := by
    intro other
    exact distance_lt_of_ne hden hle hlt
  have hother' : ∀ other, other ≠ below + 1 → other ≠ below →
      distance num den (below + 1) < distance num den other ∨
        distance num den below < distance num den other := by
    intro other habove hbelow
    exact (hother other hbelow habove).symm
  have hdistance : distance num den below + unitsOf below * den = num := by
    unfold distance
    omega
  have hdistance' : distance num den (below + 1) + num = unitsOf (below + 1) * den := by
    unfold distance
    omega
  rw [Nat.add_mul] at hcode
  by_cases hcloser : 2 * num < unitsOf below * den + unitsOf (below + 1) * den
  · rw [if_pos hcloser] at hcode
    rw [hcode]
    exact isNearest_of_beside (by omega) hother
  · rw [if_neg hcloser] at hcode
    by_cases hfurther : unitsOf below * den + unitsOf (below + 1) * den < 2 * num
    · rw [if_pos hfurther] at hcode
      rw [hcode]
      exact isNearest_of_beside (by omega) hother'
    · rw [if_neg hfurther] at hcode
      by_cases heven : below % 2 = 0
      · rw [if_pos heven] at hcode
        rw [hcode]
        exact isNearest_of_beside (by omega) hother
      · rw [if_neg heven] at hcode
        rw [hcode]
        exact isNearest_of_beside (by omega) hother'

/-- There is one nearest code only: between two codes of the same parity lies a closer one. -/
theorem IsNearest.unique {num den code code' : Nat} (hden : 0 < den) (h : IsNearest num den code)
    (h' : IsNearest num den code') : code = code' := by
  have hbetween : ∀ {a b : Nat}, IsNearest num den a → IsNearest num den b → ¬a < b := by
    intro a b ha hb hlt
    have hsame : distance num den a = distance num den b :=
      Nat.le_antisymm (ha.closest b) (hb.closest a)
    have haeven := ha.even b (by omega) hsame
    have hbeven := hb.even a (by omega) hsame.symm
    have hcloser := ha.closest (a + 1)
    have hleft : unitsOf a * den < unitsOf (a + 1) * den :=
      Nat.mul_lt_mul_of_pos_right (unitsOf_lt_unitsOf (by omega)) hden
    have hright : unitsOf (a + 1) * den < unitsOf b * den :=
      Nat.mul_lt_mul_of_pos_right (unitsOf_lt_unitsOf (by omega)) hden
    unfold distance at hsame hcloser
    omega
  have hle := hbetween h h'
  have hge := hbetween h' h
  omega

/-- The rounding is the nearest code, and of two the even one. -/
theorem nearestCode_eq_iff {num den code : Nat} (hden : 0 < den) :
    nearestCode num den = code ↔ IsNearest num den code := by
  constructor
  · intro h
    rw [← h]
    exact isNearest_nearestCode num hden
  · intro h
    exact (isNearest_nearestCode num hden).unique hden h

/-! ## Bounds -/

/-- Rounding does not pass a code from below. -/
theorem nearestCode_le_of_le {num den code : Nat} (hden : 0 < den)
    (h : num ≤ unitsOf code * den) : nearestCode num den ≤ code := by
  have hmono := nearestCode_mono hden hden (Nat.mul_le_mul_right den h)
  rwa [nearestCode_unitsOf code hden] at hmono

/-- Rounding does not pass a code from above. -/
theorem le_nearestCode_of_le {num den code : Nat} (hden : 0 < den)
    (h : unitsOf code * den ≤ num) : code ≤ nearestCode num den := by
  have hmono := nearestCode_mono hden hden (Nat.mul_le_mul_right den h)
  rwa [nearestCode_unitsOf code hden] at hmono

/-! ## Errors -/

/-- A quotient that is an integer below the second grid is its own rounding. -/
theorem unitsOf_nearestCode_of_dvd {num den : Nat} (hden : 0 < den) (hdvd : den ∣ num)
    (hsmall : num < 2 ^ 52 * den) : unitsOf (nearestCode num den) * den = num := by
  have hgrid : OnGrid num den 0 := by
    refine ⟨.inl rfl, Nat.lt_trans hsmall ?_⟩
    exact Nat.mul_lt_mul_of_pos_right (by decide) hden
  obtain ⟨k, hk⟩ := hdvd
  rw [Nat.mul_comm] at hk
  rw [hgrid.unitsOf_nearestCode hden, Nat.pow_zero, Nat.mul_one, Nat.mul_one, hk,
    roundQuotient_mul _ _ hden]

/-- Rounding moves a quotient by at most one part in `2 ^ 53`, unless it is a fraction below
all numbers of full precision. -/
theorem nearestCode_error {num den : Nat} (hden : 0 < den)
    (h : den ∣ num ∨ 2 ^ 52 * den ≤ num) :
    2 ^ 53 * num ≤ 2 ^ 53 * (unitsOf (nearestCode num den) * den) + num ∧
      2 ^ 53 * (unitsOf (nearestCode num den) * den) ≤ 2 ^ 53 * num + num := by
  by_cases hsmall : num < 2 ^ 52 * den
  · have hdvd : den ∣ num := by
      cases h with
      | inl hdvd => exact hdvd
      | inr hle => exact absurd hsmall (Nat.not_lt.mpr hle)
    rw [unitsOf_nearestCode_of_dvd hden hdvd hsmall]
    omega
  · obtain ⟨shift, hgrid⟩ := exists_onGrid num hden
    have hstep : 2 ^ 52 * (den * 2 ^ shift) ≤ num := by
      cases hgrid.low with
      | inl hshift =>
          rw [hshift, Nat.pow_zero, Nat.mul_one]
          exact Nat.le_of_not_lt hsmall
      | inr hlow => rwa [← pow_add_mul]
    have hnear := roundQuotient_near .halfEven num (step_pos hden shift)
    rw [hgrid.unitsOf_nearestCode hden, Nat.mul_assoc, Nat.mul_comm (2 ^ shift) den]
    omega

/-! ## Exact numbers -/

/-- An integer of 53 binary digits is exact at every scale. -/
theorem exists_unitsOf_eq {n : Nat} (hn : n < 2 ^ 53) (scale : Nat) :
    ∃ code, unitsOf code = n * 2 ^ scale := by
  obtain ⟨shift, hgrid⟩ := exists_onGrid (n * 2 ^ scale) Nat.one_pos
  have hfine : shift ≤ scale := by
    cases hgrid.low with
    | inl hshift => omega
    | inr hlow =>
        have hlt : 2 ^ (52 + shift) < 2 ^ (53 + scale) := by
          rw [Nat.mul_one] at hlow
          refine Nat.lt_of_le_of_lt hlow ?_
          rw [Nat.pow_add]
          exact Nat.mul_lt_mul_of_pos_right hn (Nat.two_pow_pos scale)
        have hexp := (Nat.pow_lt_pow_iff_right (by decide)).mp hlt
        omega
  have hmultiple : n * 2 ^ scale = n * 2 ^ (scale - shift) * 2 ^ shift := by
    rw [Nat.mul_assoc, ← Nat.pow_add, Nat.sub_add_cancel hfine]
  refine ⟨nearestCode (n * 2 ^ scale) 1, ?_⟩
  rw [hgrid.unitsOf_nearestCode Nat.one_pos, Nat.one_mul]
  rw [hmultiple, roundQuotient_mul _ _ (Nat.two_pow_pos shift)]

end ArithFormula
