/-!
# Rounding a quotient to an integer

One function rounds the exact quotient of two natural numbers to a nearest natural
number. Binary rounding, decimal rounding and the choice of digits all go through
it, each with its own scale and its own rule for ties.

## Main results

* `roundQuotient_near` — the result is within half a unit of the quotient.
* `roundQuotient_mul` — an integer is its own rounding.
* `roundQuotient_eq_of_near`, `roundQuotient_eq_of_even` — which integer the result is.
* `roundQuotient_mono` — a larger quotient never has a smaller rounding.
* `roundQuotient_scale` — the rounding depends on the quotient alone.
-/

namespace ArithFormula

/-- What becomes of a value halfway between two integers. -/
inductive RoundingMode where
  /-- A half goes to the even neighbour. -/
  | halfEven
  /-- A half goes to the neighbour of larger magnitude. -/
  | halfAwayFromZero
deriving DecidableEq

/-- Whether a half above the natural number `below` goes up. -/
def RoundingMode.tieGoesUp (mode : RoundingMode) (below : Nat) : Bool :=
  match mode with
  | .halfEven => below % 2 == 1
  | .halfAwayFromZero => true

/-- A natural number nearest to `num / den`, a tie going as `mode` says. -/
def roundQuotient (mode : RoundingMode) (num den : Nat) : Nat :=
  let below := num / den
  let twice := 2 * (num % den)
  if twice < den then below
  else if den < twice then below + 1
  else if mode.tieGoesUp below then below + 1
  else below

/-! ## The rounded value -/

/-- The rounding is one of the two neighbours of the quotient. -/
theorem roundQuotient_eq_or (mode : RoundingMode) (num den : Nat) :
    roundQuotient mode num den = num / den ∨ roundQuotient mode num den = num / den + 1 := by
  simp only [roundQuotient]
  split
  · exact .inl rfl
  · split
    · exact .inr rfl
    · split
      · exact .inr rfl
      · exact .inl rfl

/-- The rounding is within half a unit of the quotient. -/
theorem roundQuotient_near (mode : RoundingMode) (num : Nat) {den : Nat} (hden : 0 < den) :
    2 * num ≤ 2 * (roundQuotient mode num den * den) + den ∧
      2 * (roundQuotient mode num den * den) ≤ 2 * num + den := by
  have hdiv := Nat.div_add_mod num den
  have hmod := Nat.mod_lt num hden
  rw [Nat.mul_comm] at hdiv
  simp only [roundQuotient]
  split
  · omega
  · split
    · rw [Nat.add_mul]
      omega
    · split
      · rw [Nat.add_mul]
        omega
      · omega

/-- An integer is its own rounding. -/
theorem roundQuotient_mul (mode : RoundingMode) (n : Nat) {den : Nat} (hden : 0 < den) :
    roundQuotient mode (n * den) den = n := by
  simp [roundQuotient, Nat.mul_div_cancel n hden, hden]

theorem roundQuotient_zero (mode : RoundingMode) {den : Nat} (hden : 0 < den) :
    roundQuotient mode 0 den = 0 := by
  simpa using roundQuotient_mul mode 0 hden

/-- The rounding depends on the quotient alone. -/
theorem roundQuotient_scale (mode : RoundingMode) (num den : Nat) {k : Nat} (hk : 0 < k) :
    roundQuotient mode (num * k) (den * k) = roundQuotient mode num den := by
  have hlt : ∀ a b : Nat, a * k < b * k ↔ a < b := fun a b => Nat.mul_lt_mul_right hk
  simp only [roundQuotient, Nat.mul_div_mul_right num den hk, Nat.mul_mod_mul_right,
    ← Nat.mul_assoc, hlt]

/-- Below the middle between two integers the rounding is the lower one. -/
theorem roundQuotient_of_below {num den : Nat} (mode : RoundingMode)
    (h : 2 * (num % den) < den) : roundQuotient mode num den = num / den := by
  simp only [roundQuotient]
  rw [if_pos h]

/-- In the middle between two integers the rounding goes as the mode says. -/
theorem roundQuotient_of_tie {num den : Nat} (mode : RoundingMode)
    (h : 2 * (num % den) = den) :
    roundQuotient mode num den =
      if mode.tieGoesUp (num / den) then num / den + 1 else num / den := by
  simp only [roundQuotient]
  rw [if_neg (by omega), if_neg (by omega)]

/-- The integer within half a unit of the quotient is its rounding. -/
theorem roundQuotient_eq_of_near (mode : RoundingMode) {num den n : Nat}
    (habove : 2 * num < 2 * (n * den) + den) (hbelow : 2 * (n * den) < 2 * num + den) :
    roundQuotient mode num den = n := by
  have hden : 0 < den := by omega
  obtain ⟨hle, hge⟩ := roundQuotient_near mode num hden
  have hmul : ∀ {a b : Nat}, a < b → a * den + den ≤ b * den := by
    intro a b hlt
    have := Nat.mul_le_mul_right den hlt
    rwa [Nat.succ_mul] at this
  rcases Nat.lt_trichotomy (roundQuotient mode num den) n with hlt | heq | hgt
  · have := hmul hlt
    omega
  · exact heq
  · have := hmul hgt
    omega

/-- An even integer is the rounding also where it is exactly half a unit off. -/
theorem roundQuotient_eq_of_even {num den n : Nat} (hden : 0 < den) (heven : n % 2 = 0)
    (habove : 2 * num ≤ 2 * (n * den) + den) (hbelow : 2 * (n * den) ≤ 2 * num + den) :
    roundQuotient .halfEven num den = n := by
  by_cases htop : 2 * num = 2 * (n * den) + den
  · have hdiv : num / den = n := by
      refine Nat.div_eq_of_lt_le (by omega) ?_
      rw [Nat.succ_mul]
      omega
    have hmod := Nat.div_add_mod num den
    rw [hdiv, Nat.mul_comm] at hmod
    rw [roundQuotient_of_tie _ (by omega), hdiv, if_neg]
    simp [RoundingMode.tieGoesUp, heven]
  · by_cases hbottom : 2 * (n * den) = 2 * num + den
    · cases n with
      | zero => omega
      | succ k =>
          have hsucc : (k + 1) * den = k * den + den := Nat.succ_mul k den
          have hdiv : num / den = k := Nat.div_eq_of_lt_le (by omega) (by omega)
          have hmod := Nat.div_add_mod num den
          rw [hdiv, Nat.mul_comm] at hmod
          have hodd : k % 2 = 1 := by omega
          rw [roundQuotient_of_tie _ (by omega), hdiv, if_pos]
          simp [RoundingMode.tieGoesUp, hodd]
    · exact roundQuotient_eq_of_near _ (by omega) (by omega)

private theorem roundQuotient_mono_num (mode : RoundingMode) {a b den : Nat} (h : a ≤ b) :
    roundQuotient mode a den ≤ roundQuotient mode b den := by
  rcases Nat.lt_or_ge (a / den) (b / den) with hlt | hge
  · rcases roundQuotient_eq_or mode a den with ha | ha <;>
      rcases roundQuotient_eq_or mode b den with hb | hb <;> omega
  · have heq : a / den = b / den := Nat.le_antisymm (Nat.div_le_div_right h) hge
    have ha := Nat.div_add_mod a den
    have hb := Nat.div_add_mod b den
    rw [heq] at ha
    simp only [roundQuotient, heq]
    split
    · split
      · exact Nat.le_refl _
      · split <;> (try split) <;> omega
    · split
      · refine Nat.le_of_eq ?_
        rw [if_neg (by omega), if_pos (by omega)]
      · split
        · rw [if_neg (by omega)]
          split <;> omega
        · split
          · omega
          · split <;> omega

/-- A larger quotient never has a smaller rounding. -/
theorem roundQuotient_mono (mode : RoundingMode) {num den num' den' : Nat} (hden : 0 < den)
    (hden' : 0 < den') (h : num * den' ≤ num' * den) :
    roundQuotient mode num den ≤ roundQuotient mode num' den' := by
  rw [← roundQuotient_scale mode num den hden', ← roundQuotient_scale mode num' den' hden,
    Nat.mul_comm den' den]
  exact roundQuotient_mono_num mode h

end ArithFormula
