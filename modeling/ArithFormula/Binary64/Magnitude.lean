import ArithFormula.Rounding

/-!
# Magnitudes of binary floating-point numbers

The finite numbers of the IEEE 754 format binary64 are, up to sign, the integers

* `c` for `c < 2 ^ 52` (the subnormal numbers), and
* `(2 ^ 52 + f) * 2 ^ (e - 1)` for `f < 2 ^ 52` and `1 ≤ e < 2047`,

counted in **units** of `2 ^ -1074`. Written one after another in ascending order
they are numbered by the **code** `e * 2 ^ 52 + f`, which is also the format's bit
pattern without its sign bit. So the order of codes is the order of values, and
the neighbour of a number has the next code.

Nothing in the formula for units stops at `e = 2046`: codes beyond the last finite
one go on as if the exponent had no limit. Rounding is therefore one rule for all
quotients, and overflow is a comparison of codes afterwards.

## Main results

* `unitsOf_lt_unitsOf` — the larger code is the larger number.
* `nearestCode_unitsOf` — rounding a representable quotient gives its own code.
* `nearestCode_scale` — rounding depends on the quotient alone.
* `nearestCode_mono` — a larger quotient never has a smaller code.
-/

namespace ArithFormula

/-! ## Powers -/

/-- A power of natural numbers means the same in every module, whatever else is imported
there. -/
@[default_instance 20000]
instance (priority := 20000) powNat : Pow Nat Nat := instPowNat

/-! ## Codes and units -/

/-- A unit is two to the minus this. Irreducible, so that no proof writes the power out. -/
@[irreducible] def unitExponent : Nat := 1074

/-- The number of units in one. -/
def unitsPerOne : Nat := 2 ^ unitExponent

theorem unitsPerOne_pos : 0 < unitsPerOne := Nat.two_pow_pos unitExponent

/-- The value of a code, in units. -/
def unitsOf (code : Nat) : Nat :=
  if code < 2 ^ 52 then code
  else (2 ^ 52 + code % 2 ^ 52) * 2 ^ (code / 2 ^ 52 - 1)

theorem unitsOf_of_lt {code : Nat} (h : code < 2 ^ 52) : unitsOf code = code := by
  simp only [unitsOf, h, if_true]

theorem unitsOf_of_ge {code : Nat} (h : 2 ^ 52 ≤ code) :
    unitsOf code = (2 ^ 52 + code % 2 ^ 52) * 2 ^ (code / 2 ^ 52 - 1) := by
  simp only [unitsOf, Nat.not_lt.mpr h, if_false]

private theorem unitsOf_lt_succ (code : Nat) : unitsOf code < unitsOf (code + 1) := by
  rcases Nat.lt_or_ge code (2 ^ 52) with h | h
  · rw [unitsOf_of_lt h]
    rcases Nat.lt_or_ge (code + 1) (2 ^ 52) with h' | h'
    · rw [unitsOf_of_lt h']
      omega
    · rw [unitsOf_of_ge h', show code + 1 = 2 ^ 52 by omega]
      simp
      omega
  · rw [unitsOf_of_ge h, unitsOf_of_ge (by omega : 2 ^ 52 ≤ code + 1)]
    rcases Nat.lt_or_ge (code % 2 ^ 52 + 1) (2 ^ 52) with hf | hf
    · have hmod : (code + 1) % 2 ^ 52 = code % 2 ^ 52 + 1 := by omega
      have hdiv : (code + 1) / 2 ^ 52 = code / 2 ^ 52 := by omega
      rw [hmod, hdiv]
      exact Nat.mul_lt_mul_of_pos_right (by omega) (Nat.two_pow_pos _)
    · have hmod : (code + 1) % 2 ^ 52 = 0 := by omega
      have hdiv : (code + 1) / 2 ^ 52 - 1 = code / 2 ^ 52 - 1 + 1 := by omega
      have hlt : code % 2 ^ 52 < 2 ^ 52 := Nat.mod_lt _ (by decide)
      have hdouble : 2 ^ (code / 2 ^ 52 - 1 + 1) = 2 * 2 ^ (code / 2 ^ 52 - 1) := by
        rw [Nat.pow_succ, Nat.mul_comm]
      rw [hmod, hdiv, hdouble, Nat.add_zero, ← Nat.mul_assoc]
      exact Nat.mul_lt_mul_of_pos_right (by omega) (Nat.two_pow_pos _)

/-- The larger code is the larger number. -/
theorem unitsOf_lt_unitsOf {code code' : Nat} (h : code < code') :
    unitsOf code < unitsOf code' := by
  induction code' with
  | zero => omega
  | succ n ih =>
      rcases Nat.lt_or_ge code n with hn | hn
      · exact Nat.lt_trans (ih hn) (unitsOf_lt_succ n)
      · rw [show code = n by omega]
        exact unitsOf_lt_succ n

theorem unitsOf_le_unitsOf {code code' : Nat} (h : code ≤ code') :
    unitsOf code ≤ unitsOf code' := by
  rcases Nat.lt_or_ge code code' with hlt | hge
  · exact Nat.le_of_lt (unitsOf_lt_unitsOf hlt)
  · exact Nat.le_of_eq (congrArg unitsOf (Nat.le_antisymm h hge))

/-! ## Rounding a quotient to a code -/

/--
The code nearest to `num / den` units, a tie going to the even code.

The significand keeps 53 binary digits. `shift` counts the digits of the quotient
beyond those; the quotient is rounded on the grid of `2 ^ shift` units. A rounding
that carries into a 54th digit lands on the first code of the next exponent, so the
sum needs no case of its own.
-/
def nearestCode (num den : Nat) : Nat :=
  let shift := (num / den).log2 - 52
  roundQuotient .halfEven num (den * 2 ^ shift) + shift * 2 ^ 52

theorem nearestCode_zero {den : Nat} (hden : 0 < den) : nearestCode 0 den = 0 := by
  have hlog : Nat.log2 0 = 0 := by decide
  simp [nearestCode, hlog, roundQuotient_zero _ hden]

/-- Rounding depends on the quotient alone. -/
theorem nearestCode_scale (num den : Nat) {k : Nat} (hk : 0 < k) :
    nearestCode (num * k) (den * k) = nearestCode num den := by
  simp only [nearestCode, Nat.mul_div_mul_right num den hk]
  rw [Nat.mul_right_comm, roundQuotient_scale _ _ _ hk]

private theorem nearestCode_unitsOf_one (code : Nat) : nearestCode (unitsOf code) 1 = code := by
  rcases Nat.lt_or_ge code (2 ^ 52) with h | h
  · rw [unitsOf_of_lt h]
    have hlog : code.log2 - 52 = 0 := by
      by_cases hzero : code = 0
      · subst hzero
        decide
      · have := (Nat.log2_lt hzero).mpr h
        omega
    have := @roundQuotient_mul .halfEven code 1 (by decide)
    simp only [nearestCode, Nat.div_one, hlog, Nat.pow_zero, Nat.mul_one, Nat.zero_mul,
      Nat.add_zero] at this ⊢
    exact this
  · rw [unitsOf_of_ge h]
    have hlt : code % 2 ^ 52 < 2 ^ 52 := Nat.mod_lt _ (by decide)
    have hshift : ((2 ^ 52 + code % 2 ^ 52) * 2 ^ (code / 2 ^ 52 - 1)).log2 - 52 =
        code / 2 ^ 52 - 1 := by
      have hlog : ((2 ^ 52 + code % 2 ^ 52) * 2 ^ (code / 2 ^ 52 - 1)).log2 =
          52 + (code / 2 ^ 52 - 1) := by
        refine (Nat.log2_eq_iff (Nat.ne_of_gt (Nat.mul_pos (by omega) (Nat.two_pow_pos _)))).mpr
          ⟨?_, ?_⟩
        · rw [Nat.pow_add]
          exact Nat.mul_le_mul_right _ (Nat.le_add_right _ _)
        · rw [show 52 + (code / 2 ^ 52 - 1) + 1 = 53 + (code / 2 ^ 52 - 1) by omega, Nat.pow_add]
          exact Nat.mul_lt_mul_of_pos_right (by omega) (Nat.two_pow_pos _)
      omega
    simp only [nearestCode, Nat.div_one, hshift, Nat.one_mul]
    rw [roundQuotient_mul _ _ (Nat.two_pow_pos _), Nat.sub_mul]
    omega

/-- Rounding a representable quotient gives its own code. -/
theorem nearestCode_unitsOf (code : Nat) {den : Nat} (hden : 0 < den) :
    nearestCode (unitsOf code * den) den = code := by
  have := nearestCode_scale (unitsOf code) 1 hden
  rw [Nat.one_mul] at this
  rw [this, nearestCode_unitsOf_one]

/-- The significand of a rounding has at most 53 binary digits, or is the next power of two. -/
private theorem significand_le {num den shift : Nat} (hden : 0 < den)
    (h : num / den < 2 ^ (53 + shift)) :
    roundQuotient .halfEven num (den * 2 ^ shift) ≤ 2 ^ 53 := by
  have hpos : 0 < den * 2 ^ shift := Nat.mul_pos hden (Nat.two_pow_pos _)
  have hlt : num < 2 ^ 53 * (den * 2 ^ shift) := by
    have := (Nat.div_lt_iff_lt_mul hden).mp h
    rwa [Nat.pow_add, Nat.mul_assoc, Nat.mul_comm (2 ^ shift)] at this
  rw [← roundQuotient_mul .halfEven (2 ^ 53) hpos]
  exact roundQuotient_mono _ hpos hpos (Nat.mul_le_mul_right _ (Nat.le_of_lt hlt))

/-- A significand that dropped digits has 53 binary digits. -/
private theorem le_significand {num den shift : Nat} (hden : 0 < den)
    (h : 2 ^ (52 + shift) ≤ num / den) :
    2 ^ 52 ≤ roundQuotient .halfEven num (den * 2 ^ shift) := by
  have hpos : 0 < den * 2 ^ shift := Nat.mul_pos hden (Nat.two_pow_pos _)
  have hle : 2 ^ 52 * (den * 2 ^ shift) ≤ num := by
    have := (Nat.le_div_iff_mul_le hden).mp h
    rwa [Nat.pow_add, Nat.mul_assoc, Nat.mul_comm (2 ^ shift)] at this
  have := roundQuotient_mono .halfEven hpos hpos (Nat.mul_le_mul_right (den * 2 ^ shift) hle)
  rwa [roundQuotient_mul _ _ hpos] at this

/-- A larger quotient never has a smaller code. -/
theorem nearestCode_mono {num den num' den' : Nat} (hden : 0 < den) (hden' : 0 < den')
    (h : num * den' ≤ num' * den) : nearestCode num den ≤ nearestCode num' den' := by
  have hquot : num / den ≤ num' / den' := by
    rw [Nat.le_div_iff_mul_le hden']
    have := Nat.div_mul_le_self num den
    apply Nat.le_of_mul_le_mul_right _ hden
    calc num / den * den' * den = num / den * den * den' := Nat.mul_right_comm _ _ _
      _ ≤ num * den' := Nat.mul_le_mul_right _ this
      _ ≤ num' * den := h
  have hlog : (num / den).log2 ≤ (num' / den').log2 := by
    by_cases hzero : num / den = 0
    · rw [hzero, Nat.log2_zero]
      exact Nat.zero_le _
    · have hpos : 0 < num / den := Nat.pos_of_ne_zero hzero
      exact (Nat.le_log2 (Nat.ne_of_gt (Nat.lt_of_lt_of_le hpos hquot))).mpr
        (Nat.le_trans (Nat.log2_self_le hzero) hquot)
  rcases Nat.lt_or_ge ((num / den).log2 - 52) ((num' / den').log2 - 52) with hlt | hge
  · have hupper : roundQuotient .halfEven num (den * 2 ^ ((num / den).log2 - 52)) ≤ 2 ^ 53 :=
      significand_le hden (Nat.lt_of_lt_of_le Nat.lt_log2_self
        (Nat.pow_le_pow_right (by decide) (by omega)))
    have hlower : 2 ^ 52 ≤
        roundQuotient .halfEven num' (den' * 2 ^ ((num' / den').log2 - 52)) := by
      have hne : num' / den' ≠ 0 := fun hzero => by
        rw [hzero, Nat.log2_zero] at hlt
        omega
      refine le_significand hden' ?_
      rw [show 52 + ((num' / den').log2 - 52) = (num' / den').log2 by omega]
      exact Nat.log2_self_le hne
    simp only [nearestCode]
    omega
  · have heq : (num / den).log2 - 52 = (num' / den').log2 - 52 := by omega
    simp only [nearestCode, heq]
    refine Nat.add_le_add_right (roundQuotient_mono _ ?_ ?_ ?_) _
    · exact Nat.mul_pos hden (Nat.two_pow_pos _)
    · exact Nat.mul_pos hden' (Nat.two_pow_pos _)
    · rw [← Nat.mul_assoc, ← Nat.mul_assoc]
      exact Nat.mul_le_mul_right _ h

/-- A quotient below half a unit is rounded to zero. -/
theorem nearestCode_of_below_half {num den : Nat} (h : 2 * num < den) :
    nearestCode num den = 0 := by
  have hquot : num / den = 0 := Nat.div_eq_of_lt (by omega)
  have hround : roundQuotient .halfEven num den = 0 := by
    rw [roundQuotient_of_below _ (by rwa [Nat.mod_eq_of_lt (by omega)]), hquot]
  simp [nearestCode, hquot, Nat.log2_zero, hround]

/-! ## Finite magnitudes -/

/-- The first code that no finite number has. -/
abbrev overflowCode : Nat := 2047 * 2 ^ 52

/-- Every finite number is below two to this power. -/
def topExponent : Nat := 1024

/-- The first code that no finite number has stands for the power of two above them all. -/
theorem unitsOf_overflowCode : unitsOf overflowCode = 2 ^ topExponent * unitsPerOne := by
  have hexp : 52 + (overflowCode / 2 ^ 52 - 1) = topExponent + unitExponent := by
    rw [topExponent, unitExponent]
    decide
  have hmod : overflowCode % 2 ^ 52 = 0 := by decide
  rw [unitsOf_of_ge (by decide), hmod, Nat.add_zero, ← Nat.pow_add, hexp, Nat.pow_add, unitsPerOne]

/-- The magnitude of a finite number, by its code. -/
structure Magnitude where
  code : Nat
  code_lt : code < overflowCode
deriving DecidableEq

namespace Magnitude

/-- The value of a magnitude, in units. -/
def units (m : Magnitude) : Nat := unitsOf m.code

theorem ext_code {m n : Magnitude} (h : m.code = n.code) : m = n := by
  cases m
  cases n
  simpa using h

/-- The magnitude of zero. -/
def zero : Magnitude := ⟨0, by decide⟩

theorem units_zero : zero.units = 0 := by decide

/-- The magnitude nearest to `num / den` units; none if that is beyond the finite ones. -/
def nearest? (num den : Nat) : Option Magnitude :=
  if h : nearestCode num den < overflowCode then some ⟨nearestCode num den, h⟩ else none

theorem nearest?_units (m : Magnitude) {den : Nat} (hden : 0 < den) :
    nearest? (m.units * den) den = some m := by
  have h : nearestCode (m.units * den) den = m.code := nearestCode_unitsOf m.code hden
  simp [nearest?, h, m.code_lt]

theorem nearest?_eq_some_iff {num den : Nat} {m : Magnitude} :
    nearest? num den = some m ↔ nearestCode num den = m.code := by
  simp only [nearest?]
  split
  · rw [Option.some.injEq]
    exact ⟨fun h => congrArg code h, fun h => ext_code h⟩
  · next h => exact ⟨fun e => by simp at e, fun e => absurd (e ▸ m.code_lt) h⟩

theorem nearest?_scale (num den : Nat) {k : Nat} (hk : 0 < k) :
    nearest? (num * k) (den * k) = nearest? num den := by
  simp only [nearest?, nearestCode_scale num den hk]

end Magnitude

end ArithFormula
