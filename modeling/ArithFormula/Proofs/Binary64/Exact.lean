import ArithFormula.Proofs.Binary64.Places
import Mathlib.Algebra.Order.Field.Rat
import Mathlib.Tactic.FieldSimp
import Mathlib.Tactic.Linarith
import Mathlib.Tactic.Ring
import Mathlib.Algebra.Order.Field.Basic

/-!
# Exact values

A finite number stands for a rational. Here that is written down, so that what rounding promises
can be said of rationals: which number is the nearest one to a given rational, signs included.

The order of exact values is the order of places, since larger codes are larger numbers. So two
numbers have numbers between them as soon as their places are two apart, and there is one nearest
number only, up to the sign of zero.

## Main results

* `Binary64.toRat_le_toRat_iff` — exact values and places have one order.
* `Binary64.exists_between` — there are numbers between places that are two apart.
* `Binary64.IsNearestTo.toRat_eq` — all nearest numbers have the same exact value.
* `Binary64.isNearestTo_of_nearestCode` — a rounded quotient is the nearest number to it.
-/

namespace ArithFormula.Binary64

/-! ## Values -/

/-- The exact value of a finite number. The others have none, and are given zero. -/
def toRat : Binary64 → ℚ
  | .finite negative magnitude => (signed negative magnitude.units : ℚ) / unitsPerOne
  | _ => 0

theorem unitsPerOne_cast_pos : (0 : ℚ) < unitsPerOne := Nat.cast_pos.mpr unitsPerOne_pos

theorem toRat_finite (negative : Bool) (m : Magnitude) :
    (finite negative m).toRat = (signed negative m.units : ℚ) / unitsPerOne := rfl

theorem signed_mul (negative : Bool) (n k : Nat) :
    (signed negative (n * k) : ℚ) = signed negative n * k := by
  cases negative <;> simp [signed]

theorem toRat_mul (negative : Bool) (m : Magnitude) (k : Nat) :
    (finite negative m).toRat * k = (signed negative (m.units * k) : ℚ) / unitsPerOne := by
  rw [toRat_finite, signed_mul]
  ring

theorem toRat_withoutNegativeZero (x : Binary64) : (withoutNegativeZero x).toRat = x.toRat := by
  unfold withoutNegativeZero
  by_cases hzero : x.isZero = true
  · obtain ⟨negative, rfl⟩ := isZero_iff.mp hzero
    rw [if_pos hzero, zero, toRat_finite, toRat_finite, Magnitude.units_zero]
    cases negative <;> rfl
  · rw [if_neg hzero]

/-! ## Order -/

theorem unitsOf_le_unitsOf_iff {code code' : Nat} :
    unitsOf code ≤ unitsOf code' ↔ code ≤ code' := by
  rw [← Nat.not_lt, unitsOf_lt_unitsOf_iff, Nat.not_lt]

/-- Signs do not disturb the order of codes. -/
theorem signed_unitsOf_le_iff {s t : Bool} {code code' : Nat} :
    signed s (unitsOf code) ≤ signed t (unitsOf code') ↔ signed s code ≤ signed t code' := by
  have hle := @unitsOf_le_unitsOf_iff code code'
  have hge := @unitsOf_le_unitsOf_iff code' code
  have hzero := @unitsOf_le_unitsOf_iff code 0
  have hzero' := @unitsOf_le_unitsOf_iff code' 0
  rw [show unitsOf 0 = 0 from Magnitude.units_zero] at hzero hzero'
  cases s <;> cases t <;> simp only [signed, Bool.false_eq_true, if_true, if_false] <;> omega

/-- Exact values and places have one order. -/
theorem toRat_le_toRat_iff {x y : Binary64} {i j : Int} (hx : x.isFinite = true)
    (hy : y.isFinite = true) (hi : x.place? = some i) (hj : y.place? = some j) :
    x.toRat ≤ y.toRat ↔ i ≤ j := by
  obtain ⟨s, a, rfl⟩ := exists_of_isFinite hx
  obtain ⟨t, b, rfl⟩ := exists_of_isFinite hy
  obtain rfl : signed s a.code = i := by simpa [place?] using hi
  obtain rfl : signed t b.code = j := by simpa [place?] using hj
  rw [toRat_finite, toRat_finite, div_le_div_iff_of_pos_right unitsPerOne_cast_pos, Int.cast_le]
  exact signed_unitsOf_le_iff

theorem toRat_lt_toRat_iff {x y : Binary64} {i j : Int} (hx : x.isFinite = true)
    (hy : y.isFinite = true) (hi : x.place? = some i) (hj : y.place? = some j) :
    x.toRat < y.toRat ↔ i < j := by
  rw [← not_le, toRat_le_toRat_iff hy hx hj hi, not_le]

theorem natAbs_place_lt {x : Binary64} {i : Int} (hx : x.isFinite = true)
    (hi : x.place? = some i) : i.natAbs < overflowCode := by
  obtain ⟨s, m, rfl⟩ := exists_of_isFinite hx
  obtain rfl : signed s m.code = i := by simpa [place?] using hi
  have hcode := m.code_lt
  cases s <;> simpa [signed] using hcode

/-- Every place below the infinities is that of a finite number. -/
theorem exists_of_place {i : Int} (hi : i.natAbs < overflowCode) :
    ∃ x : Binary64, x.isFinite = true ∧ x.place? = some i := by
  refine ⟨.finite (decide (i < 0)) ⟨i.natAbs, hi⟩, rfl, ?_⟩
  by_cases hneg : i < 0
  · rw [decide_eq_true hneg]
    exact congrArg some (by simp only [signed, if_true]; omega)
  · rw [decide_eq_false hneg]
    exact congrArg some (by simp only [signed, Bool.false_eq_true, if_false]; omega)

/-- There are numbers between two numbers whose places are two apart. -/
theorem exists_between {x y : Binary64} {i j : Int} (hx : x.isFinite = true)
    (hy : y.isFinite = true) (hi : x.place? = some i) (hj : y.place? = some j) (h : i + 1 < j) :
    ∃ z : Binary64, z.isFinite = true ∧ x.toRat < z.toRat ∧ z.toRat < y.toRat := by
  have hilt := natAbs_place_lt hx hi
  have hjlt := natAbs_place_lt hy hj
  obtain ⟨z, hz, hplace⟩ := @exists_of_place (i + 1) (by omega)
  refine ⟨z, hz, ?_, ?_⟩
  · rw [toRat_lt_toRat_iff hx hz hi hplace]
    omega
  · rw [toRat_lt_toRat_iff hz hy hplace hj]
    exact h

/-- Finite numbers of the same exact value are numerically equal. -/
theorem numericEq_of_toRat_eq {x y : Binary64} (hx : x.isFinite = true) (hy : y.isFinite = true)
    (h : x.toRat = y.toRat) : x.numericEq y = true := by
  obtain ⟨s, a, rfl⟩ := exists_of_isFinite hx
  obtain ⟨t, b, rfl⟩ := exists_of_isFinite hy
  have hle := (toRat_le_toRat_iff hx hy rfl rfl).mp (le_of_eq h)
  have hge := (toRat_le_toRat_iff hy hx rfl rfl).mp (le_of_eq h.symm)
  exact numericEq_iff.mpr ⟨signed s a.code, rfl, congrArg some (le_antisymm hge hle)⟩

/-! ## Nearest numbers -/

/-- The last binary digit of the number's code is zero. -/
def HasEvenCode (x : Binary64) : Prop := ∃ i, x.place? = some i ∧ i % 2 = 0

/-- The number is finite, no finite number is closer to the rational, and if one of another value
is as close, the code is even. -/
structure IsNearestTo (q : ℚ) (x : Binary64) : Prop where
  isFinite : x.isFinite = true
  closest : ∀ y : Binary64, y.isFinite = true → |x.toRat - q| ≤ |y.toRat - q|
  even : ∀ y : Binary64, y.isFinite = true → y.toRat ≠ x.toRat →
    |x.toRat - q| = |y.toRat - q| → x.HasEvenCode

/-- A finite number is the nearest one to its exact value. -/
theorem isNearestTo_toRat {x : Binary64} (hx : x.isFinite = true) : IsNearestTo x.toRat x := by
  refine ⟨hx, ?_, ?_⟩
  · intro y _
    rw [sub_self, abs_zero]
    exact abs_nonneg _
  · intro y _ hne hsame
    rw [sub_self, abs_zero, eq_comm, abs_eq_zero, sub_eq_zero] at hsame
    exact absurd hsame hne

theorem IsNearestTo.withoutNegativeZero {q : ℚ} {x : Binary64} (h : IsNearestTo q x) :
    IsNearestTo q (withoutNegativeZero x) := by
  refine ⟨isFinite_withoutNegativeZero h.isFinite, ?_, ?_⟩
  · rw [toRat_withoutNegativeZero]
    exact h.closest
  · rw [toRat_withoutNegativeZero, HasEvenCode, place?_withoutNegativeZero]
    exact h.even

/-- Of two nearest numbers neither is less: if both were even, there would be a closer number
between them. -/
theorem IsNearestTo.not_toRat_lt {q : ℚ} {x y : Binary64} (hx : IsNearestTo q x)
    (hy : IsNearestTo q y) : ¬x.toRat < y.toRat := by
  intro hlt
  have hsame : |x.toRat - q| = |y.toRat - q| :=
    le_antisymm (hx.closest y hy.isFinite) (hy.closest x hx.isFinite)
  obtain ⟨i, hi, hieven⟩ := hx.even y hy.isFinite (ne_of_gt hlt) hsame
  obtain ⟨j, hj, hjeven⟩ := hy.even x hx.isFinite (ne_of_lt hlt) hsame.symm
  have hij := (toRat_lt_toRat_iff hx.isFinite hy.isFinite hi hj).mp hlt
  obtain ⟨z, hz, hxz, hzy⟩ := exists_between hx.isFinite hy.isFinite hi hj (by omega)
  have hcloser := hx.closest z hz
  -- The rational is in the middle, so it is closer to everything between.
  rcases abs_eq_abs.mp hsame with heq | hmiddle
  · linarith
  · rw [abs_of_neg (by linarith)] at hcloser
    cases abs_cases (z.toRat - q) <;> linarith

/-- All nearest numbers have the same exact value. -/
theorem IsNearestTo.toRat_eq {q : ℚ} {x y : Binary64} (hx : IsNearestTo q x)
    (hy : IsNearestTo q y) : x.toRat = y.toRat :=
  le_antisymm (not_lt.mp (hy.not_toRat_lt hx)) (not_lt.mp (hx.not_toRat_lt hy))

/-- The nearest number to the exact value of a number is numerically equal to it. -/
theorem numericEq_of_isNearestTo {x y : Binary64} (hx : x.isFinite = true)
    (h : IsNearestTo x.toRat y) : y.numericEq x = true :=
  numericEq_of_toRat_eq h.isFinite hx (h.toRat_eq (isNearestTo_toRat hx))

/-! ## Rounded quotients -/

theorem abs_signed_sub (negative : Bool) (a b : Nat) (d : ℚ) :
    |(signed negative a : ℚ) - signed negative b / d| = |(a : ℚ) - b / d| := by
  cases negative with
  | false => rfl
  | true =>
      rw [← abs_neg]
      simp only [signed, if_true, Int.cast_neg, Int.cast_natCast]
      congr 1
      ring

/-- How far a number is from a quotient of its own sign. -/
theorem abs_toRat_sub (negative : Bool) (m : Magnitude) (num : Nat) {den : Nat} (hden : 0 < den) :
    |(finite negative m).toRat - (signed negative num : ℚ) / (den * unitsPerOne)| =
      distance num den m.code / (den * unitsPerOne) := by
  have hunit := unitsPerOne_cast_pos
  have hden' : (0 : ℚ) < den := Nat.cast_pos.mpr hden
  have hcommon : (finite negative m).toRat - (signed negative num : ℚ) / (den * unitsPerOne) =
      ((signed negative (m.units * den) : ℚ) - signed negative num) / (den * unitsPerOne) := by
    rw [toRat_finite, signed_mul]
    field_simp
  have habs := abs_signed_sub negative (m.units * den) num 1
  rw [div_one, div_one] at habs
  rw [hcommon, abs_div, habs, abs_of_pos (mul_pos hden' hunit), distance, Nat.cast_natAbs]
  congr 1
  push_cast
  rfl

/-- Whatever sign a number has, one with the sign of the quotient is as good or better. -/
theorem exists_same_sign (negative : Bool) (num : Nat) {d : ℚ} (hd : 0 < d) {y : Binary64}
    (hy : y.isFinite = true) :
    ∃ k, (finite negative k).toRat = y.toRat ∨
      |(finite negative k).toRat - (signed negative num : ℚ) / d| <
        |y.toRat - (signed negative num : ℚ) / d| := by
  obtain ⟨t, k, rfl⟩ := exists_of_isFinite hy
  by_cases ht : t = negative
  · exact ⟨k, .inl (by rw [ht])⟩
  · refine ⟨.zero, ?_⟩
    have hzero : (finite negative .zero).toRat = 0 := by
      rw [toRat_finite, Magnitude.units_zero]
      cases negative <;> simp [signed]
    by_cases hk : k.units = 0
    · left
      rw [hzero, toRat_finite, hk]
      cases t <;> simp [signed]
    · right
      have hquotient : (0 : ℚ) ≤ num / d := div_nonneg (Nat.cast_nonneg num) hd.le
      have hunits : (0 : ℚ) < k.units / unitsPerOne :=
        div_pos (Nat.cast_pos.mpr (Nat.pos_of_ne_zero hk)) unitsPerOne_cast_pos
      rw [hzero, toRat_finite]
      cases negative with
      | false =>
          obtain rfl : t = true := by simpa using ht
          simp only [signed, if_true, Bool.false_eq_true, if_false, Int.cast_neg,
            Int.cast_natCast, neg_div]
          rw [abs_of_nonpos (by linarith), abs_of_neg (by linarith)]
          linarith
      | true =>
          obtain rfl : t = false := by simpa using ht
          simp only [signed, if_true, Bool.false_eq_true, if_false, Int.cast_neg,
            Int.cast_natCast, neg_div]
          rw [abs_of_nonneg (by linarith), abs_of_pos (by linarith)]
          linarith

/-- A rounded quotient is the nearest number to it. -/
theorem isNearestTo_of_nearestCode {negative : Bool} {num den : Nat} {m : Magnitude}
    (hden : 0 < den) (hm : nearestCode num den = m.code) :
    IsNearestTo ((signed negative num : ℚ) / (den * unitsPerOne)) (.finite negative m) := by
  have hnearest := (nearestCode_eq_iff hden).mp hm
  have hscale : (0 : ℚ) < den * unitsPerOne :=
    mul_pos (Nat.cast_pos.mpr hden) unitsPerOne_cast_pos
  have hclosest : ∀ k : Magnitude,
      |(finite negative m).toRat - (signed negative num : ℚ) / (den * unitsPerOne)| ≤
        |(finite negative k).toRat - (signed negative num : ℚ) / (den * unitsPerOne)| := by
    intro k
    rw [abs_toRat_sub negative m num hden, abs_toRat_sub negative k num hden,
      div_le_div_iff_of_pos_right hscale, Nat.cast_le]
    exact hnearest.closest k.code
  refine ⟨rfl, ?_, ?_⟩
  · intro y hy
    obtain ⟨k, hsame | hcloser⟩ := exists_same_sign negative num hscale hy
    · rw [← hsame]
      exact hclosest k
    · exact le_trans (hclosest k) hcloser.le
  · intro y hy hne htie
    obtain ⟨k, hsame | hcloser⟩ := exists_same_sign negative num hscale hy
    · rw [← hsame, abs_toRat_sub negative m num hden, abs_toRat_sub negative k num hden,
        div_left_inj' hscale.ne', Nat.cast_inj] at htie
      have hcode : k.code ≠ m.code := by
        intro heq
        rw [← hsame, Magnitude.ext_code heq] at hne
        exact hne rfl
      have heven := hnearest.even k.code hcode htie
      refine ⟨signed negative m.code, rfl, ?_⟩
      cases negative <;> simp [signed] <;> omega
    · exact absurd htie (ne_of_lt (lt_of_le_of_lt (hclosest k) hcloser))

end ArithFormula.Binary64
