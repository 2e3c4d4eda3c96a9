import ArithFormula.Proofs.Decimal.FewestPlaces
import ArithFormula.Proofs.Decimal.FractionText
import Mathlib.Data.List.Basic

/-!
# Plain number texts

The text of a finite number is a sign, if any, and digits, with a point between them, if there
is a fraction. Nothing in it is idle: no zero in front of an integer but the zero of `0` or `0.5`
itself, and no zero at the end of a fraction. Both come from the decimal behind the text. An
integer is written as a number is, so it starts with its first digit; and a fraction that ended
in zero would be one of a decimal with a place to drop.

For the same reason a text shows how many places its number needs.

## Main results

* `Decimal.isPlainNumber_toText` — a decimal without zeros to drop is written plainly.
* `Binary64.isPlainNumber_toText` — so is every finite number.
* `Binary64.fractionLength_toText_le_iff` — the places of a text are as few as they can be.
-/

namespace ArithFormula

/-! ## The form of plain texts -/

namespace Text

/-- The digits of an integer: a zero alone, or digits of which the first is no zero. -/
structure IsWhole (digits : Text) : Prop where
  isDigit : ∀ c ∈ digits, c.isDigit = true
  ne_nil : digits ≠ []
  eq_zero_of_head : digits.head? = some '0' → digits = ['0']

/-- The digits of a fraction, of which the last is no zero. -/
structure IsFraction (digits : Text) : Prop where
  isDigit : ∀ c ∈ digits, c.isDigit = true
  ne_nil : digits ≠ []
  getLast_ne : digits.getLast? ≠ some '0'

/-- An integer or an integer, a point and a fraction, with a minus sign or without. An exponent
has no place in it. -/
inductive IsPlainNumber : Text → Prop where
  | integer (negative : Bool) {whole : Text} (hwhole : IsWhole whole) :
      IsPlainNumber (Decimal.signText negative ++ whole)
  | fraction (negative : Bool) {whole fraction : Text} (hwhole : IsWhole whole)
      (hfraction : IsFraction fraction) :
      IsPlainNumber (Decimal.signText negative ++ (whole ++ '.' :: fraction))

end Text

/-! ## First and last digits -/

namespace Decimal

theorem digitChar_eq_zero_iff {n : Nat} (h : n < 10) : Nat.digitChar n = '0' ↔ n = 0 := by
  constructor
  · intro hchar
    have hcode := congrArg Char.toNat hchar
    rw [Nat.toNat_digitChar_of_lt_ten h] at hcode
    have hzero : '0'.toNat = 48 := rfl
    omega
  · rintro rfl
    rfl

theorem getLast?_digitsText (n : Nat) :
    (digitsText n).getLast? = some (Nat.digitChar (n % 10)) := by
  rw [digitsText, Nat.toDigits_eq_if (by decide)]
  split
  · next h => rw [Nat.mod_eq_of_lt h, List.getLast?_singleton]
  · exact List.getLast?_concat

/-- Only zero is written with a zero as its first digit. -/
theorem head?_digitsText_ne {n : Nat} (h : n ≠ 0) : (digitsText n).head? ≠ some '0' := by
  induction n using Nat.strongRecOn with
  | ind n ih =>
      rw [digitsText, Nat.toDigits_eq_if (by decide)]
      split
      · next hlt =>
          rw [List.head?_cons, ne_eq, Option.some.injEq, digitChar_eq_zero_iff hlt]
          exact h
      · next hge =>
          rw [List.head?_append_of_ne_nil _ Nat.toDigits_ne_nil]
          exact ih (n / 10) (by omega) (by omega)

/-! ## Parts of the text of a decimal -/

theorem isWhole_digitsText (n : Nat) : Text.IsWhole (digitsText n) := by
  refine ⟨fun _ => isDigit_of_mem_digitsText, digitsText_ne_nil n, ?_⟩
  intro hhead
  by_cases h : n = 0
  · rw [h]
    rfl
  · exact absurd hhead (head?_digitsText_ne h)

theorem isWhole_append_zeros {n : Nat} (h : n ≠ 0) (k : Nat) :
    Text.IsWhole (digitsText n ++ List.replicate k '0') := by
  refine ⟨?_, by simp [digitsText_ne_nil], ?_⟩
  · intro c hc
    exact (List.mem_append.mp hc).elim isDigit_of_mem_digitsText isDigit_of_mem_zeros
  · rw [List.head?_append_of_ne_nil _ (digitsText_ne_nil n)]
    exact fun hhead => absurd hhead (head?_digitsText_ne h)

theorem isFraction_fractionText (places : Nat) {n : Nat} (h : n % 10 ≠ 0) :
    Text.IsFraction (fractionText places n) := by
  refine ⟨fun _ => isDigit_of_mem_fractionText, by simp [fractionText, digitsText_ne_nil], ?_⟩
  rw [fractionText, List.getLast?_append, getLast?_digitsText, Option.some_or, ne_eq,
    Option.some.injEq, digitChar_eq_zero_iff (Nat.mod_lt _ (by decide))]
  exact h

/-- A decimal without zeros to drop is written plainly. -/
theorem isPlainNumber_toText (negative : Bool) {d : Decimal} (h : d.IsTrimmed) :
    Text.IsPlainNumber (signText negative ++ d.toText) := by
  unfold toText
  by_cases hexp : 0 ≤ d.exponent
  · rw [if_pos hexp]
    by_cases hzero : d.digits = 0
    · have hunits : d.exponent.toNat = 0 := by
        have hle : d.exponent ≤ 0 := Int.not_lt.mp fun hpos => h.ne_zero hpos hzero
        omega
      rw [hunits, List.replicate_zero, List.append_nil]
      exact .integer negative (isWhole_digitsText _)
    · exact .integer negative (isWhole_append_zeros hzero _)
  · rw [if_neg hexp]
    have hlast : d.digits % 10 ^ (-d.exponent).toNat % 10 ^ 1 = d.digits % 10 ^ 1 :=
      Nat.mod_mod_of_dvd _ (Nat.pow_dvd_pow 10 (by omega))
    rw [Nat.pow_one] at hlast
    refine .fraction negative (isWhole_digitsText _) (isFraction_fractionText _ ?_)
    rw [hlast]
    exact h.last (by omega)

end Decimal

/-! ## Texts of numbers -/

namespace Binary64

/-- A finite number is written plainly. -/
theorem isPlainNumber_toText {x : Binary64} (h : x.isFinite = true) :
    Text.IsPlainNumber x.toText := by
  cases x with
  | nan => cases h
  | infinity negative => cases h
  | finite negative m => exact Decimal.isPlainNumber_toText negative (Decimal.isTrimmed_shortest m)

/-- The text of a number has no more than so many places exactly if the number is the nearest one
to an integer of places. -/
theorem fractionLength_toText_le_iff {negative : Bool} {m : Magnitude} {places : Nat} :
    Text.fractionLength (toText (.finite negative m)) ≤ places ↔
      ∃ n, nearestCode (n * unitsPerOne) (10 ^ places) = m.code := by
  constructor
  · intro h
    exact ⟨_, nearestCode_writtenAt h⟩
  · rintro ⟨n, hn⟩
    have hnum : Decimal.numerator ⟨n, -(places : Int)⟩ = n * unitsPerOne := by
      rw [Decimal.numerator, show (-(places : Int)).toNat = 0 by omega, Nat.pow_zero, Nat.mul_one]
    have hden : Decimal.denominator ⟨n, -(places : Int)⟩ = 10 ^ places := by
      rw [Decimal.denominator, show (-(-(places : Int))).toNat = places by omega]
    have hread : Decimal.nearest? ⟨n, -(places : Int)⟩ = some m := by
      rw [Decimal.nearest?_eq_some_iff, hnum, hden]
      exact hn
    have hle := Decimal.le_exponent_shortest (by omega) hread
    rw [toText, Decimal.fractionLength_toText, Decimal.spelled]
    split
    · exact Nat.zero_le places
    · omega

end Binary64

end ArithFormula
