import ArithFormula.Proofs.Answer.Results
import ArithFormula.Proofs.Decimal.PlainText

/-!
# The precision of an answer

An answer that is a number is written plainly, and with no more places than were asked for, as far
as numbers are rounded at all. Nothing cuts the text for that. A rounded number is the nearest one
to an integer of places, so a decimal with so few places reads back as it, and the text of a number
has the fewest places of all that read back.

## Main results

* `Binary64.fractionLength_roundToPlaces_le` — the places of a number that was rounded.
* `Settings.answer_precision` — the form of an answer and its places, under all settings.
-/

namespace ArithFormula

/-! ## Texts of results -/

namespace Binary64

/-- A finite result is written plainly. -/
theorem isPlainNumber_resultText {x : Binary64} (h : x.isFinite = true) :
    Text.IsPlainNumber x.resultText := by
  rw [resultText_eq]
  exact isPlainNumber_toText (isFinite_withoutNegativeZero h)

/-- No result is written as a zero with a sign. -/
theorem resultText_ne_negativeZero (x : Binary64) : x.resultText ≠ "-0".toList := by
  have hzero : "-0".toList = toText (.finite true .zero) := by decide
  rw [resultText_eq, hzero]
  intro htext
  exact withoutNegativeZero_ne x (toText_inj htext)

/-- A number that was rounded to places is written with no more of them. -/
theorem fractionLength_roundToPlaces_le (mode : RoundingMode) {places : Nat} {x : Binary64}
    (hfinite : x.isFinite = true) (hplaces : places ≤ maxRoundedPlaces)
    (hsmall : (x * ofNat (10 ^ places)).abs.less integerThreshold = true) :
    Text.fractionLength (roundToPlaces mode places x).resultText ≤ places := by
  obtain ⟨negative, m, rfl⟩ := exists_of_isFinite hfinite
  rw [finite_mul_ofNat negative m (ten_pow_lt hplaces), abs_less_integerThreshold] at hsmall
  obtain ⟨negative', rounded, hresult, hcode⟩ := @exists_rounded mode places negative _ hsmall
  rw [roundToPlaces_finite hplaces, if_pos hsmall, resultText_eq,
    withoutNegativeZero_withoutNegativeZero, hresult]
  exact fractionLength_toText_le_iff.mpr ⟨_, hcode⟩

end Binary64

/-! ## Answers -/

namespace Settings

/-- If a formula has a value, that is finite and the answer is a plain number text, never `-0`. If
moreover at most `maxRoundedPlaces` places are asked for, and the unrounded value times their power
of ten is below `integerThreshold` in magnitude, the answer has no more places than that. -/
theorem answer_precision {settings : Settings} {formula : Text} {value : Binary64}
    (h : settings.value formula = .ok value) :
    value.isFinite = true ∧
      Text.IsPlainNumber (settings.answer formula) ∧
      settings.answer formula ≠ "-0".toList ∧
      ∃ e exact, settings.parse formula = .ok e ∧ settings.resolve e = .ok exact ∧
        (settings.places ≤ Binary64.maxRoundedPlaces →
          (exact * Binary64.ofNat (10 ^ settings.places)).abs.less Binary64.integerThreshold =
            true →
          Text.fractionLength (settings.answer formula) ≤ settings.places) := by
  have hfinite := isFinite_of_value h
  rw [answer_of_value h]
  obtain ⟨e, exact, hparse, hresolve, hround⟩ := value_eq_ok_iff.mp h
  refine ⟨hfinite, Binary64.isPlainNumber_resultText hfinite,
    Binary64.resultText_ne_negativeZero value, e, exact, hparse, hresolve, ?_⟩
  intro hplaces hsmall
  rw [← hround]
  exact Binary64.fractionLength_roundToPlaces_le _ (resolve_eq_ok_iff.mp hresolve).2 hplaces hsmall

/-- Two places, halves away from zero. -/
def twoPlacesAway : Settings := { standard with rounding := .halfAwayFromZero }

/-- The number nearest to `-45035996273704.96`. -/
def lastRounded : Binary64 := .ofQuotient true (4503599627370496 * unitsPerOne) 100

/-- The statement for a value that is rounded although its product with the scale is within a unit
of the threshold. -/
theorem answer_precision_lastRounded :
    twoPlacesAway.value "subtract(0, 45035996273704.955)".toList = .ok lastRounded ∧
      twoPlacesAway.answer "subtract(0, 45035996273704.955)".toList =
        "-45035996273704.96".toList ∧
      lastRounded.isFinite = true ∧
      Text.IsPlainNumber (twoPlacesAway.answer "subtract(0, 45035996273704.955)".toList) ∧
      twoPlacesAway.answer "subtract(0, 45035996273704.955)".toList ≠ "-0".toList ∧
      ∃ e exact, twoPlacesAway.parse "subtract(0, 45035996273704.955)".toList = .ok e ∧
        twoPlacesAway.resolve e = .ok exact ∧
        (twoPlacesAway.places ≤ Binary64.maxRoundedPlaces →
          (exact * Binary64.ofNat (10 ^ twoPlacesAway.places)).abs.less
            Binary64.integerThreshold = true →
          Text.fractionLength
            (twoPlacesAway.answer "subtract(0, 45035996273704.955)".toList) ≤
              twoPlacesAway.places) := by
  have hvalue : twoPlacesAway.value "subtract(0, 45035996273704.955)".toList = .ok lastRounded := by
    decide +kernel
  have hanswer : twoPlacesAway.answer "subtract(0, 45035996273704.955)".toList =
      "-45035996273704.96".toList := by
    rw [answer_of_value hvalue]
    decide +kernel
  exact ⟨hvalue, hanswer, answer_precision hvalue⟩

end Settings

end ArithFormula
