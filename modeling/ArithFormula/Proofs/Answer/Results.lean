import ArithFormula.Proofs.Answer.Literals
import ArithFormula.Proofs.Binary64.RoundedTwice
import Mathlib.Control.Monad.Basic

/-!
# Results and their texts

A formula that has a value has a finite one, and the answer is the text of that number, a zero
written without a sign. So the answer to a formula is a formula itself, and it reads back as the
value. What is answered to it is the value rounded once more, which changes nothing, since
rounding to places settles in one step.

## Main results

* `Settings.isFinite_of_value` — only finite numbers are values of formulas.
* `evaluateTo_evaluateTo` — an answer is its own answer.
-/

namespace ArithFormula

/-! ## Rounding zero -/

namespace Binary64

theorem roundToPlaces_zero (places : Nat) : roundToPlaces .halfEven places zero = zero := by
  have hcode : nearestCode (0 * unitsPerOne) (10 ^ places) = Magnitude.zero.code := by
    rw [Nat.zero_mul]
    exact nearestCode_zero (ten_pow_pos places)
  refine (roundToPlaces_eq_self_iff (by decide) hcode).mpr ?_
  intro h
  exact absurd h.odd (by decide)

/-- A number that rounding keeps is kept without its sign too, if it is a zero. -/
theorem roundToPlaces_withoutNegativeZero {places : Nat} {x : Binary64}
    (h : roundToPlaces .halfEven places x = x) :
    roundToPlaces .halfEven places (withoutNegativeZero x) = withoutNegativeZero x := by
  unfold withoutNegativeZero
  split
  · exact roundToPlaces_zero places
  · exact h

end Binary64

/-! ## Values of formulas -/

namespace Settings

/-- Only finite numbers are values of formulas. -/
theorem isFinite_of_value {settings : Settings} {formula : Text} {value : Binary64}
    (h : settings.value formula = .ok value) : value.isFinite = true := by
  obtain ⟨e, exact, _, hresolve, hround⟩ := value_eq_ok_iff.mp h
  rw [← hround]
  exact Binary64.isFinite_roundToPlaces _ _ (resolve_eq_ok_iff.mp hresolve).2

theorem answer_of_value {settings : Settings} {formula : Text} {value : Binary64}
    (h : settings.value formula = .ok value) : settings.answer formula = value.resultText := by
  rw [answer, h]

theorem answer_of_error {settings : Settings} {formula : Text} {error : FormulaError}
    (h : settings.value formula = .error error) : settings.answer formula = error.render := by
  rw [answer, h]

end Settings

/-! ## Answers to answers -/

/-- The text of a result is answered by that result, rounded. -/
theorem evaluateTo_resultText (places : Nat) {x : Binary64} (h : x.isFinite = true) :
    evaluateTo places x.resultText =
      ((Binary64.withoutNegativeZero x).roundToPlaces .halfEven places).resultText := by
  rw [Binary64.resultText_eq, evaluateTo_toText places (Binary64.isFinite_withoutNegativeZero h)]

/-- An answer with so many places, if it is a number, is its own answer with as many places. -/
theorem evaluateTo_evaluateTo {places : Nat} {formula : Text} {value : Binary64}
    (h : { Settings.standard with places := places }.value formula = .ok value) :
    evaluateTo places (evaluateTo places formula) = evaluateTo places formula := by
  obtain ⟨e, unrounded, _, hresolve, hround⟩ := Settings.value_eq_ok_iff.mp h
  have hfinite := (Settings.resolve_eq_ok_iff.mp hresolve).2
  have hkept : Binary64.roundToPlaces .halfEven places value = value := by
    rw [← hround]
    exact Binary64.roundToPlaces_roundToPlaces places hfinite
  have hanswer : evaluateTo places formula = value.resultText := Settings.answer_of_value h
  rw [hanswer, evaluateTo_resultText places (Settings.isFinite_of_value h),
    Binary64.roundToPlaces_withoutNegativeZero hkept, Binary64.resultText_eq,
    Binary64.withoutNegativeZero_withoutNegativeZero, ← Binary64.resultText_eq]

/-- The number nearest to `40000000000000.04`, to which `40000000000000.05` is rounded. -/
def fortyTrillionFourCents : Magnitude := ⟨4810460802404319237, by decide⟩

/-- The statement for a formula whose unrounded value is moved by rounding, to a result next to
numbers that drift. -/
theorem evaluateTo_evaluateTo_fortyTrillion :
    { Settings.standard with places := 2 }.value "add(40000000000000, 0.05)".toList =
        .ok (.finite false fortyTrillionFourCents) ∧
      evaluateTo 2 (evaluateTo 2 "add(40000000000000, 0.05)".toList) =
        evaluateTo 2 "add(40000000000000, 0.05)".toList := by
  have hvalue : { Settings.standard with places := 2 }.value "add(40000000000000, 0.05)".toList =
      .ok (.finite false fortyTrillionFourCents) := by decide +kernel
  exact ⟨hvalue, evaluateTo_evaluateTo hvalue⟩

end ArithFormula
