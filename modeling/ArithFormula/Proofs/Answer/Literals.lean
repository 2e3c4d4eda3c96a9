import ArithFormula.Settings
import ArithFormula.Proofs.Binary64.KeptPlaces
import ArithFormula.Proofs.Decimal.FractionText
import ArithFormula.Proofs.Expr.Canonical

/-!
# Answers to the text of a number

A formula that is the text of a number is answered by that number, rounded. With as many
places as the text has, that should be the same text. It is not always: among products
from `2 ^ 51` to `2 ^ 52` there are only halves, and an odd integer of places that the
number misses by more than a quarter is lost.

## Main results

* `Binary64.resultText_inj` — different numbers have different texts.
* `evaluateTo_toText` — a number text is answered by the rounded number.
* `evaluateTo_resultText_eq_iff` — which number texts are their own answers.
-/

namespace ArithFormula

namespace Binary64

/-! ## Texts of results -/

/-- A result is written like the number that has no negative zero. -/
theorem resultText_eq (x : Binary64) : x.resultText = (withoutNegativeZero x).toText := by
  have hzero : zero.toText = ['0'] := by decide
  unfold resultText withoutNegativeZero
  split
  · exact hzero.symm
  · rfl

/-- Only negative zero is not written with its own sign. -/
theorem resultText_eq_toText {x : Binary64} (h : x ≠ .finite true .zero) :
    x.resultText = x.toText := by
  rw [resultText_eq, withoutNegativeZero_eq_self h]

/-- A text is the text of one number only, negative zero aside. -/
theorem resultText_inj {x y : Binary64} (hx : x ≠ .finite true .zero)
    (hy : y ≠ .finite true .zero) : x.resultText = y.resultText ↔ x = y := by
  rw [resultText_eq_toText hx, resultText_eq_toText hy]
  exact ⟨toText_inj, congrArg toText⟩

/-- Rounding makes no negative zero. -/
theorem roundToPlaces_ne {x : Binary64} (h : x ≠ .finite true .zero) (mode : RoundingMode)
    (places : Nat) : roundToPlaces mode places x ≠ .finite true .zero := by
  unfold roundToPlaces
  by_cases hplaces : maxRoundedPlaces < places
  · rw [if_pos hplaces]
    exact h
  · rw [if_neg hplaces]
    dsimp only
    by_cases hsmall : (x * ofNat (10 ^ places)).abs.less integerThreshold = true
    · rw [if_pos hsmall]
      exact withoutNegativeZero_ne _
    · rw [if_neg hsmall]
      exact h

end Binary64

/-! ## Answers -/

/-- A number is resolved to itself. -/
theorem Settings.resolve_number (settings : Settings) {x : Binary64} (h : x.isFinite = true) :
    settings.resolve (.number x) = .ok x := by
  rw [Settings.resolve_eq_ok_iff]
  exact ⟨rfl, h⟩

/-- A number text is answered by the rounded number. -/
theorem evaluateTo_toText (places : Nat) {x : Binary64} (h : x.isFinite = true) :
    evaluateTo places x.toText = (x.roundToPlaces .halfEven places).resultText := by
  have hparse : Expr.parse (some Settings.standardMaxDepth) x.toText = .ok (.number x) := by
    rw [Expr.parse, Expr.parseAt_number_toText, if_pos h]
  have hvalue : { Settings.standard with places := places }.value x.toText =
      .ok (x.roundToPlaces .halfEven places) := by
    rw [Settings.value_eq_ok_iff]
    exact ⟨.number x, x, hparse, Settings.resolve_number _ h, rfl⟩
  rw [evaluateTo, Settings.answer, hvalue]

/-- A number text with no more digits after its point than there are places is its own answer,
unless the number drifts from the integer of places that the digits write. -/
theorem evaluateTo_resultText_eq_iff {negative : Bool} {m : Magnitude} {places : Nat}
    (hsign : Binary64.finite negative m ≠ .finite true .zero)
    (hplaces : Text.fractionLength (Binary64.finite negative m).resultText ≤ places) :
    evaluateTo places (Binary64.finite negative m).resultText =
        (Binary64.finite negative m).resultText ↔
      ¬Binary64.Drifts places m
        (Text.writtenAt places (Binary64.finite negative m).resultText) := by
  have hfinite : (Binary64.finite negative m).isFinite = true := rfl
  have hrounded := Binary64.roundToPlaces_ne hsign .halfEven places
  rw [Binary64.resultText_eq_toText hsign] at hplaces ⊢
  rw [evaluateTo_toText places hfinite, ← Binary64.resultText_eq_toText hsign,
    Binary64.resultText_inj hrounded hsign, Binary64.resultText_eq_toText hsign]
  exact Binary64.roundToPlaces_eq_self_iff hsign (Binary64.nearestCode_writtenAt hplaces)

/-- The number nearest to `40000000000000.05`. -/
def fortyTrillionFiveCents : Magnitude := ⟨4810460802404319238, by decide⟩

/-- The statement for a number that drifts. -/
theorem evaluateTo_resultText_eq_iff_fortyTrillion :
    Binary64.finite false fortyTrillionFiveCents ≠ .finite true .zero ∧
      Text.fractionLength (Binary64.finite false fortyTrillionFiveCents).resultText ≤ 2 ∧
      (evaluateTo 2 (Binary64.finite false fortyTrillionFiveCents).resultText =
          (Binary64.finite false fortyTrillionFiveCents).resultText ↔
        ¬Binary64.Drifts 2 fortyTrillionFiveCents
          (Text.writtenAt 2 (Binary64.finite false fortyTrillionFiveCents).resultText)) :=
  ⟨by decide, by decide +kernel, evaluateTo_resultText_eq_iff (by decide) (by decide +kernel)⟩

/-- A number text that is not its own answer, not even with all its places: a hundredth is lost. -/
theorem evaluateTo_fortyTrillionFiveCents_ne :
    Binary64.finite false fortyTrillionFiveCents ≠ .finite true .zero ∧
      (Binary64.finite false fortyTrillionFiveCents).resultText =
        "40000000000000.05".toList ∧
      Text.fractionLength "40000000000000.05".toList ≤ 2 ∧
      evaluateTo 2 "40000000000000.05".toList = "40000000000000.04".toList ∧
      evaluateTo 2 "40000000000000.05".toList ≠ "40000000000000.05".toList := by
  have htext : (Binary64.finite false fortyTrillionFiveCents).toText =
      "40000000000000.05".toList := by decide +kernel
  have hanswer : evaluateTo 2 "40000000000000.05".toList = "40000000000000.04".toList := by
    rw [← htext, evaluateTo_toText 2 rfl]
    decide +kernel
  refine ⟨by decide, by decide +kernel, by decide, hanswer, ?_⟩
  rw [hanswer]
  decide

end ArithFormula
