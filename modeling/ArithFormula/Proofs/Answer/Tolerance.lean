import ArithFormula.Settings
import ArithFormula.Proofs.Expr.Divisors
import Mathlib.Control.Monad.Basic

/-!
# Smaller zero tolerances

The zero tolerance decides which divisors count as zero, and nothing else. Whatever counts as zero
under a tolerance does so under a larger one, so a smaller tolerance turns no value into an error
and into no other value: it can only find a value where the larger one finds a division by zero.

Guards of two runs may fire at different divisions, and one run may end before the other. They are
compared through `Expr.DividesByZero`, which speaks of the expression and of no run.

## Main results

* `Expr.DividesByZero.mono` — what divides by zero does so under a larger tolerance.
* `Settings.value_eq_or_divisionByZero` — results of formulas under two tolerances.
* `Settings.answer_of_smaller_tolerance` — values, errors and answers under two tolerances.
-/

namespace ArithFormula

variable {small large : Binary64}

/-! ## Expressions -/

namespace Expr

/-- What divides by zero does so under a larger tolerance. -/
theorem DividesByZero.mono (h : small.atMost large = true) {e : Expr}
    (hzero : e.DividesByZero small) : e.DividesByZero large := by
  obtain ⟨left, right, hmem, hbelow⟩ := hzero
  exact ⟨left, right, hmem, Binary64.less_of_less_of_atMost hbelow h⟩

/-- Under two tolerances an expression has the same value or error, unless the larger one finds a
division by zero. -/
theorem value_eq_or_divisionByZero (h : small.atMost large = true) (e : Expr) :
    e.value small = e.value large ∨ e.value large = .error .divisionByZero := by
  rw [value_eq_ite large e, value_eq_ite small e]
  by_cases hlarge : e.DividesByZero large
  · right
    rw [if_pos hlarge]
  · left
    have hsmall : ¬e.DividesByZero small := fun hzero => hlarge (hzero.mono h)
    rw [if_neg hlarge, if_neg hsmall]

/-- A division by zero is one under a larger tolerance. -/
theorem value_eq_divisionByZero_mono (h : small.atMost large = true) {e : Expr}
    (hzero : e.value small = .error .divisionByZero) : e.value large = .error .divisionByZero := by
  rcases value_eq_or_divisionByZero h e with hsame | hlarge
  · rw [← hsame, hzero]
  · exact hlarge

end Expr

/-! ## Formulas -/

namespace Settings

theorem resolve_eq_or_divisionByZero (h : small.atMost large = true) (settings : Settings)
    (e : Expr) :
    { settings with zeroTolerance := small }.resolve e =
        { settings with zeroTolerance := large }.resolve e ∨
      { settings with zeroTolerance := large }.resolve e = .error .divisionByZero := by
  simp only [resolve]
  rcases e.value_eq_or_divisionByZero h with hsame | hlarge
  · left
    rw [hsame]
  · right
    rw [hlarge]
    rfl

/-- Under two tolerances a formula has the same result, unless the larger one finds a division by
zero. -/
theorem value_eq_or_divisionByZero (h : small.atMost large = true) (settings : Settings)
    (formula : Text) :
    { settings with zeroTolerance := small }.value formula =
        { settings with zeroTolerance := large }.value formula ∨
      { settings with zeroTolerance := large }.value formula =
        .error (.eval .divisionByZero) := by
  -- The tolerance is no setting for reading: both runs have the same expression, or none.
  simp only [value, parse]
  cases Expr.parse settings.maxDepth formula with
  | error e =>
      left
      rfl
  | ok e =>
      show ({ settings with zeroTolerance := small }.resolve e).mapError FormulaError.eval >>= _ =
          ({ settings with zeroTolerance := large }.resolve e).mapError FormulaError.eval >>= _ ∨
        ({ settings with zeroTolerance := large }.resolve e).mapError FormulaError.eval >>= _ = _
      rcases resolve_eq_or_divisionByZero h settings e with hsame | hlarge
      · left
        rw [hsame]
        rfl
      · right
        rw [hlarge]
        rfl

/-- Under a smaller tolerance an expression keeps the value it has, and a division by zero is one
under the larger tolerance too. So a formula has the same answer under both, unless the one under
the larger tolerance tells of a division by zero. -/
theorem answer_of_smaller_tolerance (h : small.atMost large = true) :
    (∀ (e : Expr) (value : Binary64), e.value large = .ok value → e.value small = .ok value) ∧
      (∀ e : Expr, e.value small = .error .divisionByZero →
        e.value large = .error .divisionByZero) ∧
      ∀ (settings : Settings) (formula : Text),
        { settings with zeroTolerance := small }.answer formula =
            { settings with zeroTolerance := large }.answer formula ∨
          { settings with zeroTolerance := large }.answer formula =
            "Error: Division by zero".toList := by
  refine ⟨?_, fun e => Expr.value_eq_divisionByZero_mono h, ?_⟩
  · intro e value hvalue
    rcases e.value_eq_or_divisionByZero h with hsame | hlarge
    · rw [hsame, hvalue]
    · rw [hlarge] at hvalue
      cases hvalue
  · intro settings formula
    rcases settings.value_eq_or_divisionByZero h formula with hsame | hlarge
    · left
      rw [answer, answer, hsame]
    · right
      rw [answer, hlarge]
      rfl

/-- The number nearest to one hundredth. -/
def hundredth : Binary64 := .ofQuotient false unitsPerOne 100

/-- The quotient of one and a number. -/
def oneOver (x : Binary64) : Expr := .call .divide (.number (.ofNat 1)) (.number x)

/-- The statement for a divisor that counts as zero under neither tolerance, for one that does under
both, and for a formula whose divisor does under the larger one only. -/
theorem answer_of_smaller_tolerance_hundredth :
    Binary64.epsilon.atMost hundredth = true ∧
      ((oneOver hundredth).value hundredth = .ok (.ofNat 100) ∧
        (oneOver hundredth).value .epsilon = .ok (.ofNat 100)) ∧
      ((oneOver .zero).value .epsilon = .error .divisionByZero ∧
        (oneOver .zero).value hundredth = .error .divisionByZero) ∧
      ({ standard with zeroTolerance := .epsilon }.answer "divide(1, 0.001)".toList =
            { standard with zeroTolerance := hundredth }.answer "divide(1, 0.001)".toList ∨
          { standard with zeroTolerance := hundredth }.answer "divide(1, 0.001)".toList =
            "Error: Division by zero".toList) := by
  have horder : Binary64.epsilon.atMost hundredth = true := by decide +kernel
  have hnumber : (oneOver hundredth).value hundredth = .ok (.ofNat 100) := by decide +kernel
  have hzero : (oneOver .zero).value .epsilon = .error .divisionByZero := by decide +kernel
  have hboth := answer_of_smaller_tolerance horder
  exact ⟨horder, ⟨hnumber, hboth.1 _ _ hnumber⟩, ⟨hzero, hboth.2.1 _ hzero⟩, hboth.2.2 standard _⟩

end Settings

end ArithFormula
