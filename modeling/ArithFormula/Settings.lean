import ArithFormula.Expr.Parser

/-!
# Evaluating formulas

Settings say how a formula is read, resolved and answered: how deep calls may nest,
which divisors count as zero, and how the value is rounded. An answer is always a
text; a formula without a value is answered by its rendered error.

## Main results

* `resolve_eq_ok_iff` — an expression is resolved exactly if it has a finite value.
* `value_eq_ok_iff` — a formula has a value exactly if it is read and resolved, and
  that value is the rounded one.
-/

namespace ArithFormula

/-- How formulas are read, resolved and answered. -/
structure Settings where
  /-- The number of decimal places of an answer. -/
  places : Nat
  /-- How deep calls may nest, if there is a limit. -/
  maxDepth : Option Nat
  /-- Divisors of a magnitude below this count as zero. -/
  zeroTolerance : Binary64
  /-- What becomes of a half when an answer is rounded. -/
  rounding : RoundingMode
deriving DecidableEq

namespace Settings

/-! ## Defaults -/

/-- The depth to which calls may nest if nothing else is said. -/
def standardMaxDepth : Nat := 256

/-- The tolerance for divisors if nothing else is said. -/
def standardZeroTolerance : Binary64 := .epsilon

/-- Two places, halves to even, the standard limit and the standard tolerance. -/
def standard : Settings where
  places := 2
  maxDepth := some standardMaxDepth
  zeroTolerance := standardZeroTolerance
  rounding := .halfEven

/-! ## Evaluation -/

/-- The expression that a formula writes. -/
def parse (settings : Settings) (formula : Text) : Except ParseError Expr :=
  Expr.parse settings.maxDepth formula

/-- The value of an expression, not rounded. It has to be finite. -/
def resolve (settings : Settings) (e : Expr) : Except EvalError Binary64 := do
  let value ← e.value settings.zeroTolerance
  if value.isFinite then return value else throw (.notFinite value)

/-- A number rounded as an answer is. -/
def round (settings : Settings) (value : Binary64) : Binary64 :=
  value.roundToPlaces settings.rounding settings.places

/-- The rounded value of a formula. -/
def value (settings : Settings) (formula : Text) : Except FormulaError Binary64 := do
  let e ← (settings.parse formula).mapError .parse
  let value ← (settings.resolve e).mapError .eval
  return settings.round value

/-- The answer to a formula: its rounded value, or its error, as text. -/
def answer (settings : Settings) (formula : Text) : Text :=
  match settings.value formula with
  | .ok value => value.resultText
  | .error error => error.render

/-- The answers to formulas, in their order. -/
def answers (settings : Settings) (formulas : List Text) : List Text :=
  formulas.map settings.answer

/-! ## When there is a value -/

/-- An expression is resolved exactly if it has a finite value. -/
theorem resolve_eq_ok_iff {settings : Settings} {e : Expr} {value : Binary64} :
    settings.resolve e = .ok value ↔
      e.value settings.zeroTolerance = .ok value ∧ value.isFinite = true := by
  simp only [resolve, bind_eq_ok_iff]
  constructor
  · intro h
    obtain ⟨x, hx, h⟩ := h
    split at h
    · next hfinite =>
        obtain rfl := return_eq_ok_iff.mp h
        exact ⟨hx, hfinite⟩
    · cases h
  · intro h
    refine ⟨value, h.1, ?_⟩
    rw [if_pos h.2]
    rfl

/-- A formula has a value exactly if it is read and resolved. -/
theorem value_eq_ok_iff {settings : Settings} {formula : Text} {rounded : Binary64} :
    settings.value formula = .ok rounded ↔
      ∃ e value, settings.parse formula = .ok e ∧ settings.resolve e = .ok value ∧
        settings.round value = rounded := by
  simp only [value, bind_eq_ok_iff, mapError_eq_ok_iff, return_eq_ok_iff]
  exact ⟨fun ⟨e, he, x, hx, h⟩ => ⟨e, x, he, hx, h⟩,
    fun ⟨e, x, he, hx, h⟩ => ⟨e, he, x, hx, h⟩⟩

end Settings

/-! ## Without settings -/

/-- The answer to a formula under the standard settings. -/
def evaluate (formula : Text) : Text := Settings.standard.answer formula

/-- The answer to a formula under the standard settings, rounded to a number of places. -/
def evaluateTo (places : Nat) (formula : Text) : Text :=
  { Settings.standard with places := places }.answer formula

end ArithFormula
