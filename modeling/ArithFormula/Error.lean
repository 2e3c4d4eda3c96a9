import ArithFormula.Decimal.Positional

/-!
# Errors

Reading a formula and resolving it fail for different causes, and each cause carries
what its message tells: the offending text, a keyword, a number of parameters, a
limit. The wording stands here and nowhere else.

## Main results

* `bind_eq_ok_iff`, `bind_eq_error_iff` — steps performed one after another succeed
  exactly if each does, and fail as the first that does.
-/

namespace ArithFormula

/-! ## Reading -/

/-- Why a text is no formula. -/
inductive ParseError where
  /-- Nothing but blanks where a formula is expected. -/
  | blank
  /-- A text without parentheses that is no number. -/
  | notANumber (text : Text)
  /-- A call without `(`. -/
  | noOpening (text : Text)
  /-- A call without `)`. -/
  | noClosing (text : Text)
  /-- A call whose every `)` stands before its first `(`. -/
  | closingBeforeOpening (text : Text)
  /-- A parameter list that closes more than it opens. -/
  | tooManyClosing
  /-- A parameter list that opens more than it closes. -/
  | unclosed
  /-- A call with nothing but blanks in front of its first `(`. -/
  | noKeyword (text : Text)
  /-- A call of a function that is not in the table. -/
  | unknownFunction (keyword : Text)
  /-- A call with a wrong number of parameters. -/
  | wrongCount (keyword : Text) (expected actual : Nat)
  /-- A call inside as many calls as the limit allows. -/
  | tooDeep (limit : Nat)
deriving DecidableEq

/-- A text between quotation marks. -/
def quoted (text : Text) : Text := '\'' :: text ++ ['\'']

/-- The wording of a reading error. -/
def ParseError.message : ParseError → Text
  | .blank => "Input cannot be empty or whitespace".toList
  | .notANumber text => "Invalid number format: ".toList ++ quoted text
  | .noOpening text => "Missing opening parenthesis in: ".toList ++ quoted text
  | .noClosing text => "Missing closing parenthesis in: ".toList ++ quoted text
  | .closingBeforeOpening text => "Mismatched parentheses in: ".toList ++ quoted text
  | .tooManyClosing => "Mismatched parentheses: too many closing parentheses".toList
  | .unclosed => "Mismatched parentheses: unclosed opening parentheses".toList
  | .noKeyword text => "Missing function name in: ".toList ++ quoted text
  | .unknownFunction keyword => "Unknown function: ".toList ++ quoted keyword
  | .wrongCount keyword expected actual =>
      "Function ".toList ++ quoted keyword ++ " expects ".toList ++ Decimal.digitsText expected ++
        " parameters but got ".toList ++ Decimal.digitsText actual
  | .tooDeep limit =>
      "Formula nesting exceeds the maximum depth of ".toList ++ Decimal.digitsText limit

/-! ## Resolving -/

/-- Why a formula has no value. -/
inductive EvalError where
  /-- A divisor whose magnitude is below the zero tolerance. -/
  | divisionByZero
  /-- A value that is an infinity or NaN. -/
  | notFinite (value : Binary64)
deriving DecidableEq

/-- The wording of a resolving error. -/
def EvalError.message : EvalError → Text
  | .divisionByZero => "Cannot divide by zero".toList
  | .notFinite value => "result is not a finite number: ".toList ++ value.toText

/-! ## Either -/

/-- Why a formula has no answer. -/
inductive FormulaError where
  | parse (error : ParseError)
  | eval (error : EvalError)
deriving DecidableEq

namespace FormulaError

/-- The wording of the error itself. -/
def message : FormulaError → Text
  | .parse error => error.message
  | .eval error => error.message

/-- The text that stands in the place of an answer. -/
def render : FormulaError → Text
  | .parse error => "Error while parsing formula: ".toList ++ error.message
  | .eval .divisionByZero => "Error: Division by zero".toList
  | .eval error => "Unexpected error: ".toList ++ error.message

end FormulaError

/-! ## Steps that may fail -/

/-- Two steps succeed exactly if the first does and then the second. -/
theorem bind_eq_ok_iff {ε α β : Type} {first : Except ε α} {second : α → Except ε β} {b : β} :
    (first >>= second) = .ok b ↔ ∃ a, first = .ok a ∧ second a = .ok b := by
  cases first with
  | error e => simp [bind, Except.bind]
  | ok a => simp [bind, Except.bind]

/-- Two steps fail as the first does, or else as the second. -/
theorem bind_eq_error_iff {ε α β : Type} {first : Except ε α} {second : α → Except ε β}
    {e : ε} :
    (first >>= second) = .error e ↔
      first = .error e ∨ ∃ a, first = .ok a ∧ second a = .error e := by
  cases first with
  | error e => simp [bind, Except.bind]
  | ok a => simp [bind, Except.bind]

theorem mapError_eq_ok_iff {ε δ α : Type} {result : Except ε α} {f : ε → δ} {a : α} :
    result.mapError f = .ok a ↔ result = .ok a := by
  cases result with
  | ok b =>
      constructor <;>
        · intro h
          cases h
          rfl
  | error e =>
      constructor <;>
        · intro h
          cases h

theorem map_eq_error_iff {ε α β : Type} {result : Except ε α} {f : α → β} {e : ε} :
    result.map f = .error e ↔ result = .error e := by
  cases result <;> simp [Except.map]

theorem return_eq_ok_iff {ε α : Type} {a b : α} :
    (pure a : Except ε α) = .ok b ↔ a = b := by
  simp [pure, Except.pure]

end ArithFormula
