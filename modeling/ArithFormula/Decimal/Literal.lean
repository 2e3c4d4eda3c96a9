import ArithFormula.Text.Basic
import ArithFormula.Decimal.Basic

/-!
# Decimal literals

A literal is an optional sign, a significand and an optional exponent. The
significand is digits with an optional point and optional further digits, or a
point and digits; the exponent is `e` or `E`, an optional sign and digits. Digits
are the ASCII ones. Nothing may follow, and there are no words: a text for an
infinity or for NaN is no literal.

A literal stands for the nearest binary number. One whose value is beyond the
finite numbers stands for nothing.
-/

namespace ArithFormula

/-- A signed decimal: the sign is kept apart so that zero has both. -/
structure Literal where
  negative : Bool
  magnitude : Decimal
deriving DecidableEq

namespace Literal

/-! ## The parts of a literal -/

/-- The sign at the head of a text (positive if none is written) and the rest. -/
def splitSign : Text → Bool × Text
  | '-' :: rest => (true, rest)
  | '+' :: rest => (false, rest)
  | text => (false, text)

/-- The leading digits of a text and the rest. -/
def splitDigits (text : Text) : Text × Text :=
  (text.takeWhile Char.isDigit, text.dropWhile Char.isDigit)

/-- Digits in front of anything but a digit are split off whole. -/
theorem splitDigits_append {digits : Text} (rest : Text)
    (hdigits : ∀ c ∈ digits, c.isDigit = true) (hrest : ∀ c ∈ rest.head?, c.isDigit = false) :
    splitDigits (digits ++ rest) = (digits, rest) := by
  have hstop : rest.takeWhile Char.isDigit = [] ∧ rest.dropWhile Char.isDigit = rest := by
    cases rest with
    | nil => exact ⟨rfl, rfl⟩
    | cons c rest =>
        have hc : c.isDigit = false := hrest c (by simp)
        simp [hc]
  rw [splitDigits, List.takeWhile_append_of_pos hdigits,
    List.dropWhile_append_of_pos hdigits, hstop.1, hstop.2, List.append_nil]

/-- The digits after a point at the head of a text, and the rest; no digits without a
point. -/
def splitFraction : Text → Text × Text
  | '.' :: rest => splitDigits rest
  | text => ([], text)

/-- The number that a text of digits writes. -/
def natOfDigits (digits : Text) : Nat := Nat.ofDigitChars 10 digits 0

/-- The integer that a whole text writes with an optional sign and at least one digit. -/
def signedInteger? (text : Text) : Option Int :=
  let (negative, digits) := splitSign text
  if digits ≠ [] ∧ digits.all Char.isDigit then
    some (if negative then -(natOfDigits digits : Int) else natOfDigits digits)
  else none

/-- The exponent that a whole text writes; zero if nothing is written. -/
def exponent? : Text → Option Int
  | [] => some 0
  | mark :: rest => if mark = 'e' ∨ mark = 'E' then signedInteger? rest else none

/-! ## Reading -/

/-- The literal that a whole text writes. -/
def ofText? (text : Text) : Option Literal :=
  let (negative, unsigned) := splitSign text
  let (whole, afterWhole) := splitDigits unsigned
  let (fraction, afterFraction) := splitFraction afterWhole
  if whole = [] ∧ fraction = [] then none
  else
    (exponent? afterFraction).map fun exponent =>
      ⟨negative, natOfDigits (whole ++ fraction), exponent - fraction.length⟩

/-- The finite number nearest to a literal; none if that is beyond the finite ones. -/
def value? (literal : Literal) : Option Binary64 :=
  literal.magnitude.nearest?.map (.finite literal.negative)

/-- The finite number that a whole text writes. -/
def read? (text : Text) : Option Binary64 := (ofText? text).bind value?

end Literal

end ArithFormula
