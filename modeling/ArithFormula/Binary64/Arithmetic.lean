import ArithFormula.Binary64.Basic

/-!
# Arithmetic of binary floating-point numbers

Each operation is its exact result, as a quotient of units, rounded once to the
nearest number with ties to the even code. The sign of a zero and the infinities
follow IEEE 754: a product or quotient carries the product of the signs, a sum that
cancels is positive zero, and the operations without a value (the difference of
infinities, zero times infinity, zero by zero, infinity by infinity) are NaN.
-/

namespace ArithFormula.Binary64

/-! ## The four operations -/

/-- The sum. -/
def add : Binary64 → Binary64 → Binary64
  | .nan, _ => .nan
  | _, .nan => .nan
  | .infinity s, .infinity t => if s = t then .infinity s else .nan
  | .infinity s, .finite _ _ => .infinity s
  | .finite _ _, .infinity t => .infinity t
  | .finite s a, .finite t b =>
      let sum := signed s a.units + signed t b.units
      if sum = 0 then .finite (s && t) .zero
      else ofQuotient (decide (sum < 0)) sum.natAbs 1

/-- The difference: the sum with the opposite. -/
def sub (x y : Binary64) : Binary64 := add x (-y)

/-- The product. -/
def mul : Binary64 → Binary64 → Binary64
  | .nan, _ => .nan
  | _, .nan => .nan
  | .infinity s, .infinity t => .infinity (s ^^ t)
  | .infinity s, .finite t b => if b = .zero then .nan else .infinity (s ^^ t)
  | .finite s a, .infinity t => if a = .zero then .nan else .infinity (s ^^ t)
  | .finite s a, .finite t b => ofQuotient (s ^^ t) (a.units * b.units) unitsPerOne

/-- The quotient. -/
def div : Binary64 → Binary64 → Binary64
  | .nan, _ => .nan
  | _, .nan => .nan
  | .infinity _, .infinity _ => .nan
  | .infinity s, .finite t _ => .infinity (s ^^ t)
  | .finite s _, .infinity t => .finite (s ^^ t) .zero
  | .finite s a, .finite t b =>
      if b = .zero then
        if a = .zero then .nan else .infinity (s ^^ t)
      else ofQuotient (s ^^ t) (a.units * unitsPerOne) b.units

instance : Add Binary64 := ⟨add⟩
instance : Sub Binary64 := ⟨sub⟩
instance : Mul Binary64 := ⟨mul⟩
instance : Div Binary64 := ⟨div⟩

/-! ## Rounding to integers and to decimal places -/

/-- The nearest integer, with the sign of the number; NaN and the infinities stay. -/
def roundToInteger (mode : RoundingMode) : Binary64 → Binary64
  | .finite negative magnitude =>
      ofQuotient negative (roundQuotient mode magnitude.units unitsPerOne * unitsPerOne) 1
  | x => x

/-- The largest number of decimal places to which numbers are rounded: a number has no more
than about as many significant digits. -/
def maxRoundedPlaces : Nat := 15

/-- The least magnitude from which on every number is an integer, `2 ^ 52`. -/
def integerThreshold : Binary64 := ofNat (2 ^ 52)

/--
The number rounded to `places` decimal places.

The number is scaled by a power of ten, rounded to an integer and scaled back, each
step within the format. A scaled number that has no fractional digits left, or is not
finite, stays as it was before scaling; so does a number asked for more than
`maxRoundedPlaces` places. A zero result is positive.
-/
def roundToPlaces (mode : RoundingMode) (places : Nat) (x : Binary64) : Binary64 :=
  if maxRoundedPlaces < places then x
  else
    let scale := ofNat (10 ^ places)
    let scaled := x * scale
    if scaled.abs.less integerThreshold then
      let rounded := scaled.roundToInteger mode / scale
      if rounded.isZero then zero else rounded
    else x

end ArithFormula.Binary64
