import ArithFormula.Decimal.Basic

/-!
# The shortest decimal that reads back

Among the decimals whose nearest magnitude is a given one, the shortest has the
largest exponent: it lies on the coarsest grid of powers of ten. On each grid only
the two neighbours of the exact value are worth trying, the nearer one first; of
two equally near ones the larger comes first. The search ends on the finest grid at
the latest, on which every magnitude lies exactly.

## Main results

* `nearest?_shortest` — the shortest decimal reads back as the magnitude.
-/

namespace ArithFormula.Decimal

/-! ## Grids -/

/-- The exponent of a grid, counted up from the finest one. -/
def gridExponent (grid : Nat) : Int := grid - unitExponent

/-- The two neighbours of a magnitude on a grid, the nearer one first. -/
def neighbours (m : Magnitude) (grid : Nat) : List Decimal :=
  let exponent := gridExponent grid
  let num := m.units * 10 ^ (-exponent).toNat
  let den := unitsPerOne * 10 ^ exponent.toNat
  let below := num / den
  if roundQuotient .halfAwayFromZero num den = below then
    [⟨below, exponent⟩, ⟨below + 1, exponent⟩]
  else [⟨below + 1, exponent⟩, ⟨below, exponent⟩]

/-- The decimal on the finest grid that is exactly a magnitude: a unit is
`5 ^ unitExponent` steps of that grid. -/
def exact (m : Magnitude) : Decimal := ⟨m.units * 5 ^ unitExponent, gridExponent 0⟩

theorem nearest?_exact (m : Magnitude) : (exact m).nearest? = some m := by
  have hnum : (exact m).numerator = m.units * (exact m).denominator := by
    simp only [numerator, denominator, exact, gridExponent, unitsPerOne]
    rw [show (((0 : Nat) : Int) - unitExponent).toNat = 0 by omega,
      show (-(((0 : Nat) : Int) - unitExponent)).toNat = unitExponent by omega, Nat.pow_zero,
      Nat.mul_one, Nat.mul_assoc, ← Nat.mul_pow]
  rw [nearest?_eq, hnum, Magnitude.nearest?_units m (exact m).denominator_pos]

/-! ## The search -/

/-- The first neighbour that reads back, from a grid downwards. -/
def shortestFrom (m : Magnitude) : Nat → Decimal
  | 0 => exact m
  | grid + 1 =>
      match (neighbours m (grid + 1)).find? fun d => d.nearest? = some m with
      | some d => d
      | none => shortestFrom m grid

/-- A grid whose step is above the magnitude: its exponent is the number of digits of the
integer part. -/
def coarsestGrid (m : Magnitude) : Nat :=
  unitExponent + (Nat.toDigits 10 (m.units / unitsPerOne)).length

/-- The shortest decimal that reads back as a magnitude. -/
def shortest (m : Magnitude) : Decimal :=
  if m = .zero then ⟨0, 0⟩ else shortestFrom m (coarsestGrid m)

theorem nearest?_shortestFrom (m : Magnitude) (grid : Nat) :
    (shortestFrom m grid).nearest? = some m := by
  induction grid with
  | zero => exact nearest?_exact m
  | succ grid ih =>
      rw [shortestFrom]
      cases h : (neighbours m (grid + 1)).find? fun d => d.nearest? = some m with
      | some d =>
          have hd := List.find?_some h
          exact of_decide_eq_true hd
      | none => exact ih

/-- The shortest decimal reads back as the magnitude. -/
theorem nearest?_shortest (m : Magnitude) : (shortest m).nearest? = some m := by
  by_cases h : m = .zero
  · rw [shortest, if_pos h, h, nearest?, if_pos rfl]
  · rw [shortest, if_neg h]
    exact nearest?_shortestFrom m _

end ArithFormula.Decimal
