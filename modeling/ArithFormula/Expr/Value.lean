import ArithFormula.Expr.Basic
import ArithFormula.Error

/-!
# The value of an expression

A divisor counts as zero if its magnitude is below the zero tolerance. A division
resolves and checks its divisor before its dividend; the other operators resolve
their parameters from left to right. The order shows only in which of two errors
would come first, and division by zero is the only one there is.

## Main results

* `value_call_eq_ok_iff` — a call has a value exactly if its parameters have values
  and the operator applies to them, whatever the order.
* `value_eq_plain` — a value that is found is the unguarded one.
-/

namespace ArithFormula

/-! ## Operators -/

/-- Whether a divisor counts as zero. Under a tolerance that is not positive, or is NaN,
none does. -/
def countsAsZero (zeroTolerance divisor : Binary64) : Bool := divisor.abs.less zeroTolerance

theorem countsAsZero_iff {zeroTolerance divisor : Binary64} :
    countsAsZero zeroTolerance divisor = true ↔ divisor.abs.less zeroTolerance = true := Iff.rfl

/-- The number that an operator gives, unless it divides by what counts as zero. -/
def Operator.apply (op : Operator) (zeroTolerance left right : Binary64) :
    Except EvalError Binary64 :=
  if op = .divide ∧ countsAsZero zeroTolerance right then .error .divisionByZero
  else .ok (op.plain left right)

theorem Operator.apply_eq_ok_iff {op : Operator} {zeroTolerance left right value : Binary64} :
    op.apply zeroTolerance left right = .ok value ↔
      ¬(op = .divide ∧ countsAsZero zeroTolerance right = true) ∧
        op.plain left right = value := by
  unfold apply
  split
  · next h => simp [h]
  · next h => simp only [h, not_false_eq_true, true_and, Except.ok.injEq]

/-! ## Expressions -/

namespace Expr

/-- The value of an expression under a zero tolerance. -/
def value (zeroTolerance : Binary64) : Expr → Except EvalError Binary64
  | .number value => .ok value
  | .call .divide left right => do
    let divisor ← right.value zeroTolerance
    if countsAsZero zeroTolerance divisor then throw .divisionByZero
    else
      let dividend ← left.value zeroTolerance
      return dividend / divisor
  | .call op left right => do
    let leftValue ← left.value zeroTolerance
    let rightValue ← right.value zeroTolerance
    op.apply zeroTolerance leftValue rightValue

/-- The value of an expression without any guard: every call is the operation of the format on the
values of its parameters. -/
def plain : Expr → Binary64
  | .number value => value
  | .call .add left right => left.plain + right.plain
  | .call .subtract left right => left.plain - right.plain
  | .call .multiply left right => left.plain * right.plain
  | .call .divide left right => left.plain / right.plain

theorem plain_call (op : Operator) (left right : Expr) :
    (call op left right).plain = op.plain left.plain right.plain := by
  cases op <;> rfl

/-- A division resolves its divisor and guards it, then resolves its dividend. -/
theorem value_divide (zeroTolerance : Binary64) (left right : Expr) :
    (call .divide left right).value zeroTolerance =
      (do
        let divisor ← right.value zeroTolerance
        if countsAsZero zeroTolerance divisor then throw .divisionByZero
        else
          let dividend ← left.value zeroTolerance
          return dividend / divisor) := rfl

/-- All other calls resolve their parameters from left to right. -/
theorem value_call_of_ne {op : Operator} (hop : op ≠ .divide) (zeroTolerance : Binary64)
    (left right : Expr) :
    (call op left right).value zeroTolerance =
      (do
        let leftValue ← left.value zeroTolerance
        let rightValue ← right.value zeroTolerance
        op.apply zeroTolerance leftValue rightValue) := by
  cases op with
  | divide => exact absurd rfl hop
  | _ => rfl

/-- A call has a value exactly if its parameters have values and the operator applies to
them. -/
theorem value_call_eq_ok_iff {zeroTolerance value : Binary64} {op : Operator}
    {left right : Expr} :
    (call op left right).value zeroTolerance = .ok value ↔
      ∃ x y, left.value zeroTolerance = .ok x ∧ right.value zeroTolerance = .ok y ∧
        op.apply zeroTolerance x y = .ok value := by
  by_cases hop : op = .divide
  · subst hop
    simp only [value_divide, bind_eq_ok_iff, Operator.apply_eq_ok_iff]
    constructor
    · intro h
      obtain ⟨y, hy, h⟩ := h
      split at h
      · cases h
      · next hzero =>
          obtain ⟨x, hx, h⟩ := bind_eq_ok_iff.mp h
          exact ⟨x, y, hx, hy, fun hboth => hzero hboth.2, return_eq_ok_iff.mp h⟩
    · intro h
      obtain ⟨x, y, hx, hy, hzero, h⟩ := h
      refine ⟨y, hy, ?_⟩
      rw [if_neg fun hcounts => hzero ⟨trivial, hcounts⟩]
      exact bind_eq_ok_iff.mpr ⟨x, hx, return_eq_ok_iff.mpr h⟩
  · simp only [value_call_of_ne hop, bind_eq_ok_iff]
    exact ⟨fun ⟨x, hx, y, hy, h⟩ => ⟨x, y, hx, hy, h⟩,
      fun ⟨x, y, hx, hy, h⟩ => ⟨x, hx, y, hy, h⟩⟩

/-- A value that is found is the unguarded one. -/
theorem value_eq_plain {zeroTolerance value : Binary64} {e : Expr}
    (h : e.value zeroTolerance = .ok value) : value = e.plain := by
  induction e generalizing value with
  | number x =>
      cases h
      rfl
  | call op left right ihLeft ihRight =>
      obtain ⟨x, y, hx, hy, happly⟩ := value_call_eq_ok_iff.mp h
      rw [plain_call, ← ihLeft hx, ← ihRight hy]
      exact (Operator.apply_eq_ok_iff.mp happly).2.symm

end Expr

end ArithFormula
