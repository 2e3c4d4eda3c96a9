import ArithFormula.Operator
import ArithFormula.Decimal.Positional

/-!
# Expressions

An expression is a number or a call of an operator on two expressions. Its canonical
text is the call form that is read back: the keyword, then the two parameters in
parentheses, a comma and one space between them.
-/

namespace ArithFormula

/-- A formula as a tree. -/
inductive Expr where
  | number (value : Binary64)
  | call (operator : Operator) (left right : Expr)
deriving DecidableEq

namespace Expr

/-! ## Depth -/

/-- The number of calls around the innermost number. -/
def depth : Expr → Nat
  | .number _ => 0
  | .call _ left right => 1 + max left.depth right.depth

/-! ## Numeric equality -/

/-- Whether two expressions have the same shape and operators and numerically equal numbers.
So an expression with a NaN is not equal to itself, and the zeros are equal. -/
def numericEq : Expr → Expr → Bool
  | .number x, .number y => x.numericEq y
  | .call op left right, .call op' left' right' =>
      op == op' && left.numericEq left' && right.numericEq right'
  | _, _ => false

/-! ## Canonical text -/

/-- The canonical text of an expression. -/
def toText : Expr → Text
  | .number value => value.toText
  | .call op left right =>
      op.keyword ++ '(' :: left.toText ++ ',' :: ' ' :: right.toText ++ [')']

end Expr

end ArithFormula
