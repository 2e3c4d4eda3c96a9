import ArithFormula.Text.Basic
import ArithFormula.Binary64.Arithmetic

/-!
# Operators

A formula may call four functions, each of two parameters. A function is called by
its keyword, and keywords are compared character by character: case matters.

## Main results

* `ofKeyword?_eq_some_iff` — the lookup finds an operator exactly under its keyword.
* `keyword_injective` — different operators have different keywords.
-/

namespace ArithFormula

/-- What a call computes from its two parameters. -/
inductive Operator where
  | add
  | subtract
  | multiply
  | divide
deriving DecidableEq

namespace Operator

/-! ## The table of functions -/

/-- Every operator, in the order of the table. -/
def all : List Operator := [.add, .subtract, .multiply, .divide]

/-- The name under which an operator is called. -/
def keyword : Operator → Text
  | .add => "add".toList
  | .subtract => "subtract".toList
  | .multiply => "multiply".toList
  | .divide => "divide".toList

/-- The number of parameters that an operator takes. -/
def arity (_ : Operator) : Nat := 2

/-- The operator with a given keyword. -/
def ofKeyword? (name : Text) : Option Operator := all.find? fun op => op.keyword = name

theorem mem_all (op : Operator) : op ∈ all := by cases op <;> decide

/-- Different operators have different keywords. -/
theorem keyword_injective {op op' : Operator} (h : op.keyword = op'.keyword) : op = op' := by
  revert h
  cases op <;> cases op' <;> decide

/-- The lookup finds an operator exactly under its keyword. -/
theorem ofKeyword?_eq_some_iff {name : Text} {op : Operator} :
    ofKeyword? name = some op ↔ name = op.keyword := by
  constructor
  · intro h
    have hfound := List.find?_some h
    exact (of_decide_eq_true hfound).symm
  · rintro rfl
    cases op <;> decide

theorem ofKeyword?_eq_none_iff {name : Text} :
    ofKeyword? name = none ↔ ∀ op : Operator, name ≠ op.keyword := by
  rw [ofKeyword?, List.find?_eq_none]
  constructor
  · intro h op hname
    exact h op (mem_all op) (decide_eq_true hname.symm)
  · intro h op _ hname
    exact h op (of_decide_eq_true hname).symm

/-! ## Computing -/

/-- The number that an operator gives without any guard. -/
def plain : Operator → Binary64 → Binary64 → Binary64
  | .add, x, y => x + y
  | .subtract, x, y => x - y
  | .multiply, x, y => x * y
  | .divide, x, y => x / y

end Operator

end ArithFormula
