import ArithFormula.Expr.Value

/-!
# Divisors that count as zero

An expression divides by zero if some division in it, however deep and on whichever side of
other calls, has a divisor whose unguarded value is less than the zero tolerance, its sign apart.
That is a property of the expression alone: it mentions no guard, and it does not say in which
order parameters are resolved, or which of them are resolved at all.

The value of an expression is decided by it. Up to the first such divisor the guarded values are
the unguarded ones, so a guard that fires in a run is at a divisor of this kind, and a run in which
none fires has met every division. The order of the run does not matter, since there is one error
only: resolving every call from left to right gives the same.

## Main results

* `dividesByZero_call` — a call divides by zero itself or in one of its parameters.
* `value_eq_ite`, `valueInOrder_eq_ite` — both orders find the unguarded value, unless the
  expression divides by zero.
* `value_guards_every_division` — the two together.
-/

namespace ArithFormula.Expr

/-! ## Divisions in an expression -/

/-- An expression and all expressions in it, in preorder. -/
def parts : Expr → List Expr
  | .number value => [.number value]
  | .call op left right => .call op left right :: (left.parts ++ right.parts)

theorem mem_parts_self (e : Expr) : e ∈ e.parts := by
  cases e <;> simp [parts]

theorem mem_parts_call {part : Expr} {op : Operator} {left right : Expr} :
    part ∈ (call op left right).parts ↔
      part = call op left right ∨ part ∈ left.parts ∨ part ∈ right.parts := by
  rw [parts, List.mem_cons, List.mem_append]

/-- Some division in the expression has a divisor whose unguarded value is, in magnitude, less than
the zero tolerance. -/
def DividesByZero (zeroTolerance : Binary64) (e : Expr) : Prop :=
  ∃ left right, call .divide left right ∈ e.parts ∧ right.plain.abs.less zeroTolerance = true

theorem not_dividesByZero_number (zeroTolerance value : Binary64) :
    ¬(number value).DividesByZero zeroTolerance := by
  simp [DividesByZero, parts]

/-- A call divides by zero itself or in one of its parameters. -/
theorem dividesByZero_call {zeroTolerance : Binary64} {op : Operator} {left right : Expr} :
    (call op left right).DividesByZero zeroTolerance ↔
      (op = .divide ∧ right.plain.abs.less zeroTolerance = true) ∨
        left.DividesByZero zeroTolerance ∨ right.DividesByZero zeroTolerance := by
  constructor
  · intro ⟨l, r, hmem, hbelow⟩
    rw [mem_parts_call] at hmem
    rcases hmem with hself | hleft | hright
    · injection hself with hop hl hr
      exact .inl ⟨hop.symm, hr ▸ hbelow⟩
    · exact .inr (.inl ⟨l, r, hleft, hbelow⟩)
    · exact .inr (.inr ⟨l, r, hright, hbelow⟩)
  · intro h
    rcases h with ⟨rfl, hbelow⟩ | ⟨l, r, hmem, hbelow⟩ | ⟨l, r, hmem, hbelow⟩
    · exact ⟨left, right, by simp [parts], hbelow⟩
    · exact ⟨l, r, by simp [parts, hmem], hbelow⟩
    · exact ⟨l, r, by simp [parts, hmem], hbelow⟩

instance decidableDividesByZero (zeroTolerance : Binary64) :
    (e : Expr) → Decidable (e.DividesByZero zeroTolerance)
  | .number value => isFalse (not_dividesByZero_number zeroTolerance value)
  | .call _ left right =>
      have := decidableDividesByZero zeroTolerance left
      have := decidableDividesByZero zeroTolerance right
      decidable_of_iff _ dividesByZero_call.symm

/-! ## From left to right -/

/-- The value of an expression if the parameters of every call, divisions included, are
resolved from left to right and the guard is left to the operator. -/
def valueInOrder (zeroTolerance : Binary64) : Expr → Except EvalError Binary64
  | .number value => .ok value
  | .call op left right => do
    let leftValue ← left.valueInOrder zeroTolerance
    let rightValue ← right.valueInOrder zeroTolerance
    op.apply zeroTolerance leftValue rightValue

/-! ## Both orders -/

/-- A call that fails if a parameter divides by zero, and else applies its operator to the
unguarded values, fails exactly if it divides by zero. Which parameter comes first does not
enter. -/
theorem eq_ite_of_guarded {zeroTolerance : Binary64} {op : Operator} {left right : Expr}
    {result : Except EvalError Binary64}
    (hleft : left.DividesByZero zeroTolerance → result = .error .divisionByZero)
    (hright : right.DividesByZero zeroTolerance → result = .error .divisionByZero)
    (hself : ¬left.DividesByZero zeroTolerance → ¬right.DividesByZero zeroTolerance →
      result = op.apply zeroTolerance left.plain right.plain) :
    result = if (call op left right).DividesByZero zeroTolerance then .error .divisionByZero
      else .ok (call op left right).plain := by
  by_cases hl : left.DividesByZero zeroTolerance
  · rw [hleft hl, if_pos (dividesByZero_call.mpr (.inr (.inl hl)))]
  · by_cases hr : right.DividesByZero zeroTolerance
    · rw [hright hr, if_pos (dividesByZero_call.mpr (.inr (.inr hr)))]
    · rw [hself hl hr, Operator.apply]
      simp only [dividesByZero_call, hl, hr, or_false, countsAsZero_iff, plain_call]

/-- Resolving from left to right finds the unguarded value, unless the expression divides by
zero. -/
theorem valueInOrder_eq_ite (zeroTolerance : Binary64) (e : Expr) :
    e.valueInOrder zeroTolerance =
      if e.DividesByZero zeroTolerance then .error .divisionByZero else .ok e.plain := by
  induction e with
  | number value =>
      rw [if_neg (not_dividesByZero_number zeroTolerance value)]
      rfl
  | call op left right ihLeft ihRight =>
      apply eq_ite_of_guarded
      · intro hl
        rw [valueInOrder, ihLeft, if_pos hl]
        rfl
      · intro hr
        rw [valueInOrder, ihLeft, ihRight, if_pos hr]
        split <;> rfl
      · intro hl hr
        rw [valueInOrder, ihLeft, ihRight, if_neg hl, if_neg hr]
        rfl

/-- The value that is found is the unguarded one, unless the expression divides by zero. -/
theorem value_eq_ite (zeroTolerance : Binary64) (e : Expr) :
    e.value zeroTolerance =
      if e.DividesByZero zeroTolerance then .error .divisionByZero else .ok e.plain := by
  induction e with
  | number value =>
      rw [if_neg (not_dividesByZero_number zeroTolerance value)]
      rfl
  | call op left right ihLeft ihRight =>
      by_cases hop : op = .divide
      · subst hop
        -- The divisor comes first here, so its error hides the dividend's.
        rw [value_divide, ihLeft, ihRight]
        apply eq_ite_of_guarded
        · intro hl
          rw [if_pos hl]
          split
          · rfl
          · show (if countsAsZero zeroTolerance right.plain then _ else _) = _
            split <;> rfl
        · intro hr
          rw [if_pos hr]
          rfl
        · intro hl hr
          rw [if_neg hl, if_neg hr, Operator.apply]
          show (if countsAsZero zeroTolerance right.plain then _ else _) = _
          simp only [true_and]
          rfl
      · rw [value_call_of_ne hop, ihLeft, ihRight]
        apply eq_ite_of_guarded
        · intro hl
          rw [if_pos hl]
          rfl
        · intro hr
          rw [if_pos hr]
          split <;> rfl
        · intro hl hr
          rw [if_neg hl, if_neg hr]
          rfl

/-- An expression fails exactly if some division in it has a divisor whose unguarded value is, in
magnitude, less than the zero tolerance; otherwise its value is the unguarded one. That a division
resolves its divisor first makes no difference to resolving every call from left to right. -/
theorem value_guards_every_division (zeroTolerance : Binary64) (e : Expr) :
    (e.value zeroTolerance =
        if e.DividesByZero zeroTolerance then .error .divisionByZero else .ok e.plain) ∧
      e.value zeroTolerance = e.valueInOrder zeroTolerance := by
  refine ⟨value_eq_ite zeroTolerance e, ?_⟩
  rw [value_eq_ite, valueInOrder_eq_ite]

/-- The expression `(1 + 3 / (2 - 2)) / 2`. -/
def zeroInDividend : Expr :=
  .call .divide
    (.call .add (.number (.ofNat 1))
      (.call .divide (.number (.ofNat 3))
        (.call .subtract (.number (.ofNat 2)) (.number (.ofNat 2)))))
    (.number (.ofNat 2))

/-- The statement for a guard that fires inside a dividend, and for the same expression where no
guard does, under a NaN tolerance. The outer divisor is sound in both cases. -/
theorem value_guards_every_division_zeroInDividend :
    (zeroInDividend.DividesByZero .epsilon ∧
      zeroInDividend.value .epsilon = .error .divisionByZero ∧
      zeroInDividend.valueInOrder .epsilon = .error .divisionByZero) ∧
    ¬zeroInDividend.DividesByZero .nan ∧
      zeroInDividend.value .nan = .ok (.infinity false) ∧
      zeroInDividend.valueInOrder .nan = .ok (.infinity false) := by
  have hzero : zeroInDividend.DividesByZero .epsilon := by decide +kernel
  have hnone : ¬zeroInDividend.DividesByZero .nan := by decide +kernel
  have hplain : zeroInDividend.plain = .infinity false := by decide +kernel
  obtain ⟨herror, herrorInOrder⟩ := value_guards_every_division .epsilon zeroInDividend
  obtain ⟨hvalue, hvalueInOrder⟩ := value_guards_every_division .nan zeroInDividend
  rw [if_pos hzero] at herror
  rw [if_neg hnone, hplain] at hvalue
  exact ⟨⟨hzero, herror, herrorInOrder.symm.trans herror⟩, hnone, hvalue,
    hvalueInOrder.symm.trans hvalue⟩

end ArithFormula.Expr
