import ArithFormula.Settings
import ArithFormula.Proofs.Expr.Divisors
import Mathlib.Control.Monad.Basic

/-!
# Overflow inside an expression

Only the value of a whole expression is asked to be finite, and yet little can go wrong unseen
inside it. NaN spoils every result it enters. An infinity stays an infinity or becomes NaN, with
one exception: a number divided by it is zero. So what is not finite reaches the value of the
expression, unless on its way up it meets a division as the divisor, and is an infinity there.

## Main results

* `Operator.isFinite_of_plain` — which operands a finite result leaves possible.
* `Expr.isFinite_or_divided_away` — what is not finite inside shows, or is divided by.
* `Settings.resolve_shows_overflow` — what follows for expressions and formulas.
-/

namespace ArithFormula

/-! ## One operation -/

namespace Binary64

theorem isFinite_of_isFinite_neg {x : Binary64} (h : (-x).isFinite = true) :
    x.isFinite = true := by
  cases x with
  | nan => exact h
  | infinity negative => exact h
  | finite negative m => rfl

theorem isFinite_of_isFinite_add {x y : Binary64} (h : (x + y).isFinite = true) :
    x.isFinite = true ∧ y.isFinite = true := by
  cases x with
  | nan => cases h
  | infinity s =>
      cases y with
      | infinity t =>
          change (if s = t then infinity s else nan).isFinite = true at h
          split at h <;> cases h
      | _ => cases h
  | finite s a =>
      cases y with
      | finite t b => exact ⟨rfl, rfl⟩
      | _ => cases h

theorem isFinite_of_isFinite_sub {x y : Binary64} (h : (x - y).isFinite = true) :
    x.isFinite = true ∧ y.isFinite = true := by
  have hsum := isFinite_of_isFinite_add (x := x) (y := -y) h
  exact ⟨hsum.1, isFinite_of_isFinite_neg hsum.2⟩

theorem isFinite_of_isFinite_mul {x y : Binary64} (h : (x * y).isFinite = true) :
    x.isFinite = true ∧ y.isFinite = true := by
  cases x with
  | nan => cases h
  | infinity s =>
      cases y with
      | finite t b =>
          change (if b = .zero then nan else infinity (s ^^ t)).isFinite = true at h
          split at h <;> cases h
      | _ => cases h
  | finite s a =>
      cases y with
      | nan => cases h
      | infinity t =>
          change (if a = .zero then nan else infinity (s ^^ t)).isFinite = true at h
          split at h <;> cases h
      | finite t b => exact ⟨rfl, rfl⟩

/-- A finite quotient has a finite dividend, and a divisor that is a number or an infinity. -/
theorem isFinite_of_isFinite_div {x y : Binary64} (h : (x / y).isFinite = true) :
    x.isFinite = true ∧ (y.isFinite = true ∨ ∃ negative, y = .infinity negative) := by
  cases x with
  | nan => cases h
  | infinity s => cases y <;> cases h
  | finite s a =>
      cases y with
      | nan => cases h
      | infinity t => exact ⟨rfl, .inr ⟨t, rfl⟩⟩
      | finite t b => exact ⟨rfl, .inl rfl⟩

end Binary64

/-- A finite result has finite operands, unless it is a quotient by an infinity. -/
theorem Operator.isFinite_of_plain {op : Operator} {x y : Binary64}
    (h : (op.plain x y).isFinite = true) :
    x.isFinite = true ∧
      (y.isFinite = true ∨ op = .divide ∧ ∃ negative, y = .infinity negative) := by
  cases op with
  | add =>
      have hboth := Binary64.isFinite_of_isFinite_add h
      exact ⟨hboth.1, .inl hboth.2⟩
  | subtract =>
      have hboth := Binary64.isFinite_of_isFinite_sub h
      exact ⟨hboth.1, .inl hboth.2⟩
  | multiply =>
      have hboth := Binary64.isFinite_of_isFinite_mul h
      exact ⟨hboth.1, .inl hboth.2⟩
  | divide =>
      have hboth := Binary64.isFinite_of_isFinite_div h
      exact ⟨hboth.1, hboth.2.imp_right fun hinfinite => ⟨rfl, hinfinite⟩⟩

/-- NaN spoils every result it enters. -/
theorem Operator.plain_eq_nan {op : Operator} {x y : Binary64} (h : x = .nan ∨ y = .nan) :
    op.plain x y = .nan := by
  cases h with
  | inl hx =>
      subst hx
      cases op <;> rfl
  | inr hy =>
      subst hy
      cases op <;> cases x <;> rfl

namespace Expr

/-! ## Parts -/

/-- If an expression has a value, so has every part of it. -/
theorem value_of_mem_parts {zeroTolerance value : Binary64} {e part : Expr}
    (h : e.value zeroTolerance = .ok value) (hpart : part ∈ e.parts) :
    part.value zeroTolerance = .ok part.plain := by
  induction e generalizing value with
  | number x =>
      have hself : part = number x := by simpa [parts] using hpart
      rw [hself, h, value_eq_plain h]
  | call op left right ihLeft ihRight =>
      obtain ⟨x, y, hx, hy, _⟩ := value_call_eq_ok_iff.mp h
      rcases mem_parts_call.mp hpart with hself | hleft | hright
      · rw [hself, h, value_eq_plain h]
      · exact ihLeft hx hleft
      · exact ihRight hy hright

/-- The parts that are not inside a divisor, in preorder. -/
def partsOutsideDivisors : Expr → List Expr
  | .number value => [.number value]
  | .call op left right =>
      .call op left right ::
        (left.partsOutsideDivisors ++ if op = .divide then [] else right.partsOutsideDivisors)

/-! ## What is not finite inside -/

/-- A part that is NaN makes the expression NaN. -/
theorem plain_eq_nan_of_mem_parts {e part : Expr} (hpart : part ∈ e.parts)
    (hnan : part.plain = .nan) : e.plain = .nan := by
  induction e with
  | number x =>
      have hself : part = number x := by simpa [parts] using hpart
      rw [← hself, hnan]
  | call op left right ihLeft ihRight =>
      rcases mem_parts_call.mp hpart with hself | hleft | hright
      · rw [← hself, hnan]
      · rw [plain_call]
        exact Operator.plain_eq_nan (.inl (ihLeft hleft))
      · rw [plain_call]
        exact Operator.plain_eq_nan (.inr (ihRight hright))

/-- A finite expression is finite outside its divisors. -/
theorem isFinite_of_mem_partsOutsideDivisors {e part : Expr} (h : e.plain.isFinite = true)
    (hpart : part ∈ e.partsOutsideDivisors) : part.plain.isFinite = true := by
  induction e with
  | number x =>
      have hself : part = number x := by simpa [partsOutsideDivisors] using hpart
      rw [hself, h]
  | call op left right ihLeft ihRight =>
      have hoperands := Operator.isFinite_of_plain (plain_call op left right ▸ h)
      rw [partsOutsideDivisors, List.mem_cons, List.mem_append] at hpart
      rcases hpart with hself | hleft | hright
      · rw [hself, h]
      · exact ihLeft hoperands.1 hleft
      · by_cases hop : op = .divide
        · rw [if_pos hop] at hright
          cases hright
        · rw [if_neg hop] at hright
          cases hoperands.2 with
          | inl hfinite => exact ihRight hfinite hright
          | inr hdivide => exact absurd hdivide.1 hop

/-- A part of a finite expression is finite itself, or stands inside a divisor whose value is an
infinity. -/
theorem isFinite_or_divided_away {e part : Expr} (h : e.plain.isFinite = true)
    (hpart : part ∈ e.parts) :
    part.plain.isFinite = true ∨
      ∃ left right, call .divide left right ∈ e.parts ∧ part ∈ right.parts ∧
        ∃ negative, right.plain = .infinity negative := by
  induction e with
  | number x =>
      have hself : part = number x := by simpa [parts] using hpart
      exact .inl (by rw [hself, h])
  | call op left right ihLeft ihRight =>
      have hoperands := Operator.isFinite_of_plain (plain_call op left right ▸ h)
      rcases mem_parts_call.mp hpart with hself | hleft | hright
      · exact .inl (by rw [hself, h])
      · rcases ihLeft hoperands.1 hleft with hfinite | ⟨l, r, hdivide, hinside⟩
        · exact .inl hfinite
        · exact .inr ⟨l, r, mem_parts_call.mpr (.inr (.inl hdivide)), hinside⟩
      · rcases hoperands.2 with hfinite | ⟨hop, hinfinite⟩
        · rcases ihRight hfinite hright with hfinite | ⟨l, r, hdivide, hinside⟩
          · exact .inl hfinite
          · exact .inr ⟨l, r, mem_parts_call.mpr (.inr (.inr hdivide)), hinside⟩
        · have hself := mem_parts_self (call op left right)
          rw [hop] at hself ⊢
          exact .inr ⟨left, right, hself, hright, hinfinite⟩

end Expr

/-! ## Resolving -/

namespace Settings

/-- An expression without divisions in which anything is not finite resolves to an error. -/
theorem resolve_of_no_division {settings : Settings} {e part : Expr}
    (hdivide : ∀ left right, .call .divide left right ∉ e.parts) (hpart : part ∈ e.parts)
    (hoverflow : part.plain.isFinite = false) :
    settings.resolve e = .error (.notFinite e.plain) := by
  have hvalue : e.value settings.zeroTolerance = .ok e.plain := by
    rw [Expr.value_eq_ite, if_neg]
    intro ⟨left, right, hmem, _⟩
    exact hdivide left right hmem
  have hroot : e.plain.isFinite = false := by
    rw [Bool.eq_false_iff]
    intro hfinite
    rcases Expr.isFinite_or_divided_away hfinite hpart with hpartFinite | hdivided
    · rw [hoverflow] at hpartFinite
      cases hpartFinite
    · obtain ⟨left, right, hmem, _⟩ := hdivided
      exact hdivide left right hmem
  rw [resolve, hvalue]
  show (if e.plain.isFinite then _ else _) = _
  rw [hroot]
  rfl

/-- If an expression is resolved, every part of it has a value, none of them is NaN, and those that
are infinities stand inside a divisor that is one; so all parts outside divisors are finite. An
expression without divisions is not resolved if any part of it is not finite, and a formula that
writes it has that error. -/
theorem resolve_shows_overflow (settings : Settings) (e : Expr) :
    (∀ value, settings.resolve e = .ok value →
      (∀ part ∈ e.parts, part.value settings.zeroTolerance = .ok part.plain ∧
        part.plain ≠ .nan ∧
        (part.plain.isFinite = true ∨
          ∃ left right, .call .divide left right ∈ e.parts ∧ part ∈ right.parts ∧
            ∃ negative, right.plain = .infinity negative)) ∧
      ∀ part ∈ e.partsOutsideDivisors, part.plain.isFinite = true) ∧
    ((∀ left right, .call .divide left right ∉ e.parts) →
      (∃ part ∈ e.parts, part.plain.isFinite = false) →
      settings.resolve e = .error (.notFinite e.plain) ∧
        ∀ formula, settings.parse formula = .ok e →
          settings.value formula = .error (.eval (.notFinite e.plain))) := by
  constructor
  · intro value h
    obtain ⟨hvalue, hfinite⟩ := resolve_eq_ok_iff.mp h
    rw [Expr.value_eq_plain hvalue] at hfinite
    constructor
    · intro part hpart
      refine ⟨Expr.value_of_mem_parts hvalue hpart, ?_,
        Expr.isFinite_or_divided_away hfinite hpart⟩
      intro hnan
      rw [Expr.plain_eq_nan_of_mem_parts hpart hnan] at hfinite
      cases hfinite
    · intro part hpart
      exact Expr.isFinite_of_mem_partsOutsideDivisors hfinite hpart
  · intro hdivide ⟨part, hpart, hoverflow⟩
    have herror := @resolve_of_no_division settings e part hdivide hpart hoverflow
    refine ⟨herror, ?_⟩
    intro formula hparse
    rw [value, hparse]
    show (settings.resolve e).mapError FormulaError.eval >>= _ = _
    rw [herror]
    rfl

/-- The product of two numbers whose product is no number of the format. -/
def squareOfHuge : Expr :=
  .call .multiply (.number (.ofNat (10 ^ 200))) (.number (.ofNat (10 ^ 200)))

/-- The statement for a quotient by an infinity, which is zero, and for the difference of two
infinities, which is NaN. -/
theorem resolve_shows_overflow_squareOfHuge :
    (standard.resolve (.call .divide (.number (.ofNat 1)) squareOfHuge) = .ok .zero ∧
      squareOfHuge.value standard.zeroTolerance = .ok (.infinity false) ∧
      ∀ part ∈ (Expr.call .divide (.number (.ofNat 1)) squareOfHuge).partsOutsideDivisors,
        part.plain.isFinite = true) ∧
    squareOfHuge.plain.isFinite = false ∧
    standard.resolve (.call .subtract squareOfHuge squareOfHuge) = .error (.notFinite .nan) ∧
    standard.value "subtract(multiply(1e200, 1e200), multiply(1e200, 1e200))".toList =
      .error (.eval (.notFinite .nan)) := by
  have hquotient : standard.resolve (.call .divide (.number (.ofNat 1)) squareOfHuge) =
      .ok .zero := by decide +kernel
  have hhidden := (resolve_shows_overflow standard _).1 .zero hquotient
  have hinfinite : squareOfHuge.plain = .infinity false := by decide +kernel
  have hnan : (Expr.call .subtract squareOfHuge squareOfHuge).plain = .nan := by decide +kernel
  have hparse : standard.parse
      "subtract(multiply(1e200, 1e200), multiply(1e200, 1e200))".toList =
        .ok (.call .subtract squareOfHuge squareOfHuge) := by decide +kernel
  have hshown := (resolve_shows_overflow standard (.call .subtract squareOfHuge squareOfHuge)).2
    (by simp [squareOfHuge, Expr.parts])
    ⟨squareOfHuge, by simp [Expr.parts, squareOfHuge], by rw [hinfinite]; rfl⟩
  rw [hnan] at hshown
  have hpart : squareOfHuge ∈ (Expr.call .divide (.number (.ofNat 1)) squareOfHuge).parts := by
    simp [Expr.parts, squareOfHuge]
  have hvalue := (hhidden.1 squareOfHuge hpart).1
  rw [hinfinite] at hvalue
  exact ⟨⟨hquotient, hvalue, hhidden.2⟩, by rw [hinfinite]; rfl, hshown.1, hshown.2 _ hparse⟩

end Settings

end ArithFormula
