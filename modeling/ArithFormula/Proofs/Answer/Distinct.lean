import ArithFormula.Proofs.Answer.Results
import ArithFormula.Proofs.Error.Wording

/-!
# What an answer tells

An answer is a text, while behind it there is a number or an error. The text tells all of it:
two answers are the same text exactly if the results behind them are the same, numbers taken
numerically. The formulas and the settings may be different ones.

## Main results

* `Binary64.resultText_eq_iff` — numbers have the same text as results exactly if they are
  numerically equal.
* `Settings.answer_eq_answer_iff` — answers are the same exactly if the results are.
-/

namespace ArithFormula

/-! ## Texts of numbers -/

namespace Binary64

theorem signed_inj {negative negative' : Bool} {n k : Nat}
    (h : signed negative n = signed negative' k) : n = k ∧ (negative = negative' ∨ n = 0) := by
  unfold signed at h
  cases negative <;> cases negative' <;> simp at h ⊢ <;> omega

/-- Numbers have places of their own in the numeric order, negative zero aside. -/
theorem place?_inj {x y : Binary64} (hx : x ≠ .finite true .zero) (hy : y ≠ .finite true .zero)
    (h : x.place? = y.place?) : x = y := by
  match x, y with
  | .nan, y => exact (place?_eq_none_iff.mp h.symm).symm
  | .infinity _, .nan | .finite _ _, .nan => cases h
  | .infinity _, .infinity _ =>
      rw [(signed_inj (Option.some.inj h)).2.resolve_right (by decide)]
  | .infinity _, .finite _ m | .finite _ m, .infinity _ =>
      have hcode := (signed_inj (Option.some.inj h)).1
      have hlt := m.code_lt
      omega
  | .finite negative m, .finite negative' m' =>
      obtain ⟨hcode, hsign⟩ := signed_inj (Option.some.inj h)
      obtain rfl : m = m' := Magnitude.ext_code hcode
      cases hsign with
      | inl hsign => rw [hsign]
      | inr hzero =>
          obtain rfl : m = .zero := Magnitude.ext_code hzero
          cases negative with
          | true => exact absurd rfl hx
          | false =>
              cases negative' with
              | true => exact absurd rfl hy
              | false => rfl

/-- Numbers have the same text as results exactly if they are numerically equal. -/
theorem resultText_eq_iff {x y : Binary64} (hx : x ≠ .nan) :
    x.resultText = y.resultText ↔ x.numericEq y = true := by
  rw [resultText_eq, resultText_eq, numericEq_iff]
  constructor
  · intro htext
    have hplace : x.place? = y.place? := by
      rw [← place?_withoutNegativeZero x, toText_inj htext, place?_withoutNegativeZero]
    obtain ⟨a, ha⟩ := Option.ne_none_iff_exists'.mp fun hnone => hx (place?_eq_none_iff.mp hnone)
    exact ⟨a, ha, hplace ▸ ha⟩
  · rintro ⟨a, hxa, hya⟩
    have hplace : (withoutNegativeZero x).place? = (withoutNegativeZero y).place? := by
      rw [place?_withoutNegativeZero, place?_withoutNegativeZero, hxa, hya]
    rw [place?_inj (withoutNegativeZero_ne x) (withoutNegativeZero_ne y) hplace]

theorem resultText_ne_render (x : Binary64) (e : FormulaError) : x.resultText ≠ e.render := by
  rw [resultText_eq]
  exact (e.render_ne_toText _).symm

end Binary64

/-! ## Results -/

/-- Two results are the same: numbers that are numerically equal, or one and the same error,
which tells the same. -/
def SameResult : Except FormulaError Binary64 → Except FormulaError Binary64 → Prop
  | .ok x, .ok y => x.numericEq y = true
  | .error e, .error e' => e = e'
  | .ok _, .error _ | .error _, .ok _ => False

/-- Answers are the same exactly if the results are. -/
theorem Settings.answer_eq_answer_iff (settings settings' : Settings) (formula formula' : Text) :
    settings.answer formula = settings'.answer formula' ↔
      SameResult (settings.value formula) (settings'.value formula') := by
  cases h : settings.value formula with
  | ok x =>
      have hx : x ≠ .nan := by
        rintro rfl
        exact absurd (isFinite_of_value h) (by decide)
      rw [answer_of_value h]
      cases h' : settings'.value formula' with
      | ok y =>
          rw [answer_of_value h']
          exact Binary64.resultText_eq_iff hx
      | error e' =>
          rw [answer_of_error h']
          exact iff_of_false (Binary64.resultText_ne_render x e') id
  | error e =>
      rw [answer_of_error h]
      cases h' : settings'.value formula' with
      | ok y =>
          rw [answer_of_value h']
          exact iff_of_false (Binary64.resultText_ne_render y e).symm id
      | error e' =>
          rw [answer_of_error h']
          exact ⟨FormulaError.render_inj, congrArg FormulaError.render⟩

end ArithFormula
