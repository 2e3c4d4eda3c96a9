import ArithFormula.Proofs.Decimal.Overflow
import ArithFormula.Proofs.Decimal.Spelling
import ArithFormula.Proofs.Expr.Composition

/-!
# Texts without parentheses

Without parentheses a text is blank, a number or no formula at all, and no limit on nesting matters.
Which of the three it is depends on the trimmed text as a whole: it is a number if all of it spells
a literal, and the literal is not too large.

## Main results

* `Literal.read?_eq_some_iff_nearest`, `Literal.read?_eq_none_iff` — which texts are numbers, by
  their spelling and their exact value.
* `Expr.parse_of_no_paren` — what is read in a text without parentheses.
-/

namespace ArithFormula

/-! ## Numbers -/

namespace Literal

/-- A text is a number exactly if it spells a literal below the limit; the number is the nearest one
with the literal's sign. -/
theorem read?_eq_some_iff_nearest {text : Text} {x : Binary64} :
    read? text = some x ↔
      ∃ literal magnitude, Spells literal text ∧
        |literal.toRat| < (2 : ℚ) ^ 1024 - (2 : ℚ) ^ 970 ∧
        x = .finite literal.negative magnitude ∧ Binary64.IsNearestTo literal.toRat x := by
  simp only [read?, Option.bind_eq_some_iff, ofText?_eq_some_iff, value?_eq_some_iff]
  constructor
  · rintro ⟨literal, hspells, hlimit, magnitude, hx, hnearest⟩
    exact ⟨literal, magnitude, hspells, hlimit, hx, hnearest⟩
  · rintro ⟨literal, magnitude, hspells, hlimit, hx, hnearest⟩
    exact ⟨literal, hspells, hlimit, magnitude, hx, hnearest⟩

/-- A text is no number exactly if every literal that it spells is beyond the limit. -/
theorem read?_eq_none_iff {text : Text} :
    read? text = none ↔
      ∀ literal, Spells literal text → (2 : ℚ) ^ 1024 - (2 : ℚ) ^ 970 ≤ |literal.toRat| := by
  simp only [read?, Option.bind_eq_none_iff, ofText?_eq_some_iff, value?_eq_none_iff]

end Literal

namespace Expr

/-! ## Texts without parentheses -/

/-- Without parentheses the outline of a text is all there is to read. -/
theorem parse_eq_of_no_paren (limit : Option Nat) {text : Text} (hopen : '(' ∉ text)
    (hclose : ')' ∉ text) :
    parse limit text =
      if Text.Blank text then .error .blank
      else match Literal.read? (Text.trim text) with
        | some value => .ok (.number value)
        | none => .error (.notANumber (Text.trim text)) := by
  rw [parse, parseAt_eq, Outline.read_of_no_paren hopen hclose]
  by_cases hblank : Text.Blank text
  · rw [if_pos (Text.trim_eq_nil_iff.mpr hblank), if_pos hblank]
  · rw [if_neg (mt Text.trim_eq_nil_iff.mp hblank), if_neg hblank]
    cases Literal.read? (Text.trim text) <;> rfl

/-- What is read in a text without parentheses: an error for blank text, a number for a literal
below the limit, an error for everything else. The last part names texts that are no literals by one
character of theirs: words, literals with more text behind them, lists. -/
theorem parse_of_no_paren (limit : Option Nat) {text : Text} (hopen : '(' ∉ text)
    (hclose : ')' ∉ text) :
    (parse limit text = .error .blank ↔ Text.Blank text) ∧
      (∀ e, parse limit text = .ok e ↔
        ∃ literal magnitude, Literal.Spells literal (Text.trim text) ∧
          |literal.toRat| < (2 : ℚ) ^ 1024 - (2 : ℚ) ^ 970 ∧
          Binary64.IsNearestTo literal.toRat (.finite literal.negative magnitude) ∧
          e = .number (.finite literal.negative magnitude)) ∧
      (∀ error, error ≠ .blank →
        (parse limit text = .error error ↔
          error = .notANumber (Text.trim text) ∧ ¬Text.Blank text ∧
            ∀ literal, Literal.Spells literal (Text.trim text) →
              (2 : ℚ) ^ 1024 - (2 : ℚ) ^ 970 ≤ |literal.toRat|)) ∧
      ∀ c ∈ Text.trim text, c.isDigit = false → c ∉ Literal.marks →
        parse limit text = .error (.notANumber (Text.trim text)) := by
  have hparse := parse_eq_of_no_paren limit hopen hclose
  have hnil : Text.Blank text → Literal.read? (Text.trim text) = none := by
    intro hblank
    rw [Text.trim_eq_nil_iff.mpr hblank]
    decide
  refine ⟨?blank, ?number, ?other, ?character⟩
  case blank =>
      rw [hparse]
      split
      · next hblank => exact ⟨fun _ => hblank, fun _ => rfl⟩
      · next hblank => cases Literal.read? (Text.trim text) <;> simp [hblank]
  case number =>
      intro e
      have hread : parse limit text = .ok e ↔
          ∃ value, Literal.read? (Text.trim text) = some value ∧ e = .number value := by
        rw [hparse]
        split
        · next hblank => simp [hnil hblank]
        · cases Literal.read? (Text.trim text) <;> simp [eq_comm]
      rw [hread]
      constructor
      · rintro ⟨value, hvalue, rfl⟩
        obtain ⟨literal, magnitude, hspells, hlimit, rfl, hnearest⟩ :=
          Literal.read?_eq_some_iff_nearest.mp hvalue
        exact ⟨literal, magnitude, hspells, hlimit, hnearest, rfl⟩
      · rintro ⟨literal, magnitude, hspells, hlimit, hnearest, rfl⟩
        have hvalue := Literal.read?_eq_some_iff_nearest.mpr
          ⟨literal, magnitude, hspells, hlimit, rfl, hnearest⟩
        exact ⟨_, hvalue, rfl⟩
  case other =>
      intro error hne
      rw [hparse, ← Literal.read?_eq_none_iff]
      split
      · next hblank => simp [hblank, hne.symm]
      · next hblank => cases Literal.read? (Text.trim text) <;> simp [hblank, eq_comm]
  case character =>
      intro c hc hdigit hmark
      have hblank : ¬Text.Blank text := by
        intro hblank
        rw [Text.trim_eq_nil_iff.mpr hblank] at hc
        cases hc
      rw [hparse, if_neg hblank, Literal.read?_eq_none_of_mem hc hdigit hmark]

/-- The statement on both sides of the limit, where no call is allowed. -/
theorem parse_of_no_paren_atLimit :
    '(' ∉ " -1.7976931348623158e308".toList ∧ ')' ∉ " -1.7976931348623158e308".toList ∧
      parse (some 0) " -1.7976931348623158e308".toList =
        .ok (.number (.finite true ⟨overflowCode - 1, by decide⟩)) ∧
      (∃ literal, Literal.Spells literal "-1.7976931348623158e308".toList ∧
        |literal.toRat| < (2 : ℚ) ^ 1024 - (2 : ℚ) ^ 970) ∧
      parse (some 0) "1.7976931348623159e308".toList =
        .error (.notANumber "1.7976931348623159e308".toList) ∧
      (∀ literal, Literal.Spells literal "1.7976931348623159e308".toList →
        (2 : ℚ) ^ 1024 - (2 : ℚ) ^ 970 ≤ |literal.toRat|) ∧
      parse (some 0) "-inf".toList = .error (.notANumber "-inf".toList) := by
  have hopen : '(' ∉ " -1.7976931348623158e308".toList := by decide
  have hclose : ')' ∉ " -1.7976931348623158e308".toList := by decide
  have hnumber : parse (some 0) " -1.7976931348623158e308".toList =
      .ok (.number (.finite true ⟨overflowCode - 1, by decide⟩)) := by decide +kernel
  have herror : parse (some 0) "1.7976931348623159e308".toList =
      .error (.notANumber "1.7976931348623159e308".toList) := by decide +kernel
  obtain ⟨_, hbelow, _, _⟩ := parse_of_no_paren (some 0) hopen hclose
  obtain ⟨_, _, habove, _⟩ :=
    @parse_of_no_paren (some 0) "1.7976931348623159e308".toList (by decide) (by decide)
  obtain ⟨_, _, _, hword⟩ := @parse_of_no_paren (some 0) "-inf".toList (by decide) (by decide)
  obtain ⟨literal, _, hspells, hlimit, _, _⟩ := (hbelow _).mp hnumber
  obtain ⟨_, _, hbeyond⟩ := (habove _ (by decide)).mp herror
  exact ⟨hopen, hclose, hnumber, ⟨literal, hspells, hlimit⟩, herror, hbeyond,
    hword 'i' (by decide) (by decide) (by decide)⟩

end Expr

end ArithFormula
