import ArithFormula.Decimal.Positional
import ArithFormula.Text.Blank

/-!
# The characters of number texts

The text of a number is written with digits, a minus sign and a point, or is one of
the words for NaN and the infinities. So it has no blanks, nothing in it can be taken
for a mark of a call, and the words are no literals.

## Main results

* `toText_no_mark`, `toText_no_blank` — a number is one parameter and its own trimmed
  text.
* `read?_toText_eq_none` — the words for NaN and the infinities are not read.
* `toText_inj` — different numbers have different texts.
-/

namespace ArithFormula

/-! ## Digits -/

theorem Text.isBlank_of_isDigit {c : Char} (h : c.isDigit = true) : Text.isBlank c = false := by
  have hrange : 48 ≤ c.toNat ∧ c.toNat ≤ 57 := by
    simpa [Char.isDigit, UInt32.le_iff_toNat_le] using h
  simp only [Text.isBlank, Text.blankRanges, List.any_cons, List.any_nil, Bool.or_false,
    Bool.or_eq_false_iff, Bool.and_eq_false_iff, decide_eq_false_iff_not]
  omega

theorem Text.no_mark_of_isDigit {c : Char} (h : c.isDigit = true) :
    c ≠ '(' ∧ c ≠ ')' ∧ c ≠ ',' := by
  refine ⟨?_, ?_, ?_⟩ <;>
    · intro hc
      subst hc
      revert h
      decide

/-! ## Numbers -/

namespace Decimal

theorem isDigit_or_point_of_mem_toText {d : Decimal} {c : Char} (h : c ∈ d.toText) :
    c.isDigit = true ∨ c = '.' := by
  unfold toText at h
  split at h
  · rcases List.mem_append.mp h with h | h
    · exact .inl (isDigit_of_mem_digitsText h)
    · exact .inl (isDigit_of_mem_zeros h)
  · rcases List.mem_append.mp h with h | h
    · exact .inl (isDigit_of_mem_digitsText h)
    · rcases List.mem_cons.mp h with h | h
      · exact .inr h
      · exact .inl (isDigit_of_mem_fractionText h)

theorem toText_ne_nil (d : Decimal) : d.toText ≠ [] := by
  unfold toText
  split <;> simp [digitsText_ne_nil]

end Decimal

namespace Binary64

/-- The characters of number texts beside digits. -/
def marks : List Char := ['-', '.', 'N', 'a', 'i', 'n', 'f']

theorem isDigit_or_mem_marks_of_mem_toText {x : Binary64} {c : Char} (h : c ∈ x.toText) :
    c.isDigit = true ∨ c ∈ marks := by
  cases x with
  | nan =>
      have hword : ∀ c ∈ toText .nan, c ∈ marks := Text.forall_mem_of_all (by decide)
      exact .inr (hword c h)
  | infinity negative =>
      have hword : ∀ c ∈ toText (.infinity negative), c ∈ marks := by
        cases negative <;> exact Text.forall_mem_of_all (by decide)
      exact .inr (hword c h)
  | finite negative magnitude =>
      rcases List.mem_append.mp h with h | h
      · cases negative <;> simp_all [Decimal.signText, marks]
      · cases Decimal.isDigit_or_point_of_mem_toText h with
        | inl hdigit => exact .inl hdigit
        | inr hpoint => exact .inr (hpoint ▸ by decide)

theorem toText_no_blank (x : Binary64) : ∀ c ∈ x.toText, Text.isBlank c = false := by
  have hmarks : ∀ c ∈ marks, Text.isBlank c = false := Text.forall_mem_of_all (by decide)
  intro c hc
  cases isDigit_or_mem_marks_of_mem_toText hc with
  | inl hdigit => exact Text.isBlank_of_isDigit hdigit
  | inr hmark => exact hmarks c hmark

theorem toText_no_mark (x : Binary64) : ∀ c ∈ x.toText, c ≠ '(' ∧ c ≠ ')' ∧ c ≠ ',' := by
  have hmarks : ∀ c ∈ marks, c ≠ '(' ∧ c ≠ ')' ∧ c ≠ ',' := Text.forall_mem_of_all (by decide)
  intro c hc
  cases isDigit_or_mem_marks_of_mem_toText hc with
  | inl hdigit => exact Text.no_mark_of_isDigit hdigit
  | inr hmark => exact hmarks c hmark

theorem toText_ne_nil (x : Binary64) : x.toText ≠ [] := by
  cases x with
  | nan => decide
  | infinity negative => cases negative <;> decide
  | finite negative magnitude => simp [toText, Decimal.toText_ne_nil]

/-- The words for NaN and the infinities are not read. -/
theorem read?_toText_eq_none {x : Binary64} (h : x.isFinite = false) :
    Literal.read? x.toText = none := by
  cases x with
  | nan => decide
  | infinity negative => cases negative <;> decide
  | finite negative magnitude => cases h

/-- The text of a finite number reads back as that number. -/
theorem read?_toText_of_isFinite {x : Binary64} (h : x.isFinite = true) :
    Literal.read? x.toText = some x := by
  cases x with
  | nan => cases h
  | infinity negative => cases h
  | finite negative magnitude => exact read?_toText negative magnitude

/-- The numbers that are written as words. -/
def words : List Binary64 := [.nan, .infinity false, .infinity true]

theorem mem_words {x : Binary64} (h : x.isFinite = false) : x ∈ words := by
  cases x with
  | nan => decide
  | infinity negative => cases negative <;> decide
  | finite negative magnitude => cases h

/-- What is written like a finite number is that number, since it reads back. -/
theorem eq_of_toText_eq {x y : Binary64} (hfinite : y.isFinite = true)
    (h : x.toText = y.toText) : x = y := by
  have hread := read?_toText_of_isFinite hfinite
  rw [← h] at hread
  cases hx : x.isFinite with
  | false =>
      rw [read?_toText_eq_none hx] at hread
      cases hread
  | true =>
      rw [read?_toText_of_isFinite hx] at hread
      exact Option.some.inj hread

/-- Different numbers have different texts. -/
theorem toText_inj {x y : Binary64} (h : x.toText = y.toText) : x = y := by
  have hwords : ∀ x ∈ words, ∀ y ∈ words, x.toText = y.toText → x = y := by decide
  cases hy : y.isFinite with
  | true => exact eq_of_toText_eq hy h
  | false =>
      cases hx : x.isFinite with
      | true => exact (eq_of_toText_eq hx h.symm).symm
      | false => exact hwords x (mem_words hx) y (mem_words hy) h

end Binary64

end ArithFormula
