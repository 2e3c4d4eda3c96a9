import ArithFormula.Decimal.Positional
import ArithFormula.Text.Basic

/-!
# The places of a number text

How many digits stand after the point of a text, and which integer its digits write when
they are counted in a given decimal place, are questions about the text alone. For the
text of a finite number the answers say how far the number is from being exact: it is the
number nearest to that integer of places.

## Main results

* `Decimal.fractionLength_toText`, `Decimal.natOfDigits_toText` — the text of a decimal
  shows its exponent and its digits.
* `Binary64.nearestCode_writtenAt` — a number is nearest to what its text writes.
-/

namespace ArithFormula

/-! ## Texts with a point -/

namespace Text

/-- The number of characters after the first point of a text; none without a point. -/
def fractionLength (text : Text) : Nat :=
  match cutFirst '.' text with
  | some (_, fraction) => fraction.length
  | none => 0

/-- The integer that the digits of a text write, counted in the given decimal place. The text
is meant to have no more digits after its point. -/
def writtenAt (places : Nat) (text : Text) : Nat :=
  Literal.natOfDigits (text.filter Char.isDigit) * 10 ^ (places - fractionLength text)

theorem fractionLength_of_no_point {text : Text} (h : '.' ∉ text) : fractionLength text = 0 := by
  rw [fractionLength, cutFirst_eq_none_iff.mpr h]

theorem fractionLength_append {whole : Text} (h : '.' ∉ whole) (fraction : Text) :
    fractionLength (whole ++ '.' :: fraction) = fraction.length := by
  rw [fractionLength, cutFirst_append h]

theorem filter_isDigit_eq_self {digits : Text} (h : ∀ c ∈ digits, c.isDigit = true) :
    digits.filter Char.isDigit = digits := List.filter_eq_self.mpr h

theorem no_point_of_digits {digits : Text} (h : ∀ c ∈ digits, c.isDigit = true) :
    '.' ∉ digits := by
  intro hmem
  have hpoint := h '.' hmem
  revert hpoint
  decide

end Text

/-! ## Texts of decimals -/

namespace Decimal

theorem signText_no_point (negative : Bool) : '.' ∉ signText negative := by
  cases negative <;> decide

theorem filter_isDigit_signText (negative : Bool) :
    (signText negative).filter Char.isDigit = [] := by
  cases negative <;> decide

/-- The digits after the point are as many as the exponent says. -/
theorem fractionLength_toText (negative : Bool) (d : Decimal) :
    Text.fractionLength (signText negative ++ d.toText) = (-d.spelled.exponent).toNat := by
  have hsign := signText_no_point negative
  unfold toText spelled
  by_cases hexp : 0 ≤ d.exponent
  · rw [if_pos hexp, if_pos hexp]
    refine Text.fractionLength_of_no_point ?_
    have hdigits : '.' ∉ digitsText d.digits :=
      Text.no_point_of_digits fun _ => isDigit_of_mem_digitsText
    have hzeros : '.' ∉ List.replicate d.exponent.toNat '0' :=
      Text.no_point_of_digits fun _ => isDigit_of_mem_zeros
    simp [hsign, hdigits, hzeros]
  · rw [if_neg hexp, if_neg hexp]
    dsimp only
    have hplaces : 0 < (-d.exponent).toNat := by omega
    have hwhole : '.' ∉ digitsText (d.digits / 10 ^ (-d.exponent).toNat) :=
      Text.no_point_of_digits fun _ => isDigit_of_mem_digitsText
    rw [← List.append_assoc, Text.fractionLength_append (by simp [hsign, hwhole])]
    exact length_fractionText hplaces (Nat.mod_lt _ (Nat.pow_pos (by decide)))

/-- The digits of the text are those of the decimal. -/
theorem natOfDigits_toText (negative : Bool) (d : Decimal) :
    Literal.natOfDigits ((signText negative ++ d.toText).filter Char.isDigit) =
      d.spelled.digits := by
  rw [List.filter_append, filter_isDigit_signText, List.nil_append]
  unfold toText spelled
  by_cases hexp : 0 ≤ d.exponent
  · rw [if_pos hexp, if_pos hexp, List.filter_append,
      Text.filter_isDigit_eq_self fun _ => isDigit_of_mem_digitsText,
      Text.filter_isDigit_eq_self fun _ => isDigit_of_mem_zeros]
    exact natOfDigits_append_zeros _ _
  · rw [if_neg hexp, if_neg hexp]
    dsimp only
    have hplaces : 0 < (-d.exponent).toNat := by omega
    have hlt : d.digits % 10 ^ (-d.exponent).toNat < 10 ^ (-d.exponent).toNat :=
      Nat.mod_lt _ (Nat.pow_pos (by decide))
    rw [List.filter_append, List.filter_cons_of_neg (by decide),
      Text.filter_isDigit_eq_self fun _ => isDigit_of_mem_digitsText,
      Text.filter_isDigit_eq_self fun _ => isDigit_of_mem_fractionText,
      natOfDigits_append_fraction _ hplaces hlt, Nat.mul_comm]
    exact Nat.div_add_mod _ _

theorem spelled_exponent_le (d : Decimal) : d.spelled.exponent ≤ 0 := by
  unfold spelled
  split
  · exact Int.le_refl 0
  · omega

end Decimal

/-! ## Texts of numbers -/

namespace Binary64

/-- A finite number is the nearest one to what its text writes, in any place that is at or
behind the last digit. -/
theorem nearestCode_writtenAt {negative : Bool} {m : Magnitude} {places : Nat}
    (h : Text.fractionLength (toText (.finite negative m)) ≤ places) :
    nearestCode (Text.writtenAt places (toText (.finite negative m)) * unitsPerOne)
      (10 ^ places) = m.code := by
  simp only [toText] at h ⊢
  have hexp := (Decimal.shortest m).spelled_exponent_le
  have hread := Decimal.nearest?_shortest m
  rw [← Decimal.nearest?_spelled, Decimal.nearest?_eq_some_iff] at hread
  rw [Text.writtenAt, Decimal.natOfDigits_toText]
  rw [Decimal.fractionLength_toText] at h ⊢
  generalize (Decimal.shortest m).spelled = d at h hexp hread ⊢
  have hnum : d.numerator = d.digits * unitsPerOne := by
    rw [Decimal.numerator, Int.toNat_of_nonpos hexp, Nat.pow_zero, Nat.mul_one]
  have hden : 10 ^ places = d.denominator * 10 ^ (places - (-d.exponent).toNat) := by
    rw [Decimal.denominator, ← Nat.pow_add, Nat.add_sub_cancel' h]
  rw [hden, Nat.mul_right_comm, ← hnum,
    nearestCode_scale _ _ (Nat.pow_pos (by decide)), hread]

end Binary64

end ArithFormula
