import ArithFormula.Decimal.Literal
import ArithFormula.Decimal.Shortest

/-!
# Positional text of numbers

Numbers are written positionally whatever their size: the shortest digits that read
back, zeros up to the units or after the point where the exponent asks for them, and
never an exponent mark. A fraction is written only if there is one.

## Main results

* `ofText?_toText` — the text of a decimal is a literal of the same value.
* `read?_toText` — the text of a finite number reads back as that number, the sign of
  zero included.
-/

namespace ArithFormula

/-! ## Writing decimals -/

namespace Decimal

/-- The digits of a natural number. -/
def digitsText (n : Nat) : Text := Nat.toDigits 10 n

/-- The digits of a natural number after a point, with zeros in front up to `places`. -/
def fractionText (places n : Nat) : Text :=
  List.replicate (places - (digitsText n).length) '0' ++ digitsText n

/-- A decimal, written positionally. -/
def toText (d : Decimal) : Text :=
  if 0 ≤ d.exponent then digitsText d.digits ++ List.replicate d.exponent.toNat '0'
  else
    let places := (-d.exponent).toNat
    digitsText (d.digits / 10 ^ places) ++
      '.' :: fractionText places (d.digits % 10 ^ places)

/-- A minus sign, if there is one. -/
def signText (negative : Bool) : Text := if negative then ['-'] else []

/-! ## Digits -/

theorem isDigit_of_mem_digitsText {n : Nat} {c : Char} (h : c ∈ digitsText n) :
    c.isDigit = true :=
  Nat.isDigit_of_mem_toDigits (by decide) (by decide) h

theorem digitsText_ne_nil (n : Nat) : digitsText n ≠ [] := Nat.toDigits_ne_nil

theorem isDigit_of_mem_zeros {k : Nat} {c : Char} (h : c ∈ List.replicate k '0') :
    c.isDigit = true := by
  rw [List.eq_of_mem_replicate h]
  decide

theorem isDigit_of_mem_fractionText {places n : Nat} {c : Char}
    (h : c ∈ fractionText places n) : c.isDigit = true :=
  (List.mem_append.mp h).elim isDigit_of_mem_zeros isDigit_of_mem_digitsText

/-- The fraction has as many digits as places if its number fits. -/
theorem length_fractionText {places n : Nat} (hplaces : 0 < places) (h : n < 10 ^ places) :
    (fractionText places n).length = places := by
  have : (digitsText n).length ≤ places :=
    (Nat.length_toDigits_le_iff (by decide) hplaces).mpr h
  simp only [fractionText, List.length_append, List.length_replicate]
  omega

theorem natOfDigits_append_zeros (n k : Nat) :
    Literal.natOfDigits (digitsText n ++ List.replicate k '0') = n * 10 ^ k := by
  rw [Literal.natOfDigits, Nat.ofDigitChars_append, digitsText, Nat.ofDigitChars_ten_toDigits,
    Nat.ofDigitChars_replicate_zero, Nat.mul_comm]

theorem natOfDigits_append_fraction {places fraction : Nat} (whole : Nat)
    (hplaces : 0 < places) (h : fraction < 10 ^ places) :
    Literal.natOfDigits (digitsText whole ++ fractionText places fraction) =
      whole * 10 ^ places + fraction := by
  have hlength := length_fractionText hplaces h
  have hfraction : Nat.ofDigitChars 10 (fractionText places fraction) 0 = fraction := by
    rw [fractionText, Nat.ofDigitChars_append, Nat.ofDigitChars_replicate_zero, Nat.mul_zero,
      digitsText, Nat.ofDigitChars_ten_toDigits]
  rw [Literal.natOfDigits, Nat.ofDigitChars_append, digitsText, Nat.ofDigitChars_ten_toDigits,
    Nat.ofDigitChars_eq_ofDigitChars_zero, hlength, hfraction, Nat.mul_comm]

/-! ## Reading back -/

private theorem splitSign_signText (negative : Bool) {text : Text}
    (h : ∃ c rest, text = c :: rest ∧ c.isDigit = true) :
    Literal.splitSign (signText negative ++ text) = (negative, text) := by
  obtain ⟨c, rest, rfl, hc⟩ := h
  cases negative with
  | true => rfl
  | false =>
      have hminus : c ≠ '-' := fun e => by simp [e] at hc
      have hplus : c ≠ '+' := fun e => by simp [e] at hc
      simp [signText, Literal.splitSign, hminus, hplus]

/-- A decimal as its text spells it: an integer is spelled without exponent. -/
def spelled (d : Decimal) : Decimal :=
  if 0 ≤ d.exponent then ⟨d.digits * 10 ^ d.exponent.toNat, 0⟩ else d

private theorem nearest?_mul_ten_pow (digits k : Nat) :
    nearest? ⟨digits * 10 ^ k, 0⟩ = nearest? ⟨digits, k⟩ := by
  induction k generalizing digits with
  | zero => rw [Nat.pow_zero, Nat.mul_one]; rfl
  | succ k ih =>
      rw [Nat.pow_succ', ← Nat.mul_assoc, ih, ← nearest?_shift digits (k + 1 : Nat)]
      congr 2
      omega

theorem nearest?_spelled (d : Decimal) : d.spelled.nearest? = d.nearest? := by
  unfold spelled
  split
  · next h =>
      rw [nearest?_mul_ten_pow, Int.toNat_of_nonneg h]
  · rfl

private theorem exists_digit_head {digits : Text} (hne : digits ≠ [])
    (hdigits : ∀ c ∈ digits, c.isDigit = true) (rest : Text) :
    ∃ c tail, digits ++ rest = c :: tail ∧ c.isDigit = true := by
  cases digits with
  | nil => exact absurd rfl hne
  | cons c digits => exact ⟨c, digits ++ rest, rfl, hdigits c (by simp)⟩

/-- The text of a decimal is a literal of the same value. -/
theorem ofText?_toText (negative : Bool) (d : Decimal) :
    Literal.ofText? (signText negative ++ d.toText) = some ⟨negative, d.spelled⟩ := by
  unfold toText spelled
  split
  · have hdigits : ∀ c ∈ digitsText d.digits ++ List.replicate d.exponent.toNat '0',
        c.isDigit = true := fun c hc =>
      (List.mem_append.mp hc).elim isDigit_of_mem_digitsText isDigit_of_mem_zeros
    have hsplit := Literal.splitDigits_append [] hdigits (by simp)
    rw [List.append_nil] at hsplit
    rw [Literal.ofText?, splitSign_signText negative
      (exists_digit_head (digitsText_ne_nil _) (fun c => isDigit_of_mem_digitsText) _)]
    simp only [hsplit]
    simp [Literal.splitFraction, Literal.exponent?, digitsText_ne_nil, natOfDigits_append_zeros]
  · next hneg =>
      have hplaces : 0 < (-d.exponent).toNat := by omega
      have hlt : d.digits % 10 ^ (-d.exponent).toNat < 10 ^ (-d.exponent).toNat :=
        Nat.mod_lt _ (Nat.pow_pos (by decide))
      have hwhole := Literal.splitDigits_append
        ('.' :: fractionText (-d.exponent).toNat (d.digits % 10 ^ (-d.exponent).toNat))
        (fun c (hc : c ∈ digitsText (d.digits / 10 ^ (-d.exponent).toNat)) =>
          isDigit_of_mem_digitsText hc) (by simp)
      have hfraction := Literal.splitDigits_append []
        (fun c (hc : c ∈ fractionText (-d.exponent).toNat
          (d.digits % 10 ^ (-d.exponent).toNat)) => isDigit_of_mem_fractionText hc) (by simp)
      rw [List.append_nil] at hfraction
      rw [Literal.ofText?, splitSign_signText negative
        (exists_digit_head (digitsText_ne_nil _) (fun c => isDigit_of_mem_digitsText) _)]
      simp only [hwhole, Literal.splitFraction, hfraction]
      simp only [digitsText_ne_nil, false_and, if_false, Literal.exponent?, Option.map_some,
        natOfDigits_append_fraction _ hplaces hlt, length_fractionText hplaces hlt]
      rw [Nat.mul_comm, Nat.div_add_mod]
      congr 3
      omega

end Decimal

/-! ## Writing numbers -/

namespace Binary64

/-- A number as text. Zero keeps its sign. -/
def toText : Binary64 → Text
  | .nan => "NaN".toList
  | .infinity negative => Decimal.signText negative ++ "inf".toList
  | .finite negative magnitude =>
      Decimal.signText negative ++ (Decimal.shortest magnitude).toText

/-- A number as the text of a result: a zero of either sign is `0`. -/
def resultText (x : Binary64) : Text := if x.isZero then ['0'] else x.toText

/-- The text of a finite number reads back as that number. -/
theorem read?_toText (negative : Bool) (m : Magnitude) :
    Literal.read? (toText (.finite negative m)) = some (.finite negative m) := by
  simp only [toText, Literal.read?, Decimal.ofText?_toText, Option.bind_some, Literal.value?,
    Decimal.nearest?_spelled, Decimal.nearest?_shortest, Option.map_some]

end Binary64

end ArithFormula
