import ArithFormula.Binary64.Magnitude

/-!
# Binary floating-point numbers

The values of the IEEE 754 format binary64 as an exact type: one NaN, two
infinities, and the finite numbers as a sign and a magnitude. Equality of the type
tells `-0` from `0` and holds of NaN and itself; the format's own comparisons go
through the numeric order instead, in which both zeros have one place and NaN has
none.

## Main results

* `ofBits_toBits` — the bit pattern determines the number.
* `numericEq_iff`, `less_iff`, `atMost_iff` — the format's comparisons are those of places in
  the numeric order.
-/

namespace ArithFormula

/-- A number of the format binary64. -/
inductive Binary64 where
  /-- Not a number. -/
  | nan
  /-- An infinity, with its sign. -/
  | infinity (negative : Bool)
  /-- A finite number, with its sign: zero has two. -/
  | finite (negative : Bool) (magnitude : Magnitude)
deriving DecidableEq

namespace Binary64

/-! ## Constants and conversions -/

/-- Positive zero. -/
def zero : Binary64 := .finite false .zero

/-- The number nearest to `num / den` units, with the given sign; beyond the finite
numbers, an infinity. -/
def ofQuotient (negative : Bool) (num den : Nat) : Binary64 :=
  (Magnitude.nearest? num den).elim (.infinity negative) (.finite negative)

/-- The number nearest to a natural number. -/
def ofNat (n : Nat) : Binary64 := ofQuotient false (n * unitsPerOne) 1

/-- The gap between one and the next larger number, `2 ^ -52`. -/
def epsilon : Binary64 := .finite false ⟨971 * 2 ^ 52, by decide⟩

theorem ofQuotient_units (negative : Bool) (m : Magnitude) {den : Nat} (hden : 0 < den) :
    ofQuotient negative (m.units * den) den = .finite negative m := by
  rw [ofQuotient, Magnitude.nearest?_units m hden, Option.elim_some]

theorem ofQuotient_scale (negative : Bool) (num den : Nat) {k : Nat} (hk : 0 < k) :
    ofQuotient negative (num * k) (den * k) = ofQuotient negative num den := by
  rw [ofQuotient, ofQuotient, Magnitude.nearest?_scale num den hk]

/-! ## Bit patterns -/

/-- The number with a given bit pattern: sign, then code. Codes past the finite ones are the
infinity and, beyond it, NaN. -/
def ofBits (bits : UInt64) : Binary64 :=
  let negative := decide (2 ^ 63 ≤ bits.toNat)
  let code := bits.toNat % 2 ^ 63
  if h : code < overflowCode then .finite negative ⟨code, h⟩
  else if code = overflowCode then .infinity negative
  else .nan

/-- The pattern of a sign and a code. -/
private def signedPattern (negative : Bool) (code : Nat) : UInt64 :=
  UInt64.ofNat ((if negative then 2 ^ 63 else 0) + code)

/-- The bit pattern of a number. NaN has the quiet pattern without payload. -/
def toBits : Binary64 → UInt64
  | .nan => 0x7FF8000000000000
  | .infinity negative => signedPattern negative overflowCode
  | .finite negative magnitude => signedPattern negative magnitude.code

private theorem toNat_signedPattern (negative : Bool) {code : Nat} (h : code < 2 ^ 63) :
    (signedPattern negative code).toNat = (if negative then 2 ^ 63 else 0) + code := by
  rw [signedPattern, UInt64.toNat_ofNat']
  apply Nat.mod_eq_of_lt
  split <;> omega

/-- The bit pattern determines the number. -/
theorem ofBits_toBits (x : Binary64) : ofBits x.toBits = x := by
  cases x with
  | nan => decide
  | infinity negative => cases negative <;> decide
  | finite negative magnitude =>
      have hcode : magnitude.code < 2047 * 2 ^ 52 := magnitude.code_lt
      have hpattern := toNat_signedPattern negative (by omega : magnitude.code < 2 ^ 63)
      have hsign : decide (2 ^ 63 ≤ (signedPattern negative magnitude.code).toNat) = negative := by
        rw [hpattern]
        cases negative
        · exact decide_eq_false (by rw [if_neg Bool.false_ne_true]; omega)
        · exact decide_eq_true (by rw [if_pos rfl]; omega)
      have hrest : (signedPattern negative magnitude.code).toNat % 2 ^ 63 = magnitude.code := by
        rw [hpattern]
        split <;> omega
      simp only [toBits, ofBits, hrest]
      rw [dif_pos magnitude.code_lt]
      exact congrArg (finite · magnitude) hsign

/-! ## Signs and classes -/

/-- Whether a number is finite. -/
def isFinite : Binary64 → Bool
  | .finite _ _ => true
  | _ => false

theorem exists_of_isFinite {x : Binary64} (h : x.isFinite = true) :
    ∃ negative magnitude, x = .finite negative magnitude := by
  cases x with
  | nan => cases h
  | infinity negative => cases h
  | finite negative magnitude => exact ⟨negative, magnitude, rfl⟩

/-- The number without its sign. -/
def abs : Binary64 → Binary64
  | .nan => .nan
  | .infinity _ => .infinity false
  | .finite _ magnitude => .finite false magnitude

/-- The number with the other sign. -/
def neg : Binary64 → Binary64
  | .nan => .nan
  | .infinity negative => .infinity (!negative)
  | .finite negative magnitude => .finite (!negative) magnitude

instance : Neg Binary64 := ⟨neg⟩

/-! ## The numeric order -/

/-- The integer `n`, or `-n` under a negative sign. -/
def signed (negative : Bool) (n : Nat) : Int := if negative then -(n : Int) else n

/-- The place of a number in the numeric order. The infinities stand outside the finite
numbers, both zeros have place zero, and NaN has no place. -/
def place? : Binary64 → Option Int
  | .nan => none
  | .infinity negative => some (signed negative overflowCode)
  | .finite negative magnitude => some (signed negative magnitude.code)

/-- Whether one number is less than another; never so if one of them is NaN. -/
def less (x y : Binary64) : Bool :=
  match x.place?, y.place? with
  | some a, some b => a < b
  | _, _ => false

/-- Whether two numbers are numerically equal: zeros of either sign are, NaN is not
even equal to itself. -/
def numericEq (x y : Binary64) : Bool :=
  match x.place?, y.place? with
  | some a, some b => a == b
  | _, _ => false

/-- Whether one number is less than another or numerically equal to it; never so if one of
them is NaN. -/
def atMost (x y : Binary64) : Bool := x.less y || x.numericEq y

/-- Whether a number is a zero of either sign. -/
def isZero (x : Binary64) : Bool := x.numericEq zero

theorem place?_eq_none_iff {x : Binary64} : x.place? = none ↔ x = .nan := by
  cases x <;> simp [place?]

theorem less_iff {x y : Binary64} :
    x.less y = true ↔ ∃ a b, x.place? = some a ∧ y.place? = some b ∧ a < b := by
  unfold less
  cases x.place? <;> cases y.place? <;> simp

theorem numericEq_iff {x y : Binary64} :
    x.numericEq y = true ↔ ∃ a, x.place? = some a ∧ y.place? = some a := by
  unfold numericEq
  cases x.place? with
  | none => simp
  | some a =>
      cases y.place? with
      | none => simp
      | some b => simpa using eq_comm

theorem atMost_iff {x y : Binary64} :
    x.atMost y = true ↔ ∃ a b, x.place? = some a ∧ y.place? = some b ∧ a ≤ b := by
  rw [atMost, Bool.or_eq_true, less_iff, numericEq_iff]
  constructor
  · rintro (⟨a, b, hx, hy, hlt⟩ | ⟨a, hx, hy⟩)
    · exact ⟨a, b, hx, hy, Int.le_of_lt hlt⟩
    · exact ⟨a, a, hx, hy, Int.le_refl a⟩
  · rintro ⟨a, b, hx, hy, hle⟩
    rcases Int.lt_or_eq_of_le hle with hlt | rfl
    · exact .inl ⟨a, b, hx, hy, hlt⟩
    · exact .inr ⟨a, hx, hy⟩

/-- A number less than `y` is less than every number that `y` is at most. -/
theorem less_of_less_of_atMost {x y z : Binary64} (hxy : x.less y = true)
    (hyz : y.atMost z = true) : x.less z = true := by
  obtain ⟨a, b, hx, hy, hlt⟩ := less_iff.mp hxy
  obtain ⟨b', c, hy', hz, hle⟩ := atMost_iff.mp hyz
  rw [hy, Option.some.injEq] at hy'
  subst hy'
  exact less_iff.mpr ⟨a, c, hx, hz, Int.lt_of_lt_of_le hlt hle⟩

theorem isZero_iff {x : Binary64} : x.isZero = true ↔ ∃ negative, x = .finite negative .zero := by
  rw [isZero, numericEq_iff]
  constructor
  · rintro ⟨a, hx, ha⟩
    obtain rfl : 0 = a := by simpa [zero, place?, signed, Magnitude.zero] using ha
    cases x with
    | nan => simp [place?] at hx
    | infinity negative => cases negative <;> simp [place?, signed] at hx
    | finite negative magnitude =>
        refine ⟨negative, ?_⟩
        have : magnitude.code = 0 := by
          cases negative <;> simpa [place?, signed] using hx
        exact congrArg _ (Magnitude.ext_code this)
  · rintro ⟨negative, rfl⟩
    exact ⟨0, by cases negative <;> decide, by decide⟩

end Binary64

end ArithFormula
