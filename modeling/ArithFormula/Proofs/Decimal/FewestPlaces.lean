import ArithFormula.Decimal.Shortest

/-!
# No decimal with fewer places

The search for the shortest decimal goes down from a coarse grid, tries two neighbours on each
grid and stops at the first that reads back. It passes over no grid with a decimal that reads
back: such a decimal lies on one side of the magnitude, the neighbour on that side lies between
the two, and rounding keeps the order.

So no decimal with fewer places than the shortest one reads back. That leaves it no zero as its
last place, since without that zero it would be a decimal of the same value with fewer places.

## Main results

* `exists_neighbour` — where a decimal of a grid reads back, a neighbour does.
* `le_exponent_shortest` — no decimal with fewer places than the shortest one reads back.
* `isTrimmed_shortest` — the shortest decimal has no zeros to drop.
-/

namespace ArithFormula.Decimal

/-! ## Neighbours on a grid -/

/-- The steps of a grid that are filled by a magnitude. -/
def stepsBelow (m : Magnitude) (grid : Nat) : Nat :=
  m.units * 10 ^ (-gridExponent grid).toNat / (unitsPerOne * 10 ^ (gridExponent grid).toNat)

theorem mem_neighbours_iff {m : Magnitude} {grid : Nat} {d : Decimal} :
    d ∈ neighbours m grid ↔
      d = ⟨stepsBelow m grid, gridExponent grid⟩ ∨
        d = ⟨stepsBelow m grid + 1, gridExponent grid⟩ := by
  simp only [neighbours]
  split
  · rw [List.mem_cons, List.mem_singleton]
    rfl
  · rw [List.mem_cons, List.mem_singleton, or_comm]
    rfl

/-- So many steps are filled exactly if their decimal is not above the magnitude. -/
theorem le_stepsBelow_iff {m : Magnitude} {grid k : Nat} :
    k ≤ stepsBelow m grid ↔
      numerator ⟨k, gridExponent grid⟩ ≤ m.units * denominator ⟨k, gridExponent grid⟩ := by
  have hpos : 0 < unitsPerOne * 10 ^ (gridExponent grid).toNat :=
    Nat.mul_pos unitsPerOne_pos (Nat.pow_pos (by decide))
  have hnum : numerator ⟨k, gridExponent grid⟩ =
      k * (unitsPerOne * 10 ^ (gridExponent grid).toNat) := by
    rw [numerator, Nat.mul_assoc, Nat.mul_comm unitsPerOne]
  rw [stepsBelow, Nat.le_div_iff_mul_le hpos, hnum]
  rfl

/-- With a decimal reads back what lies between it and the magnitude. -/
theorem nearest?_of_between {m : Magnitude} {k n : Nat} {exponent : Int}
    (h : nearest? ⟨k, exponent⟩ = some m)
    (hbetween : k ≤ n ∧ numerator ⟨n, exponent⟩ ≤ m.units * denominator ⟨n, exponent⟩ ∨
      n ≤ k ∧ m.units * denominator ⟨n, exponent⟩ ≤ numerator ⟨n, exponent⟩) :
    nearest? ⟨n, exponent⟩ = some m := by
  rw [nearest?_eq_some_iff] at h ⊢
  have hpos := denominator_pos ⟨n, exponent⟩
  have hmagnitude : nearestCode (m.units * denominator ⟨n, exponent⟩)
      (denominator ⟨n, exponent⟩) = m.code := nearestCode_unitsOf m.code hpos
  have hmono : ∀ {num num' : Nat}, num ≤ num' →
      nearestCode num (denominator ⟨n, exponent⟩) ≤
        nearestCode num' (denominator ⟨n, exponent⟩) := by
    intro num num' hle
    exact nearestCode_mono hpos hpos (Nat.mul_le_mul_right _ hle)
  have hnumerator : ∀ {a b : Nat}, a ≤ b →
      numerator ⟨a, exponent⟩ ≤ numerator ⟨b, exponent⟩ := by
    intro a b hle
    exact Nat.mul_le_mul_right _ (Nat.mul_le_mul_right _ hle)
  rcases hbetween with ⟨hk, hle⟩ | ⟨hk, hle⟩
  · have hlower := hmono (hnumerator hk)
    have hupper := hmono hle
    exact Nat.le_antisymm (hmagnitude ▸ hupper) (h ▸ hlower)
  · have hupper := hmono (hnumerator hk)
    have hlower := hmono hle
    exact Nat.le_antisymm (h ▸ hupper) (hmagnitude ▸ hlower)

/-- Where a decimal of a grid reads back, a neighbour does. -/
theorem exists_neighbour {m : Magnitude} {grid k : Nat}
    (h : nearest? ⟨k, gridExponent grid⟩ = some m) :
    ∃ d ∈ neighbours m grid, d.nearest? = some m := by
  by_cases hk : k ≤ stepsBelow m grid
  · have hbelow := le_stepsBelow_iff.mp (Nat.le_refl (stepsBelow m grid))
    exact ⟨_, mem_neighbours_iff.mpr (.inl rfl), nearest?_of_between h (.inl ⟨hk, hbelow⟩)⟩
  · have habove := not_congr le_stepsBelow_iff |>.mp (Nat.not_succ_le_self (stepsBelow m grid))
    exact ⟨_, mem_neighbours_iff.mpr (.inr rfl),
      nearest?_of_between h (.inr ⟨Nat.lt_of_not_le hk, Nat.le_of_not_le habove⟩)⟩

theorem exponent_of_mem_neighbours {m : Magnitude} {grid : Nat} {d : Decimal}
    (h : d ∈ neighbours m grid) : d.exponent = gridExponent grid := by
  rcases mem_neighbours_iff.mp h with rfl | rfl <;> rfl

/-! ## The search -/

/-- The search passes over no grid with a decimal that reads back. -/
theorem le_exponent_shortestFrom {m : Magnitude} {grid k start : Nat} (hstart : grid ≤ start)
    (h : nearest? ⟨k, gridExponent grid⟩ = some m) :
    gridExponent grid ≤ (shortestFrom m start).exponent := by
  induction start with
  | zero =>
      rw [Nat.le_zero.mp hstart]
      exact Int.le_refl _
  | succ start ih =>
      rw [shortestFrom]
      cases hfind : (neighbours m (start + 1)).find? fun d => d.nearest? = some m with
      | some d =>
          have hexp := exponent_of_mem_neighbours (List.mem_of_find?_eq_some hfind)
          show gridExponent grid ≤ d.exponent
          rw [hexp]
          unfold gridExponent
          omega
      | none =>
          have hne : grid ≠ start + 1 := by
            rintro rfl
            obtain ⟨d, hd, hread⟩ := exists_neighbour h
            exact List.find?_eq_none.mp hfind d hd (decide_eq_true hread)
          exact ih (by omega)

/-- No decimal with fewer places than the shortest one reads back. -/
theorem le_exponent_shortest {m : Magnitude} {k : Nat} {exponent : Int} (hexponent : exponent ≤ 0)
    (h : nearest? ⟨k, exponent⟩ = some m) : exponent ≤ (shortest m).exponent := by
  unfold shortest
  split
  · exact hexponent
  · have hcoarsest : unitExponent ≤ coarsestGrid m := Nat.le_add_right _ _
    by_cases hfinest : gridExponent 0 ≤ exponent
    · have hgrid : exponent = gridExponent (exponent + unitExponent).toNat := by
        unfold gridExponent at hfinest ⊢
        omega
      rw [hgrid] at h ⊢
      refine le_exponent_shortestFrom ?_ h
      omega
    · have hexact := le_exponent_shortestFrom (Nat.zero_le (coarsestGrid m)) (nearest?_exact m)
      omega

/-! ## Zeros to drop -/

/-- A decimal without a zero as its last place, nor zeros in front of the point for a zero. -/
structure IsTrimmed (d : Decimal) : Prop where
  last : d.exponent < 0 → d.digits % 10 ≠ 0
  ne_zero : 0 < d.exponent → d.digits ≠ 0

theorem isTrimmed_shortest (m : Magnitude) : (shortest m).IsTrimmed := by
  have hread := nearest?_shortest m
  constructor
  · intro hexponent hlast
    -- Without the zero the decimal would have a place less and read back as well.
    have hshift := nearest?_shift ((shortest m).digits / 10) ((shortest m).exponent + 1)
    rw [Nat.div_mul_cancel (Nat.dvd_of_mod_eq_zero hlast), Int.add_sub_cancel] at hshift
    have hle := le_exponent_shortest (by omega) (hshift.symm.trans hread)
    omega
  · intro hexponent hzero
    rw [nearest?, if_pos hzero, Option.some.injEq] at hread
    rw [shortest, if_pos hread.symm] at hexponent
    exact absurd hexponent (by decide)

end ArithFormula.Decimal
