/-!
# Text

A text is the list of its characters, so that a scan is a recursion on the list
and a statement about a scan is an induction on it.

## Main results

* `cutFirst_eq_some_iff`, `cutLast_eq_some_iff` — a cut at the first or the last
  occurrence of a mark loses nothing, and the part named by the cut is free of
  the mark.
* `cutFirst_eq_none_iff`, `cutLast_eq_none_iff` — a cut fails exactly on a text
  without the mark.
* `append_first_mark_inj`, `append_last_mark_inj` — there is one first mark and one last.
-/

namespace ArithFormula

/-- A text, character by character. -/
abbrev Text := List Char

namespace Text

/-! ## Characters -/

/-- What holds of all characters of a given text is found out one by one. -/
theorem forall_mem_of_all {p : Char → Prop} [DecidablePred p] {text : Text}
    (h : text.all (fun c => decide (p c)) = true) : ∀ c ∈ text, p c := by
  simpa using h

/-! ## Cutting at a mark -/

/-- What stands before and after the first `mark` of a text. -/
def cutFirst (mark : Char) : Text → Option (Text × Text)
  | [] => none
  | c :: rest =>
      if c = mark then some ([], rest)
      else (cutFirst mark rest).map fun (before, after) => (c :: before, after)

/-- What stands before and after the last `mark` of a text. -/
def cutLast (mark : Char) : Text → Option (Text × Text)
  | [] => none
  | c :: rest =>
      match cutLast mark rest with
      | some (before, after) => some (c :: before, after)
      | none => if c = mark then some ([], rest) else none

theorem cutFirst_append {mark : Char} {before : Text} (h : mark ∉ before) (after : Text) :
    cutFirst mark (before ++ mark :: after) = some (before, after) := by
  induction before with
  | nil => simp [cutFirst]
  | cons c before ih =>
      rw [List.mem_cons, not_or] at h
      simp [cutFirst, Ne.symm h.1, ih h.2]

theorem eq_append_of_cutFirst {mark : Char} {text before after : Text}
    (h : cutFirst mark text = some (before, after)) :
    text = before ++ mark :: after ∧ mark ∉ before := by
  induction text generalizing before with
  | nil => simp [cutFirst] at h
  | cons c rest ih =>
      by_cases hc : c = mark
      · simp only [cutFirst, hc, if_true, Option.some.injEq, Prod.mk.injEq] at h
        obtain ⟨rfl, rfl⟩ := h
        simp [hc]
      · simp only [cutFirst, hc, if_false, Option.map_eq_some_iff, Prod.exists,
          Prod.mk.injEq] at h
        obtain ⟨x, y, hxy, rfl, rfl⟩ := h
        obtain ⟨rfl, hx⟩ := ih hxy
        simp [hx, Ne.symm hc]

/-- A text is taken apart at its first mark in one way only. -/
theorem append_first_mark_inj {mark : Char} {x y d e : Text} (hx : mark ∉ x) (hy : mark ∉ y)
    (h : x ++ mark :: d = y ++ mark :: e) : x = y ∧ d = e := by
  have hcut : cutFirst mark (x ++ mark :: d) = some (y, e) := by rw [h, cutFirst_append hy]
  rw [cutFirst_append hx] at hcut
  simpa using hcut

theorem cutFirst_eq_some_iff {mark : Char} {text before after : Text} :
    cutFirst mark text = some (before, after) ↔
      text = before ++ mark :: after ∧ mark ∉ before :=
  ⟨eq_append_of_cutFirst, fun ⟨h, hmark⟩ => h ▸ cutFirst_append hmark after⟩

theorem cutFirst_eq_none_iff {mark : Char} {text : Text} :
    cutFirst mark text = none ↔ mark ∉ text := by
  induction text with
  | nil => simp [cutFirst]
  | cons c rest ih =>
      by_cases hc : c = mark
      · simp [cutFirst, hc]
      · simp [cutFirst, hc, Ne.symm hc, ih]

theorem cutLast_eq_none_iff {mark : Char} {text : Text} :
    cutLast mark text = none ↔ mark ∉ text := by
  induction text with
  | nil => simp [cutLast]
  | cons c rest ih =>
      cases h : cutLast mark rest with
      | none =>
          have hrest := ih.mp h
          by_cases hc : c = mark
          · simp [cutLast, h, hc]
          · simp [cutLast, h, hc, Ne.symm hc, hrest]
      | some cut =>
          have hrest : ¬mark ∉ rest := fun hmem => by
            rw [ih.mpr hmem] at h
            cases h
          simp [cutLast, h, Classical.not_not.mp hrest]

theorem cutLast_append {mark : Char} {after : Text} (h : mark ∉ after) (before : Text) :
    cutLast mark (before ++ mark :: after) = some (before, after) := by
  induction before with
  | nil => simp [cutLast, cutLast_eq_none_iff.mpr h]
  | cons c before ih => simp [cutLast, ih]

/-- A text is taken apart at its last mark in one way only. -/
theorem append_last_mark_inj {mark : Char} {x y d e : Text} (hd : mark ∉ d) (he : mark ∉ e)
    (h : x ++ mark :: d = y ++ mark :: e) : x = y ∧ d = e := by
  have hcut : cutLast mark (x ++ mark :: d) = some (y, e) := by rw [h, cutLast_append he]
  rw [cutLast_append hd] at hcut
  simpa using hcut

theorem eq_append_of_cutLast {mark : Char} {text before after : Text}
    (h : cutLast mark text = some (before, after)) :
    text = before ++ mark :: after ∧ mark ∉ after := by
  induction text generalizing before after with
  | nil => simp [cutLast] at h
  | cons c rest ih =>
      cases hcut : cutLast mark rest with
      | none =>
          by_cases hc : c = mark
          · simp only [cutLast, hcut, hc, if_true, Option.some.injEq, Prod.mk.injEq] at h
            obtain ⟨rfl, rfl⟩ := h
            exact ⟨by simp [hc], cutLast_eq_none_iff.mp hcut⟩
          · simp [cutLast, hcut, hc] at h
      | some cut =>
          simp only [cutLast, hcut, Option.some.injEq, Prod.mk.injEq] at h
          obtain ⟨rfl, rfl⟩ := h
          obtain ⟨hrest, hafter⟩ := ih hcut
          exact ⟨by simp [← hrest], hafter⟩

theorem cutLast_eq_some_iff {mark : Char} {text before after : Text} :
    cutLast mark text = some (before, after) ↔
      text = before ++ mark :: after ∧ mark ∉ after :=
  ⟨eq_append_of_cutLast, fun ⟨h, hmark⟩ => h ▸ cutLast_append hmark before⟩

end Text

end ArithFormula
