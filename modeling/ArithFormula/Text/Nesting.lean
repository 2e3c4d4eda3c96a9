import ArithFormula.Text.Basic

/-!
# Nesting of parentheses

The depth of a place in a text is the number of parentheses open there. A text is
balanced if no front part of it closes more than it opens and the whole closes as
much as it opens. A separator is a comma at depth zero, and the separators cut a
text into pieces.

## Main results

* `depthAfter_eq_none_iff` — the running depth is lost exactly when some front part
  closes more than it opens.
* `balanced_iff` — a text is balanced exactly when the running depth returns to zero.
* `joinPieces_pieces` — the pieces, joined by commas, are the text.
-/

namespace ArithFormula.Text

/-! ## Depth -/

/-- The depth after one more character. -/
def nest (depth : Nat) (c : Char) : Nat :=
  if c = '(' then depth + 1 else if c = ')' then depth - 1 else depth

/-- The depth after a text that is read from a given depth on; none if a `)` stands where
nothing is open. -/
def depthAfter (depth : Nat) : Text → Option Nat
  | [] => some depth
  | c :: rest => if c = ')' ∧ depth = 0 then none else depthAfter (nest depth c) rest

/-- No front part closes more than it opens, and the whole closes as much as it opens. -/
def Balanced (text : Text) : Prop :=
  (∀ front back, text = front ++ back → front.count ')' ≤ front.count '(') ∧
    text.count '(' = text.count ')'

theorem depthAfter_append (depth : Nat) (front back : Text) :
    depthAfter depth (front ++ back) = (depthAfter depth front).bind (depthAfter · back) := by
  induction front generalizing depth with
  | nil => rfl
  | cons c front ih =>
      simp only [List.cons_append, depthAfter]
      split
      · rfl
      · exact ih _

/-- Openings and closings account for the change of depth. -/
theorem depthAfter_eq_some {depth final : Nat} {text : Text}
    (h : depthAfter depth text = some final) :
    final + text.count ')' = depth + text.count '(' := by
  induction text generalizing depth with
  | nil =>
      obtain rfl : depth = final := by simpa [depthAfter] using h
      simp
  | cons c rest ih =>
      simp only [depthAfter] at h
      split at h
      · cases h
      · next hc =>
          have hrest := ih h
          by_cases hopen : c = '('
          · simp [hopen, nest] at hrest ⊢
            omega
          · by_cases hclose : c = ')'
            · simp [hclose, nest] at hrest hc ⊢
              omega
            · simpa [hopen, hclose, nest] using hrest

/-- The running depth is lost exactly when some front part closes more than it opens. -/
theorem depthAfter_eq_none_iff {depth : Nat} {text : Text} :
    depthAfter depth text = none ↔
      ∃ front back, text = front ++ back ∧ depth + front.count '(' < front.count ')' := by
  induction text generalizing depth with
  | nil => simp [depthAfter]
  | cons c rest ih =>
      simp only [depthAfter]
      split
      · next hc =>
          refine ⟨fun _ => ⟨[c], rest, rfl, ?_⟩, fun _ => rfl⟩
          obtain ⟨rfl, rfl⟩ := hc
          decide
      · next hc =>
          rw [ih]
          have hstep : ∀ front : Text, nest depth c + front.count '(' < front.count ')' ↔
              depth + (c :: front).count '(' < (c :: front).count ')' := fun front => by
            by_cases hopen : c = '('
            · simp [hopen, nest]
              omega
            · by_cases hclose : c = ')'
              · simp [hclose, nest] at hc ⊢
                omega
              · simp [hopen, hclose, nest]
          constructor
          · rintro ⟨front, back, rfl, h⟩
            exact ⟨c :: front, back, rfl, (hstep front).mp h⟩
          · rintro ⟨front, back, hrest, h⟩
            cases front with
            | nil => simp at h
            | cons b front =>
                obtain ⟨rfl, rfl⟩ : c = b ∧ rest = front ++ back := by simpa using hrest
                exact ⟨front, back, rfl, (hstep front).mpr h⟩

/-- A text is balanced exactly when the running depth returns to zero. -/
theorem balanced_iff {text : Text} : Balanced text ↔ depthAfter 0 text = some 0 := by
  constructor
  · rintro ⟨hfront, htotal⟩
    cases h : depthAfter 0 text with
    | none =>
        obtain ⟨front, back, htext, hlt⟩ := depthAfter_eq_none_iff.mp h
        have := hfront front back htext
        omega
    | some final =>
        have := depthAfter_eq_some h
        congr 1
        omega
  · intro h
    refine ⟨fun front back htext => ?_, by simpa using (depthAfter_eq_some h).symm⟩
    apply Nat.le_of_not_lt
    intro hlt
    have : depthAfter 0 text = none :=
      depthAfter_eq_none_iff.mpr ⟨front, back, htext, by simpa using hlt⟩
    rw [h] at this
    cases this

instance (text : Text) : Decidable (Balanced text) := decidable_of_iff _ balanced_iff.symm

/-! ## Cutting at separators -/

/-- The pieces of a text that is read from a given depth on: the first one, and those that
follow a separator. -/
def pieces (depth : Nat) : Text → Text × List Text
  | [] => ([], [])
  | c :: rest =>
      let (first, others) := pieces (nest depth c) rest
      if c = ',' ∧ depth = 0 then ([], first :: others) else (c :: first, others)

/-- Pieces joined by commas. -/
def joinPieces : Text × List Text → Text
  | (first, others) => first ++ others.flatMap (',' :: ·)

theorem pieces_nil (depth : Nat) : pieces depth [] = ([], []) := rfl

theorem pieces_separator (rest : Text) :
    pieces 0 (',' :: rest) = ([], (pieces 0 rest).1 :: (pieces 0 rest).2) := rfl

theorem pieces_other {depth : Nat} {c : Char} (h : ¬(c = ',' ∧ depth = 0)) (rest : Text) :
    pieces depth (c :: rest) =
      (c :: (pieces (nest depth c) rest).1, (pieces (nest depth c) rest).2) := by
  simp only [pieces, h, if_false]

/-- The pieces, joined by commas, are the text. -/
theorem joinPieces_pieces (depth : Nat) (text : Text) : joinPieces (pieces depth text) = text := by
  induction text generalizing depth with
  | nil => rfl
  | cons c rest ih =>
      by_cases h : c = ',' ∧ depth = 0
      · obtain ⟨rfl, rfl⟩ := h
        rw [pieces_separator]
        have := ih 0
        simp only [joinPieces] at this
        simp [joinPieces, this]
      · rw [pieces_other h]
        have := ih (nest depth c)
        simp only [joinPieces] at this
        simp [joinPieces, this]

/-- A piece is a contiguous part of the text. -/
theorem exists_append_of_mem_pieces {depth : Nat} {text piece : Text}
    (h : piece ∈ (pieces depth text).1 :: (pieces depth text).2) :
    ∃ front back, text = front ++ piece ++ back := by
  have htext := joinPieces_pieces depth text
  simp only [joinPieces] at htext
  rcases List.mem_cons.mp h with rfl | hmem
  · exact ⟨[], _, by simpa using htext.symm⟩
  · obtain ⟨before, after, hothers⟩ := List.append_of_mem hmem
    rw [hothers, List.flatMap_append, List.flatMap_cons] at htext
    refine ⟨(pieces depth text).1 ++ before.flatMap (',' :: ·) ++ [','],
      after.flatMap (',' :: ·), ?_⟩
    simpa using htext.symm

/-- No piece is longer than the text. -/
theorem length_le_of_mem_pieces {depth : Nat} {text piece : Text}
    (h : piece ∈ (pieces depth text).1 :: (pieces depth text).2) :
    piece.length ≤ text.length := by
  obtain ⟨front, back, htext⟩ := exists_append_of_mem_pieces h
  have := congrArg List.length htext
  simp only [List.length_append] at this
  omega

end ArithFormula.Text
