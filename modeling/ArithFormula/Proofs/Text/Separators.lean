import ArithFormula.Proofs.Text.Parameters

/-!
# Places of separators

The pieces of a text are found by one scan from the left that counts open parentheses. Here they
are said without a scan. Each place of a text is looked at on its own: it holds a separator if it
holds a comma and the text in front of it closes as much as it opens. The pieces are what stands
between these places.

Places are counted in characters, from zero. As for the scan, a text may be read from a depth on,
which counts as so many openings in front of it.

## Main results

* `separators_cons`, `separators_concat` — the separators of a text with one more character at
  either end.
* `cutAt_separators` — the scan cuts exactly at the separators.
* `getLast?_cut_eq_nil_iff` — the last piece is empty behind a separator, and in the empty text.
-/

namespace ArithFormula.Text

/-! ## Separators -/

/-- The place holds a comma, and in front of it as much is closed as is opened. -/
def IsSeparator (depth : Nat) (text : Text) (place : Nat) : Prop :=
  text[place]? = some ',' ∧
    depth + (text.take place).count '(' = (text.take place).count ')'

instance (depth : Nat) (text : Text) (place : Nat) : Decidable (IsSeparator depth text place) :=
  inferInstanceAs (Decidable (_ ∧ _))

/-- The places of all separators, in ascending order. -/
def separators (depth : Nat) (text : Text) : List Nat :=
  (List.range text.length).filter fun place => IsSeparator depth text place

/-- The text ends with a separator. -/
def EndsWithSeparator (text : Text) : Prop :=
  ∃ front, text = front ++ [','] ∧ front.count '(' = front.count ')'

theorem lt_length_of_mem_separators {depth : Nat} {text : Text} {place : Nat}
    (h : place ∈ separators depth text) : place < text.length :=
  List.mem_range.mp (List.mem_filter.mp h).1

theorem isSeparator_zero {depth : Nat} {c : Char} {rest : Text} :
    IsSeparator depth (c :: rest) 0 ↔ c = ',' ∧ depth = 0 := by
  simp [IsSeparator]

/-- A place behind the first character holds a separator of the rest, read from the next depth. -/
theorem isSeparator_succ {depth : Nat} {c : Char} (h : ¬(c = ')' ∧ depth = 0)) {rest : Text}
    {place : Nat} :
    IsSeparator depth (c :: rest) (place + 1) ↔ IsSeparator (nest depth c) rest place := by
  have hcount := nest_add_count h (rest.take place)
  simp only [IsSeparator, List.getElem?_cons_succ, List.take_succ_cons]
  constructor
  · intro hsep
    exact ⟨hsep.1, by omega⟩
  · intro hsep
    exact ⟨hsep.1, by omega⟩

/-- What follows a place does not matter to it. -/
theorem isSeparator_append {depth : Nat} {front back : Text} {place : Nat}
    (h : place < front.length) :
    IsSeparator depth (front ++ back) place ↔ IsSeparator depth front place := by
  rw [IsSeparator, List.getElem?_append_left h, List.take_append_of_le_length (Nat.le_of_lt h)]
  rfl

/-- One character more in front may be a separator, and moves the others one place on. -/
theorem separators_cons {depth : Nat} {c : Char} (h : ¬(c = ')' ∧ depth = 0)) (rest : Text) :
    separators depth (c :: rest) =
      (if c = ',' ∧ depth = 0 then [0] else []) ++
        (separators (nest depth c) rest).map (· + 1) := by
  have hrest : ((List.range rest.length).map Nat.succ).filter
        (fun place => IsSeparator depth (c :: rest) place) =
      (separators (nest depth c) rest).map (· + 1) := by
    rw [List.filter_map, separators]
    congr 1
    apply List.filter_congr
    intro place _
    exact decide_eq_decide.mpr (isSeparator_succ h)
  rw [separators, List.length_cons, List.range_succ_eq_map, List.filter_cons, hrest]
  by_cases hsep : c = ',' ∧ depth = 0
  · rw [if_pos (decide_eq_true (isSeparator_zero.mpr hsep)), if_pos hsep]
    rfl
  · have hzero : ¬decide (IsSeparator depth (c :: rest) 0) = true := by
      rw [decide_eq_true_eq, isSeparator_zero]
      exact hsep
    rw [if_neg hzero, if_neg hsep]
    rfl

/-- One character more at the end may be a separator, and leaves the others where they are. -/
theorem separators_concat (depth : Nat) (front : Text) (c : Char) :
    separators depth (front ++ [c]) =
      separators depth front ++
        if c = ',' ∧ depth + front.count '(' = front.count ')' then [front.length] else [] := by
  have hfront : (List.range front.length).filter
        (fun place => IsSeparator depth (front ++ [c]) place) = separators depth front := by
    apply List.filter_congr
    intro place hplace
    exact decide_eq_decide.mpr (isSeparator_append (List.mem_range.mp hplace))
  have hlast : IsSeparator depth (front ++ [c]) front.length ↔
      c = ',' ∧ depth + front.count '(' = front.count ')' := by
    simp [IsSeparator]
  rw [separators, List.length_append, List.length_singleton, List.range_succ, List.filter_append,
    hfront]
  congr 1
  simp only [List.filter_cons, List.filter_nil, decide_eq_true_eq, hlast]

/-! ## Cutting at places -/

/-- The parts of a text from a start on, between ascending places; the characters at these places
are left out. -/
def cutAt (text : Text) (start : Nat) : List Nat → List Text
  | [] => [text.drop start]
  | place :: places => (text.take place).drop start :: cutAt text (place + 1) places

theorem length_cutAt (text : Text) (start : Nat) (places : List Nat) :
    (cutAt text start places).length = places.length + 1 := by
  induction places generalizing start with
  | nil => rfl
  | cons place places ih => rw [cutAt, List.length_cons, ih, List.length_cons]

/-- Behind its first character a text is cut like the rest, one place on. -/
theorem cutAt_cons (c : Char) (rest : Text) (start : Nat) (places : List Nat) :
    cutAt (c :: rest) (start + 1) (places.map (· + 1)) = cutAt rest start places := by
  induction places generalizing start with
  | nil => rfl
  | cons place places ih => rw [List.map_cons, cutAt, cutAt, ih, List.take_succ_cons,
      List.drop_succ_cons]

/-- A character in front of the first place belongs to the first part. -/
theorem cutAt_cons_zero {c : Char} {rest first : Text} {places : List Nat} {others : List Text}
    (h : cutAt rest 0 places = first :: others) :
    cutAt (c :: rest) 0 (places.map (· + 1)) = (c :: first) :: others := by
  cases places with
  | nil =>
      obtain ⟨rfl, rfl⟩ : rest = first ∧ [] = others := by simpa [cutAt] using h
      rfl
  | cons place places =>
      obtain ⟨rfl, rfl⟩ : rest.take place = first ∧ cutAt rest (place + 1) places = others := by
        simpa [cutAt] using h
      rw [List.map_cons, cutAt, cutAt_cons, List.take_succ_cons]
      rfl

/-- The last part begins behind the last place. -/
theorem getLast?_cutAt (text : Text) (start : Nat) (places : List Nat) :
    (cutAt text start places).getLast? =
      some (text.drop (places.getLast?.elim start (· + 1))) := by
  induction places generalizing start with
  | nil => rfl
  | cons place places ih =>
      rw [cutAt, List.getLast?_cons, ih, List.getLast?_cons]
      cases places.getLast? <;> rfl

/-! ## Pieces -/

/-- The scan cuts exactly at the separators. -/
theorem cutAt_separators {depth : Nat} {text : Text} (h : depthAfter depth text ≠ none) :
    cutAt text 0 (separators depth text) = (pieces depth text).1 :: (pieces depth text).2 := by
  induction text generalizing depth with
  | nil => rfl
  | cons c rest ih =>
      have hclose : ¬(c = ')' ∧ depth = 0) := by
        intro hc
        simp [depthAfter, hc] at h
      rw [depthAfter, if_neg hclose] at h
      have hrest := ih h
      rw [separators_cons hclose]
      by_cases hsep : c = ',' ∧ depth = 0
      · obtain ⟨rfl, rfl⟩ := hsep
        rw [if_pos ⟨rfl, rfl⟩, pieces_separator, List.singleton_append, cutAt, cutAt_cons]
        exact congrArg ([] :: ·) hrest
      · rw [if_neg hsep, List.nil_append, pieces_other hsep]
        exact cutAt_cons_zero hrest

/-- The last piece is empty behind a separator that ends the text, and in the empty text. -/
theorem getLast?_cut_eq_nil_iff (text : Text) :
    (cutAt text 0 (separators 0 text)).getLast? = some [] ↔
      text = [] ∨ EndsWithSeparator text := by
  rw [getLast?_cutAt, Option.some.injEq, List.drop_eq_nil_iff]
  rcases List.eq_nil_or_concat text with rfl | ⟨front, c, rfl⟩
  · simp
  · rw [List.concat_eq_append, separators_concat]
    have hends : EndsWithSeparator (front ++ [c]) ↔
        c = ',' ∧ 0 + front.count '(' = front.count ')' := by
      simp only [EndsWithSeparator, Nat.zero_add]
      constructor
      · intro ⟨front', heq, hcount⟩
        obtain ⟨rfl, hc⟩ := List.append_inj' heq rfl
        exact ⟨by simpa using hc, hcount⟩
      · intro ⟨hc, hcount⟩
        exact ⟨front, by rw [hc], hcount⟩
    rw [hends, List.length_append, List.length_singleton]
    by_cases hlast : c = ',' ∧ 0 + front.count '(' = front.count ')'
    · simp [hlast]
    · -- All separators stand in front of the last character, which is left over.
      rw [if_neg hlast, List.append_nil]
      have hplace : (separators 0 front).getLast?.elim 0 (· + 1) ≤ front.length := by
        cases hplaces : (separators 0 front).getLast? with
        | none => exact Nat.zero_le _
        | some place => exact lt_length_of_mem_separators (List.mem_of_getLast? hplaces)
      simp only [List.append_eq_nil_iff, reduceCtorEq, and_false, hlast, or_false, iff_false]
      omega

end ArithFormula.Text
