import ArithFormula.Operator
import ArithFormula.Proofs.Text.Parameters

/-!
# The openings of a text

Where a text opens parentheses is visible without reading it: the names directly in front of
the openings, from left to right, and the greatest depth that is reached. A balanced text
**shows** a list of operators up to a depth if its names are their keywords, in order, and it
is never deeper and once as deep as that.

What a text shows is put together like the text itself. Parts on both sides of a comma show
their operators one after another, parentheses around a part show one more operator in front
of the others and one more level, and text without parentheses shows nothing.

## Main results

* `length_names` — there is one name for each opening.
* `ShowsCalls.append_separator`, `ShowsCalls.enclosed` — the two ways of putting texts together.
* `ShowsCalls.of_throughLast` — what stands behind the last `)` of a balanced text shows nothing.
-/

namespace ArithFormula.Text

/-! ## Up to the last occurrence of a mark -/

/-- The text up to and with the last `mark`; the empty text if there is none. -/
def throughLast (mark : Char) (text : Text) : Text :=
  match cutLast mark text with
  | some (before, _) => before ++ [mark]
  | none => []

theorem throughLast_append {mark : Char} {after : Text} (h : mark ∉ after) (before : Text) :
    throughLast mark (before ++ mark :: after) = before ++ [mark] := by
  rw [throughLast, cutLast_append h]

theorem throughLast_of_not_mem {mark : Char} {text : Text} (h : mark ∉ text) :
    throughLast mark text = [] := by
  rw [throughLast, cutLast_eq_none_iff.mpr h]

/-- What is left out has no mark. -/
theorem exists_throughLast_append (mark : Char) (text : Text) :
    ∃ after, mark ∉ after ∧ text = throughLast mark text ++ after := by
  cases h : cutLast mark text with
  | none => exact ⟨text, cutLast_eq_none_iff.mp h, by simp [throughLast, h]⟩
  | some cut =>
      have hcut := eq_append_of_cutLast h
      exact ⟨cut.2, hcut.2, by simpa [throughLast, h] using hcut.1⟩

/-! ## Names in front of openings -/

/-- The names in front of the openings of a text: what stands between an opening and the mark
before it, trimmed. `since` is what was read since the last mark. -/
def namesSince (since : Text) : Text → List Text
  | [] => []
  | c :: rest =>
      if c = '(' then trim since :: namesSince [] rest
      else if c = ')' ∨ c = ',' then namesSince [] rest
      else namesSince (since ++ [c]) rest

/-- The names directly in front of the openings of a text, from left to right. -/
def names (text : Text) : List Text := namesSince [] text

theorem length_namesSince (since text : Text) :
    (namesSince since text).length = text.count '(' := by
  induction text generalizing since with
  | nil => rfl
  | cons c rest ih =>
      simp only [namesSince]
      by_cases hopen : c = '('
      · simp [hopen, ih]
      · rw [if_neg hopen, List.count_cons_of_ne hopen]
        split <;> exact ih _

/-- There is one name for each opening. -/
theorem length_names (text : Text) : (names text).length = text.count '(' :=
  length_namesSince [] text

/-- Text without openings adds no name. -/
theorem namesSince_append_of_no_opening {tail : Text} (h : '(' ∉ tail) (since text : Text) :
    namesSince since (text ++ tail) = namesSince since text := by
  induction text generalizing since with
  | nil =>
      have hlength := length_namesSince since tail
      rw [List.count_eq_zero.mpr h] at hlength
      exact List.eq_nil_of_length_eq_zero hlength
  | cons c rest ih => simp only [List.cons_append, namesSince, ih]

/-- A name starts afresh behind a comma. -/
theorem namesSince_append_separator (since left right : Text) :
    namesSince since (left ++ ',' :: right) = namesSince since left ++ names right := by
  induction left generalizing since with
  | nil => simp [namesSince, names]
  | cons c left ih =>
      simp only [List.cons_append, namesSince, ih]
      split
      · rfl
      · split <;> rfl

/-- Characters that are no mark belong to the next name. -/
theorem namesSince_append_of_no_mark {front : Text}
    (h : ∀ c ∈ front, c ≠ '(' ∧ c ≠ ')' ∧ c ≠ ',') (since back : Text) :
    namesSince since (front ++ back) = namesSince (since ++ front) back := by
  induction front generalizing since with
  | nil => simp
  | cons c front ih =>
      have hc := h c (by simp)
      rw [List.cons_append, namesSince, if_neg hc.1, if_neg (by simp [hc]),
        ih fun c hc => h c (by simp [hc]), List.append_assoc, List.singleton_append]

/-- Blanks in front of a name do not matter. -/
theorem namesSince_append_blank {blanks : Text} (h : Blank blanks) (since text : Text) :
    namesSince (blanks ++ since) text = namesSince since text := by
  induction text generalizing since with
  | nil => rfl
  | cons c rest ih =>
      have htrim : trim (blanks ++ since) = trim since := by
        simpa using trim_append_blank h blank_nil since
      simp only [namesSince, htrim, List.append_assoc, ih]

/-- Blanks around a text do not matter to its names. -/
theorem names_append_blank {leading trailing : Text} (hleading : Blank leading)
    (htrailing : Blank trailing) (text : Text) :
    names (leading ++ text ++ trailing) = names text := by
  have hopen := (no_paren_of_no_mark (no_mark_of_blank htrailing)).1
  rw [names, namesSince_append_of_no_opening hopen,
    namesSince_append_of_no_mark (no_mark_of_blank hleading), List.nil_append,
    ← List.append_nil leading, namesSince_append_blank hleading, names]

/-! ## The greatest depth -/

/-- No front part of the text opens more than `n` levels, and one of them opens `n`. -/
structure IsPeak (text : Text) (n : Nat) : Prop where
  le : ∀ front back, text = front ++ back → front.count '(' ≤ front.count ')' + n
  reached : ∃ front back, text = front ++ back ∧ front.count '(' = front.count ')' + n

theorem isPeak_of_no_opening {text : Text} (h : '(' ∉ text) : IsPeak text 0 := by
  constructor
  · intro front back htext
    have hfront : '(' ∉ front := by
      rw [htext, List.mem_append, not_or] at h
      exact h.1
    rw [List.count_eq_zero.mpr hfront]
    exact Nat.zero_le _
  · exact ⟨[], text, rfl, rfl⟩

namespace IsPeak

variable {left right text : Text} {m n : Nat}

/-- Behind a balanced text the depth is zero again. -/
theorem append (hbalanced : Balanced left) (hleft : IsPeak left m) (hright : IsPeak right n) :
    IsPeak (left ++ right) (max m n) := by
  have htotal := hbalanced.2
  constructor
  · intro front back htext
    rcases List.append_eq_append_iff.mp htext with ⟨more, hfront, hmore⟩ | ⟨more, hmore, hback⟩
    · have hle := hright.le more back hmore
      rw [hfront, List.count_append, List.count_append]
      omega
    · have hle := hleft.le front more hmore
      omega
  · rcases Nat.le_total n m with hle | hle
    · obtain ⟨front, back, htext, hreached⟩ := hleft.reached
      refine ⟨front, back ++ right, ?_, ?_⟩
      · rw [htext, List.append_assoc]
      · omega
    · obtain ⟨front, back, htext, hreached⟩ := hright.reached
      refine ⟨left ++ front, back, ?_, ?_⟩
      · rw [htext, List.append_assoc]
      · rw [List.count_append, List.count_append]
        omega

/-- Behind an opening all depths are one more. -/
theorem opening (h : IsPeak text n) : IsPeak ('(' :: text) (n + 1) := by
  constructor
  · intro front back htext
    cases front with
    | nil => exact Nat.zero_le _
    | cons c front =>
        obtain ⟨rfl, hrest⟩ : '(' = c ∧ text = front ++ back := by simpa using htext
        have hle := h.le front back hrest
        simp
        omega
  · obtain ⟨front, back, htext, hreached⟩ := h.reached
    refine ⟨'(' :: front, back, by rw [htext, List.cons_append], ?_⟩
    simp
    omega

end IsPeak

/-! ## What a text shows -/

/-- The text is balanced, its names are the keywords of the operators, and its greatest depth is
the given one. -/
structure ShowsCalls (text : Text) (operators : List Operator) (depth : Nat) : Prop where
  balanced : Balanced text
  names_eq : names text = operators.map Operator.keyword
  peak : IsPeak text depth

theorem balanced_of_no_paren {text : Text} (hopen : '(' ∉ text) (hclose : ')' ∉ text) :
    Balanced text := by
  constructor
  · intro front back htext
    have hfront : ')' ∉ front := by
      rw [htext, List.mem_append, not_or] at hclose
      exact hclose.1
    rw [List.count_eq_zero.mpr hfront]
    exact Nat.zero_le _
  · rw [List.count_eq_zero.mpr hopen, List.count_eq_zero.mpr hclose]

theorem balanced_append {left right : Text} (hleft : Balanced left) (hright : Balanced right) :
    Balanced (left ++ right) := by
  rw [balanced_iff] at hleft hright ⊢
  rw [depthAfter_append, hleft, Option.bind_some, hright]

/-- Text without parentheses shows nothing. -/
theorem showsCalls_of_no_paren {text : Text} (hopen : '(' ∉ text) (hclose : ')' ∉ text) :
    ShowsCalls text [] 0 := by
  refine ⟨balanced_of_no_paren hopen hclose, ?_, isPeak_of_no_opening hopen⟩
  exact namesSince_append_of_no_opening hopen [] []

namespace ShowsCalls

variable {left right text : Text} {ops ops' : List Operator} {m n : Nat}

/-- Text without parentheses behind a text shows nothing more. -/
theorem append_of_no_paren (h : ShowsCalls text ops n) {tail : Text} (hopen : '(' ∉ tail)
    (hclose : ')' ∉ tail) : ShowsCalls (text ++ tail) ops n := by
  refine ⟨balanced_append h.balanced (balanced_of_no_paren hopen hclose), ?_, ?_⟩
  · rw [names, namesSince_append_of_no_opening hopen]
    exact h.names_eq
  · have hpeak := h.peak.append h.balanced (isPeak_of_no_opening hopen)
    rwa [Nat.max_zero] at hpeak

/-- Blanks around a text show nothing more. -/
theorem append_blank (h : ShowsCalls text ops n) {leading trailing : Text}
    (hleading : Blank leading) (htrailing : Blank trailing) :
    ShowsCalls (leading ++ text ++ trailing) ops n := by
  obtain ⟨hopen, hclose⟩ := no_paren_of_no_mark (no_mark_of_blank hleading)
  have hblanks := balanced_of_no_paren hopen hclose
  have htrail := no_paren_of_no_mark (no_mark_of_blank htrailing)
  have htail := h.append_of_no_paren htrail.1 htrail.2
  rw [List.append_assoc]
  refine ⟨balanced_append hblanks htail.balanced, ?_, ?_⟩
  · rw [← List.append_assoc, names_append_blank hleading htrailing]
    exact h.names_eq
  · have hpeak := (isPeak_of_no_opening hopen).append hblanks htail.peak
    rwa [Nat.zero_max] at hpeak

/-- Parts on both sides of a comma show their operators one after another. -/
theorem append_separator (hleft : ShowsCalls left ops m) (hright : ShowsCalls right ops' n) :
    ShowsCalls (left ++ ',' :: right) (ops ++ ops') (max m n) := by
  refine ⟨balanced_append_separator hleft.balanced hright.balanced, ?_, ?_⟩
  · rw [names, namesSince_append_separator, List.map_append, ← hleft.names_eq, ← hright.names_eq]
    rfl
  · have hcomma : IsPeak [','] 0 := isPeak_of_no_opening (by decide)
    have hpeak := hcomma.append (by decide) hright.peak
    rw [Nat.zero_max] at hpeak
    exact hleft.peak.append hleft.balanced hpeak

/-- A name and parentheses around a part show one more operator and one more level. -/
theorem enclosed (h : ShowsCalls text ops n) {name : Text} {op : Operator}
    (hname : ∀ c ∈ name, c ≠ '(' ∧ c ≠ ')' ∧ c ≠ ',') (hop : trim name = op.keyword) :
    ShowsCalls (name ++ '(' :: (text ++ [')'])) (op :: ops) (n + 1) := by
  obtain ⟨hopen, hclose⟩ := no_paren_of_no_mark hname
  have htail : '(' ∉ [')'] := by decide
  refine ⟨(isParameter_enclosed hname h.balanced).balanced, ?_, ?_⟩
  · rw [names, namesSince_append_of_no_mark hname, List.nil_append, namesSince, if_pos rfl,
      namesSince_append_of_no_opening htail, hop, List.map_cons]
    exact congrArg (op.keyword :: ·) h.names_eq
  · have hpeak := (h.peak.append h.balanced (isPeak_of_no_opening htail)).opening
    rw [Nat.max_zero] at hpeak
    have hall := (isPeak_of_no_opening hopen).append (balanced_of_no_paren hopen hclose) hpeak
    rwa [Nat.zero_max] at hall

/-- What stands behind the last `)` of a balanced text shows nothing more, since a `(` there
would not be closed. -/
theorem of_throughLast (h : ShowsCalls (throughLast ')' text) ops n) (hbalanced : Balanced text) :
    ShowsCalls text ops n := by
  obtain ⟨after, hclose, htext⟩ := exists_throughLast_append ')' text
  have htotal := hbalanced.2
  have hfront := h.balanced.2
  rw [htext, List.count_append, List.count_append, hfront, List.count_eq_zero.mpr hclose] at htotal
  have hopen : '(' ∉ after := List.count_eq_zero.mp (by omega)
  rw [htext]
  exact h.append_of_no_paren hopen hclose

end ShowsCalls

end ArithFormula.Text
