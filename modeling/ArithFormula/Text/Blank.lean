import ArithFormula.Text.Basic

/-!
# Blank characters and trimming

The blank characters are those with the Unicode property `White_Space`: twenty-five
code points, kept here as ten ranges. Trimming removes the blanks at both ends of
a text and nothing else.

## Main results

* `trim_append_blank` — blanks added at either end do not change the trimmed text.
* `eq_append_trim` — a text is its trimmed text between two blank texts.
* `trim_trim` — trimming settles in one step.
* `trim_eq_nil_iff` — only blank texts trim to the empty text.
* `trim_append_cons` — around a character that is not blank each side is trimmed on
  its own.
-/

namespace ArithFormula.Text

/-! ## The table -/

/-- The code points of the property `White_Space`, as inclusive ranges in ascending order. -/
def blankRanges : List (Nat × Nat) :=
  [(0x0009, 0x000D), (0x0020, 0x0020), (0x0085, 0x0085), (0x00A0, 0x00A0), (0x1680, 0x1680),
    (0x2000, 0x200A), (0x2028, 0x2029), (0x202F, 0x202F), (0x205F, 0x205F), (0x3000, 0x3000)]

/-- Whether a character is blank. -/
def isBlank (c : Char) : Bool :=
  blankRanges.any fun (first, last) => first ≤ c.toNat && c.toNat ≤ last

/-- The table holds twenty-five code points. -/
example : (blankRanges.map fun (first, last) => last + 1 - first).sum = 25 := by decide

/-- A text of blanks only. -/
def Blank (text : Text) : Prop := ∀ c ∈ text, isBlank c = true

instance (text : Text) : Decidable (Blank text) :=
  decidable_of_iff (text.all isBlank = true) List.all_eq_true

theorem blank_nil : Blank [] := by simp [Blank]

theorem blank_cons {c : Char} {text : Text} :
    Blank (c :: text) ↔ isBlank c = true ∧ Blank text := by simp [Blank]

theorem blank_append {left right : Text} :
    Blank (left ++ right) ↔ Blank left ∧ Blank right := by
  simp only [Blank, List.mem_append]
  exact ⟨fun h => ⟨fun c hc => h c (.inl hc), fun c hc => h c (.inr hc)⟩,
    fun h c hc => hc.elim (h.1 c) (h.2 c)⟩

theorem blank_reverse {text : Text} : Blank text.reverse ↔ Blank text := by simp [Blank]

/-! ## Trimming -/

/-- The text without its leading blanks. -/
def trimStart (text : Text) : Text := text.dropWhile isBlank

/-- The text without its trailing blanks. -/
def trimEnd (text : Text) : Text := (trimStart text.reverse).reverse

/-- The text without the blanks at its two ends. -/
def trim (text : Text) : Text := trimEnd (trimStart text)

theorem trimStart_append_blank {blanks : Text} (h : Blank blanks) (text : Text) :
    trimStart (blanks ++ text) = trimStart text := by
  induction blanks with
  | nil => rfl
  | cons c blanks ih =>
      obtain ⟨hc, hblanks⟩ := blank_cons.mp h
      simpa [trimStart, List.dropWhile_cons, hc] using ih hblanks

theorem trimStart_blank {text : Text} (h : Blank text) : trimStart text = [] := by
  simpa [trimStart] using trimStart_append_blank h []

theorem exists_blank_append_trimStart (text : Text) :
    ∃ blanks, Blank blanks ∧ text = blanks ++ trimStart text :=
  ⟨text.takeWhile isBlank, List.all_eq_true.mp List.all_takeWhile,
    List.takeWhile_append_dropWhile.symm⟩

theorem trimStart_append_of_not_blank {text : Text} (h : ¬Blank text) (tail : Text) :
    trimStart (text ++ tail) = trimStart text ++ tail := by
  induction text with
  | nil => exact absurd blank_nil h
  | cons c text ih =>
      by_cases hc : isBlank c = true
      · have htext : ¬Blank text := fun hb => h (blank_cons.mpr ⟨hc, hb⟩)
        simpa [trimStart, List.dropWhile_cons, hc] using ih htext
      · simp [trimStart, hc]

theorem trimStart_trimStart (text : Text) : trimStart (trimStart text) = trimStart text := by
  obtain ⟨blanks, hblanks, htext⟩ := exists_blank_append_trimStart text
  have h := trimStart_append_blank hblanks (trimStart text)
  rw [← htext] at h
  exact h.symm

theorem trimEnd_append_blank {blanks : Text} (h : Blank blanks) (text : Text) :
    trimEnd (text ++ blanks) = trimEnd text := by
  simp only [trimEnd, List.reverse_append]
  rw [trimStart_append_blank (blank_reverse.mpr h)]

theorem exists_trimEnd_append_blank (text : Text) :
    ∃ blanks, Blank blanks ∧ text = trimEnd text ++ blanks := by
  obtain ⟨blanks, hblanks, h⟩ := exists_blank_append_trimStart text.reverse
  refine ⟨blanks.reverse, blank_reverse.mpr hblanks, ?_⟩
  rw [trimEnd, ← List.reverse_append, ← h, List.reverse_reverse]

/-- Blanks added at either end do not change the trimmed text. -/
theorem trim_append_blank {leading trailing : Text} (hleading : Blank leading)
    (htrailing : Blank trailing) (text : Text) :
    trim (leading ++ text ++ trailing) = trim text := by
  rw [trim, List.append_assoc, trimStart_append_blank hleading]
  by_cases htext : Blank text
  · rw [trimStart_blank (blank_append.mpr ⟨htext, htrailing⟩), trim, trimStart_blank htext]
  · rw [trimStart_append_of_not_blank htext, trimEnd_append_blank htrailing, trim]

/-- A text is its trimmed text between two blank texts. -/
theorem eq_append_trim (text : Text) :
    ∃ leading trailing, Blank leading ∧ Blank trailing ∧
      text = leading ++ trim text ++ trailing := by
  obtain ⟨leading, hleading, hstart⟩ := exists_blank_append_trimStart text
  obtain ⟨trailing, htrailing, hend⟩ := exists_trimEnd_append_blank (trimStart text)
  refine ⟨leading, trailing, hleading, htrailing, ?_⟩
  rw [List.append_assoc, trim, ← hend, ← hstart]

theorem trim_trim (text : Text) : trim (trim text) = trim text := by
  obtain ⟨leading, trailing, hleading, htrailing, h⟩ := eq_append_trim text
  have htrim := trim_append_blank hleading htrailing (trim text)
  rw [← h] at htrim
  exact htrim.symm

theorem trim_eq_nil_iff {text : Text} : trim text = [] ↔ Blank text := by
  refine ⟨fun h => ?_, fun h => ?_⟩
  · obtain ⟨leading, trailing, hleading, htrailing, htext⟩ := eq_append_trim text
    rw [htext, h, List.append_nil]
    exact blank_append.mpr ⟨hleading, htrailing⟩
  · rw [trim, trimStart_blank h]
    rfl

theorem length_trim_le (text : Text) : (trim text).length ≤ text.length := by
  obtain ⟨leading, trailing, _, _, h⟩ := eq_append_trim text
  have := congrArg List.length h
  simp only [List.length_append] at this
  omega

theorem count_trim_le (c : Char) (text : Text) : (trim text).count c ≤ text.count c := by
  obtain ⟨leading, trailing, _, _, h⟩ := eq_append_trim text
  have := congrArg (List.count c) h
  simp only [List.count_append] at this
  omega

/-- The trimmed text is a contiguous part of the text. -/
theorem trim_isInfix (text : Text) : trim text <:+: text := by
  obtain ⟨leading, trailing, _, _, h⟩ := eq_append_trim text
  exact ⟨leading, trailing, h.symm⟩

/-- A trimmed text has no blanks at its ends. -/
theorem eq_nil_of_trim_eq_self {leading text trailing : Text} (hleading : Blank leading)
    (htrailing : Blank trailing)
    (h : trim (leading ++ text ++ trailing) = leading ++ text ++ trailing) :
    leading = [] ∧ trailing = [] := by
  have hlength := congrArg List.length h
  have hshort := length_trim_le text
  rw [trim_append_blank hleading htrailing, List.length_append, List.length_append] at hlength
  exact ⟨List.eq_nil_of_length_eq_zero (by omega), List.eq_nil_of_length_eq_zero (by omega)⟩

theorem trimStart_of_trim_eq_self {text : Text} (h : trim text = text) :
    trimStart text = text := by
  obtain ⟨blanks, hblanks, htext⟩ := exists_blank_append_trimStart text
  rw [htext, ← List.append_nil (blanks ++ _)] at h
  rw [(eq_nil_of_trim_eq_self hblanks blank_nil h).1, List.nil_append] at htext
  exact htext.symm

theorem trimEnd_of_trim_eq_self {text : Text} (h : trim text = text) : trimEnd text = text := by
  obtain ⟨blanks, hblanks, htext⟩ := exists_trimEnd_append_blank text
  rw [htext, ← List.nil_append (trimEnd text)] at h
  rw [(eq_nil_of_trim_eq_self blank_nil hblanks h).2, List.append_nil] at htext
  exact htext.symm

/-- Every character of the trimmed text stands in the text. -/
theorem mem_of_mem_trim {c : Char} {text : Text} (h : c ∈ trim text) : c ∈ text := by
  obtain ⟨leading, trailing, _, _, htext⟩ := eq_append_trim text
  rw [htext]
  simp [h]

/-- A character that is not blank survives trimming. -/
theorem mem_trim_of_mem {c : Char} {text : Text} (hc : isBlank c = false) (h : c ∈ text) :
    c ∈ trim text := by
  obtain ⟨leading, trailing, hleading, htrailing, htext⟩ := eq_append_trim text
  rw [htext, List.mem_append, List.mem_append] at h
  rcases h with (h | h) | h
  · exact absurd (hleading c h) (by simp [hc])
  · exact h
  · exact absurd (htrailing c h) (by simp [hc])

/-! ## Trimming around a character that is not blank -/

theorem trimStart_eq_self {text : Text} (h : ∀ c ∈ text, isBlank c = false) :
    trimStart text = text := by
  cases text with
  | nil => rfl
  | cons c text => simp [trimStart, h c (by simp)]

/-- A text without blanks is its own trimmed text. -/
theorem trim_eq_self {text : Text} (h : ∀ c ∈ text, isBlank c = false) : trim text = text := by
  have hreverse : ∀ c ∈ text.reverse, isBlank c = false := fun c hc =>
    h c (List.mem_reverse.mp hc)
  rw [trim, trimStart_eq_self h, trimEnd, trimStart_eq_self hreverse, List.reverse_reverse]

theorem trimStart_append_cons {c : Char} (hc : isBlank c = false) (front back : Text) :
    trimStart (front ++ c :: back) = trimStart front ++ c :: back := by
  by_cases hfront : Blank front
  · rw [trimStart_append_blank hfront, trimStart_blank hfront]
    simp [trimStart, hc]
  · exact trimStart_append_of_not_blank hfront _

theorem trimEnd_append_cons {c : Char} (hc : isBlank c = false) (front back : Text) :
    trimEnd (front ++ c :: back) = front ++ c :: trimEnd back := by
  rw [trimEnd, List.reverse_append, List.reverse_cons, List.append_assoc, List.singleton_append,
    trimStart_append_cons hc]
  simp [trimEnd]

/-- Around a character that is not blank each side is trimmed on its own. -/
theorem trim_append_cons {c : Char} (hc : isBlank c = false) (front back : Text) :
    trim (front ++ c :: back) = trimStart front ++ c :: trimEnd back := by
  rw [trim, trimStart_append_cons hc, trimEnd_append_cons hc]

theorem trim_trimStart (text : Text) : trim (trimStart text) = trim text := by
  rw [trim, trimStart_trimStart, trim]

theorem trim_trimEnd (text : Text) : trim (trimEnd text) = trim text := by
  obtain ⟨blanks, hblanks, htext⟩ := exists_trimEnd_append_blank text
  have htrim := trim_append_blank blank_nil hblanks (trimEnd text)
  rw [List.nil_append, ← htext] at htrim
  exact htrim.symm

end ArithFormula.Text
