import ArithFormula.Decimal.Literal

/-!
# The grammar of decimal literals

A literal is read by splitting off one part after another. Here the same texts are
given by what they are put together from, without any splitting: a sign, a significand
and an exponent, each with the forms it may take.

The splitting loses nothing and stops in one place only, because each part ends where
the next one starts with a character that the part cannot have.

## Main results

* `ofText?_eq_some_iff` — what is read is exactly what is spelled.
* `read?_eq_none_of_mem` — a literal has digits and the five marks `+ - . e E` only.
-/

namespace ArithFormula.Literal

/-! ## Forms -/

/-- A text of digits, possibly empty. -/
def Digits (text : Text) : Prop := ∀ c ∈ text, c.isDigit = true

/-- The spellings of a sign: none at all is positive. -/
inductive SpellsSign : Bool → Text → Prop where
  | absent : SpellsSign false []
  | plus : SpellsSign false ['+']
  | minus : SpellsSign true ['-']

/-- The spellings of a significand with the given digits before and after its point. -/
inductive SpellsSignificand : Text → Text → Text → Prop where
  | integer {whole : Text} (hwhole : Digits whole) (hne : whole ≠ []) :
      SpellsSignificand whole [] whole
  | point {whole fraction : Text} (hwhole : Digits whole) (hne : whole ≠ [])
      (hfraction : Digits fraction) :
      SpellsSignificand whole fraction (whole ++ '.' :: fraction)
  | pointFirst {fraction : Text} (hfraction : Digits fraction) (hne : fraction ≠ []) :
      SpellsSignificand [] fraction ('.' :: fraction)

/-- The spellings of an exponent: none at all is zero. -/
inductive SpellsExponent : Int → Text → Prop where
  | absent : SpellsExponent 0 []
  | present {mark : Char} {negative : Bool} {sign digits : Text} (hmark : mark = 'e' ∨ mark = 'E')
      (hsign : SpellsSign negative sign) (hdigits : Digits digits) (hne : digits ≠ []) :
      SpellsExponent (if negative then -(natOfDigits digits : Int) else natOfDigits digits)
        (mark :: (sign ++ digits))

/-- The spellings of a literal: sign, significand, exponent. Each digit after the point makes
the digits count for a tenth of what they would. -/
inductive Spells : Literal → Text → Prop where
  | parts {negative : Bool} {exponent : Int} {sign whole fraction significand power : Text}
      (hsign : SpellsSign negative sign)
      (hsignificand : SpellsSignificand whole fraction significand)
      (hexponent : SpellsExponent exponent power) :
      Spells ⟨negative, natOfDigits (whole ++ fraction), exponent - fraction.length⟩
        (sign ++ (significand ++ power))

/-! ## Signs -/

/-- A sign in front of a character that is none is split off. -/
theorem splitSign_append {negative : Bool} {sign : Text} (h : SpellsSign negative sign)
    {rest : Text} (hrest : ∀ c ∈ rest.head?, c ≠ '-' ∧ c ≠ '+') :
    splitSign (sign ++ rest) = (negative, rest) := by
  cases h with
  | plus => rfl
  | minus => rfl
  | absent =>
      cases rest with
      | nil => rfl
      | cons c rest =>
          obtain ⟨hminus, hplus⟩ := hrest c (by simp)
          simp [splitSign, hminus, hplus]

theorem exists_spellsSign (text : Text) :
    ∃ sign, SpellsSign (splitSign text).1 sign ∧ text = sign ++ (splitSign text).2 := by
  match text with
  | [] => exact ⟨[], .absent, rfl⟩
  | c :: rest =>
      by_cases hminus : c = '-'
      · subst hminus
        exact ⟨['-'], .minus, rfl⟩
      · by_cases hplus : c = '+'
        · subst hplus
          exact ⟨['+'], .plus, rfl⟩
        · have hsplit : splitSign (c :: rest) = (false, c :: rest) := by
            simp [splitSign, hminus, hplus]
          rw [hsplit]
          exact ⟨[], .absent, rfl⟩

theorem ne_sign_of_isDigit {c : Char} (h : c.isDigit = true) : c ≠ '-' ∧ c ≠ '+' := by
  refine ⟨?_, ?_⟩ <;>
    · intro hc
      subst hc
      revert h
      decide

/-- The head of a non-empty text of digits is no sign. -/
theorem Digits.head_ne_sign {digits : Text} (h : Digits digits) (hne : digits ≠ [])
    (rest : Text) : ∀ c ∈ (digits ++ rest).head?, c ≠ '-' ∧ c ≠ '+' := by
  intro c hc
  cases digits with
  | nil => exact absurd rfl hne
  | cons d digits =>
      obtain rfl : d = c := by simpa using hc
      exact ne_sign_of_isDigit (h d (by simp))

/-! ## Exponents -/

theorem exponent?_eq_some_iff {text : Text} {exponent : Int} :
    exponent? text = some exponent ↔ SpellsExponent exponent text := by
  constructor
  · intro h
    cases text with
    | nil =>
        obtain rfl : 0 = exponent := by simpa [exponent?] using h
        exact .absent
    | cons mark rest =>
        simp only [exponent?, signedInteger?, Option.ite_none_right_eq_some] at h
        obtain ⟨hmark, ⟨hne, hall⟩, hvalue⟩ := h
        obtain ⟨sign, hsign, hrest⟩ := exists_spellsSign rest
        rw [← Option.some.inj hvalue, hrest]
        have hdigits : Digits (splitSign rest).2 := by
          simpa [Digits] using hall
        have hspells := SpellsExponent.present hmark hsign hdigits hne
        rwa [← hrest] at hspells ⊢
  · intro h
    cases h with
    | absent => rfl
    | present hmark hsign hdigits hne =>
        have hsplit := splitSign_append hsign (by simpa using hdigits.head_ne_sign hne [])
        have hall : List.all _ Char.isDigit = true := List.all_eq_true.mpr hdigits
        simp only [exponent?, if_pos hmark, signedInteger?, hsplit, hall]
        simp [hne]

/-- No exponent starts with a digit or a point. -/
theorem SpellsExponent.head_ne {exponent : Int} {text : Text} (h : SpellsExponent exponent text) :
    ∀ c ∈ text.head?, c.isDigit = false ∧ c ≠ '.' := by
  intro c hc
  cases h with
  | absent => simp at hc
  | @present mark _ _ _ hmark _ _ _ =>
      obtain rfl : mark = c := by simpa using hc
      rcases hmark with rfl | rfl <;> decide

/-! ## Significands -/

theorem splitFraction_of_ne {text : Text} (h : ∀ c ∈ text.head?, c ≠ '.') :
    splitFraction text = ([], text) := by
  cases text with
  | nil => rfl
  | cons c rest =>
      have hc : c ≠ '.' := h c (by simp)
      simp [splitFraction, hc]

/-- A significand in front of a character that is neither digit nor point is split off with its
two runs of digits. -/
theorem split_append {whole fraction significand : Text}
    (h : SpellsSignificand whole fraction significand) {rest : Text}
    (hrest : ∀ c ∈ rest.head?, c.isDigit = false ∧ c ≠ '.') :
    (splitDigits (significand ++ rest)).1 = whole ∧
      splitFraction (splitDigits (significand ++ rest)).2 = (fraction, rest) := by
  have hdigit : ∀ c ∈ rest.head?, c.isDigit = false := fun c hc => (hrest c hc).1
  cases h with
  | integer hwhole hne =>
      rw [splitDigits_append rest hwhole hdigit]
      exact ⟨rfl, splitFraction_of_ne fun c hc => (hrest c hc).2⟩
  | point hwhole hne hfraction =>
      rw [List.append_assoc, splitDigits_append _ hwhole (by simp)]
      exact ⟨rfl, splitDigits_append rest hfraction hdigit⟩
  | pointFirst hfraction hne =>
      have hnone : splitDigits ('.' :: fraction ++ rest) = ([], '.' :: fraction ++ rest) := rfl
      rw [hnone]
      exact ⟨rfl, splitDigits_append rest hfraction hdigit⟩

theorem splitDigits_fst_digits (text : Text) : Digits (splitDigits text).1 :=
  List.all_eq_true.mp List.all_takeWhile

theorem splitDigits_append_eq (text : Text) :
    (splitDigits text).1 ++ (splitDigits text).2 = text :=
  List.takeWhile_append_dropWhile

theorem exists_spellsSignificand {text : Text}
    (h : ¬((splitDigits text).1 = [] ∧ (splitFraction (splitDigits text).2).1 = [])) :
    ∃ significand,
      SpellsSignificand (splitDigits text).1 (splitFraction (splitDigits text).2).1 significand ∧
        text = significand ++ (splitFraction (splitDigits text).2).2 := by
  have hwhole := splitDigits_fst_digits text
  have htext := splitDigits_append_eq text
  generalize splitDigits text = split at h hwhole htext ⊢
  obtain ⟨whole, after⟩ := split
  by_cases hpoint : ∃ rest, after = '.' :: rest
  · obtain ⟨rest, rfl⟩ := hpoint
    have hfraction := splitDigits_fst_digits rest
    have hrest := splitDigits_append_eq rest
    simp only [splitFraction] at h ⊢
    by_cases hne : whole = []
    · subst hne
      refine ⟨'.' :: (splitDigits rest).1, .pointFirst hfraction fun hempty => h ⟨rfl, hempty⟩, ?_⟩
      rw [List.cons_append, hrest, ← htext, List.nil_append]
    · refine ⟨whole ++ '.' :: (splitDigits rest).1, .point hwhole hne hfraction, ?_⟩
      rw [List.append_assoc, List.cons_append, hrest, ← htext]
  · have hnone : splitFraction after = ([], after) := by
      refine splitFraction_of_ne ?_
      intro c hc hdot
      cases after with
      | nil => simp at hc
      | cons d rest =>
          obtain rfl : d = c := by simpa using hc
          exact hpoint ⟨rest, by rw [hdot]⟩
    rw [hnone] at h ⊢
    exact ⟨whole, .integer hwhole fun hempty => h ⟨hempty, rfl⟩, htext.symm⟩

theorem SpellsSignificand.head_ne_sign {whole fraction significand : Text}
    (h : SpellsSignificand whole fraction significand) (rest : Text) :
    ∀ c ∈ (significand ++ rest).head?, c ≠ '-' ∧ c ≠ '+' := by
  cases h with
  | integer hwhole hne => exact hwhole.head_ne_sign hne rest
  | point hwhole hne hfraction =>
      rw [List.append_assoc]
      exact hwhole.head_ne_sign hne _
  | pointFirst hfraction hne => simp

theorem SpellsSignificand.digits_ne_nil {whole fraction significand : Text}
    (h : SpellsSignificand whole fraction significand) : ¬(whole = [] ∧ fraction = []) := by
  cases h with
  | integer _ hne => exact fun hboth => hne hboth.1
  | point _ hne _ => exact fun hboth => hne hboth.1
  | pointFirst _ hne => exact fun hboth => hne hboth.2

/-! ## Literals -/

/-- What is read is exactly what is spelled. -/
theorem ofText?_eq_some_iff {text : Text} {literal : Literal} :
    ofText? text = some literal ↔ Spells literal text := by
  constructor
  · intro h
    simp only [ofText?] at h
    split at h
    · cases h
    · next hne =>
        obtain ⟨exponent, hexponent, rfl⟩ := Option.map_eq_some_iff.mp h
        obtain ⟨sign, hsign, htext⟩ := exists_spellsSign text
        obtain ⟨significand, hsignificand, hunsigned⟩ := exists_spellsSignificand hne
        have hspells := Spells.parts hsign hsignificand (exponent?_eq_some_iff.mp hexponent)
        rwa [← hunsigned, ← htext] at hspells
  · intro h
    cases h with
    | @parts _ _ _ _ _ _ power hsign hsignificand hexponent =>
        have hunsigned := splitSign_append hsign (hsignificand.head_ne_sign power)
        obtain ⟨hwhole, hfraction⟩ := split_append hsignificand hexponent.head_ne
        simp only [ofText?, hunsigned, hwhole, hfraction,
          if_neg hsignificand.digits_ne_nil, exponent?_eq_some_iff.mpr hexponent, Option.map_some]

/-! ## Characters -/

/-- The characters that a literal may have beside digits. -/
def marks : List Char := ['+', '-', '.', 'e', 'E']

theorem SpellsSign.mem_marks {negative : Bool} {sign : Text} (h : SpellsSign negative sign) :
    ∀ c ∈ sign, c ∈ marks := by
  cases h <;> exact Text.forall_mem_of_all (by decide)

theorem Spells.isDigit_or_mem_marks {literal : Literal} {text : Text} (h : Spells literal text) :
    ∀ c ∈ text, c.isDigit = true ∨ c ∈ marks := by
  intro c hc
  cases h with
  | parts hsign hsignificand hexponent =>
      rcases List.mem_append.mp hc with hc | hc
      · exact .inr (hsign.mem_marks c hc)
      · rcases List.mem_append.mp hc with hc | hc
        · cases hsignificand with
          | integer hwhole _ => exact .inl (hwhole c hc)
          | point hwhole _ hfraction =>
              rcases List.mem_append.mp hc with hc | hc
              · exact .inl (hwhole c hc)
              · rcases List.mem_cons.mp hc with rfl | hc
                · exact .inr (by decide)
                · exact .inl (hfraction c hc)
          | pointFirst hfraction _ =>
              rcases List.mem_cons.mp hc with rfl | hc
              · exact .inr (by decide)
              · exact .inl (hfraction c hc)
        · cases hexponent with
          | absent => simp at hc
          | present hmark hsign' hdigits _ =>
              rcases List.mem_cons.mp hc with rfl | hc
              · exact .inr (by rcases hmark with rfl | rfl <;> decide)
              · rcases List.mem_append.mp hc with hc | hc
                · exact .inr (hsign'.mem_marks c hc)
                · exact .inl (hdigits c hc)

/-- A text with a character that no literal has is not read. -/
theorem read?_eq_none_of_mem {text : Text} {c : Char} (hc : c ∈ text)
    (hdigit : c.isDigit = false) (hmark : c ∉ marks) : read? text = none := by
  cases h : ofText? text with
  | none => simp [read?, h]
  | some literal =>
      have hchar := (ofText?_eq_some_iff.mp h).isDigit_or_mem_marks c hc
      simp [hdigit, hmark] at hchar

end ArithFormula.Literal
