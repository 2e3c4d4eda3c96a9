import ArithFormula.Error
import ArithFormula.Proofs.Decimal.NumberText

/-!
# What a message tells

The message of an error is a label, the same for all errors of a kind, and behind it the
details: a quoted text, a keyword with two numbers, a limit, a number. What is quoted comes
from a formula and may itself contain quotation marks, blanks or the words of any message.

Still nothing is lost. No label starts another one, so the front of a message gives its kind,
whatever stands behind it. A single quoted text ends where the message does. Where more than
one thing is told, the message has to be taken apart from its end: numbers have no blanks,
and quoted keywords may.

## Main results

* `ParseError.message_inj` — different reading errors have different messages.
* `FormulaError.render_inj` — different errors are rendered differently.
* `FormulaError.render_ne_toText` — no error is rendered as a number is written.
-/

namespace ArithFormula

/-! ## Labels -/

namespace Text

/-- None of these kinds has a label that starts the label of another one. -/
def Separates {κ : Type} (label : κ → Text) (kinds : List κ) : Prop :=
  ∀ k ∈ kinds, ∀ l ∈ kinds, label k <+: label l → k = l

instance {κ : Type} [DecidableEq κ] (label : κ → Text) (kinds : List κ) :
    Decidable (Separates label kinds) :=
  inferInstanceAs (Decidable (∀ k ∈ kinds, ∀ l ∈ kinds, label k <+: label l → k = l))

/-- Behind separate labels, the text gives the kind and what stands behind the label. -/
theorem Separates.append_inj {κ : Type} {label : κ → Text} {kinds : List κ}
    (h : Separates label kinds) {k l : κ} (hk : k ∈ kinds) (hl : l ∈ kinds) {x y : Text}
    (heq : label k ++ x = label l ++ y) : k = l ∧ x = y := by
  have hx : label k <+: label k ++ x := List.prefix_append _ x
  have hy : label l <+: label k ++ x := heq ▸ List.prefix_append _ y
  have hkind : k = l := by
    cases List.prefix_or_prefix_of_prefix hx hy with
    | inl hstarts => exact h k hk l hl hstarts
    | inr hstarts => exact (h l hl k hk hstarts).symm
  subst hkind
  exact ⟨rfl, List.append_cancel_left heq⟩

end Text

/-! ## Details -/

theorem quoted_inj {text text' : Text} (h : quoted text = quoted text') : text = text' := by
  simpa [quoted] using h

theorem Decimal.digitsText_inj {n k : Nat} (h : digitsText n = digitsText k) : n = k := by
  calc n = Nat.ofDigitChars 10 (digitsText n) 0 := Nat.ofDigitChars_ten_toDigits.symm
    _ = Nat.ofDigitChars 10 (digitsText k) 0 := by rw [h]
    _ = k := Nat.ofDigitChars_ten_toDigits

theorem Decimal.blank_not_mem_digitsText (n : Nat) : ' ' ∉ digitsText n := by
  intro h
  exact absurd (isDigit_of_mem_digitsText h) (by decide)

/-- A number at the end of a text is told from words in front of it that end with a blank. -/
theorem Decimal.append_digitsText_inj {words x y : Text} {n k : Nat}
    (hwords : words.getLast? = some ' ')
    (h : x ++ words ++ digitsText n = y ++ words ++ digitsText k) : x = y ∧ n = k := by
  obtain ⟨front, rfl⟩ := List.getLast?_eq_some_iff.mp hwords
  have hmark : (x ++ front) ++ ' ' :: digitsText n = (y ++ front) ++ ' ' :: digitsText k := by
    simpa using h
  obtain ⟨htext, hdigits⟩ :=
    Text.append_last_mark_inj (blank_not_mem_digitsText n) (blank_not_mem_digitsText k) hmark
  exact ⟨List.append_cancel_right htext, digitsText_inj hdigits⟩

/-! ## Reading errors -/

namespace ParseError

/-- The error of the same kind that tells nothing. -/
def kind : ParseError → ParseError
  | .blank => .blank
  | .notANumber _ => .notANumber []
  | .noOpening _ => .noOpening []
  | .noClosing _ => .noClosing []
  | .closingBeforeOpening _ => .closingBeforeOpening []
  | .tooManyClosing => .tooManyClosing
  | .unclosed => .unclosed
  | .noKeyword _ => .noKeyword []
  | .unknownFunction _ => .unknownFunction []
  | .wrongCount _ _ _ => .wrongCount [] 0 0
  | .tooDeep _ => .tooDeep 0

/-- All kinds of reading errors. -/
def kinds : List ParseError :=
  [.blank, .notANumber [], .noOpening [], .noClosing [], .closingBeforeOpening [], .tooManyClosing,
    .unclosed, .noKeyword [], .unknownFunction [], .wrongCount [] 0 0, .tooDeep 0]

/-- The words that the messages of a kind start with. -/
def label : ParseError → Text
  | .blank => "Input cannot be empty or whitespace".toList
  | .notANumber _ => "Invalid number format: ".toList
  | .noOpening _ => "Missing opening parenthesis in: ".toList
  | .noClosing _ => "Missing closing parenthesis in: ".toList
  | .closingBeforeOpening _ => "Mismatched parentheses in: ".toList
  | .tooManyClosing => "Mismatched parentheses: too many closing parentheses".toList
  | .unclosed => "Mismatched parentheses: unclosed opening parentheses".toList
  | .noKeyword _ => "Missing function name in: ".toList
  | .unknownFunction _ => "Unknown function: ".toList
  | .wrongCount _ _ _ => "Function ".toList
  | .tooDeep _ => "Formula nesting exceeds the maximum depth of ".toList

/-- What a message tells behind its label. -/
def details : ParseError → Text
  | .blank | .tooManyClosing | .unclosed => []
  | .notANumber text | .noOpening text | .noClosing text | .closingBeforeOpening text
  | .noKeyword text | .unknownFunction text => quoted text
  | .wrongCount keyword expected actual =>
      quoted keyword ++ " expects ".toList ++ Decimal.digitsText expected ++
        " parameters but got ".toList ++ Decimal.digitsText actual
  | .tooDeep limit => Decimal.digitsText limit

theorem message_eq (e : ParseError) : e.message = e.kind.label ++ e.details := by
  cases e with
  | blank | tooManyClosing | unclosed => exact (List.append_nil _).symm
  | notANumber | noOpening | noClosing | closingBeforeOpening | noKeyword | unknownFunction
  | tooDeep => rfl
  | wrongCount keyword expected actual =>
      show "Function ".toList ++ quoted keyword ++ " expects ".toList ++
          Decimal.digitsText expected ++ " parameters but got ".toList ++
            Decimal.digitsText actual =
        "Function ".toList ++ (quoted keyword ++ " expects ".toList ++
          Decimal.digitsText expected ++ " parameters but got ".toList ++
            Decimal.digitsText actual)
      simp only [List.append_assoc]

theorem kind_mem_kinds (e : ParseError) : e.kind ∈ kinds := by
  cases e <;> simp [kind, kinds]

theorem separates_label : Text.Separates label kinds := by decide +kernel

/-- Within a kind, the details say what the error is about. -/
theorem eq_of_kind_of_details {e e' : ParseError} (hkind : e.kind = e'.kind)
    (hdetails : e.details = e'.details) : e = e' := by
  cases e <;> cases e' <;> simp only [kind, reduceCtorEq] at hkind
  case blank.blank | tooManyClosing.tooManyClosing | unclosed.unclosed => rfl
  case notANumber.notANumber | noOpening.noOpening | noClosing.noClosing |
      closingBeforeOpening.closingBeforeOpening | noKeyword.noKeyword |
      unknownFunction.unknownFunction =>
    rw [quoted_inj hdetails]
  case wrongCount.wrongCount =>
      -- The keyword may contain the words behind it, the numbers may not.
      obtain ⟨hfront, rfl⟩ := Decimal.append_digitsText_inj (by decide) hdetails
      obtain ⟨hquoted, rfl⟩ := Decimal.append_digitsText_inj (by decide) hfront
      rw [quoted_inj hquoted]
  case tooDeep.tooDeep => rw [Decimal.digitsText_inj hdetails]

/-- Different reading errors have different messages. -/
theorem message_inj {e e' : ParseError} (h : e.message = e'.message) : e = e' := by
  rw [message_eq, message_eq] at h
  obtain ⟨hkind, hdetails⟩ :=
    separates_label.append_inj (kind_mem_kinds e) (kind_mem_kinds e') h
  exact eq_of_kind_of_details hkind hdetails

end ParseError

/-! ## All errors -/

namespace FormulaError

/-- The error of the same kind that tells nothing. -/
def kind : FormulaError → FormulaError
  | .parse _ => .parse .blank
  | .eval .divisionByZero => .eval .divisionByZero
  | .eval (.notFinite _) => .eval (.notFinite .nan)

/-- All kinds of errors, as far as they are rendered differently. -/
def kinds : List FormulaError :=
  [.parse .blank, .eval .divisionByZero, .eval (.notFinite .nan)]

/-- The words that the texts of a kind start with. -/
def label : FormulaError → Text
  | .parse _ => "Error while parsing formula: ".toList
  | .eval .divisionByZero => "Error: Division by zero".toList
  | .eval (.notFinite _) =>
      "Unexpected error: ".toList ++ "result is not a finite number: ".toList

/-- What a text tells behind its label. -/
def details : FormulaError → Text
  | .parse error => error.message
  | .eval .divisionByZero => []
  | .eval (.notFinite value) => value.toText

theorem render_eq (e : FormulaError) : e.render = e.kind.label ++ e.details := by
  match e with
  | .parse _ => rfl
  | .eval .divisionByZero => exact (List.append_nil _).symm
  | .eval (.notFinite value) => exact (List.append_assoc _ _ _).symm

theorem kind_mem_kinds (e : FormulaError) : e.kind ∈ kinds := by
  match e with
  | .parse _ | .eval .divisionByZero | .eval (.notFinite _) => simp [kind, kinds]

theorem separates_label : Text.Separates label kinds := by decide +kernel

theorem eq_of_kind_of_details {e e' : FormulaError} (hkind : e.kind = e'.kind)
    (hdetails : e.details = e'.details) : e = e' := by
  match e, e' with
  | .parse _, .parse _ => rw [ParseError.message_inj hdetails]
  | .eval .divisionByZero, .eval .divisionByZero => rfl
  | .eval (.notFinite _), .eval (.notFinite _) => rw [Binary64.toText_inj hdetails]
  | .parse _, .eval .divisionByZero | .parse _, .eval (.notFinite _)
  | .eval .divisionByZero, .parse _ | .eval .divisionByZero, .eval (.notFinite _)
  | .eval (.notFinite _), .parse _ | .eval (.notFinite _), .eval .divisionByZero => cases hkind

/-- Different errors are rendered differently. -/
theorem render_inj {e e' : FormulaError} (h : e.render = e'.render) : e = e' := by
  rw [render_eq, render_eq] at h
  obtain ⟨hkind, hdetails⟩ :=
    separates_label.append_inj (kind_mem_kinds e) (kind_mem_kinds e') h
  exact eq_of_kind_of_details hkind hdetails

/-- No error is rendered as a number is written: its label has a letter that no number has. -/
theorem render_ne_toText (e : FormulaError) (x : Binary64) : e.render ≠ x.toText := by
  have hlabels : ∀ k ∈ kinds, 'r' ∈ label k := by decide
  intro h
  have hletter : 'r' ∈ x.toText := by
    rw [← h, render_eq]
    exact List.mem_append_left _ (hlabels _ (kind_mem_kinds e))
  cases Binary64.isDigit_or_mem_marks_of_mem_toText hletter with
  | inl hdigit => exact absurd hdigit (by decide)
  | inr hmark => exact absurd hmark (by decide)

end FormulaError

end ArithFormula
