import ArithFormula.Proofs.Binary64.Nearest
import ArithFormula.Proofs.Expr.Composition

/-!
# The grammar of formulas

Which texts are formulas, and of which expressions, is said here without any scan: a
text derives a number if it spells a literal with a finite nearest number, and a call
if it has the shape of one and its parameters derive the operands. Reading without a
limit finds exactly that. In particular no text derives two expressions.

A derivation is followed by induction on it, a run of the reader by induction on the
recursion of the reader; each needs the other's step only.

## Main results

* `Literal.read?_eq_some_iff` — the literals that stand for a number.
* `Outline.read_eq_call_of_isCallOf` — the step from a derivation to the reader.
* `Expr.derives_iff_parse` — reading accepts what is derived, and nothing else.
-/

namespace ArithFormula

/-! ## Derivations -/

/-- The expressions of a text. Blanks around a text, a parameter or a keyword do not count. -/
inductive Derives : Text → Expr → Prop where
  | number {text : Text} {literal : Literal} {magnitude : Magnitude}
      (hliteral : Literal.Spells literal (Text.trim text))
      (hnearest : IsNearest literal.magnitude.numerator literal.magnitude.denominator
        magnitude.code) :
      Derives text (.number (.finite literal.negative magnitude))
  | call {text left right : Text} {op : Operator} {l r : Expr}
      (hcall : IsCallOf (Text.trim text) op left right)
      (hleft : Derives left l) (hright : Derives right r) :
      Derives text (.call op l r)

/-- Nothing is derived from an empty text. -/
theorem Derives.ne_nil {text : Text} {e : Expr} (h : Derives text e) : text ≠ [] := by
  intro hnil
  subst hnil
  cases h with
  | number hliteral hnearest =>
      have hnone : Literal.ofText? (Text.trim []) = none := by decide
      rw [Literal.ofText?_eq_some_iff.mpr hliteral] at hnone
      cases hnone
  | call hcall hleft hright =>
      obtain ⟨front, inner, post, htext, _⟩ := hcall
      have hempty : Text.trim [] = [] := rfl
      rw [hempty] at htext
      simp at htext

/-- What is derived depends on the trimmed text. -/
theorem derives_trim {text : Text} {e : Expr} : Derives (Text.trim text) e ↔ Derives text e := by
  constructor
  · intro h
    cases h with
    | number hliteral hnearest =>
        rw [Text.trim_trim] at hliteral
        exact .number hliteral hnearest
    | call hcall hleft hright =>
        rw [Text.trim_trim] at hcall
        exact .call hcall hleft hright
  · intro h
    cases h with
    | number hliteral hnearest =>
        rw [← Text.trim_trim] at hliteral
        exact .number hliteral hnearest
    | call hcall hleft hright =>
        rw [← Text.trim_trim] at hcall
        exact .call hcall hleft hright

/-! ## Steps of the reader -/

/-- A text stands for a number exactly if it spells a literal whose nearest number is finite. -/
theorem Literal.read?_eq_some_iff {text : Text} {value : Binary64} :
    read? text = some value ↔
      ∃ literal magnitude, Spells literal text ∧
        IsNearest literal.magnitude.numerator literal.magnitude.denominator magnitude.code ∧
        value = .finite literal.negative magnitude := by
  simp only [read?, value?, Option.bind_eq_some_iff, Option.map_eq_some_iff,
    Literal.ofText?_eq_some_iff, Decimal.nearest?_eq_some_iff]
  constructor
  · intro h
    obtain ⟨literal, hspells, magnitude, hcode, hvalue⟩ := h
    have hnearest := (nearestCode_eq_iff literal.magnitude.denominator_pos).mp hcode
    exact ⟨literal, magnitude, hspells, hnearest, hvalue.symm⟩
  · intro h
    obtain ⟨literal, magnitude, hspells, hnearest, hvalue⟩ := h
    have hcode := (nearestCode_eq_iff literal.magnitude.denominator_pos).mpr hnearest
    exact ⟨literal, hspells, magnitude, hcode, hvalue.symm⟩

/-- A text with the shape of a call is read as that call, if no limit is set. -/
theorem Outline.read_eq_call_of_isCallOf {text left right : Text} {op : Operator}
    (h : IsCallOf (Text.trim text) op left right) (hne : right ≠ []) (depth : Nat) :
    read none depth text = .ok (.call ⟨op, Text.trim left, Text.trim right⟩) := by
  have hopen : '(' ∈ text := by
    obtain ⟨front, inner, post, htext, _⟩ := h
    have hmem : '(' ∈ Text.trim text := by simp [htext]
    exact Text.mem_of_mem_trim hmem
  rw [read_of_opening hopen, Call.read_of_isCallOf h hne]
  rfl

/-! ## A whole run -/

namespace Expr

/-- What is read is derived. -/
theorem derives_of_parseAt {depth : Nat} {text : Text} :
    ∀ {e : Expr}, parseAt none depth text = .ok e → Derives text e := by
  induction depth, text using parseAt.induct none with
  | case1 depth text error h =>
      intro e he
      rw [parseAt_error h] at he
      cases he
  | case2 depth text value h =>
      intro e he
      rw [parseAt_number h] at he
      cases he
      obtain ⟨literal, magnitude, hspells, hnearest, hvalue⟩ :=
        Literal.read?_eq_some_iff.mp (Outline.read_eq_number_iff.mp h)
      rw [hvalue]
      exact .number hspells hnearest
  | case3 depth text found h ihLeft ihRight =>
      intro e he
      rw [parseAt_call h] at he
      obtain ⟨l, hl, he⟩ := bind_eq_ok_iff.mp he
      obtain ⟨r, hr, he⟩ := bind_eq_ok_iff.mp he
      obtain rfl := return_eq_ok_iff.mp he
      obtain ⟨a, b, hcall, ha, hb⟩ :=
        Call.exists_isCallOf_of_read (Outline.read_eq_call_iff.mp h).2
      have hleft : Derives a l := derives_trim.mp (ha ▸ ihLeft hl)
      have hright : Derives b r := derives_trim.mp (hb ▸ ihRight hr)
      exact .call hcall hleft hright

/-- What is derived is read, at any depth. -/
theorem parseAt_of_derives {text : Text} {e : Expr} (h : Derives text e) :
    ∀ depth, parseAt none depth text = .ok e := by
  induction h with
  | @number text literal magnitude hliteral hnearest =>
      intro depth
      have hread : Literal.read? (Text.trim text) =
          some (.finite literal.negative magnitude) :=
        Literal.read?_eq_some_iff.mpr ⟨literal, magnitude, hliteral, hnearest, rfl⟩
      exact parseAt_number (Outline.read_eq_number_iff.mpr hread)
  | call hcall hleft hright ihLeft ihRight =>
      intro depth
      rw [parseAt_call (Outline.read_eq_call_of_isCallOf hcall hright.ne_nil depth), parseAt_trim,
        parseAt_trim, ihLeft (depth + 1), ihRight (depth + 1)]
      rfl

/-- Reading without a limit accepts what is derived, and nothing else: a text from which no
expression is derived is an error. -/
theorem derives_iff_parse (text : Text) :
    (∀ e, parse none text = .ok e ↔ Derives text e) ∧
      ((∀ e, ¬Derives text e) ↔ ∃ error, parse none text = .error error) := by
  have hread : ∀ e, parse none text = .ok e ↔ Derives text e := by
    intro e
    constructor
    · exact derives_of_parseAt
    · intro h
      exact parseAt_of_derives h 0
  refine ⟨hread, ?_⟩
  constructor
  · intro hnone
    cases h : parse none text with
    | error error => exact ⟨error, rfl⟩
    | ok e => exact absurd ((hread e).mp h) (hnone e)
  · intro herror e hderives
    obtain ⟨error, herror⟩ := herror
    rw [(hread e).mpr hderives] at herror
    cases herror

/-- The statement for a call in a call, with blanks, a point without digits in front of it, an
exponent, a comma at the end of a body and text behind it all; and for a word, from which nothing
is derived. -/
theorem derives_iff_parse_nested :
    Derives " add ( 15e-1,\tsubtract(.5 ,-2, )) x".toList
        (.call .add (.number (.finite false ⟨2047 * 2 ^ 51, by decide⟩))
          (.call .subtract (.number (.finite false ⟨1022 * 2 ^ 52, by decide⟩))
            (.number (-.ofNat 2)))) ∧
      ∀ e, ¬Derives "add(1, inf)".toList e := by
  have hread : parse none " add ( 15e-1,\tsubtract(.5 ,-2, )) x".toList =
      .ok (.call .add (.number (.finite false ⟨2047 * 2 ^ 51, by decide⟩))
        (.call .subtract (.number (.finite false ⟨1022 * 2 ^ 52, by decide⟩))
          (.number (-.ofNat 2)))) := by decide +kernel
  have herror : parse none "add(1, inf)".toList = .error (.notANumber "inf".toList) := by
    decide +kernel
  constructor
  · exact ((derives_iff_parse _).1 _).mp hread
  · exact (derives_iff_parse _).2.mpr ⟨_, herror⟩

end Expr

end ArithFormula
