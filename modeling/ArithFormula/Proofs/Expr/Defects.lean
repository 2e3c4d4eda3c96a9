import ArithFormula.Proofs.Expr.Limit
import Mathlib.Control.Monad.Basic

/-!
# What a reading error tells

The reader stops at the first thing that is wrong, which may stand many calls deep, and the
error says what and where. Whatever it says is true of the text as a whole: a fragment that it
quotes stands in the text and is what the error calls it, a count is the wrong number of
parameters of a call in the text, and a limit is exceeded. `Defect` lists for each error what is
so.

Three errors speak of parentheses that do not match, and these are found at the outermost call
or not at all. The reason is that the parameters of a call are pieces of a balanced body, hence
balanced, while each of the three means that the text at hand is not. A fourth one, that every
`)` stands before the first `(`, cannot come out: such a text has a `)` in its keyword and fails
by that.

## Main results

* `Outline.read_eq_error_iff` — the failures of a step.
* `HoldsCall.isInside` — the parameters of a call stand inside it.
* `Outline.defect_of_read` — the error of a step names a defect of the text.
* `Defect.of_parameter` — a defect of a parameter is one of the call around it.
* `Expr.parse_error_defect` — the error of a whole run names a defect of the text.
-/

namespace ArithFormula

/-! ## Texts that are no formulas -/

namespace Outline

/-- A text is no formula at all if it is blank, or if it is neither a number nor a call. -/
theorem read_eq_error_iff {limit : Option Nat} {depth : Nat} {text : Text} {e : ParseError} :
    read limit depth text = .error e ↔
      (Text.Blank text ∧ e = .blank) ∨
        (¬Text.Blank text ∧ Literal.read? (Text.trim text) = none ∧
          (('(' ∉ text ∧ ')' ∉ text ∧ e = .notANumber (Text.trim text)) ∨
            (('(' ∈ text ∨ ')' ∈ text) ∧ Call.read limit depth (Text.trim text) = .error e))) := by
  have hopen : '(' ∈ Text.trim text ↔ '(' ∈ text :=
    ⟨Text.mem_of_mem_trim, Text.mem_trim_of_mem (by decide)⟩
  have hclose : ')' ∈ Text.trim text ↔ ')' ∈ text :=
    ⟨Text.mem_of_mem_trim, Text.mem_trim_of_mem (by decide)⟩
  simp only [read, Text.trim_eq_nil_iff, hopen, hclose]
  by_cases hblank : Text.Blank text
  · simp [hblank, eq_comm]
  · rw [if_neg hblank]
    cases Literal.read? (Text.trim text) with
    | some value => simp [hblank]
    | none =>
        by_cases hparen : '(' ∈ text ∨ ')' ∈ text
        · simp only [if_pos hparen, map_eq_error_iff]
          have hnone : ¬('(' ∉ text ∧ ')' ∉ text) := fun hno => hparen.elim hno.1 hno.2
          simp [hblank, hparen, ← and_assoc, hnone]
        · simp only [if_neg hparen]
          rw [not_or] at hparen
          simp [hblank, hparen, eq_comm]

end Outline

/-! ## Defects -/

/-- A text that stands in another one, is not empty and has no blanks at its ends. -/
structure IsFragment (fragment text : Text) : Prop where
  within : fragment <:+: text
  trimmed : Text.trim fragment = fragment
  ne_nil : fragment ≠ []

theorem IsFragment.of_isInfix {fragment text whole : Text} (h : IsFragment fragment text)
    (htext : text <:+: whole) : IsFragment fragment whole :=
  ⟨h.within.trans htext, h.trimmed, h.ne_nil⟩

theorem isFragment_trim {text : Text} (h : Text.trim text ≠ []) :
    IsFragment (Text.trim text) text :=
  ⟨Text.trim_isInfix text, Text.trim_trim text, h⟩

/-- A part of the text calls an operator by its keyword, and has these parameters between its first
`(` and its last `)`. -/
def HoldsCall (text : Text) (op : Operator) (parameters : List Text) : Prop :=
  ∃ part front inner post, part <:+: text ∧ Text.Encloses part front inner post ∧
    Text.trim front = op.keyword ∧ Call.parameters (Text.trim inner) = .ok parameters

theorem HoldsCall.of_isInfix {text whole : Text} {op : Operator} {parameters : List Text}
    (h : HoldsCall text op parameters) (htext : text <:+: whole) :
    HoldsCall whole op parameters := by
  obtain ⟨part, front, inner, post, hpart, hcall⟩ := h
  exact ⟨part, front, inner, post, hpart.trans htext, hcall⟩

/-- A text holds the call that is found in it as a whole. -/
theorem holdsCall_of_found {text found : Text} {op : Operator} {parameters : List Text}
    (hkeyword : Call.keyword (Text.trim text) = .ok op.keyword)
    (hbody : Call.body (Text.trim text) = .ok found)
    (hparameters : Call.parameters found = .ok parameters) : HoldsCall text op parameters := by
  obtain ⟨front, inner, post, hencloses, hname, _, rfl⟩ :=
    Call.found_iff_encloses.mp ⟨hkeyword, hbody⟩
  exact ⟨_, front, inner, post, Text.trim_isInfix text, hencloses, hname.symm, hparameters⟩

/-- A part of a text that stands inside a call there. -/
structure IsInside (part text : Text) : Prop where
  within : part <:+: text
  trimmed : Text.trim part = part
  balanced : Text.Balanced part
  fewer : part.count '(' < text.count '('

/-- The parameters of a call stand inside it. -/
theorem HoldsCall.isInside {text parameter : Text} {op : Operator} {parameters : List Text}
    (h : HoldsCall text op parameters) (hmem : parameter ∈ parameters) :
    IsInside parameter text := by
  obtain ⟨part, front, inner, post, hpart, hencloses, -, hparameters⟩ := h
  obtain ⟨hbalanced, rfl⟩ := Call.parameters_eq_ok_iff.mp hparameters
  obtain ⟨piece, hpiece, rfl⟩ := List.mem_map.mp hmem
  have hpiece := Call.mem_of_mem_dropEmptyLast hpiece
  obtain ⟨before, behind, hbody⟩ := Text.exists_append_of_mem_pieces hpiece
  have hinner : inner <:+: part := ⟨front ++ ['('], ')' :: post, by simp [hencloses.eq]⟩
  have htrimmed : Text.trim piece <:+: inner :=
    ((Text.trim_isInfix piece).trans ⟨before, behind, hbody.symm⟩).trans (Text.trim_isInfix inner)
  refine ⟨(htrimmed.trans hinner).trans hpart, Text.trim_trim piece,
    (Text.isParameter_of_mem_pieces hbalanced hpiece).trim.balanced, ?_⟩
  -- The `(` of the call itself is one that the parameter does not have.
  calc (Text.trim piece).count '(' ≤ inner.count '(' := htrimmed.sublist.count_le '('
    _ < part.count '(' := by
      rw [hencloses.eq, List.count_append, List.count_cons_self, List.count_append]
      omega
    _ ≤ text.count '(' := hpart.sublist.count_le '('

/-- The defects of a text that is read inside `depth` calls, each with the error that names it.
There is none with an error for a `)` in front of the first `(`. -/
inductive Defect (limit : Option Nat) (depth : Nat) (text : Text) : ParseError → Prop where
  /-- The text is blank. -/
  | blank (h : Text.Blank text) : Defect limit depth text .blank
  /-- A call has a parameter that is blank, which trimmed is the empty text. -/
  | blankParameter {op : Operator} {parameters : List Text} (h : HoldsCall text op parameters)
      (hempty : [] ∈ parameters) : Defect limit depth text .blank
  /-- A fragment without parentheses is no number. -/
  | notANumber {fragment : Text} (h : IsFragment fragment text) (hopen : '(' ∉ fragment)
      (hclose : ')' ∉ fragment) (hliteral : Literal.read? fragment = none) :
      Defect limit depth text (.notANumber fragment)
  /-- A fragment without `(` stands where a keyword should and is none. -/
  | unknownFunction {name : Text} (h : IsFragment name text) (hopen : '(' ∉ name)
      (hkeyword : ∀ op : Operator, name ≠ op.keyword) :
      Defect limit depth text (.unknownFunction name)
  /-- The number of parameters of a call is not the arity of its function. -/
  | wrongCount {op : Operator} {parameters : List Text} (h : HoldsCall text op parameters)
      (hcount : parameters.length ≠ op.arity) :
      Defect limit depth text (.wrongCount op.keyword op.arity parameters.length)
  /-- There is a limit, and with the calls around the text there are more `(` than that. -/
  | tooDeep {n : Nat} (hlimit : limit = some n) (hopenings : n + 1 ≤ depth + text.count '(') :
      Defect limit depth text (.tooDeep n)
  /-- A fragment starts with its `(`. -/
  | noKeyword {fragment : Text} (h : IsFragment fragment text)
      (hopen : fragment.head? = some '(') : Defect limit depth text (.noKeyword fragment)
  /-- Between some parentheses more is closed than opened. -/
  | tooManyClosing {inner : Text} (h : '(' :: (inner ++ [')']) <:+: text)
      (hclose : Text.depthAfter 0 inner = none) : Defect limit depth text .tooManyClosing
  /-- The text is not balanced, for want of a `(`, and fails as a whole. -/
  | noOpening (hread : Outline.read limit depth text = .error (.noOpening (Text.trim text)))
      (hunbalanced : ¬Text.Balanced text) : Defect limit depth text (.noOpening (Text.trim text))
  /-- The text is not balanced, for want of a `)`, and fails as a whole. -/
  | noClosing (hread : Outline.read limit depth text = .error (.noClosing (Text.trim text)))
      (hunbalanced : ¬Text.Balanced text) : Defect limit depth text (.noClosing (Text.trim text))
  /-- The text is not balanced, since it does not close all that it opens, and fails as a whole. -/
  | unclosed (hread : Outline.read limit depth text = .error .unclosed)
      (hunbalanced : ¬Text.Balanced text) : Defect limit depth text .unclosed

/-! ## One step -/

/-- The text in front of the first `(` is the keyword up to blanks. -/
theorem Call.trim_front_of_keyword {text name front rest : Text} (h : keyword text = .ok name)
    (htext : text = front ++ '(' :: rest) (hfront : '(' ∉ front) : Text.trim front = name := by
  obtain ⟨front', rest', htext', hfront', rfl, _⟩ := keyword_eq_ok_iff.mp h
  rw [(Text.append_first_mark_inj hfront hfront' (htext.symm.trans htext')).1]

namespace Text

theorem not_balanced_of_no_opening {text : Text} (hopen : '(' ∉ text) (hclose : ')' ∈ text) :
    ¬Balanced text := by
  intro h
  have htotal := h.2
  have hpos := List.count_pos_iff.mpr hclose
  rw [List.count_eq_zero.mpr hopen] at htotal
  omega

theorem not_balanced_of_no_closing {text : Text} (hopen : '(' ∈ text) (hclose : ')' ∉ text) :
    ¬Balanced text := by
  intro h
  have htotal := h.2
  have hpos := List.count_pos_iff.mpr hopen
  rw [List.count_eq_zero.mpr hclose] at htotal
  omega

/-- What the body of a call leaves open is not closed behind it: only one `)` follows. -/
theorem not_balanced_of_unclosed {front inner post : Text} {final : Nat} (hfront : ')' ∉ front)
    (hpost : ')' ∉ post) (hinner : depthAfter 0 inner = some (final + 1)) :
    ¬Balanced (front ++ '(' :: (inner ++ ')' :: post)) := by
  intro h
  have htotal := h.2
  have hchange := depthAfter_eq_some hinner
  simp only [List.count_append, List.count_cons_self, List.count_eq_zero.mpr hfront,
    List.count_eq_zero.mpr hpost, List.count_cons_of_ne (show '(' ≠ ')' by decide),
    List.count_cons_of_ne (show ')' ≠ '(' by decide)] at htotal
  omega

end Text

namespace Outline

variable {limit : Option Nat} {depth : Nat} {text : Text} {e : ParseError}

/-- A call without a keyword lacks its `(` or starts with it. -/
theorem defect_of_keyword (hread : read limit depth text = .error e)
    (hparen : '(' ∈ text ∨ ')' ∈ text) (h : Call.keyword (Text.trim text) = .error e) :
    Defect limit depth text e := by
  rcases Call.keyword_eq_error_iff.mp h with ⟨hopen, rfl⟩ | ⟨front, rest, htrim, _, hblank, rfl⟩
  · have hopen' : '(' ∉ text := fun hmem => hopen (Text.mem_trim_of_mem (by decide) hmem)
    exact .noOpening hread
      (Text.not_balanced_of_no_opening hopen' (hparen.resolve_left hopen'))
  · -- Nothing but blanks stands in front of the `(`, and a trimmed text starts with none.
    have hself := Text.trim_trim text
    rw [htrim, ← List.append_nil (front ++ _)] at hself
    have hnil := (Text.eq_nil_of_trim_eq_self hblank Text.blank_nil hself).1
    rw [hnil, List.nil_append] at htrim
    refine .noKeyword (isFragment_trim ?_) ?_
    · rw [htrim]
      exact List.cons_ne_nil _ _
    · rw [htrim]
      rfl

/-- A call with a keyword whose body is not found has no `)`. -/
theorem defect_of_body (hread : read limit depth text = .error e) {op : Operator}
    (hkeyword : Call.keyword (Text.trim text) = .ok op.keyword)
    (h : Call.body (Text.trim text) = .error e) : Defect limit depth text e := by
  rcases Call.body_eq_error_iff.mp h with ⟨hopen, _⟩ | ⟨front, rest, htrim, hfront, hrest, he⟩
  · obtain ⟨front, rest, htrim, _⟩ := Call.keyword_eq_ok_iff.mp hkeyword
    simp [htrim] at hopen
  · have hname := Call.trim_front_of_keyword hkeyword htrim hfront
    have hclose := (Text.no_paren_of_no_mark (Text.no_mark_of_trim_eq_keyword hname)).2
    rw [if_neg hclose] at he
    subst he
    refine .noClosing hread ?_
    rw [← Text.balanced_trim_iff]
    apply Text.not_balanced_of_no_closing
    · simp [htrim]
    · simp [htrim, hclose, hrest]

/-- A body whose parameters are not found closes too much or too little. In the second case the
whole text does. -/
theorem defect_of_parameters (hread : read limit depth text = .error e) {op : Operator}
    {found : Text} (hkeyword : Call.keyword (Text.trim text) = .ok op.keyword)
    (hbody : Call.body (Text.trim text) = .ok found) (h : Call.parameters found = .error e) :
    Defect limit depth text e := by
  obtain ⟨front, inner, post, htrim, hfront, hpost, rfl⟩ := Call.body_eq_ok_iff.mp hbody
  rw [Call.parameters_eq_error_iff, Text.depthAfter_trim] at h
  rcases h with ⟨hclose, rfl⟩ | ⟨final, hfinal, rfl⟩
  · refine .tooManyClosing ?_ hclose
    have hwithin : '(' :: (inner ++ [')']) <:+: Text.trim text := ⟨front, post, by simp [htrim]⟩
    exact hwithin.trans (Text.trim_isInfix text)
  · have hname := Call.trim_front_of_keyword hkeyword htrim hfront
    have hclose := (Text.no_paren_of_no_mark (Text.no_mark_of_trim_eq_keyword hname)).2
    refine .unclosed hread ?_
    rw [← Text.balanced_trim_iff, htrim]
    exact Text.not_balanced_of_unclosed hclose hpost hfinal

/-- The error of a step names a defect of the text. -/
theorem defect_of_read (h : read limit depth text = .error e) : Defect limit depth text e := by
  rcases read_eq_error_iff.mp h with ⟨hblank, rfl⟩ | ⟨hblank, hliteral, hrest⟩
  · exact .blank hblank
  have hne : Text.trim text ≠ [] := fun hnil => hblank (Text.trim_eq_nil_iff.mp hnil)
  rcases hrest with ⟨hopen, hclose, rfl⟩ | ⟨hparen, hcall⟩
  · exact .notANumber (isFragment_trim hne) (fun hmem => hopen (Text.mem_of_mem_trim hmem))
      (fun hmem => hclose (Text.mem_of_mem_trim hmem)) hliteral
  rcases Call.read_eq_error_iff.mp hcall with hkeyword | ⟨name, hkeyword, herror⟩
  · exact defect_of_keyword h hparen hkeyword
  obtain ⟨front, rest, htrim, hfront, hname, hname_ne⟩ := Call.keyword_eq_ok_iff.mp hkeyword
  rcases herror with hoperator | ⟨op, rfl, herror⟩
  · obtain ⟨hunknown, rfl⟩ := Call.operatorNamed_eq_error_iff.mp hoperator
    have hfront_within : front <:+: Text.trim text := ⟨[], '(' :: rest, by simp [htrim]⟩
    rw [hname] at hunknown hname_ne ⊢
    have hfragment := (isFragment_trim hname_ne).of_isInfix hfront_within
    exact .unknownFunction (hfragment.of_isInfix (Text.trim_isInfix text))
      (fun hmem => hfront (Text.mem_of_mem_trim hmem)) hunknown
  rcases herror with hdepth | ⟨_, herror⟩
  · obtain ⟨n, hlimit, hle, rfl⟩ := Call.checkDepth_eq_error_iff.mp hdepth
    have hpos : 0 < (Text.trim text).count '(' := List.count_pos_iff.mpr (by simp [htrim])
    have hcount := Text.count_trim_le '(' text
    exact .tooDeep hlimit (by omega)
  rcases herror with hbody | ⟨found, hbody, herror⟩
  · exact defect_of_body h hkeyword hbody
  rcases herror with hparameters | ⟨list, hlist, hoperands⟩
  · exact defect_of_parameters h hkeyword hbody hparameters
  · obtain ⟨hcount, rfl⟩ := Call.operands_eq_error_iff.mp hoperands
    exact .wrongCount (holdsCall_of_found hkeyword hbody hlist) hcount.symm

/-- A text that is read as a call holds that call. -/
theorem holdsCall_of_read {found : Call} (h : read limit depth text = .ok (.call found)) :
    HoldsCall text found.operator [found.left, found.right] := by
  obtain ⟨hkeyword, _, body, hbody, hparameters⟩ :=
    Call.read_eq_ok_iff.mp (read_eq_call_iff.mp h).2
  exact holdsCall_of_found hkeyword hbody hparameters

end Outline

/-- A defect of a parameter is one of the call around it. A parameter is balanced, so its defect
is none of those that are found at the outermost call only. -/
theorem Defect.of_parameter {limit : Option Nat} {depth : Nat} {text parameter : Text}
    {op : Operator} {parameters : List Text} {e : ParseError} (hheld : HoldsCall text op parameters)
    (hmem : parameter ∈ parameters) (h : Defect limit (depth + 1) parameter e) :
    Defect limit depth text e := by
  obtain ⟨hwithin, htrimmed, hbalanced, hfewer⟩ := hheld.isInside hmem
  cases h with
  | blank h =>
      have hnil : parameter = [] := htrimmed.symm.trans (Text.trim_eq_nil_iff.mpr h)
      exact .blankParameter hheld (hnil ▸ hmem)
  | blankParameter h hempty => exact .blankParameter (h.of_isInfix hwithin) hempty
  | notANumber h hopen hclose hliteral =>
      exact .notANumber (h.of_isInfix hwithin) hopen hclose hliteral
  | unknownFunction h hopen hkeyword =>
      exact .unknownFunction (h.of_isInfix hwithin) hopen hkeyword
  | wrongCount h hcount => exact .wrongCount (h.of_isInfix hwithin) hcount
  | tooDeep hlimit hopenings => exact .tooDeep hlimit (by omega)
  | noKeyword h hopen => exact .noKeyword (h.of_isInfix hwithin) hopen
  | tooManyClosing h hclose => exact .tooManyClosing (h.trans hwithin) hclose
  | noOpening _ hunbalanced => exact absurd hbalanced hunbalanced
  | noClosing _ hunbalanced => exact absurd hbalanced hunbalanced
  | unclosed _ hunbalanced => exact absurd hbalanced hunbalanced

/-! ## A whole run -/

namespace Expr

/-- The error of a run names a defect of the text, whatever calls the text stands in. -/
theorem defect_of_parseAt {limit : Option Nat} {depth : Nat} {text : Text} {e : ParseError} :
    parseAt limit depth text = .error e → Defect limit depth text e := by
  induction depth, text using parseAt.induct limit with
  | case1 depth text error h =>
      intro he
      rw [parseAt_error h] at he
      cases he
      exact Outline.defect_of_read h
  | case2 depth text value h =>
      intro he
      rw [parseAt_number h] at he
      cases he
  | case3 depth text found h ihLeft ihRight =>
      intro he
      have hheld := Outline.holdsCall_of_read h
      rw [parseAt_call h] at he
      rcases bind_eq_error_iff.mp he with hleft | ⟨left, _, he⟩
      · exact .of_parameter hheld (by simp) (ihLeft hleft)
      · rcases bind_eq_error_iff.mp he with hright | ⟨right, _, he⟩
        · exact .of_parameter hheld (by simp) (ihRight hright)
        · cases he

/-- The error of reading a text names a defect of the text, and it never is that a `)` stands in
front of the first `(`. -/
theorem parse_error_defect {limit : Option Nat} {text : Text} {e : ParseError}
    (h : parse limit text = .error e) :
    (∀ fragment, e ≠ .closingBeforeOpening fragment) ∧ Defect limit 0 text e := by
  have hdefect := defect_of_parseAt h
  refine ⟨?_, hdefect⟩
  rintro fragment rfl
  cases hdefect

/-- The statement for a call without a keyword inside another call. -/
theorem parse_error_defect_inside :
    parse (some 2) "add(1, subtract( (2), 3))".toList = .error (.noKeyword "(2)".toList) ∧
      (∀ fragment, ParseError.noKeyword "(2)".toList ≠ .closingBeforeOpening fragment) ∧
      Defect (some 2) 0 "add(1, subtract( (2), 3))".toList (.noKeyword "(2)".toList) := by
  have h : parse (some 2) "add(1, subtract( (2), 3))".toList =
      .error (.noKeyword "(2)".toList) := by decide +kernel
  exact ⟨h, parse_error_defect h⟩

end Expr

end ArithFormula
