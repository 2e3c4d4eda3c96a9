import ArithFormula.Proofs.Expr.Composition
import ArithFormula.Proofs.Text.Layout
import Mathlib.Control.Monad.Basic

/-!
# Layout does not matter

Two texts of the same layout are read as the same expression, or they fail alike: with the same
kind of error, the same numbers, and quoted texts that have the same layout again. That goes for
malformed texts too.

Of the two runs only one has to be looked at: reading a tidied text gives what reading the text
gives, the texts in an error tidied. This is so at each step of the reader, because tidying goes
through the cuts by which a step finds the parts of a call. One step needs a trimmed text: the
last piece of a body is dropped if it is empty, and tidying could empty it. But the body is
trimmed before it is cut, so a last piece of blanks does not come up.

## Main results

* `Call.parameterList_tidy` — tidying a trimmed body changes no number of parameters.
* `Expr.parseAt_tidy` — what is read for a tidied text.
* `Expr.parse_sameLayout` — texts of the same layout are read alike.
-/

namespace ArithFormula

/-! ## Errors alike -/

namespace ParseError

/-- The same error with the texts in it changed. -/
def mapText (f : Text → Text) : ParseError → ParseError
  | .blank => .blank
  | .notANumber text => .notANumber (f text)
  | .noOpening text => .noOpening (f text)
  | .noClosing text => .noClosing (f text)
  | .closingBeforeOpening text => .closingBeforeOpening (f text)
  | .tooManyClosing => .tooManyClosing
  | .unclosed => .unclosed
  | .noKeyword text => .noKeyword (f text)
  | .unknownFunction keyword => .unknownFunction (f keyword)
  | .wrongCount keyword expected actual => .wrongCount (f keyword) expected actual
  | .tooDeep limit => .tooDeep limit

/-- Errors of one kind with the same numbers, whose texts have the same layout. -/
def SameLayout : ParseError → ParseError → Prop
  | .blank, .blank | .tooManyClosing, .tooManyClosing | .unclosed, .unclosed => True
  | .notANumber text, .notANumber text'
  | .noOpening text, .noOpening text'
  | .noClosing text, .noClosing text'
  | .closingBeforeOpening text, .closingBeforeOpening text'
  | .noKeyword text, .noKeyword text'
  | .unknownFunction text, .unknownFunction text' => Text.SameLayout text text'
  | .wrongCount keyword expected actual, .wrongCount keyword' expected' actual' =>
      Text.SameLayout keyword keyword' ∧ expected = expected' ∧ actual = actual'
  | .tooDeep limit, .tooDeep limit' => limit = limit'
  | _, _ => False

theorem sameLayout_of_mapText_tidy_eq {e e' : ParseError}
    (h : e.mapText Text.tidy = e'.mapText Text.tidy) : e.SameLayout e' := by
  cases e <;> cases e' <;> simp_all [mapText, SameLayout, Text.tidy_eq_tidy_iff]

end ParseError

/-! ## Results of tidied texts -/

/-- The result of a step for a tidied text: what is found is changed by `f`, and the texts in an
error are tidied. -/
def tidied {α β : Type} (f : α → β) (result : Except ParseError α) : Except ParseError β :=
  (result.map f).mapError (ParseError.mapText Text.tidy)

theorem tidied_ok {α β : Type} (f : α → β) (a : α) : tidied f (.ok a) = .ok (f a) := rfl

/-- Steps are tidied one after another. -/
theorem tidied_bind {α β γ δ : Type} {f : α → β} {g : γ → δ} {first : Except ParseError α}
    {second : α → Except ParseError γ} {second' : β → Except ParseError δ}
    (h : ∀ a, first = .ok a → second' (f a) = tidied g (second a)) :
    (tidied f first >>= second') = tidied g (first >>= second) := by
  cases first with
  | error e => rfl
  | ok a => exact h a rfl

/-! ## The parts of a call -/

namespace Call

theorem keyword_tidy (text : Text) :
    keyword (Text.tidy text) = tidied Text.tidy (keyword text) := by
  unfold keyword
  rw [Text.cutFirst_tidy (by decide)]
  cases Text.cutFirst '(' text with
  | none => rfl
  | some cut =>
      show (if Text.trim (Text.tidy cut.1) = [] then _ else _) = tidied _ (if _ then _ else _)
      rw [Text.trim_tidy]
      by_cases hblank : Text.Blank cut.1
      · rw [if_pos (Text.tidy_eq_nil_iff.mpr hblank), if_pos (Text.trim_eq_nil_iff.mpr hblank)]
        rfl
      · rw [if_neg (not_congr Text.tidy_eq_nil_iff |>.mpr hblank),
          if_neg (not_congr Text.trim_eq_nil_iff |>.mpr hblank), tidied_ok, Text.tidy_trim]

/-- A trimmed text is a keyword exactly if it is one when tidied: keywords have one segment. -/
theorem tidy_eq_keyword_iff {name : Text} (htrim : Text.trim name = name) {op : Operator} :
    Text.tidy name = op.keyword ↔ name = op.keyword := by
  have hkeyword : ∀ c ∈ op.keyword, Text.isMark c = false := fun c hc =>
    Text.isMark_eq_false_iff.mpr (op.keyword_no_mark c hc)
  constructor
  · intro h
    have hname : ∀ c ∈ name, Text.isMark c = false := by
      intro c hc
      cases hmark : Text.isMark c with
      | false => rfl
      | true =>
          have hmem := (Text.mem_tidy_iff hmark).mpr hc
          rw [h] at hmem
          exact (hkeyword c hmem).symm.trans hmark |>.symm
    rw [← h, Text.tidy_of_no_mark hname, htrim]
  · rintro rfl
    rw [Text.tidy_of_no_mark hkeyword, Text.trim_eq_self op.keyword_no_blank]

theorem operatorNamed_tidy {name : Text} (htrim : Text.trim name = name) :
    operatorNamed (Text.tidy name) = tidied id (operatorNamed name) := by
  cases h : operatorNamed name with
  | ok op =>
      have hname := operatorNamed_eq_ok_iff.mp h
      exact operatorNamed_eq_ok_iff.mpr ((tidy_eq_keyword_iff htrim).mpr hname)
  | error e =>
      obtain ⟨hunknown, rfl⟩ := operatorNamed_eq_error_iff.mp h
      refine operatorNamed_eq_error_iff.mpr ⟨?_, rfl⟩
      exact fun op hop => hunknown op ((tidy_eq_keyword_iff htrim).mp hop)

/-- The limit does not look at the text. -/
theorem tidied_checkDepth (limit : Option Nat) (depth : Nat) :
    tidied id (checkDepth limit depth) = checkDepth limit depth := by
  cases h : checkDepth limit depth with
  | ok _ => rfl
  | error e =>
      obtain ⟨n, _, _, rfl⟩ := checkDepth_eq_error_iff.mp h
      rfl

theorem body_tidy (text : Text) : body (Text.tidy text) = tidied Text.tidy (body text) := by
  unfold body
  rw [Text.cutFirst_tidy (by decide)]
  cases Text.cutFirst '(' text with
  | none => rfl
  | some cut =>
      obtain ⟨front, rest⟩ := cut
      simp only [Option.map_some, Text.cutLast_tidy (show Text.isMark ')' = true by decide)]
      cases Text.cutLast ')' rest with
      | none =>
          simp only [Option.map_none, Text.mem_tidy_iff (show Text.isMark ')' = true by decide)]
          split <;> rfl
      | some cut =>
          simp only [Option.map_some, Text.trim_tidy, tidied_ok, Text.tidy_trim]

/-- The last piece of a trimmed body is empty if it is blank. -/
theorem tidy_last_piece {body piece : Text} (htrim : Text.trim body = body)
    (h : ((Text.pieces 0 body).1 :: (Text.pieces 0 body).2).getLast? = some piece) :
    Text.tidy piece = [] ↔ piece = [] := by
  rw [Text.tidy_eq_nil_iff]
  constructor
  · intro hblank
    obtain ⟨front, hfront⟩ := Text.exists_append_of_getLast?_pieces h
    rw [hfront, ← List.nil_append front] at htrim
    exact (Text.eq_nil_of_trim_eq_self Text.blank_nil hblank htrim).2
  · rintro rfl
    exact Text.blank_nil

/-- The parameters of a tidied body are the tidied parameters, as many as before. -/
theorem parameterList_tidy {body : Text} (htrim : Text.trim body = body) :
    parameterList (Text.tidy body) = (parameterList body).map Text.tidy := by
  have hlast := fun piece => @tidy_last_piece body piece htrim
  simp only [parameterList, Text.pieces_tidy]
  rw [← List.map_cons]
  generalize (Text.pieces 0 body).1 :: (Text.pieces 0 body).2 = pieces at hlast ⊢
  have hdrop : dropEmptyLast (pieces.map Text.tidy) = (dropEmptyLast pieces).map Text.tidy := by
    unfold dropEmptyLast
    rw [List.getLast?_map]
    cases hpieces : pieces.getLast? with
    | none => rfl
    | some piece =>
        simp only [Option.map_some, Option.some.injEq, hlast piece hpieces]
        split
        · exact (List.map_dropLast).symm
        · rfl
  rw [hdrop, List.map_map, List.map_map]
  refine List.map_congr_left ?_
  intro piece _
  exact (Text.trim_tidy piece).trans (Text.tidy_trim piece).symm

theorem parameters_tidy {body : Text} (htrim : Text.trim body = body) :
    parameters (Text.tidy body) = tidied (List.map Text.tidy) (parameters body) := by
  unfold parameters
  rw [Text.depthAfter_tidy, parameterList_tidy htrim]
  cases Text.depthAfter 0 body with
  | none => rfl
  | some final => cases final <;> rfl

theorem operands_tidy (op : Operator) (list : List Text) :
    operands op.keyword op (list.map Text.tidy) =
      tidied (Prod.map Text.tidy Text.tidy) (operands op.keyword op list) := by
  have hkeyword := (tidy_eq_keyword_iff (Text.trim_eq_self op.keyword_no_blank)).mpr rfl
  cases h : operands op.keyword op list with
  | ok pair =>
      rw [operands_eq_ok_iff.mp h]
      rfl
  | error e =>
      obtain ⟨hcount, rfl⟩ := operands_eq_error_iff.mp h
      refine operands_eq_error_iff.mpr ⟨by simpa using hcount, ?_⟩
      simp [ParseError.mapText, hkeyword]

/-- The call with its parameters tidied. -/
def tidyParameters (call : Call) : Call :=
  ⟨call.operator, Text.tidy call.left, Text.tidy call.right⟩

/-- The parts of a call are found in the tidied text where they were. -/
theorem read_tidy (limit : Option Nat) (depth : Nat) (text : Text) :
    read limit depth (Text.tidy text) = tidied tidyParameters (read limit depth text) := by
  unfold read
  rw [keyword_tidy]
  refine tidied_bind fun name hname => ?_
  have hname_trim : Text.trim name = name := by
    obtain ⟨front, _, _, _, rfl, _⟩ := keyword_eq_ok_iff.mp hname
    exact Text.trim_trim front
  rw [operatorNamed_tidy hname_trim]
  refine tidied_bind fun op hop => ?_
  rw [operatorNamed_eq_ok_iff.mp hop] at hname_trim ⊢
  rw [(tidy_eq_keyword_iff hname_trim).mpr rfl]
  conv =>
    lhs
    rw [← tidied_checkDepth]
  refine tidied_bind fun _ _ => ?_
  rw [body_tidy]
  refine tidied_bind fun found hfound => ?_
  have hfound_trim : Text.trim found = found := by
    obtain ⟨_, inner, _, _, _, _, rfl⟩ := body_eq_ok_iff.mp hfound
    exact Text.trim_trim inner
  rw [parameters_tidy hfound_trim]
  refine tidied_bind fun list _ => ?_
  rw [id, operands_tidy]
  exact tidied_bind fun _ _ => rfl

end Call

/-! ## Outlines -/

/-- A text with marks is no number, and one without is trimmed by tidying it. -/
theorem Literal.read?_tidy (text : Text) :
    read? (Text.tidy text) = read? (Text.trim text) := by
  by_cases hmarks : ∀ c ∈ text, Text.isMark c = false
  · rw [Text.tidy_of_no_mark hmarks]
  · simp only [not_forall, Bool.not_eq_false] at hmarks
    obtain ⟨c, hmem, hc⟩ := hmarks
    obtain ⟨hdigit, hmark⟩ : c.isDigit = false ∧ c ∉ marks := by
      rcases Text.isMark_eq_true_iff.mp hc with rfl | rfl | rfl <;> decide
    rw [read?_eq_none_of_mem ((Text.mem_tidy_iff hc).mpr hmem) hdigit hmark,
      read?_eq_none_of_mem (Text.mem_trim_of_mem (Text.isBlank_of_isMark hc) hmem)
        hdigit hmark]

namespace Outline

/-- The outline with the parameters of a call tidied. -/
def tidyParameters : Outline → Outline
  | .number value => .number value
  | .call found => .call found.tidyParameters

/-- A tidied text has the outline of the text. -/
theorem read_tidy (limit : Option Nat) (depth : Nat) (text : Text) :
    read limit depth (Text.tidy text) = tidied tidyParameters (read limit depth text) := by
  have hopen : '(' ∈ Text.tidy text ↔ '(' ∈ Text.trim text := by
    rw [← Text.tidy_trim, Text.mem_tidy_iff (by decide)]
  have hclose : ')' ∈ Text.tidy text ↔ ')' ∈ Text.trim text := by
    rw [← Text.tidy_trim, Text.mem_tidy_iff (by decide)]
  simp only [read, Text.trim_tidy, hopen, hclose, Literal.read?_tidy, Text.tidy_eq_nil_iff,
    Text.trim_eq_nil_iff]
  split
  · rfl
  cases Literal.read? (Text.trim text) with
  | some value => rfl
  | none =>
      dsimp only
      split
      · rw [← Text.tidy_trim, Call.read_tidy]
        cases Call.read limit depth (Text.trim text) <;> rfl
      · rw [← Text.tidy_trim text]
        rfl

end Outline

/-! ## Expressions -/

namespace Expr

/-- For a tidied text the same expression is read, or the same error with its texts tidied. -/
theorem parseAt_tidy (limit : Option Nat) (depth : Nat) (text : Text) :
    parseAt limit depth (Text.tidy text) = tidied id (parseAt limit depth text) := by
  induction depth, text using parseAt.induct limit with
  | case1 depth text error h =>
      have htidy := Outline.read_tidy limit depth text
      rw [h] at htidy
      rw [parseAt_error h, parseAt_error htidy]
      rfl
  | case2 depth text value h =>
      have htidy := Outline.read_tidy limit depth text
      rw [h] at htidy
      rw [parseAt_number h, parseAt_number htidy]
      rfl
  | case3 depth text found h ihLeft ihRight =>
      have htidy := Outline.read_tidy limit depth text
      rw [h] at htidy
      rw [parseAt_call h, parseAt_call htidy]
      show (parseAt limit (depth + 1) (Text.tidy found.left) >>= _) = _
      rw [ihLeft]
      refine tidied_bind fun left _ => ?_
      show (parseAt limit (depth + 1) (Text.tidy found.right) >>= _) = _
      rw [ihRight]
      exact tidied_bind fun right _ => rfl

/-- The same expression, or errors of one kind with the same numbers, whose texts have the same
layout. -/
def SameReading : Except ParseError Expr → Except ParseError Expr → Prop
  | .ok e, .ok e' => e = e'
  | .error error, .error error' => error.SameLayout error'
  | .ok _, .error _ | .error _, .ok _ => False

/-- Results that tidying makes one are alike. -/
theorem sameReading_of_tidied_eq {result result' : Except ParseError Expr}
    (h : tidied id result = tidied id result') : SameReading result result' := by
  match result, result' with
  | .ok e, .ok e' => exact Except.ok.inj h
  | .ok e, .error error' => cases h
  | .error error, .ok e' => cases h
  | .error error, .error error' =>
      exact ParseError.sameLayout_of_mapText_tidy_eq (Except.error.inj h)

/-- Blanks around marks and at the ends of a text do not matter, under any limit: texts of the
same layout are read as the same expression or fail alike. -/
theorem parse_sameLayout {text text' : Text} (h : Text.SameLayout text text')
    (limit : Option Nat) : SameReading (parse limit text) (parse limit text') := by
  apply sameReading_of_tidied_eq
  rw [parse, parse, ← parseAt_tidy, ← parseAt_tidy, Text.tidy_eq_tidy_iff.mpr h]

/-- The statement for two layouts of a call without a keyword inside another call. The errors
quote it as it is laid out. -/
theorem parse_sameLayout_noKeyword :
    parse none "add(1,( 2\u3000,3))".toList = .error (.noKeyword "( 2\u3000,3)".toList) ∧
      parse none "\n add ( 1, (2,3 ) )".toList = .error (.noKeyword "(2,3 )".toList) ∧
      SameReading (parse none "add(1,( 2\u3000,3))".toList)
        (parse none "\n add ( 1, (2,3 ) )".toList) :=
  ⟨by decide +kernel, by decide +kernel, parse_sameLayout (by decide +kernel) none⟩

end Expr

end ArithFormula
