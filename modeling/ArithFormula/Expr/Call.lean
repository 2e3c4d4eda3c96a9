import ArithFormula.Text.Blank
import ArithFormula.Text.Nesting
import ArithFormula.Expr.Basic
import ArithFormula.Error

/-!
# Calls in a text

A text that calls a function is cut at three kinds of places. Its keyword stands in
front of the first `(`. Its body stands between that and the last `)`; whatever
follows the last `)` is ignored. The separators of the body cut it into parameters.
Keyword, body and parameters are trimmed.

## Main results

* `keyword_eq_ok_iff`, `body_eq_ok_iff`, `parameters_eq_ok_iff`, `operands_eq_ok_iff` —
  each part is found exactly where the text has the shape that names it.
* `read_eq_ok_iff` — a call is read exactly if all its parts are found.
* `read_eq_error_iff` — otherwise it fails as the first part that is not found.
* `length_lt_of_read` — both parameters of a call are shorter than its text, so
  reading them in turn comes to an end.
-/

namespace ArithFormula

/-- A call that was found in a text: its operator and the texts of its two parameters. -/
structure Call where
  operator : Operator
  left : Text
  right : Text
deriving DecidableEq

namespace Call

/-! ## The parts of a call -/

/-- The keyword: the trimmed text in front of the first `(`. -/
def keyword (text : Text) : Except ParseError Text :=
  match Text.cutFirst '(' text with
  | none => .error (.noOpening text)
  | some (front, _) =>
      if Text.trim front = [] then .error (.noKeyword text) else .ok (Text.trim front)

/-- The body: the trimmed text between the first `(` and the last `)`. -/
def body (text : Text) : Except ParseError Text :=
  match Text.cutFirst '(' text with
  | none => .error (.noOpening text)
  | some (front, rest) =>
      match Text.cutLast ')' rest with
      | some (inner, _) => .ok (Text.trim inner)
      | none =>
          if ')' ∈ front then .error (.closingBeforeOpening text) else .error (.noClosing text)

/-- The pieces without the last one if that is the empty text: a body may be empty, and may
end with a separator. A last piece of blanks stays. -/
def dropEmptyLast (pieces : List Text) : List Text :=
  if pieces.getLast? = some [] then pieces.dropLast else pieces

/-- The trimmed pieces between the separators of a body. -/
def parameterList (body : Text) : List Text :=
  let (first, others) := Text.pieces 0 body
  (dropEmptyLast (first :: others)).map Text.trim

/-- The parameters of a balanced body. -/
def parameters (body : Text) : Except ParseError (List Text) :=
  match Text.depthAfter 0 body with
  | none => .error .tooManyClosing
  | some (_ + 1) => .error .unclosed
  | some 0 => .ok (parameterList body)

/-- Refuses a number of parameters that is not the expected one. -/
def checkCount (keyword : Text) (expected actual : Nat) : Except ParseError Unit :=
  if expected = actual then .ok () else .error (.wrongCount keyword expected actual)

/-- The two parameters of a call, their number checked against the arity. -/
def operands (keyword : Text) (operator : Operator) (parameters : List Text) :
    Except ParseError (Text × Text) := do
  checkCount keyword operator.arity parameters.length
  return (parameters.getD 0 [], parameters.getD 1 [])

/-! ## Reading a call -/

/-- The operator with a given keyword. -/
def operatorNamed (keyword : Text) : Except ParseError Operator :=
  match Operator.ofKeyword? keyword with
  | some operator => .ok operator
  | none => .error (.unknownFunction keyword)

/-- Refuses a call inside as many calls as the limit allows. -/
def checkDepth (limit : Option Nat) (depth : Nat) : Except ParseError Unit :=
  match limit with
  | none => .ok ()
  | some limit => if limit ≤ depth then .error (.tooDeep limit) else .ok ()

/-- The call that a whole text writes inside `depth` other calls. The function is looked up
before the depth is checked, and the depth before the parentheses. -/
def read (limit : Option Nat) (depth : Nat) (text : Text) : Except ParseError Call := do
  let keyword ← keyword text
  let operator ← operatorNamed keyword
  checkDepth limit depth
  let body ← body text
  let parameters ← parameters body
  let (left, right) ← operands keyword operator parameters
  return ⟨operator, left, right⟩

/-! ## When the parts are found -/

theorem keyword_eq_ok_iff {text name : Text} :
    keyword text = .ok name ↔
      ∃ front rest, text = front ++ '(' :: rest ∧ '(' ∉ front ∧
        name = Text.trim front ∧ name ≠ [] := by
  unfold keyword
  cases h : Text.cutFirst '(' text with
  | none =>
      have hopen := Text.cutFirst_eq_none_iff.mp h
      simp only [reduceCtorEq, false_iff]
      rintro ⟨front, rest, rfl, _⟩
      simp at hopen
  | some cut =>
      obtain ⟨front, rest⟩ := cut
      obtain ⟨htext, hfront⟩ := Text.eq_append_of_cutFirst h
      dsimp only
      constructor
      · intro hok
        split at hok
        · cases hok
        · next hne =>
            cases hok
            exact ⟨front, rest, htext, hfront, rfl, hne⟩
      · rintro ⟨front', rest', htext', hfront', rfl, hne⟩
        obtain ⟨rfl, _⟩ := Text.append_first_mark_inj hfront hfront' (htext.symm.trans htext')
        rw [if_neg hne]

theorem body_eq_ok_iff {text found : Text} :
    body text = .ok found ↔
      ∃ front inner post, text = front ++ '(' :: (inner ++ ')' :: post) ∧ '(' ∉ front ∧
        ')' ∉ post ∧ found = Text.trim inner := by
  unfold body
  cases h : Text.cutFirst '(' text with
  | none =>
      have hopen := Text.cutFirst_eq_none_iff.mp h
      simp only [reduceCtorEq, false_iff]
      rintro ⟨front, inner, post, rfl, _⟩
      simp at hopen
  | some cut =>
      obtain ⟨front, rest⟩ := cut
      obtain ⟨htext, hfront⟩ := Text.eq_append_of_cutFirst h
      dsimp only
      cases hclose : Text.cutLast ')' rest with
      | none =>
          have hrest := Text.cutLast_eq_none_iff.mp hclose
          constructor
          · intro hok
            dsimp only at hok
            split at hok <;> cases hok
          · rintro ⟨front', inner, post, htext', hfront', _⟩
            obtain ⟨_, rfl⟩ := Text.append_first_mark_inj hfront hfront' (htext.symm.trans htext')
            simp at hrest
      | some cut =>
          obtain ⟨inner, post⟩ := cut
          obtain ⟨rfl, hpost⟩ := Text.eq_append_of_cutLast hclose
          dsimp only
          constructor
          · intro hok
            cases hok
            exact ⟨front, inner, post, htext, hfront, hpost, rfl⟩
          · rintro ⟨front', inner', post', htext', hfront', hpost', rfl⟩
            obtain ⟨_, hrest⟩ := Text.append_first_mark_inj hfront hfront' (htext.symm.trans htext')
            obtain ⟨rfl, _⟩ := Text.append_last_mark_inj hpost hpost' hrest
            rfl

theorem parameters_eq_ok_iff {body : Text} {found : List Text} :
    parameters body = .ok found ↔ Text.Balanced body ∧ found = parameterList body := by
  rw [Text.balanced_iff]
  unfold parameters
  cases Text.depthAfter 0 body with
  | none => simp
  | some depth =>
      cases depth with
      | zero => simp [eq_comm]
      | succ depth => simp

theorem checkCount_eq_ok_iff {keyword : Text} {expected actual : Nat} :
    checkCount keyword expected actual = .ok () ↔ expected = actual := by
  unfold checkCount
  split <;> simp_all

theorem operands_eq_ok_iff {keyword left right : Text} {operator : Operator}
    {parameters : List Text} :
    operands keyword operator parameters = .ok (left, right) ↔ parameters = [left, right] := by
  simp only [operands, bind_eq_ok_iff, return_eq_ok_iff, Prod.mk.injEq]
  constructor
  · rintro ⟨⟨⟩, hcount, rfl, rfl⟩
    rw [checkCount_eq_ok_iff] at hcount
    match parameters, hcount with
    | [a, b], _ => rfl
  · rintro rfl
    exact ⟨(), checkCount_eq_ok_iff.mpr rfl, rfl, rfl⟩

theorem operatorNamed_eq_ok_iff {keyword : Text} {operator : Operator} :
    operatorNamed keyword = .ok operator ↔ keyword = operator.keyword := by
  rw [← Operator.ofKeyword?_eq_some_iff]
  unfold operatorNamed
  cases Operator.ofKeyword? keyword <;> simp

theorem checkDepth_eq_ok_iff {limit : Option Nat} {depth : Nat} :
    checkDepth limit depth = .ok () ↔ ∀ n ∈ limit, depth < n := by
  cases limit with
  | none => simp [checkDepth]
  | some n =>
      simp only [checkDepth]
      split <;> simp <;> omega

/-- A call is read exactly if all its parts are found. -/
theorem read_eq_ok_iff {limit : Option Nat} {depth : Nat} {text : Text} {call : Call} :
    read limit depth text = .ok call ↔
      keyword text = .ok call.operator.keyword ∧ checkDepth limit depth = .ok () ∧
        ∃ found, body text = .ok found ∧ parameters found = .ok [call.left, call.right] := by
  simp only [read, bind_eq_ok_iff, operatorNamed_eq_ok_iff, return_eq_ok_iff, Prod.exists,
    operands_eq_ok_iff]
  constructor
  · intro h
    obtain ⟨_, hname, _, rfl, _, hdepth, found, hfound, _, hps, _, _, rfl, rfl⟩ := h
    exact ⟨hname, hdepth, found, hfound, hps⟩
  · intro h
    obtain ⟨hname, hdepth, found, hfound, hps⟩ := h
    exact ⟨_, hname, _, rfl, (), hdepth, found, hfound, _, hps, _, _, rfl, rfl⟩

/-! ## When the parts are not found -/

theorem keyword_eq_error_iff {text : Text} {e : ParseError} :
    keyword text = .error e ↔
      ('(' ∉ text ∧ e = .noOpening text) ∨
        ∃ front rest, text = front ++ '(' :: rest ∧ '(' ∉ front ∧ Text.Blank front ∧
          e = .noKeyword text := by
  unfold keyword
  cases h : Text.cutFirst '(' text with
  | none =>
      have hopen := Text.cutFirst_eq_none_iff.mp h
      constructor
      · intro herror
        exact .inl ⟨hopen, (Except.error.inj herror).symm⟩
      · rintro (⟨_, rfl⟩ | ⟨front, rest, rfl, _⟩)
        · rfl
        · simp at hopen
  | some cut =>
      obtain ⟨front, rest⟩ := cut
      obtain ⟨htext, hfront⟩ := Text.eq_append_of_cutFirst h
      dsimp only
      constructor
      · intro herror
        split at herror
        · next hblank =>
            exact .inr ⟨front, rest, htext, hfront, Text.trim_eq_nil_iff.mp hblank,
              (Except.error.inj herror).symm⟩
        · cases herror
      · rintro (⟨hopen, _⟩ | ⟨front', rest', htext', hfront', hblank, rfl⟩)
        · simp [htext] at hopen
        · obtain ⟨rfl, _⟩ := Text.append_first_mark_inj hfront hfront' (htext.symm.trans htext')
          rw [if_pos (Text.trim_eq_nil_iff.mpr hblank)]

theorem operatorNamed_eq_error_iff {keyword : Text} {e : ParseError} :
    operatorNamed keyword = .error e ↔
      (∀ op : Operator, keyword ≠ op.keyword) ∧ e = .unknownFunction keyword := by
  rw [← Operator.ofKeyword?_eq_none_iff]
  unfold operatorNamed
  cases Operator.ofKeyword? keyword <;> simp [eq_comm]

theorem checkDepth_eq_error_iff {limit : Option Nat} {depth : Nat} {e : ParseError} :
    checkDepth limit depth = .error e ↔ ∃ n, limit = some n ∧ n ≤ depth ∧ e = .tooDeep n := by
  cases limit with
  | none => simp [checkDepth]
  | some n =>
      simp only [checkDepth]
      split
      · next hle => simp [hle, eq_comm]
      · next hroom => simp [hroom]

/-- The body is not found in a text without `(`, in one without `)`, and in one whose every `)`
stands in front of its first `(`. -/
theorem body_eq_error_iff {text : Text} {e : ParseError} :
    body text = .error e ↔
      ('(' ∉ text ∧ e = .noOpening text) ∨
        ∃ front rest, text = front ++ '(' :: rest ∧ '(' ∉ front ∧ ')' ∉ rest ∧
          e = if ')' ∈ front then .closingBeforeOpening text else .noClosing text := by
  unfold body
  cases h : Text.cutFirst '(' text with
  | none =>
      have hopen := Text.cutFirst_eq_none_iff.mp h
      constructor
      · intro herror
        exact .inl ⟨hopen, (Except.error.inj herror).symm⟩
      · rintro (⟨_, rfl⟩ | ⟨front, rest, rfl, _⟩)
        · rfl
        · simp at hopen
  | some cut =>
      obtain ⟨front, rest⟩ := cut
      obtain ⟨htext, hfront⟩ := Text.eq_append_of_cutFirst h
      dsimp only
      cases hclose : Text.cutLast ')' rest with
      | some cut =>
          obtain ⟨rfl, _⟩ := Text.eq_append_of_cutLast hclose
          simp only [reduceCtorEq, false_iff]
          rintro (⟨hopen, _⟩ | ⟨front', rest', htext', hfront', hrest', _⟩)
          · simp [htext] at hopen
          · obtain ⟨_, rfl⟩ := Text.append_first_mark_inj hfront hfront' (htext.symm.trans htext')
            simp at hrest'
      | none =>
          have hrest := Text.cutLast_eq_none_iff.mp hclose
          have hsplit : ∀ error : ParseError,
              ((if ')' ∈ front then .error (.closingBeforeOpening text)
                else .error (.noClosing text)) = (.error error : Except ParseError Text)) ↔
              error = if ')' ∈ front then .closingBeforeOpening text else .noClosing text := by
            intro error
            split <;> simp [eq_comm]
          dsimp only
          rw [hsplit]
          constructor
          · intro he
            exact .inr ⟨front, rest, htext, hfront, hrest, he⟩
          · rintro (⟨hopen, _⟩ | ⟨front', rest', htext', hfront', _, he⟩)
            · simp [htext] at hopen
            · obtain ⟨rfl, _⟩ := Text.append_first_mark_inj hfront hfront' (htext.symm.trans htext')
              exact he

theorem parameters_eq_error_iff {body : Text} {e : ParseError} :
    parameters body = .error e ↔
      (Text.depthAfter 0 body = none ∧ e = .tooManyClosing) ∨
        ∃ final, Text.depthAfter 0 body = some (final + 1) ∧ e = .unclosed := by
  unfold parameters
  cases Text.depthAfter 0 body with
  | none => simp [eq_comm]
  | some final => cases final <;> simp [eq_comm]

theorem operands_eq_error_iff {keyword : Text} {operator : Operator} {parameters : List Text}
    {e : ParseError} :
    operands keyword operator parameters = .error e ↔
      operator.arity ≠ parameters.length ∧
        e = .wrongCount keyword operator.arity parameters.length := by
  unfold operands checkCount
  split <;> simp_all [bind, Except.bind, pure, Except.pure, eq_comm]

/-- A call is not read if one of its parts is not found, and it fails as the first of these. -/
theorem read_eq_error_iff {limit : Option Nat} {depth : Nat} {text : Text} {e : ParseError} :
    read limit depth text = .error e ↔
      keyword text = .error e ∨
        ∃ name, keyword text = .ok name ∧
          (operatorNamed name = .error e ∨
            ∃ op : Operator, name = op.keyword ∧
              (checkDepth limit depth = .error e ∨
                checkDepth limit depth = .ok () ∧
                  (body text = .error e ∨
                    ∃ found, body text = .ok found ∧
                      (parameters found = .error e ∨
                        ∃ list, parameters found = .ok list ∧
                          operands name op list = .error e)))) := by
  have hunit : ∀ {p : Unit → Prop}, (∃ u, p u) ↔ p () := by
    intro p
    exact ⟨fun ⟨(), h⟩ => h, fun h => ⟨(), h⟩⟩
  simp only [read, bind_eq_error_iff, operatorNamed_eq_ok_iff, hunit, pure, Except.pure,
    reduceCtorEq, and_false, exists_false, or_false]

/-! ## Parameters are shorter -/

theorem mem_of_mem_dropEmptyLast {pieces : List Text} {piece : Text}
    (h : piece ∈ dropEmptyLast pieces) : piece ∈ pieces := by
  unfold dropEmptyLast at h
  split at h
  · exact (List.dropLast_sublist pieces).mem h
  · exact h

theorem length_le_of_mem_parameterList {body parameter : Text}
    (h : parameter ∈ parameterList body) : parameter.length ≤ body.length := by
  obtain ⟨piece, hpiece, rfl⟩ := List.mem_map.mp h
  exact Nat.le_trans (Text.length_trim_le piece)
    (Text.length_le_of_mem_pieces (mem_of_mem_dropEmptyLast hpiece))

theorem length_lt_of_body {text found : Text} (h : body text = .ok found) :
    found.length < text.length := by
  obtain ⟨front, inner, post, rfl, _, _, rfl⟩ := body_eq_ok_iff.mp h
  have := Text.length_trim_le inner
  simp only [List.length_append, List.length_cons]
  omega

/-- Both parameters of a call are shorter than its text. -/
theorem length_lt_of_read {limit : Option Nat} {depth : Nat} {text : Text} {call : Call}
    (h : read limit depth text = .ok call) :
    call.left.length < text.length ∧ call.right.length < text.length := by
  obtain ⟨_, _, found, hfound, hps⟩ := read_eq_ok_iff.mp h
  have hlist := (parameters_eq_ok_iff.mp hps).2
  have hshort := length_lt_of_body hfound
  have hleft : call.left ∈ parameterList found := hlist ▸ by simp
  have hright : call.right ∈ parameterList found := hlist ▸ by simp
  exact ⟨Nat.lt_of_le_of_lt (length_le_of_mem_parameterList hleft) hshort,
    Nat.lt_of_le_of_lt (length_le_of_mem_parameterList hright) hshort⟩

end Call

end ArithFormula
