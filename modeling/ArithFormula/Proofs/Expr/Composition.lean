import ArithFormula.Expr.Parser
import ArithFormula.Proofs.Text.Parameters
import ArithFormula.Proofs.Decimal.Spelling
import Mathlib.Control.Monad.Basic

/-!
# Reading a call that is put together

The reader finds the parts of a call by scans over the whole text: the first `(`, the
last `)`, the separators in between. The shape that these scans accept is `IsCallOf`:
a keyword, two parameters, and the marks around them. If a call is written around two
parameters, every scan lands where the call was put together, whatever the parameters
hold: their own parentheses and commas are passed over, and their errors come out as
they are, the left one's first.

## Main results

* `Call.found_iff_encloses` — keyword and body are found around the first `(` and the last `)`.
* `Call.read_of_isCallOf`, `Call.exists_isCallOf_of_read` — calls are read from the
  texts of that shape, and from no others.
* `Call.read_composed` — the parts of a composed call are found again.
* `Expr.parseAt_composed` — a composed call is read by reading its parameters.
* `Expr.parseAt_trim` — blanks around a text do not matter.
* `Expr.parse_callText` — without a limit, what is read for a composed call depends on what is
  read for its parameters, and on nothing else.
-/

namespace ArithFormula

/-- The text of a call: a name, and a body in parentheses. -/
def callText (name body : Text) : Text := name ++ '(' :: (body ++ [')'])

/-- A call by a name without blanks has no blanks at its ends. -/
theorem trim_callText {name : Text} (h : ∀ c ∈ name, Text.isBlank c = false) (body : Text) :
    Text.trim (callText name body) = callText name body := by
  rw [callText, Text.trim_append_cons (by decide), Text.trimStart_eq_self h,
    Text.trimEnd_append_cons (by decide)]
  rfl

/-! ## Keywords -/

namespace Operator

theorem keyword_no_mark (op : Operator) : ∀ c ∈ op.keyword, c ≠ '(' ∧ c ≠ ')' ∧ c ≠ ',' := by
  cases op <;> exact Text.forall_mem_of_all (by decide)

theorem keyword_no_blank (op : Operator) : ∀ c ∈ op.keyword, Text.isBlank c = false := by
  cases op <;> exact Text.forall_mem_of_all (by decide)

theorem keyword_ne_nil (op : Operator) : op.keyword ≠ [] := by
  cases op <;> decide

end Operator

/-- A text that is a keyword up to blanks has no mark. -/
theorem Text.no_mark_of_trim_eq_keyword {text : Text} {op : Operator}
    (h : Text.trim text = op.keyword) : ∀ c ∈ text, c ≠ '(' ∧ c ≠ ')' ∧ c ≠ ',' := by
  intro c hc
  obtain ⟨leading, trailing, hleading, htrailing, htext⟩ := Text.eq_append_trim text
  rw [htext, h, List.mem_append, List.mem_append] at hc
  rcases hc with (hc | hc) | hc
  · exact Text.no_mark_of_blank hleading c hc
  · exact op.keyword_no_mark c hc
  · exact Text.no_mark_of_blank htrailing c hc

/-! ## Parentheses around a body -/

namespace Text

/-- The first `(` and the last `)` of the text, what stands between them, in front and behind. -/
structure Encloses (text front inner post : Text) : Prop where
  eq : text = front ++ '(' :: (inner ++ ')' :: post)
  first : '(' ∉ front
  last : ')' ∉ post

/-- Blanks around a text stay outside its parentheses. -/
theorem Encloses.of_trim {text front inner post : Text}
    (h : Encloses (trim text) front inner post) :
    ∃ front' post', Encloses text front' inner post' ∧ trim front' = trim front := by
  obtain ⟨leading, trailing, hleading, htrailing, htext⟩ := eq_append_trim text
  have hopen := (no_paren_of_no_mark (no_mark_of_blank hleading)).1
  have hclose := (no_paren_of_no_mark (no_mark_of_blank htrailing)).2
  have hblank := trim_append_blank hleading blank_nil front
  rw [List.append_nil] at hblank
  refine ⟨leading ++ front, post ++ trailing, ⟨?_, ?_, ?_⟩, hblank⟩
  · rw [htext, h.eq]
    simp
  · simp [hopen, h.first]
  · simp [hclose, h.last]

theorem Encloses.trim {text front inner post : Text} (h : Encloses text front inner post) :
    Encloses (Text.trim text) (trimStart front) inner (trimEnd post) := by
  obtain ⟨leading, _, hstart⟩ := exists_blank_append_trimStart front
  obtain ⟨trailing, _, hend⟩ := exists_trimEnd_append_blank post
  refine ⟨?_, ?_, ?_⟩
  · rw [h.eq, trim_append_cons (by decide), trimEnd_append_cons (by decide)]
  · intro hmem
    apply h.first
    rw [hstart]
    simp [hmem]
  · intro hmem
    apply h.last
    rw [hend]
    simp [hmem]

end Text

/-! ## Calls -/

/-- The text calls an operator on two parameters: the keyword stands in front of the first `(`,
and the parameters, trimmed as a whole, between that and the last `)`. They may be followed by
one more comma. -/
def IsCallOf (text : Text) (op : Operator) (left right : Text) : Prop :=
  ∃ front inner post, text = front ++ '(' :: (inner ++ ')' :: post) ∧ '(' ∉ front ∧ ')' ∉ post ∧
    Text.trim front = op.keyword ∧
    (Text.trim inner = left ++ ',' :: right ∨ Text.trim inner = left ++ ',' :: right ++ [',']) ∧
    Text.IsParameter left ∧ Text.IsParameter right

/-- Blanks around a text do not matter to the call that it is. -/
theorem isCallOf_trim_iff {text left right : Text} {op : Operator} :
    IsCallOf (Text.trim text) op left right ↔ IsCallOf text op left right := by
  constructor
  · rintro ⟨front, inner, post, htrim, hfront, hpost, hname, hparameters⟩
    obtain ⟨front', post', htext, hsame⟩ := Text.Encloses.of_trim ⟨htrim, hfront, hpost⟩
    exact ⟨front', inner, post', htext.eq, htext.first, htext.last, hsame.trans hname, hparameters⟩
  · rintro ⟨front, inner, post, htext, hfront, hpost, hname, hparameters⟩
    have htrim := Text.Encloses.trim ⟨htext, hfront, hpost⟩
    refine ⟨_, inner, _, htrim.eq, htrim.first, htrim.last, ?_, hparameters⟩
    rw [Text.trim_trimStart, hname]

theorem IsCallOf.isParameter {text left right : Text} {op : Operator}
    (h : IsCallOf text op left right) : Text.IsParameter left ∧ Text.IsParameter right := by
  obtain ⟨_, _, _, _, _, _, _, _, hparameters⟩ := h
  exact hparameters

namespace Call

/-- Two parameters with a comma behind each of them are cut into these and an empty piece. -/
private theorem pieces_trailing {left right : Text} (hleft : Text.IsParameter left)
    (hright : Text.IsParameter right) :
    Text.pieces 0 (left ++ ',' :: right ++ [',']) = (left, [right, []]) := by
  rw [List.append_assoc, List.cons_append, Text.pieces_append_separator hleft,
    Text.pieces_append_separator hright, Text.pieces_nil]

private theorem pieces_pair {left right : Text} (hleft : Text.IsParameter left)
    (hright : Text.IsParameter right) :
    Text.pieces 0 (left ++ ',' :: right) = (left, [right]) := by
  rw [Text.pieces_append_separator hleft, Text.pieces_of_isParameter hright]

/-- With or without the last comma two parameters are found, unless the second one is empty. -/
theorem parameters_of_pair {left right body : Text} (hleft : Text.IsParameter left)
    (hright : Text.IsParameter right) (hne : right ≠ [])
    (hbody : body = left ++ ',' :: right ∨ body = left ++ ',' :: right ++ [',']) :
    parameters body = .ok [Text.trim left, Text.trim right] := by
  have hempty : Text.Balanced [] := by decide
  rw [parameters_eq_ok_iff]
  cases hbody with
  | inl hbody =>
      subst hbody
      refine ⟨Text.balanced_append_separator hleft.balanced hright.balanced, ?_⟩
      simp [parameterList, pieces_pair hleft hright, dropEmptyLast, hne]
  | inr hbody =>
      subst hbody
      constructor
      · rw [List.append_assoc, List.cons_append]
        exact Text.balanced_append_separator hleft.balanced
          (Text.balanced_append_separator hright.balanced hempty)
      · rw [parameterList, pieces_trailing hleft hright]
        simp [dropEmptyLast]

/-- Where a balanced body has two parameters, it is put together from them. -/
theorem exists_pair_of_parameters {body left right : Text}
    (h : parameters body = .ok [left, right]) :
    ∃ a b, (body = a ++ ',' :: b ∨ body = a ++ ',' :: b ++ [',']) ∧
      Text.IsParameter a ∧ Text.IsParameter b ∧ left = Text.trim a ∧ right = Text.trim b := by
  obtain ⟨hbalanced, hlist⟩ := parameters_eq_ok_iff.mp h
  have hpieces : ∀ piece ∈ (Text.pieces 0 body).1 :: (Text.pieces 0 body).2,
      Text.IsParameter piece := fun piece hmem => Text.isParameter_of_mem_pieces hbalanced hmem
  have hbody := Text.joinPieces_pieces 0 body
  rw [parameterList] at hlist
  generalize Text.pieces 0 body = cut at hpieces hbody hlist
  obtain ⟨a, others⟩ := cut
  match others with
  | [] =>
      have hlength := congrArg List.length hlist
      simp only [dropEmptyLast] at hlength
      split at hlength <;> simp at hlength
  | [b] =>
      refine ⟨a, b, .inl (by simpa [Text.joinPieces] using hbody.symm), hpieces a (by simp),
        hpieces b (by simp), ?_⟩
      simp only [dropEmptyLast] at hlist
      split at hlist
      · simp at hlist
      · simpa using hlist
  | [b, c] =>
      simp only [dropEmptyLast] at hlist
      split at hlist
      · next hlast =>
          obtain rfl : c = [] := by simpa using hlast
          refine ⟨a, b, .inr (by simpa [Text.joinPieces] using hbody.symm), hpieces a (by simp),
            hpieces b (by simp), ?_⟩
          simpa using hlist
      · simp at hlist
  | b :: c :: d :: rest =>
      have hlength := congrArg List.length hlist
      simp only [dropEmptyLast] at hlength
      split at hlength <;> simp at hlength

/-- Keyword and body are found together exactly if they stand, up to blanks, in front of the
parentheses and between them. -/
theorem found_iff_encloses {text name found : Text} :
    keyword text = .ok name ∧ body text = .ok found ↔
      ∃ front inner post, Text.Encloses text front inner post ∧
        name = Text.trim front ∧ name ≠ [] ∧ found = Text.trim inner := by
  rw [keyword_eq_ok_iff, body_eq_ok_iff]
  constructor
  · rintro ⟨⟨front, rest, htext, hfront, hname, hne⟩, front', inner, post, htext', hfront', hpost,
      hfound⟩
    -- Keyword and body are both cut at the first `(`, so the fronts agree.
    obtain ⟨rfl, _⟩ := Text.append_first_mark_inj hfront hfront' (htext.symm.trans htext')
    exact ⟨front, inner, post, ⟨htext', hfront', hpost⟩, hname, hne, hfound⟩
  · rintro ⟨front, inner, post, ⟨htext, hfront, hpost⟩, hname, hne, hfound⟩
    exact ⟨⟨front, _, htext, hfront, hname, hne⟩, front, inner, post, htext, hfront, hpost, hfound⟩

/-- A call is read from a text that has the shape of one, unless it is too deep. -/
theorem read_of_isCallOf {text left right : Text} {op : Operator}
    (h : IsCallOf text op left right) (hne : right ≠ []) (limit : Option Nat) (depth : Nat) :
    read limit depth text =
      (do
        checkDepth limit depth
        return ⟨op, Text.trim left, Text.trim right⟩) := by
  obtain ⟨front, inner, post, htext, hfront, hpost, hname, hinner, hleft, hright⟩ := h
  obtain ⟨hkeyword, hbody⟩ : keyword text = .ok op.keyword ∧ body text = .ok (Text.trim inner) :=
    found_iff_encloses.mpr
      ⟨front, inner, post, ⟨htext, hfront, hpost⟩, hname.symm, op.keyword_ne_nil, rfl⟩
  have hoperator : operatorNamed op.keyword = .ok op := operatorNamed_eq_ok_iff.mpr rfl
  have hparameters := parameters_of_pair hleft hright hne hinner
  have hoperands : operands op.keyword op [Text.trim left, Text.trim right] =
      .ok (Text.trim left, Text.trim right) := operands_eq_ok_iff.mpr rfl
  rw [read, hkeyword, hbody]
  simp only [bind, Except.bind, hoperator, hparameters, hoperands]

/-- Where a call is read, the text has the shape of one. -/
theorem exists_isCallOf_of_read {limit : Option Nat} {depth : Nat} {text : Text} {call : Call}
    (h : read limit depth text = .ok call) :
    ∃ a b, IsCallOf text call.operator a b ∧ call.left = Text.trim a ∧
      call.right = Text.trim b := by
  obtain ⟨hkeyword, _, found, hbody, hparameters⟩ := read_eq_ok_iff.mp h
  obtain ⟨front, inner, post, hencloses, hname, _, rfl⟩ :=
    found_iff_encloses.mp ⟨hkeyword, hbody⟩
  obtain ⟨a, b, hinner, ha, hb, hl, hr⟩ := exists_pair_of_parameters hparameters
  exact ⟨a, b, ⟨front, inner, post, hencloses.eq, hencloses.first, hencloses.last, hname.symm,
    hinner, ha, hb⟩, hl, hr⟩

end Call

/-! ## Composed calls -/

/-- A call that is written around two parameters has the shape of one. Its body is trimmed
before it is cut, and that takes the outer blanks of the parameters and no more. -/
theorem isCallOf_callText {left right : Text} (hleft : Text.IsParameter left)
    (hright : Text.IsParameter right) (op : Operator) :
    IsCallOf (callText op.keyword (left ++ ',' :: right)) op (Text.trimStart left)
      (Text.trimEnd right) := by
  refine ⟨op.keyword, left ++ ',' :: right, [], rfl, ?_, by simp, ?_, .inl ?_, hleft.trimStart,
    hright.trimEnd⟩
  · exact fun hmem => (op.keyword_no_mark _ hmem).1 rfl
  · exact Text.trim_eq_self op.keyword_no_blank
  · exact Text.trim_append_cons (by decide) left right

theorem trimEnd_ne_nil {text : Text} (h : ¬Text.Blank text) : Text.trimEnd text ≠ [] := by
  intro hnil
  have htrim := Text.trim_trimEnd text
  rw [hnil] at htrim
  exact h (Text.trim_eq_nil_iff.mp htrim.symm)

/-- The parts of a composed call are found again, unless the call is too deep. -/
theorem Call.read_composed {left right : Text} (hleft : Text.IsParameter left)
    (hright : Text.IsParameter right) (hblank : ¬Text.Blank right) (op : Operator)
    (limit : Option Nat) (depth : Nat) :
    read limit depth (callText op.keyword (left ++ ',' :: right)) =
      (do
        checkDepth limit depth
        return ⟨op, Text.trim left, Text.trim right⟩) := by
  rw [read_of_isCallOf (isCallOf_callText hleft hright op) (trimEnd_ne_nil hblank),
    Text.trim_trimStart, Text.trim_trimEnd]

/-! ## Outlines -/

namespace Outline

theorem read_trim (limit : Option Nat) (depth : Nat) (text : Text) :
    read limit depth (Text.trim text) = read limit depth text := by
  simp only [read, Text.trim_trim]

/-- A text is a number exactly if, trimmed, it is a literal; no limit matters. -/
theorem read_eq_number_iff {limit : Option Nat} {depth : Nat} {text : Text} {value : Binary64} :
    read limit depth text = .ok (.number value) ↔ Literal.read? (Text.trim text) = some value := by
  have hempty : Literal.read? [] = none := by decide
  unfold read
  dsimp only
  by_cases hnil : Text.trim text = []
  · rw [if_pos hnil]
    simp [hnil, hempty]
  · rw [if_neg hnil]
    cases Literal.read? (Text.trim text) with
    | some x => simp
    | none =>
        dsimp only
        split
        · cases Call.read limit depth (Text.trim text) <;> simp [Except.map]
        · simp

/-- A text with a `(` is read as a call, since no literal has one. -/
theorem read_of_opening {text : Text} (h : '(' ∈ text) (limit : Option Nat) (depth : Nat) :
    read limit depth text = (Call.read limit depth (Text.trim text)).map .call := by
  have hmem : '(' ∈ Text.trim text := Text.mem_trim_of_mem (by decide) h
  have hnumber : Literal.read? (Text.trim text) = none :=
    Literal.read?_eq_none_of_mem hmem (by decide) (by decide)
  simp only [read]
  rw [if_neg (List.ne_nil_of_mem hmem), hnumber]
  simp [hmem]

/-- A text without parentheses is a literal or no formula, at any depth. -/
theorem read_of_no_paren {text : Text} (hopen : '(' ∉ text) (hclose : ')' ∉ text)
    (limit : Option Nat) (depth : Nat) :
    read limit depth text =
      if Text.trim text = [] then .error .blank
      else match Literal.read? (Text.trim text) with
        | some value => .ok (.number value)
        | none => .error (.notANumber (Text.trim text)) := by
  have hopen' : '(' ∉ Text.trim text := fun hmem => hopen (Text.mem_of_mem_trim hmem)
  have hclose' : ')' ∉ Text.trim text := fun hmem => hclose (Text.mem_of_mem_trim hmem)
  unfold read
  dsimp only
  by_cases hnil : Text.trim text = []
  · rw [if_pos hnil, if_pos hnil]
  · rw [if_neg hnil, if_neg hnil]
    cases Literal.read? (Text.trim text) with
    | some value => rfl
    | none => simp [hopen', hclose']

end Outline

/-! ## Expressions -/

namespace Expr

/-- What is read depends on the outline and on what is read in its parameters. -/
theorem parseAt_eq (limit : Option Nat) (depth : Nat) (text : Text) :
    parseAt limit depth text =
      (match Outline.read limit depth text with
      | .error e => .error e
      | .ok (.number value) => .ok (.number value)
      | .ok (.call found) => do
        let left ← parseAt limit (depth + 1) found.left
        let right ← parseAt limit (depth + 1) found.right
        return .call found.operator left right) := by
  cases h : Outline.read limit depth text with
  | error e => exact parseAt_error h
  | ok outline =>
      cases outline with
      | number value => exact parseAt_number h
      | call found => exact parseAt_call h

/-- Blanks around a text do not matter. -/
theorem parseAt_trim (limit : Option Nat) (depth : Nat) (text : Text) :
    parseAt limit depth (Text.trim text) = parseAt limit depth text := by
  rw [parseAt_eq, Outline.read_trim, ← parseAt_eq]

/-- A composed call is read by reading its parameters, the left one first. -/
theorem parseAt_composed {left right : Text} (hleft : Text.IsParameter left)
    (hright : Text.IsParameter right) (hblank : ¬Text.Blank right) (op : Operator)
    (limit : Option Nat) (depth : Nat) :
    parseAt limit depth (callText op.keyword (left ++ ',' :: right)) =
      (do
        Call.checkDepth limit depth
        let l ← parseAt limit (depth + 1) left
        let r ← parseAt limit (depth + 1) right
        return .call op l r) := by
  have hopen : '(' ∈ callText op.keyword (left ++ ',' :: right) := by simp [callText]
  rw [parseAt_eq, Outline.read_of_opening hopen, trim_callText op.keyword_no_blank,
    Call.read_composed hleft hright hblank]
  cases Call.checkDepth limit depth with
  | error e => rfl
  | ok _ =>
      simp only [bind, Except.bind, pure, Except.pure, Except.map, parseAt_trim]

/-- Without a limit it does not matter how many calls a text stands in. -/
theorem parseAt_unlimited (depth : Nat) (text : Text) :
    parseAt none depth text = parse none text := by
  have hstep : ∀ outer, parseAt none depth text = parseAt none outer text := by
    induction depth, text using parseAt.induct none with
    | case1 depth text error h =>
        intro outer
        have houter : Outline.read none outer text = .error error := h
        rw [parseAt_error h, parseAt_error houter]
    | case2 depth text value h =>
        intro outer
        have houter : Outline.read none outer text = .ok (.number value) := h
        rw [parseAt_number h, parseAt_number houter]
    | case3 depth text found h ihLeft ihRight =>
        intro outer
        have houter : Outline.read none outer text = .ok (.call found) := h
        rw [parseAt_call h, parseAt_call houter, ihLeft (outer + 1), ihRight (outer + 1)]
  exact hstep 0

/-- A call written around two parameters, whatever these hold, is read as they are read on their
own: it fails as the left one does, or else as the right one, or else calls the operator on both
expressions. -/
theorem parse_callText {left right : Text} (hleft : Text.IsParameter left)
    (hright : Text.IsParameter right) (hblank : ¬Text.Blank right) (op : Operator) :
    parse none (callText op.keyword (left ++ ',' :: right)) =
      match parse none left, parse none right with
      | .error e, _ => .error e
      | .ok _, .error e => .error e
      | .ok l, .ok r => .ok (.call op l r) := by
  have hroom : Call.checkDepth none 0 = .ok () := rfl
  rw [parse, parseAt_composed hleft hright hblank, hroom, parseAt_unlimited, parseAt_unlimited]
  cases parse none left with
  | error e => rfl
  | ok l => cases parse none right <;> rfl

/-- The statement for two parameters that are both no formulas, of which the left one's error is
met, for a right one that is none, and for two that are read. -/
theorem parse_callText_eachCase :
    Text.IsParameter "add(1)".toList ∧ Text.IsParameter "x(, y)".toList ∧
      Text.IsParameter "add(2, 4)".toList ∧ Text.IsParameter " 6".toList ∧
      ¬Text.Blank "x(, y)".toList ∧ ¬Text.Blank " 6".toList ∧
      parse none (callText Operator.divide.keyword ("add(1)".toList ++ ',' :: "x(, y)".toList)) =
        .error (.wrongCount "add".toList 2 1) ∧
      parse none (callText Operator.divide.keyword
        ("add(2, 4)".toList ++ ',' :: "x(, y)".toList)) = .error (.unknownFunction "x".toList) ∧
      parse none (callText Operator.divide.keyword ("add(2, 4)".toList ++ ',' :: " 6".toList)) =
        .ok (.call .divide (.call .add (.number (.ofNat 2)) (.number (.ofNat 4)))
          (.number (.ofNat 6))) := by
  have hcount : Text.IsParameter "add(1)".toList := by decide
  have hunknown : Text.IsParameter "x(, y)".toList := by decide
  have hsum : Text.IsParameter "add(2, 4)".toList := by decide
  have hsix : Text.IsParameter " 6".toList := by decide
  have hunknown_blank : ¬Text.Blank "x(, y)".toList := by decide
  have hsix_blank : ¬Text.Blank " 6".toList := by decide
  have hcount_read : parse none "add(1)".toList = .error (.wrongCount "add".toList 2 1) := by
    decide +kernel
  have hunknown_read : parse none "x(, y)".toList = .error (.unknownFunction "x".toList) := by
    decide +kernel
  have hsum_read : parse none "add(2, 4)".toList =
      .ok (.call .add (.number (.ofNat 2)) (.number (.ofNat 4))) := by decide +kernel
  have hsix_read : parse none " 6".toList = .ok (.number (.ofNat 6)) := by decide +kernel
  have hleft := parse_callText hcount hunknown hunknown_blank .divide
  have hright := parse_callText hsum hunknown hunknown_blank .divide
  have hboth := parse_callText hsum hsix hsix_blank .divide
  rw [hcount_read] at hleft
  rw [hsum_read, hunknown_read] at hright
  rw [hsum_read, hsix_read] at hboth
  exact ⟨hcount, hunknown, hsum, hsix, hunknown_blank, hsix_blank, hleft, hright, hboth⟩

end Expr

end ArithFormula
