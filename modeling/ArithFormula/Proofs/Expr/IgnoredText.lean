import ArithFormula.Proofs.Expr.Grammar
import ArithFormula.Proofs.Expr.Limit
import ArithFormula.Proofs.Expr.ShownCalls

/-!
# Text behind closing parentheses

What stands between a `)` and the next mark is not read, and neither is what stands behind the
last `)`. So a formula stays one, of the same expression, if text without marks is put in behind
any of its `)`, and if text without a `)` is put at its end.

The reader trims a body before it cuts it, and text that is put in behind the last `)` of a body
moves the place up to which is trimmed. So calls are looked at with their blanks kept
(`WritesCall`): a text put in then stands in one parameter, or behind the call, and changes nothing
else.

## Main results

* `derives_call_iff` — a call is derived from the parts that its text writes, blanks kept.
* `Derives.putBehindClosing` — text without marks behind a `)` does not matter.
* `Expr.parse_eq_ok_iff` — what is read under a limit is what is derived and not too deep.
* `Expr.parse_ignores` — the text that is not read, at every level and under every limit.
-/

namespace ArithFormula

/-! ## Putting text in -/

namespace Text

/-- The second text is the first one with `ignored` put in directly behind one of its `)`. -/
def PutBehindClosing (ignored text text' : Text) : Prop :=
  ∃ front back, text = front ++ ')' :: back ∧ text' = front ++ ')' :: (ignored ++ back)

namespace PutBehindClosing

variable {ignored text text' : Text}

theorem mem (h : PutBehindClosing ignored text text') : ')' ∈ text := by
  obtain ⟨front, back, rfl, _⟩ := h
  simp

/-- In a text of two parts, text is put into one of them. -/
theorem of_append {left right : Text} (h : PutBehindClosing ignored (left ++ right) text') :
    (∃ left', PutBehindClosing ignored left left' ∧ text' = left' ++ right) ∨
      ∃ right', PutBehindClosing ignored right right' ∧ text' = left ++ right' := by
  obtain ⟨front, back, heq, rfl⟩ := h
  rcases List.append_eq_append_iff.mp heq with ⟨more, rfl, rfl⟩ | ⟨more, rfl, hback⟩
  · exact .inr ⟨more ++ ')' :: (ignored ++ back), ⟨more, back, rfl, rfl⟩, by simp⟩
  · cases more with
    | nil =>
        obtain rfl : ')' :: back = right := hback
        exact .inr ⟨')' :: (ignored ++ back), ⟨[], back, rfl, rfl⟩, by simp⟩
    | cons c more =>
        obtain ⟨rfl, rfl⟩ : ')' = c ∧ back = more ++ right := by simpa using hback
        exact .inl ⟨front ++ ')' :: (ignored ++ more), ⟨front, more, rfl, rfl⟩, by simp⟩

/-- Nothing is put in directly behind another character. -/
theorem of_cons {c : Char} (hc : c ≠ ')') (h : PutBehindClosing ignored (c :: text) text') :
    ∃ rest', PutBehindClosing ignored text rest' ∧ text' = c :: rest' := by
  have hsplit : PutBehindClosing ignored ([c] ++ text) text' := h
  rcases hsplit.of_append with ⟨_, hfront, _⟩ | hrest
  · exact absurd (List.mem_singleton.mp hfront.mem).symm hc
  · exact hrest

/-- Behind the only `)` of a text everything is put in there. -/
theorem of_only {post : Text} (hpost : ')' ∉ post)
    (h : PutBehindClosing ignored (')' :: post) text') : text' = ')' :: (ignored ++ post) := by
  obtain ⟨front, back, heq, rfl⟩ := h
  cases front with
  | nil =>
      obtain rfl : post = back := by simpa using heq
      rfl
  | cons c front =>
      obtain ⟨_, rfl⟩ : ')' = c ∧ post = front ++ ')' :: back := by simpa using heq
      simp at hpost

/-- Text without marks leaves the scan where it is. -/
theorem runsOn_iff (hignored : ∀ c ∈ ignored, c ≠ '(' ∧ c ≠ ')' ∧ c ≠ ',')
    (h : PutBehindClosing ignored text text') {depth : Nat} :
    RunsOn depth text' ↔ RunsOn depth text := by
  obtain ⟨front, back, rfl, rfl⟩ := h
  induction front generalizing depth with
  | nil =>
      rw [List.nil_append, List.nil_append, runsOn_cons, runsOn_cons,
        runsOn_append_of_no_mark hignored]
  | cons c front ih => rw [List.cons_append, List.cons_append, runsOn_cons, runsOn_cons, ih]

theorem isParameter (hignored : ∀ c ∈ ignored, c ≠ '(' ∧ c ≠ ')' ∧ c ≠ ',')
    (h : PutBehindClosing ignored text text') (hparameter : IsParameter text) :
    IsParameter text' :=
  isParameter_iff.mpr ((h.runsOn_iff hignored).mpr (isParameter_iff.mp hparameter))

end PutBehindClosing

end Text

/-! ## Calls with their blanks -/

/-- The text writes a call of the operator on two parameters, blanks kept: behind the parameters
there is nothing up to the last `)`, or one more comma and blanks. -/
def WritesCall (text : Text) (op : Operator) (left right : Text) : Prop :=
  ∃ front tail post, text = front ++ '(' :: (left ++ ',' :: (right ++ (tail ++ ')' :: post))) ∧
    '(' ∉ front ∧ ')' ∉ post ∧ Text.trim front = op.keyword ∧
    (tail = [] ∨ ∃ blanks, Text.Blank blanks ∧ tail = ',' :: blanks) ∧
    Text.IsParameter left ∧ Text.IsParameter right

/-- A call that a text is, is written there, the blanks of its body put back. -/
theorem IsCallOf.exists_writesCall {text left right : Text} {op : Operator}
    (h : IsCallOf text op left right) :
    ∃ left' right', WritesCall text op left' right' ∧ Text.trim left' = Text.trim left ∧
      Text.trim right' = Text.trim right := by
  obtain ⟨front, inner, post, htext, hfront, hpost, hname, hinner, hleft, hright⟩ := h
  obtain ⟨before, behind, hbefore, hbehind, hin⟩ := Text.eq_append_trim inner
  have hleft' : Text.IsParameter (before ++ left) := by
    have hblank := (Text.isParameter_append_blank hbefore Text.blank_nil).mpr hleft
    rwa [List.append_nil] at hblank
  have hsame : Text.trim (before ++ left) = Text.trim left := by
    have hblank := Text.trim_append_blank hbefore Text.blank_nil left
    rwa [List.append_nil] at hblank
  cases hinner with
  | inl hinner =>
      have hright' := (Text.isParameter_append_blank Text.blank_nil hbehind).mpr hright
      refine ⟨before ++ left, right ++ behind, ⟨front, [], post, ?_, hfront, hpost, hname, .inl rfl,
        hleft', hright'⟩, hsame, Text.trim_append_blank Text.blank_nil hbehind right⟩
      rw [htext, hin, hinner]
      simp
  | inr hinner =>
      refine ⟨before ++ left, right, ⟨front, ',' :: behind, post, ?_, hfront, hpost, hname,
        .inr ⟨behind, hbehind, rfl⟩, hleft', hright⟩, hsame, rfl⟩
      rw [htext, hin, hinner]
      simp

/-- A text that writes a call is one, with the outer blanks of its body taken off. -/
theorem WritesCall.exists_isCallOf {text left right : Text} {op : Operator}
    (h : WritesCall text op left right) :
    ∃ left' right', IsCallOf text op left' right' ∧ Text.trim left' = Text.trim left ∧
      Text.trim right' = Text.trim right := by
  obtain ⟨front, tail, post, htext, hfront, hpost, hname, htail, hleft, hright⟩ := h
  rcases htail with rfl | ⟨blanks, hblanks, rfl⟩
  · refine ⟨Text.trimStart left, Text.trimEnd right, ⟨front, left ++ ',' :: right, post, ?_, hfront,
      hpost, hname, .inl ?_, hleft.trimStart, hright.trimEnd⟩, Text.trim_trimStart left,
      Text.trim_trimEnd right⟩
    · rw [htext]
      simp
    · exact Text.trim_append_cons (by decide) left right
  · have hnil : Text.trimEnd blanks = [] := Text.trimEnd_append_blank hblanks []
    refine ⟨Text.trimStart left, right, ⟨front, left ++ ',' :: (right ++ ',' :: blanks), post, ?_,
      hfront, hpost, hname, .inr ?_, hleft.trimStart, hright⟩, Text.trim_trimStart left, rfl⟩
    · rw [htext]
      simp
    · rw [Text.trim_append_cons (by decide), Text.trimEnd_append_cons (by decide), hnil]
      simp

/-- A call is derived from the parts that its text writes, blanks kept. -/
theorem derives_call_iff {text : Text} {op : Operator} {l r : Expr} :
    Derives text (.call op l r) ↔
      ∃ left right, WritesCall text op left right ∧ Derives left l ∧ Derives right r := by
  constructor
  · intro h
    cases h with
    | call hcall hleft hright =>
        obtain ⟨left', right', hwrites, hl, hr⟩ := (isCallOf_trim_iff.mp hcall).exists_writesCall
        refine ⟨left', right', hwrites, ?_, ?_⟩
        · rwa [← derives_trim, hl, derives_trim]
        · rwa [← derives_trim, hr, derives_trim]
  · rintro ⟨left, right, hwrites, hleft, hright⟩
    obtain ⟨left', right', hcall, hl, hr⟩ := hwrites.exists_isCallOf
    refine .call (isCallOf_trim_iff.mpr hcall) ?_ ?_
    · rwa [← derives_trim, hl, derives_trim]
    · rwa [← derives_trim, hr, derives_trim]

/-! ## Text put into a call -/

/-- Text without marks that is put into a call stands in one of its parameters, or behind it. -/
theorem WritesCall.putBehindClosing {ignored text text' left right : Text} {op : Operator}
    (hignored : ∀ c ∈ ignored, c ≠ '(' ∧ c ≠ ')' ∧ c ≠ ',') (h : WritesCall text op left right)
    (hput : Text.PutBehindClosing ignored text text') :
    (∃ left', Text.PutBehindClosing ignored left left' ∧ WritesCall text' op left' right) ∨
      (∃ right', Text.PutBehindClosing ignored right right' ∧ WritesCall text' op left right') ∨
        WritesCall text' op left right := by
  obtain ⟨front, tail, post, rfl, hfront, hpost, hname, htail, hleft, hright⟩ := h
  have hfrontClose := (Text.no_paren_of_no_mark (Text.no_mark_of_trim_eq_keyword hname)).2
  have htailClose : ')' ∉ tail := by
    rcases htail with rfl | ⟨blanks, hblanks, rfl⟩
    · simp
    · simp [(Text.no_paren_of_no_mark (Text.no_mark_of_blank hblanks)).2]
  -- The parts of the call in turn: there is no `)` in front of the left parameter, between the
  -- parameters, and from the right one to the last `)`.
  rcases hput.of_append with ⟨_, hin, _⟩ | ⟨_, hcall, rfl⟩
  · exact absurd hin.mem hfrontClose
  obtain ⟨_, hbody, rfl⟩ := Text.PutBehindClosing.of_cons (show '(' ≠ ')' by decide) hcall
  rcases hbody.of_append with ⟨left', hin, rfl⟩ | ⟨_, hcomma, rfl⟩
  · exact .inl ⟨left', hin, front, tail, post, rfl, hfront, hpost, hname, htail,
      hin.isParameter hignored hleft, hright⟩
  obtain ⟨_, hsecond, rfl⟩ := Text.PutBehindClosing.of_cons (show ',' ≠ ')' by decide) hcomma
  rcases hsecond.of_append with ⟨right', hin, rfl⟩ | ⟨_, hrest, rfl⟩
  · exact .inr (.inl ⟨right', hin, front, tail, post, rfl, hfront, hpost, hname, htail, hleft,
      hin.isParameter hignored hright⟩)
  rcases hrest.of_append with ⟨_, hin, _⟩ | ⟨_, hlast, rfl⟩
  · exact absurd hin.mem htailClose
  rw [hlast.of_only hpost]
  refine .inr (.inr ⟨front, tail, ignored ++ post, rfl, hfront, ?_, hname, htail, hleft, hright⟩)
  simp [hpost, (Text.no_paren_of_no_mark hignored).2]

/-- A number is written without a `)`. -/
theorem Derives.no_closing_of_number {text : Text} {value : Binary64}
    (h : Derives text (.number value)) : ')' ∉ text := by
  cases h with
  | number hliteral hnearest =>
      have hread := Literal.read?_eq_some_iff.mpr ⟨_, _, hliteral, hnearest, rfl⟩
      have hnumber : Outline.read none 0 text = .ok (.number _) :=
        Outline.read_eq_number_iff.mpr hread
      exact (Outline.no_paren_of_read_number hnumber).2

/-- Text without marks behind a `)` does not matter, at any level. -/
theorem Derives.putBehindClosing {ignored : Text}
    (hignored : ∀ c ∈ ignored, c ≠ '(' ∧ c ≠ ')' ∧ c ≠ ',') {e : Expr} :
    ∀ {text text' : Text}, Derives text e → Text.PutBehindClosing ignored text text' →
      Derives text' e := by
  induction e with
  | number value =>
      intro text text' h hput
      exact absurd hput.mem h.no_closing_of_number
  | call op l r ihLeft ihRight =>
      intro text text' h hput
      obtain ⟨left, right, hwrites, hleft, hright⟩ := derives_call_iff.mp h
      rw [derives_call_iff]
      rcases hwrites.putBehindClosing hignored hput with
        ⟨left', hin, hwrites'⟩ | ⟨right', hin, hwrites'⟩ | hwrites'
      · exact ⟨left', right, hwrites', ihLeft hleft hin, hright⟩
      · exact ⟨left, right', hwrites', hleft, ihRight hright hin⟩
      · exact ⟨left, right, hwrites', hleft, hright⟩

/-- Text without a `)` behind a call does not matter. -/
theorem Derives.append_of_no_closing {text appended : Text} {e : Expr} (h : Derives text e)
    (hclose : ')' ∈ text) (happended : ')' ∉ appended) : Derives (text ++ appended) e := by
  cases e with
  | number value => exact absurd hclose h.no_closing_of_number
  | call op l r =>
      obtain ⟨left, right, hwrites, hleft, hright⟩ := derives_call_iff.mp h
      obtain ⟨front, tail, post, rfl, hfront, hpost, hparts⟩ := hwrites
      refine derives_call_iff.mpr ⟨left, right, ⟨front, tail, post ++ appended, by simp, hfront, ?_,
        hparts⟩, hleft, hright⟩
      simp [hpost, happended]

/-! ## A whole run -/

namespace Expr

/-- What is read under a limit is what is derived and not too deep. -/
theorem parse_eq_ok_iff {limit : Option Nat} {text : Text} {e : Expr} :
    parse limit text = .ok e ↔ Derives text e ∧ ∀ n ∈ limit, e.depth ≤ n := by
  have hderives : parse none text = .ok e ↔ Derives text e :=
    ⟨derives_of_parseAt, fun h => parseAt_of_derives h 0⟩
  cases limit with
  | none => simp [hderives]
  | some n =>
      have hcut : CutOff n 0 (text.count '(') (parse none text) (parse (some n) text) :=
        parseAt_cutOff (Nat.zero_le n)
      rw [← hderives]
      cases hfull : parse none text with
      | error error =>
          rw [hfull] at hcut
          rcases hcut.1 with h | h <;> simp [h]
      | ok found =>
          rw [hfull] at hcut
          have hcut' : parse (some n) text =
              if 0 + found.depth ≤ n then .ok found else .error (.tooDeep n) := hcut
          rw [hcut', Nat.zero_add]
          by_cases hroom : found.depth ≤ n
          · rw [if_pos hroom]
            constructor
            · intro h
              cases h
              simp [hroom]
            · intro h
              exact h.1
          · rw [if_neg hroom]
            simp only [reduceCtorEq, false_iff, not_and]
            intro h
            cases h
            simp [hroom]

/-- Text that is not read: without marks behind any `)`, at every level, and without a `)` behind
a call. -/
theorem parse_ignores {limit : Option Nat} {text : Text} {e : Expr}
    (h : parse limit text = .ok e) :
    (∀ front back ignored, text = front ++ ')' :: back →
        (∀ c ∈ ignored, c ≠ '(' ∧ c ≠ ')' ∧ c ≠ ',') →
        parse limit (front ++ ')' :: (ignored ++ back)) = .ok e) ∧
      (')' ∈ text → ∀ appended, ')' ∉ appended → parse limit (text ++ appended) = .ok e) := by
  obtain ⟨hderives, hdepth⟩ := parse_eq_ok_iff.mp h
  constructor
  · intro front back ignored htext hignored
    exact parse_eq_ok_iff.mpr
      ⟨hderives.putBehindClosing hignored ⟨front, back, htext, rfl⟩, hdepth⟩
  · intro hclose appended happended
    exact parse_eq_ok_iff.mpr ⟨hderives.append_of_no_closing hclose happended, hdepth⟩

/-- The statement for a call inside another one, with text behind each. -/
theorem parse_ignores_nestedCall :
    parse (some 2) "add(multiply(2, 3), 4)".toList =
        .ok (.call .add (.call .multiply (.number (.ofNat 2)) (.number (.ofNat 3)))
          (.number (.ofNat 4))) ∧
      (∀ c ∈ " five".toList, c ≠ '(' ∧ c ≠ ')' ∧ c ≠ ',') ∧
      parse (some 2) "add(multiply(2, 3) five, 4)".toList =
        .ok (.call .add (.call .multiply (.number (.ofNat 2)) (.number (.ofNat 3)))
          (.number (.ofNat 4))) ∧
      ')' ∉ ", six((7".toList ∧
      parse (some 2) "add(multiply(2, 3), 4), six((7".toList =
        .ok (.call .add (.call .multiply (.number (.ofNat 2)) (.number (.ofNat 3)))
          (.number (.ofNat 4))) := by
  have h : parse (some 2) "add(multiply(2, 3), 4)".toList =
      .ok (.call .add (.call .multiply (.number (.ofNat 2)) (.number (.ofNat 3)))
        (.number (.ofNat 4))) := by decide +kernel
  have hmarks : ∀ c ∈ " five".toList, c ≠ '(' ∧ c ≠ ')' ∧ c ≠ ',' :=
    Text.forall_mem_of_all (by decide)
  have happended : ')' ∉ ", six((7".toList := by decide
  obtain ⟨hinside, hbehind⟩ := parse_ignores h
  exact ⟨h, hmarks, hinside "add(multiply(2, 3".toList ", 4)".toList _ rfl hmarks, happended,
    hbehind (by decide) _ happended⟩

end Expr

end ArithFormula
