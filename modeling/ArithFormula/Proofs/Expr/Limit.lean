import ArithFormula.Proofs.Expr.Composition

/-!
# Reading under a limit

A limit on the nesting of calls is checked at each call, after its keyword and before
its parentheses. So reading with a limit and reading without one go the same way until
the first call that is too deep, and end there or end alike. Which of the two happens
is decided by the depth of the expression, if there is one; if there is none, by which
failure is met first.

## Main results

* `Outline.read_limit` — the one way in which a limit changes a step of reading.
* `Outline.count_opening_of_read` — the parameters of a call share the `(` that are not
  its own.
* `Expr.depth_le_count` — an expression is not deeper than its text has `(`.
* `Expr.parse_limit` — what a limit makes of the result without one.
-/

namespace ArithFormula

/-! ## One step -/

namespace Call

theorem checkDepth_of_lt {n depth : Nat} (h : depth < n) : checkDepth (some n) depth = .ok () := by
  rw [checkDepth_eq_ok_iff]
  intro m hm
  obtain rfl : n = m := Option.some.inj hm
  exact h

theorem checkDepth_of_le {n depth : Nat} (h : n ≤ depth) :
    checkDepth (some n) depth = .error (.tooDeep n) := by
  simp [checkDepth, h]

theorem read_of_no_opening {text : Text} (h : '(' ∉ text) (limit : Option Nat) (depth : Nat) :
    read limit depth text = .error (.noOpening text) := by
  simp only [read, keyword, Text.cutFirst_eq_none_iff.mpr h]
  rfl

/-- A limit that leaves room changes nothing. One that does not stops the call, unless it had
failed before, by its keyword. -/
theorem read_limit (n depth : Nat) (text : Text) :
    read (some n) depth text = read none depth text ∨
      n ≤ depth ∧ '(' ∈ text ∧ read (some n) depth text = .error (.tooDeep n) := by
  by_cases hopen : '(' ∈ text
  · by_cases hroom : depth < n
    · left
      simp only [read, checkDepth_of_lt hroom]
      rfl
    · have hle : n ≤ depth := Nat.le_of_not_lt hroom
      simp only [read, checkDepth_of_le hle]
      cases keyword text with
      | error e => exact .inl rfl
      | ok name =>
          cases hoperator : operatorNamed name with
          | error e =>
              left
              simp [bind, Except.bind, hoperator]
          | ok op =>
              right
              simp [bind, Except.bind, hoperator, hle, hopen]
  · left
    rw [read_of_no_opening hopen, read_of_no_opening hopen]

end Call

namespace Outline

/-- A limit changes a step of reading in one way only: it stops a call that is too deep. -/
theorem read_limit (n depth : Nat) (text : Text) :
    read (some n) depth text = read none depth text ∨
      n ≤ depth ∧ '(' ∈ text ∧ read (some n) depth text = .error (.tooDeep n) := by
  by_cases hopen : '(' ∈ text
  · rw [read_of_opening hopen, read_of_opening hopen]
    cases Call.read_limit n depth (Text.trim text) with
    | inl heq => exact .inl (congrArg (Except.map Outline.call) heq)
    | inr hdeep =>
        right
        rw [hdeep.2.2]
        exact ⟨hdeep.1, hopen, rfl⟩
  · left
    simp only [read]
    have hopen' : '(' ∉ Text.trim text := fun hmem => hopen (Text.mem_of_mem_trim hmem)
    rw [Call.read_of_no_opening hopen', Call.read_of_no_opening hopen']

/-- A call that is read is inside fewer calls than the limit. -/
theorem lt_of_read_call {n depth : Nat} {text : Text} {found : Call}
    (h : read (some n) depth text = .ok (.call found)) : depth < n := by
  obtain ⟨_, hdepth, _⟩ := Call.read_eq_ok_iff.mp (read_eq_call_iff.mp h).2
  exact Call.checkDepth_eq_ok_iff.mp hdepth n rfl

/-- The parameters of a call share the `(` that are not its own. -/
theorem count_opening_of_read {limit : Option Nat} {depth : Nat} {text : Text} {found : Call}
    (h : read limit depth text = .ok (.call found)) :
    found.left.count '(' + found.right.count '(' + 1 ≤ text.count '(' := by
  obtain ⟨a, b, hcall, hleft, hright⟩ :=
    Call.exists_isCallOf_of_read (read_eq_call_iff.mp h).2
  obtain ⟨front, inner, post, htext, _, _, _, hinner, _, _⟩ := hcall
  have hcount := Text.count_trim_le '(' text
  have hcountInner := Text.count_trim_le '(' inner
  have hcountA := Text.count_trim_le '(' a
  have hcountB := Text.count_trim_le '(' b
  rw [htext] at hcount
  rw [hleft, hright]
  cases hinner with
  | inl hinner =>
      rw [hinner] at hcountInner
      simp at hcount hcountInner
      omega
  | inr hinner =>
      rw [hinner] at hcountInner
      simp at hcount hcountInner
      omega

end Outline

/-! ## A whole run -/

namespace Expr

/-- Every level of an expression has a `(` of its own in the text. -/
theorem depth_le_count {limit : Option Nat} {depth : Nat} {text : Text} :
    ∀ {e : Expr}, parseAt limit depth text = .ok e → e.depth ≤ text.count '(' := by
  induction depth, text using parseAt.induct limit with
  | case1 depth text error h =>
      intro e he
      rw [parseAt_error h] at he
      cases he
  | case2 depth text value h =>
      intro e he
      rw [parseAt_number h] at he
      cases he
      exact Nat.zero_le _
  | case3 depth text found h ihLeft ihRight =>
      intro e he
      rw [parseAt_call h] at he
      obtain ⟨left, hleft, he⟩ := bind_eq_ok_iff.mp he
      obtain ⟨right, hright, he⟩ := bind_eq_ok_iff.mp he
      obtain rfl := return_eq_ok_iff.mp he
      have hl := ihLeft hleft
      have hr := ihRight hright
      have hcount := Outline.count_opening_of_read h
      simp only [Expr.depth]
      omega

/-- What a limit may make of a result without one, for a text with so many `(` inside so many
calls. An expression stays or is cut off by its depth. An error stays or gives way to the limit,
and it stays if there is room for every `(`. -/
def CutOff (n depth openings : Nat) (full limited : Except ParseError Expr) : Prop :=
  match full with
  | .ok e => limited = if depth + e.depth ≤ n then .ok e else .error (.tooDeep n)
  | .error error =>
      (limited = .error error ∨ limited = .error (.tooDeep n)) ∧
        (depth + openings ≤ n → limited = .error error)

/-- A call without room is cut off whatever its parameters hold. -/
theorem cutOff_of_too_deep {n depth openings : Nat} (hdeep : n ≤ depth) (hopen : 0 < openings)
    {op : Operator} {left right : Except ParseError Expr} :
    CutOff n depth openings
      (do
        let l ← left
        let r ← right
        return .call op l r)
      (.error (.tooDeep n)) := by
  cases left with
  | error e => exact ⟨.inr rfl, fun hroom => by omega⟩
  | ok l =>
      cases right with
      | error e => exact ⟨.inr rfl, fun hroom => by omega⟩
      | ok r =>
          have hnone : ¬depth + (call op l r).depth ≤ n := by
            simp only [Expr.depth]
            omega
          exact (if_neg hnone).symm

/-- A call with room is cut off where one of its parameters is, the left one first. That the
left one is not deeper than its `(` keeps it from hiding an error of the right one. -/
theorem cutOff_call {n depth openings leftOpenings rightOpenings : Nat}
    (hopen : leftOpenings + rightOpenings + 1 ≤ openings) {op : Operator}
    {left right left' right' : Except ParseError Expr}
    (hdepth : ∀ l, left = .ok l → l.depth ≤ leftOpenings)
    (hleft : CutOff n (depth + 1) leftOpenings left left')
    (hright : CutOff n (depth + 1) rightOpenings right right') :
    CutOff n depth openings
      (do
        let l ← left
        let r ← right
        return .call op l r)
      (do
        let l ← left'
        let r ← right'
        return .call op l r) := by
  cases left with
  | error e =>
      refine ⟨?_, ?_⟩
      · rcases hleft.1 with h | h
        · exact .inl (by rw [h]; rfl)
        · exact .inr (by rw [h]; rfl)
      · intro hroom
        rw [hleft.2 (by omega)]
        rfl
  | ok l =>
      have hl : left' = if depth + 1 + l.depth ≤ n then .ok l else .error (.tooDeep n) := hleft
      have hbound := hdepth l rfl
      by_cases hroomLeft : depth + 1 + l.depth ≤ n
      · rw [if_pos hroomLeft] at hl
        rw [hl]
        cases right with
        | error e =>
            refine ⟨?_, ?_⟩
            · rcases hright.1 with h | h
              · exact .inl (by rw [h]; rfl)
              · exact .inr (by rw [h]; rfl)
            · intro hroom
              rw [hright.2 (by omega)]
              rfl
        | ok r =>
            have hr : right' = if depth + 1 + r.depth ≤ n then .ok r
              else .error (.tooDeep n) := hright
            by_cases hroomRight : depth + 1 + r.depth ≤ n
            · have hroom : depth + (call op l r).depth ≤ n := by
                simp only [Expr.depth]
                omega
              rw [hr, if_pos hroomRight]
              exact (if_pos hroom).symm
            · have hroom : ¬depth + (call op l r).depth ≤ n := by
                simp only [Expr.depth]
                omega
              rw [hr, if_neg hroomRight]
              exact (if_neg hroom).symm
      · rw [if_neg hroomLeft] at hl
        rw [hl]
        cases right with
        | error e => exact ⟨.inr rfl, fun hroom => absurd hroom (by omega)⟩
        | ok r =>
            have hroom : ¬depth + (call op l r).depth ≤ n := by
              simp only [Expr.depth]
              omega
            exact (if_neg hroom).symm

/-- From a place on that the limit allows, reading with the limit cuts off reading without. -/
theorem parseAt_cutOff {n : Nat} {depth : Nat} {text : Text} :
    depth ≤ n →
      CutOff n depth (text.count '(') (parseAt none depth text) (parseAt (some n) depth text) := by
  induction depth, text using parseAt.induct none with
  | case1 depth text error h =>
      intro _
      rw [parseAt_error h]
      cases Outline.read_limit n depth text with
      | inl heq =>
          rw [parseAt_error (heq.trans h)]
          exact ⟨.inl rfl, fun _ => rfl⟩
      | inr hdeep =>
          have hpos : 0 < text.count '(' := List.count_pos_iff.mpr hdeep.2.1
          rw [parseAt_error hdeep.2.2]
          exact ⟨.inr rfl, fun hroom => absurd hroom (by omega)⟩
  | case2 depth text value h =>
      intro hstart
      have hlimited : Outline.read (some n) depth text = .ok (.number value) :=
        Outline.read_eq_number_iff.mpr (Outline.read_eq_number_iff.mp h)
      rw [parseAt_number h, parseAt_number hlimited]
      exact (if_pos hstart).symm
  | case3 depth text found h ihLeft ihRight =>
      intro hstart
      have hcount := Outline.count_opening_of_read h
      rw [parseAt_call h]
      by_cases hroom : depth < n
      · have hlimited : Outline.read (some n) depth text = .ok (.call found) := by
          cases Outline.read_limit n depth text with
          | inl heq => exact heq.trans h
          | inr hdeep => omega
        rw [parseAt_call hlimited]
        exact cutOff_call hcount (fun l hl => depth_le_count hl) (ihLeft hroom) (ihRight hroom)
      · have hdeep : Outline.read (some n) depth text = .error (.tooDeep n) := by
          cases Outline.read_limit n depth text with
          | inl heq => exact absurd (Outline.lt_of_read_call (heq.trans h)) hroom
          | inr hdeep => exact hdeep.2.2
        rw [parseAt_error hdeep]
        exact cutOff_of_too_deep (Nat.le_of_not_lt hroom) (by omega)

/-- A limit only cuts off, and it cuts off exactly at the depth of the expression. On a text
that is no formula it may report the limit instead of the error, but not if the limit is at
least the number of `(`. -/
theorem parse_limit (n : Nat) (text : Text) :
    match parse none text with
    | .ok e => parse (some n) text = if e.depth ≤ n then .ok e else .error (.tooDeep n)
    | .error error =>
        (parse (some n) text = .error error ∨ parse (some n) text = .error (.tooDeep n)) ∧
          (text.count '(' ≤ n → parse (some n) text = .error error) := by
  have h : CutOff n 0 (text.count '(') (parseAt none 0 text) (parseAt (some n) 0 text) :=
    parseAt_cutOff (Nat.zero_le n)
  simpa only [CutOff, Nat.zero_add, parse] using h

/-- The expression `1 + 2 * (3 - 4)`. -/
def threeDeep : Expr :=
  .call .add (.number (.ofNat 1))
    (.call .multiply (.number (.ofNat 2))
      (.call .subtract (.number (.ofNat 3)) (.number (.ofNat 4))))

/-- The statement for the depth of an expression as the limit and for one less, and for a text whose
error stands behind a call of that depth. -/
theorem parse_limit_threeDeep :
    (parse none "add(1, multiply(2, subtract(3, 4)))".toList = .ok threeDeep ∧
      threeDeep.depth = 3 ∧
      parse (some 3) "add(1, multiply(2, subtract(3, 4)))".toList = .ok threeDeep ∧
      parse (some 2) "add(1, multiply(2, subtract(3, 4)))".toList = .error (.tooDeep 2)) ∧
    parse none "add(add(1, add(2, 3)), x)".toList = .error (.notANumber "x".toList) ∧
      parse (some 3) "add(add(1, add(2, 3)), x)".toList = .error (.notANumber "x".toList) ∧
      (parse (some 2) "add(add(1, add(2, 3)), x)".toList = .error (.notANumber "x".toList) ∨
        parse (some 2) "add(add(1, add(2, 3)), x)".toList = .error (.tooDeep 2)) := by
  have hread : parse none "add(1, multiply(2, subtract(3, 4)))".toList = .ok threeDeep := by
    decide +kernel
  have hdepth : threeDeep.depth = 3 := by decide
  have herror : parse none "add(add(1, add(2, 3)), x)".toList =
      .error (.notANumber "x".toList) := by decide +kernel
  have hroom := parse_limit 3 "add(1, multiply(2, subtract(3, 4)))".toList
  have hnone := parse_limit 2 "add(1, multiply(2, subtract(3, 4)))".toList
  have hkept := parse_limit 3 "add(add(1, add(2, 3)), x)".toList
  have hhidden := parse_limit 2 "add(add(1, add(2, 3)), x)".toList
  simp only [hread, hdepth] at hroom hnone
  simp only [herror] at hkept hhidden
  exact ⟨⟨hread, hdepth, hroom, hnone⟩, herror, hkept.2 (by decide), hhidden.1⟩

end Expr

end ArithFormula
