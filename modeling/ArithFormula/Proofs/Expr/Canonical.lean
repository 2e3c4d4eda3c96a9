import ArithFormula.Proofs.Expr.Composition
import ArithFormula.Proofs.Decimal.NumberText

/-!
# Reading canonical text

The canonical text of an expression reads back as that expression, each number with
its sign bit, if nothing stands in the way. Two things can: a number that is not
finite, since its text is a word and not a literal, and a call inside as many calls as
the limit allows. The nodes of an expression are met in preorder, so of several
obstacles the first one in preorder is reported.

## Main results

* `parse_toText` — what the canonical text of an expression reads back as, for every
  expression and every limit.
-/

namespace ArithFormula.Expr

/-! ## Obstacles -/

/-- The numbers of an expression, from left to right. -/
def numbers : Expr → List Binary64
  | .number x => [x]
  | .call _ left right => left.numbers ++ right.numbers

/-- The nodes of an expression in preorder, each with the number of calls around it. -/
def nodes (outer : Nat) : Expr → List (Nat × Expr)
  | .number x => [(outer, .number x)]
  | .call op left right =>
      (outer, .call op left right) :: (left.nodes (outer + 1) ++ right.nodes (outer + 1))

/-- Why a node with a given number of calls around it cannot be read back. -/
def obstacle? (limit : Option Nat) : Nat × Expr → Option ParseError
  | (_, .number x) => if x.isFinite then none else some (.notANumber x.toText)
  | (outer, .call _ _ _) => if limit = some outer then some (.tooDeep outer) else none

/-- The first obstacle in preorder inside `outer` calls. -/
def firstObstacle? (limit : Option Nat) (outer : Nat) (e : Expr) : Option ParseError :=
  (e.nodes outer).findSome? (obstacle? limit)

theorem firstObstacle?_number (limit : Option Nat) (outer : Nat) (x : Binary64) :
    firstObstacle? limit outer (.number x) =
      if x.isFinite then none else some (.notANumber x.toText) := by
  simp only [firstObstacle?, nodes, List.findSome?_cons, List.findSome?_nil, obstacle?]
  split <;> simp_all

theorem firstObstacle?_call (limit : Option Nat) (outer : Nat) (op : Operator)
    (left right : Expr) :
    firstObstacle? limit outer (.call op left right) =
      if limit = some outer then some (.tooDeep outer)
      else (left.firstObstacle? limit (outer + 1)).or
        (right.firstObstacle? limit (outer + 1)) := by
  simp only [firstObstacle?, nodes, List.findSome?_cons, List.findSome?_append, obstacle?]
  split <;> simp_all

/-- A call that the limit allows leaves room for one more level inside it. -/
theorem room_inside {limit : Option Nat} {outer : Nat} (hlimit : ∀ n ∈ limit, outer ≤ n)
    (hallowed : limit ≠ some outer) : ∀ n ∈ limit, outer + 1 ≤ n := by
  intro n hn
  have hle := hlimit n hn
  have hne : outer ≠ n := fun heq => hallowed (heq ▸ hn)
  omega

/-- Nothing stands in the way exactly if all numbers are finite and the limit leaves room for
the depth. The nodes are met from a depth on that the limit allows. -/
theorem firstObstacle?_eq_none_iff {limit : Option Nat} {e : Expr} :
    ∀ {outer : Nat}, (∀ n ∈ limit, outer ≤ n) →
      (e.firstObstacle? limit outer = none ↔
        (∀ x ∈ e.numbers, x.isFinite = true) ∧ ∀ n ∈ limit, outer + e.depth ≤ n) := by
  induction e with
  | number x =>
      intro outer hlimit
      simp [firstObstacle?_number, numbers, depth]
      intro _
      simpa using hlimit
  | call op left right ihLeft ihRight =>
      intro outer hlimit
      rw [firstObstacle?_call]
      by_cases hdeep : limit = some outer
      · simp only [hdeep, if_true, reduceCtorEq, false_iff]
        intro h
        have hle := h.2 outer rfl
        simp only [depth] at hle
        omega
      · have hnext := room_inside hlimit hdeep
        rw [if_neg hdeep, Option.or_eq_none_iff, ihLeft hnext, ihRight hnext]
        simp only [numbers, List.mem_append, depth]
        constructor
        · intro h
          refine ⟨fun x hx => hx.elim (h.1.1 x) (h.2.1 x), ?_⟩
          intro n hn
          have hl := h.1.2 n hn
          have hr := h.2.2 n hn
          omega
        · intro h
          refine ⟨⟨fun x hx => h.1 x (.inl hx), ?_⟩, fun x hx => h.1 x (.inr hx), ?_⟩ <;>
            · intro n hn
              have hle := h.2 n hn
              omega

/-! ## Canonical text -/

theorem toText_call (op : Operator) (left right : Expr) :
    (call op left right).toText =
      callText op.keyword (left.toText ++ ',' :: (' ' :: right.toText)) := by
  simp [toText, callText]

/-- A blank in front does not matter to a parameter. -/
private theorem isParameter_space {text : Text} (h : Text.IsParameter text) :
    Text.IsParameter (' ' :: text) := by
  have hspace : Text.Blank [' '] := by decide
  rw [← List.append_nil (' ' :: text)]
  exact (Text.isParameter_append_blank hspace Text.blank_nil).mpr h

/-- The canonical text of an expression is one parameter, wherever it stands. -/
theorem isParameter_toText (e : Expr) : Text.IsParameter e.toText := by
  induction e with
  | number x => exact Text.isParameter_of_no_mark x.toText_no_mark
  | call op left right ihLeft ihRight =>
      rw [toText_call]
      exact Text.isParameter_enclosed op.keyword_no_mark
        (Text.balanced_append_separator ihLeft.balanced (isParameter_space ihRight).balanced)

theorem not_blank_toText (e : Expr) : ¬Text.Blank e.toText := by
  intro hblank
  cases e with
  | number x =>
      obtain ⟨c, hc⟩ := List.exists_mem_of_ne_nil _ x.toText_ne_nil
      have hfalse := x.toText_no_blank c hc
      rw [hblank c hc] at hfalse
      cases hfalse
  | call op left right =>
      have hopen := hblank '(' (by simp [toText])
      revert hopen
      decide

/-! ## Reading back -/

theorem parseAt_number_toText (limit : Option Nat) (depth : Nat) (x : Binary64) :
    parseAt limit depth x.toText =
      if x.isFinite then .ok (.number x) else .error (.notANumber x.toText) := by
  obtain ⟨hopen, hclose⟩ := Text.no_paren_of_no_mark x.toText_no_mark
  have hread := Outline.read_of_no_paren hopen hclose limit depth
  rw [Text.trim_eq_self x.toText_no_blank, if_neg x.toText_ne_nil] at hread
  cases hfinite : x.isFinite with
  | true =>
      rw [Binary64.read?_toText_of_isFinite hfinite] at hread
      exact parseAt_number hread
  | false =>
      rw [Binary64.read?_toText_eq_none hfinite] at hread
      exact parseAt_error hread

/-- A canonical call is read by reading its two expressions, the left one first. -/
theorem parseAt_call_toText (limit : Option Nat) (depth : Nat) (op : Operator)
    (left right : Expr) :
    parseAt limit depth (call op left right).toText =
      (do
        Call.checkDepth limit depth
        let l ← parseAt limit (depth + 1) left.toText
        let r ← parseAt limit (depth + 1) right.toText
        return .call op l r) := by
  have hspace : Text.Blank [' '] := by decide
  have htrim : Text.trim (' ' :: right.toText) = Text.trim right.toText := by
    have := Text.trim_append_blank hspace Text.blank_nil right.toText
    simpa using this
  have hblank : ¬Text.Blank (' ' :: right.toText) := fun h =>
    right.not_blank_toText (Text.blank_cons.mp h).2
  rw [toText_call, parseAt_composed left.isParameter_toText
    (isParameter_space right.isParameter_toText) hblank,
    ← parseAt_trim limit (depth + 1) (' ' :: right.toText), htrim, parseAt_trim]

/-- Inside calls that the limit allows, the text reads back unless there is an obstacle. -/
theorem parseAt_toText {limit : Option Nat} (e : Expr) :
    ∀ {outer : Nat}, (∀ n ∈ limit, outer ≤ n) →
      parseAt limit outer e.toText =
        match e.firstObstacle? limit outer with
        | none => .ok e
        | some error => .error error := by
  induction e with
  | number x =>
      intro outer _
      rw [toText, parseAt_number_toText, firstObstacle?_number]
      cases x.isFinite <;> rfl
  | call op left right ihLeft ihRight =>
      intro outer hlimit
      rw [parseAt_call_toText, firstObstacle?_call]
      by_cases hdeep : limit = some outer
      · simp [hdeep, Call.checkDepth, bind, Except.bind]
      · have hnext := room_inside hlimit hdeep
        have hdepth : Call.checkDepth limit outer = .ok () :=
          Call.checkDepth_eq_ok_iff.mpr fun n hn => hnext n hn
        rw [if_neg hdeep, hdepth, ihLeft hnext, ihRight hnext]
        cases left.firstObstacle? limit (outer + 1) with
        | some error => rfl
        | none => cases right.firstObstacle? limit (outer + 1) <;> rfl

/-- The canonical text of an expression reads back as the expression itself, or fails as its
first obstacle in preorder; there is no obstacle exactly if all numbers are finite and the depth
is within the limit. -/
theorem parse_toText (limit : Option Nat) (e : Expr) :
    (parse limit e.toText =
        match e.firstObstacle? limit 0 with
        | none => .ok e
        | some error => .error error) ∧
      (e.firstObstacle? limit 0 = none ↔
        (∀ x ∈ e.numbers, x.isFinite = true) ∧ ∀ n ∈ limit, e.depth ≤ n) := by
  have hstart : ∀ n ∈ limit, 0 ≤ n := fun n _ => Nat.zero_le n
  refine ⟨parseAt_toText e hstart, ?_⟩
  simpa using firstObstacle?_eq_none_iff hstart

end ArithFormula.Expr
