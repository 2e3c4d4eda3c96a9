import ArithFormula.Proofs.Expr.Composition
import ArithFormula.Proofs.Text.Openings
import Mathlib.Control.Monad.Basic

/-!
# The calls that a text shows

The reader finds each call by scans over a substring and drops what stands behind the last `)`
of it. Still no call gets lost and none is made up: up to its last `)`, an accepted text opens
as many parentheses as there are calls in its expression, under their names and as deep.

The invariant speaks of a text up to its last `)` because only there the text has to be
balanced. For a parameter that makes no difference: as a piece of a balanced text it is
balanced as a whole, so nothing is opened behind its last `)`.

## Main results

* `showsCalls_of_isCallOf` — a call shows its operator in front of what its parameters show.
* `Expr.parse_showsCalls` — an accepted text shows the calls of its expression.
-/

namespace ArithFormula

/-! ## Operators of an expression -/

/-- The operators of the calls of an expression, in preorder. -/
def Expr.operators : Expr → List Operator
  | .number _ => []
  | .call op left right => op :: (left.operators ++ right.operators)

/-! ## One step -/

/-- A parameter shows what its trimmed text shows up to the last `)`. -/
theorem Text.IsParameter.showsCalls {text : Text} (h : Text.IsParameter text)
    {operators : List Operator} {depth : Nat}
    (hshows : Text.ShowsCalls (Text.throughLast ')' (Text.trim text)) operators depth) :
    Text.ShowsCalls text operators depth := by
  obtain ⟨leading, trailing, hleading, htrailing, htext⟩ := Text.eq_append_trim text
  have htrim := hshows.of_throughLast h.trim.balanced
  have hall := htrim.append_blank hleading htrailing
  rwa [← htext] at hall

/-- A call shows its operator in front of what its parameters show, one level deeper. -/
theorem showsCalls_of_isCallOf {text left right : Text} {op : Operator}
    {ops ops' : List Operator} {m n : Nat} (h : IsCallOf (Text.trim text) op left right)
    (hleft : Text.ShowsCalls left ops m) (hright : Text.ShowsCalls right ops' n) :
    Text.ShowsCalls (Text.throughLast ')' text) (op :: (ops ++ ops')) (max m n + 1) := by
  obtain ⟨front, inner, post, htext, _, hpost, hname, hinner, _, _⟩ := isCallOf_trim_iff.mp h
  have hthrough : Text.throughLast ')' text = front ++ '(' :: (inner ++ [')']) := by
    have hcut := Text.throughLast_append hpost (front ++ '(' :: inner)
    rw [htext]
    simpa using hcut
  have hpair := hleft.append_separator hright
  have hbody : Text.ShowsCalls (Text.trim inner) (ops ++ ops') (max m n) := by
    cases hinner with
    | inl hinner => rwa [hinner]
    | inr hinner =>
        rw [hinner]
        exact hpair.append_of_no_paren (by decide) (by decide)
  have hinside : Text.ShowsCalls inner (ops ++ ops') (max m n) := by
    obtain ⟨before, behind, hbefore, hbehind, heq⟩ := Text.eq_append_trim inner
    have hall := hbody.append_blank hbefore hbehind
    rwa [← heq] at hall
  rw [hthrough]
  exact hinside.enclosed (Text.no_mark_of_trim_eq_keyword hname) hname

namespace Outline

/-- A number has no parentheses. -/
theorem no_paren_of_read_number {limit : Option Nat} {depth : Nat} {text : Text}
    {value : Binary64} (h : read limit depth text = .ok (.number value)) :
    '(' ∉ text ∧ ')' ∉ text := by
  have hliteral := read_eq_number_iff.mp h
  have hno : ∀ c : Char, Text.isBlank c = false → c.isDigit = false → c ∉ Literal.marks →
      c ∉ text := by
    intro c hblank hdigit hmark hmem
    rw [Literal.read?_eq_none_of_mem (Text.mem_trim_of_mem hblank hmem) hdigit hmark] at hliteral
    cases hliteral
  exact ⟨hno '(' (by decide) (by decide) (by decide), hno ')' (by decide) (by decide) (by decide)⟩

/-- A call has a `)`. -/
theorem mem_closing_of_read_call {limit : Option Nat} {depth : Nat} {text : Text} {found : Call}
    (h : read limit depth text = .ok (.call found)) : ')' ∈ text := by
  obtain ⟨left, right, hcall, _⟩ := Call.exists_isCallOf_of_read (read_eq_call_iff.mp h).2
  obtain ⟨front, inner, post, htrim, _⟩ := hcall
  have hmem : ')' ∈ Text.trim text := by simp [htrim]
  exact Text.mem_of_mem_trim hmem

end Outline

/-! ## A whole run -/

namespace Expr

/-- Up to its last `)`, an accepted text shows the calls of its expression. -/
theorem showsCalls_of_parseAt {limit : Option Nat} {depth : Nat} {text : Text} :
    ∀ {e : Expr}, parseAt limit depth text = .ok e →
      Text.ShowsCalls (Text.throughLast ')' text) e.operators e.depth := by
  induction depth, text using parseAt.induct limit with
  | case1 depth text error h =>
      intro e he
      rw [parseAt_error h] at he
      cases he
  | case2 depth text value h =>
      intro e he
      rw [parseAt_number h] at he
      cases he
      rw [Text.throughLast_of_not_mem (Outline.no_paren_of_read_number h).2]
      exact Text.showsCalls_of_no_paren (by simp) (by simp)
  | case3 depth text found h ihLeft ihRight =>
      intro e he
      rw [parseAt_call h] at he
      obtain ⟨l, hl, he⟩ := bind_eq_ok_iff.mp he
      obtain ⟨r, hr, he⟩ := bind_eq_ok_iff.mp he
      obtain rfl := return_eq_ok_iff.mp he
      obtain ⟨a, b, hcall, ha, hb⟩ :=
        Call.exists_isCallOf_of_read (Outline.read_eq_call_iff.mp h).2
      have hshowsLeft := hcall.isParameter.1.showsCalls (ha ▸ ihLeft hl)
      have hshowsRight := hcall.isParameter.2.showsCalls (hb ▸ ihRight hr)
      rw [Expr.operators, Expr.depth, Nat.add_comm]
      exact showsCalls_of_isCallOf hcall hshowsLeft hshowsRight

/-- Without a `)` nothing is opened in an accepted text. -/
theorem no_opening_of_parseAt {limit : Option Nat} {depth : Nat} {text : Text} {e : Expr}
    (h : parseAt limit depth text = .ok e) (hclose : ')' ∉ text) : '(' ∉ text := by
  rw [parseAt_eq] at h
  cases houtline : Outline.read limit depth text with
  | error error => simp [houtline] at h
  | ok outline =>
      cases outline with
      | number value => exact (Outline.no_paren_of_read_number houtline).1
      | call found => exact absurd (Outline.mem_closing_of_read_call houtline) hclose

/-- No call is lost or made up. Up to its last `)`, an accepted text is balanced, it has an
opening for each call of its expression, the names in front of the openings are the operators in
preorder, and its greatest depth is that of the expression. A text without a `)` has no `(`. -/
theorem parse_showsCalls {limit : Option Nat} {text : Text} {e : Expr}
    (h : parse limit text = .ok e) :
    (')' ∉ text → '(' ∉ text) ∧
      Text.Balanced (Text.throughLast ')' text) ∧
      e.operators.length = (Text.throughLast ')' text).count '(' ∧
      Text.names (Text.throughLast ')' text) = e.operators.map Operator.keyword ∧
      Text.IsPeak (Text.throughLast ')' text) e.depth := by
  have hshows := showsCalls_of_parseAt h
  have hlength := congrArg List.length hshows.names_eq
  rw [Text.length_names, List.length_map] at hlength
  exact ⟨no_opening_of_parseAt h, hshows.balanced, hlength.symm, hshows.names_eq, hshows.peak⟩

/-- A call with text behind each of its `)`, and with openings behind the last one. -/
def untidyCall : Text := "add ( 2, multiply(3, 4) five ,) six ((".toList

/-- The statement for a text that the reader cuts at both ends and inside. -/
theorem parse_showsCalls_untidyCall :
    parse none untidyCall =
        .ok (.call .add (.number (.ofNat 2))
          (.call .multiply (.number (.ofNat 3)) (.number (.ofNat 4)))) ∧
      (')' ∉ untidyCall → '(' ∉ untidyCall) ∧
      Text.Balanced (Text.throughLast ')' untidyCall) ∧
      [Operator.add, Operator.multiply].length = (Text.throughLast ')' untidyCall).count '(' ∧
      Text.names (Text.throughLast ')' untidyCall) = ["add".toList, "multiply".toList] ∧
      Text.IsPeak (Text.throughLast ')' untidyCall) 2 := by
  have h : parse none untidyCall =
      .ok (.call .add (.number (.ofNat 2))
        (.call .multiply (.number (.ofNat 3)) (.number (.ofNat 4)))) := by decide +kernel
  exact ⟨h, parse_showsCalls h⟩

end Expr

end ArithFormula
