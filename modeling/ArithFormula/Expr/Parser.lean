import ArithFormula.Expr.Call
import ArithFormula.Expr.Value

/-!
# Reading expressions

A text is read by its outline: trimmed, it is a number, a call, or an error. The
parameters of a call are read in the same way, the left one first. The recursion is
on the length of the text, since the parameters of a call are shorter than it.

## Main results

* `read_eq_call_iff` — a text is a call exactly if, trimmed, it is no number and all
  parts of a call are found in it.
* `parseAt_number`, `parseAt_call`, `parseAt_error` — what is read, by the outline.
-/

namespace ArithFormula

/-! ## Outlines -/

/-- What a text is as a whole, its parameters not yet read. -/
inductive Outline where
  | number (value : Binary64)
  | call (call : Call)
deriving DecidableEq

namespace Outline

/-- The outline of a text inside `depth` calls. A number is tried first; a text that is none
is a call as soon as it has a parenthesis. -/
def read (limit : Option Nat) (depth : Nat) (text : Text) : Except ParseError Outline :=
  let trimmed := Text.trim text
  if trimmed = [] then .error .blank
  else
    match Literal.read? trimmed with
    | some value => .ok (.number value)
    | none =>
        if '(' ∈ trimmed ∨ ')' ∈ trimmed then (Call.read limit depth trimmed).map .call
        else .error (.notANumber trimmed)

theorem mem_of_call_read {limit : Option Nat} {depth : Nat} {text : Text} {found : Call}
    (h : Call.read limit depth text = .ok found) : '(' ∈ text := by
  obtain ⟨front, rest, rfl, _⟩ := Call.keyword_eq_ok_iff.mp (Call.read_eq_ok_iff.mp h).1
  simp

/-- A text is a call exactly if, trimmed, it is no number and all parts of a call are found
in it. -/
theorem read_eq_call_iff {limit : Option Nat} {depth : Nat} {text : Text} {found : Call} :
    read limit depth text = .ok (.call found) ↔
      Literal.read? (Text.trim text) = none ∧
        Call.read limit depth (Text.trim text) = .ok found := by
  unfold read
  dsimp only
  constructor
  · intro h
    split at h
    · cases h
    · cases hnumber : Literal.read? (Text.trim text) with
      | some value => simp [hnumber] at h
      | none =>
          simp only [hnumber] at h
          split at h
          · cases hcall : Call.read limit depth (Text.trim text) with
            | error e => simp [hcall, Except.map] at h
            | ok call => simpa [hcall, Except.map] using h
          · cases h
  · rintro ⟨hnumber, hcall⟩
    have hopen := mem_of_call_read hcall
    rw [if_neg (List.ne_nil_of_mem hopen), hnumber]
    simp [hopen, hcall, Except.map]

/-- The parameters that an outline names are shorter than its text. -/
theorem length_lt_of_read {limit : Option Nat} {depth : Nat} {text : Text} {found : Call}
    (h : read limit depth text = .ok (.call found)) :
    found.left.length < text.length ∧ found.right.length < text.length := by
  have hshort := Call.length_lt_of_read (read_eq_call_iff.mp h).2
  have htrim := Text.length_trim_le text
  omega

end Outline

/-! ## Expressions -/

namespace Expr

/-- The expression that a whole text writes inside `depth` calls. -/
def parseAt (limit : Option Nat) (depth : Nat) (text : Text) : Except ParseError Expr :=
  match h : Outline.read limit depth text with
  | .error e => .error e
  | .ok (.number value) => .ok (.number value)
  | .ok (.call found) => do
    let left ← parseAt limit (depth + 1) found.left
    let right ← parseAt limit (depth + 1) found.right
    return .call found.operator left right
termination_by text.length
decreasing_by
  · exact (Outline.length_lt_of_read h).1
  · exact (Outline.length_lt_of_read h).2

/-- The expression that a whole text writes, calls nested at most as deep as the limit. -/
def parse (limit : Option Nat) (text : Text) : Except ParseError Expr := parseAt limit 0 text

theorem parseAt_error {limit : Option Nat} {depth : Nat} {text : Text} {e : ParseError}
    (h : Outline.read limit depth text = .error e) : parseAt limit depth text = .error e := by
  rw [parseAt]
  split <;> simp_all

theorem parseAt_number {limit : Option Nat} {depth : Nat} {text : Text} {value : Binary64}
    (h : Outline.read limit depth text = .ok (.number value)) :
    parseAt limit depth text = .ok (.number value) := by
  rw [parseAt]
  split <;> simp_all

theorem parseAt_call {limit : Option Nat} {depth : Nat} {text : Text} {found : Call}
    (h : Outline.read limit depth text = .ok (.call found)) :
    parseAt limit depth text =
      (do
        let left ← parseAt limit (depth + 1) found.left
        let right ← parseAt limit (depth + 1) found.right
        return .call found.operator left right) := by
  rw [parseAt]
  split <;> simp_all

end Expr

end ArithFormula
