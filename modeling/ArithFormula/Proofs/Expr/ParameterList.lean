import ArithFormula.Expr.Call
import ArithFormula.Proofs.Text.Separators
import Mathlib.Control.Monad.Basic

/-!
# Parameters of a body

What the parameters of a body are is decided by counting. If some front part closes more than it
opens, or the whole opens more than it closes, there are none; every other body is balanced, and
its parameters are the trimmed pieces between its separators. Only an empty last piece is dropped,
and it is looked at before it is trimmed: a separator at the very end adds no parameter, a
separator in front of blanks adds an empty one.

## Main results

* `parameters_eq_tooManyClosing_iff`, `parameters_eq_unclosed_iff` — the two failures, by counts.
* `length_parameterList` — how many parameters there are.
* `parameters_iff_counts` — all results, by counts and places.
-/

namespace ArithFormula.Call

/-! ## Failures -/

theorem parameters_eq_tooManyClosing_iff {body : Text} :
    parameters body = .error .tooManyClosing ↔
      ∃ front back, body = front ++ back ∧ front.count '(' < front.count ')' := by
  have hlost := @Text.depthAfter_eq_none_iff 0 body
  simp only [Nat.zero_add] at hlost
  rw [parameters_eq_error_iff, ← hlost]
  simp

theorem parameters_eq_unclosed_iff {body : Text} :
    parameters body = .error .unclosed ↔
      (∀ front back, body = front ++ back → front.count ')' ≤ front.count '(') ∧
        body.count ')' < body.count '(' := by
  have hlost := @Text.depthAfter_eq_none_iff 0 body
  rw [parameters_eq_error_iff]
  constructor
  · rintro (⟨_, hother⟩ | ⟨final, hfinal, _⟩)
    · cases hother
    · have htotal := Text.depthAfter_eq_some hfinal
      refine ⟨?_, by omega⟩
      intro front back hbody
      apply Nat.le_of_not_lt
      intro hlt
      rw [hlost.mpr ⟨front, back, hbody, by omega⟩] at hfinal
      cases hfinal
  · intro ⟨hfront, hmore⟩
    right
    cases hfinal : Text.depthAfter 0 body with
    | none =>
        obtain ⟨front, back, hbody, hlt⟩ := hlost.mp hfinal
        have := hfront front back hbody
        omega
    | some final =>
        have htotal := Text.depthAfter_eq_some hfinal
        exact ⟨final - 1, congrArg some (by omega), rfl⟩

/-! ## Parameters -/

theorem dropEmptyLast_append (front : List Text) (last : Text) :
    dropEmptyLast (front ++ [last]) = if last = [] then front else front ++ [last] := by
  simp [dropEmptyLast]

theorem dropEmptyLast_cons_cons (first second : Text) (others : List Text) :
    dropEmptyLast (first :: second :: others) = first :: dropEmptyLast (second :: others) := by
  simp only [dropEmptyLast, List.getLast?_cons_cons, List.dropLast_cons_cons]
  split <;> rfl

/-- The parameters of a balanced body are its trimmed pieces between the separators. -/
theorem parameterList_eq {body : Text} (h : Text.Balanced body) :
    parameterList body =
      (dropEmptyLast (Text.cutAt body 0 (Text.separators 0 body))).map Text.trim := by
  have hdepth := Text.balanced_iff.mp h
  rw [Text.cutAt_separators (by simp [hdepth])]
  rfl

/-- There is one parameter more than separators, or as many if the last piece is empty. -/
theorem length_parameterList {body : Text} (h : Text.Balanced body) :
    ((body = [] ∨ Text.EndsWithSeparator body) →
        (parameterList body).length = (Text.separators 0 body).length) ∧
      (¬(body = [] ∨ Text.EndsWithSeparator body) →
        (parameterList body).length = (Text.separators 0 body).length + 1) := by
  have hlast := Text.getLast?_cut_eq_nil_iff body
  have hlength := Text.length_cutAt body 0 (Text.separators 0 body)
  rw [parameterList_eq h, List.length_map, dropEmptyLast]
  constructor
  · intro hempty
    rw [if_pos (hlast.mpr hempty), List.length_dropLast, hlength]
    rfl
  · intro hnonempty
    rw [if_neg (hnonempty ∘ hlast.mp), hlength]

theorem isParameter_of_mem_parameterList {body parameter : Text} (h : Text.Balanced body)
    (hmem : parameter ∈ parameterList body) : Text.IsParameter parameter := by
  obtain ⟨piece, hpiece, rfl⟩ := List.mem_map.mp hmem
  exact (Text.isParameter_of_mem_pieces h (mem_of_mem_dropEmptyLast hpiece)).trim

/-- A body has no parameters if some front part of it closes more than it opens, or if none does
and it opens more than it closes. Every other body is balanced. Its parameters are the trimmed
pieces between the commas in front of which as much is closed as opened, without the last piece if
that is the empty text. So their number is known, and each of them is balanced and keeps its commas
inside its own parentheses. -/
theorem parameters_iff_counts (body : Text) :
    (parameters body = .error .tooManyClosing ↔
        ∃ front back, body = front ++ back ∧ front.count '(' < front.count ')') ∧
      (parameters body = .error .unclosed ↔
        (∀ front back, body = front ++ back → front.count ')' ≤ front.count '(') ∧
          body.count ')' < body.count '(') ∧
      (∀ found, parameters body = .ok found ↔
        Text.Balanced body ∧
          found = (dropEmptyLast (Text.cutAt body 0 (Text.separators 0 body))).map Text.trim) ∧
      (∀ found, parameters body = .ok found →
        (body = [] ∨ Text.EndsWithSeparator body →
            found.length = (Text.separators 0 body).length) ∧
          (¬(body = [] ∨ Text.EndsWithSeparator body) →
            found.length = (Text.separators 0 body).length + 1) ∧
          ∀ parameter ∈ found, Text.IsParameter parameter) := by
  refine ⟨parameters_eq_tooManyClosing_iff, parameters_eq_unclosed_iff, ?_, ?_⟩
  · intro found
    rw [parameters_eq_ok_iff]
    exact and_congr_right fun hbalanced => by rw [parameterList_eq hbalanced]
  · intro found hfound
    obtain ⟨hbalanced, rfl⟩ := parameters_eq_ok_iff.mp hfound
    have hlength := length_parameterList hbalanced
    exact ⟨hlength.1, hlength.2, fun _ => isParameter_of_mem_parameterList hbalanced⟩

/-- The statement for a body with a separator in front of blanks and one at its end. -/
theorem parameters_iff_counts_blankPiece :
    parameters "é, f(1, (ü)),\u2003,".toList =
        .ok ["é".toList, "f(1, (ü))".toList, []] ∧
      Text.separators 0 "é, f(1, (ü)),\u2003,".toList = [1, 12, 14] ∧
      Text.EndsWithSeparator "é, f(1, (ü)),\u2003,".toList ∧
      ["é".toList, "f(1, (ü))".toList, []].length =
        (Text.separators 0 "é, f(1, (ü)),\u2003,".toList).length ∧
      ∀ parameter ∈ ["é".toList, "f(1, (ü))".toList, []], Text.IsParameter parameter := by
  have hfound : parameters "é, f(1, (ü)),\u2003,".toList =
      .ok ["é".toList, "f(1, (ü))".toList, []] := by decide +kernel
  have hends : Text.EndsWithSeparator "é, f(1, (ü)),\u2003,".toList :=
    ⟨"é, f(1, (ü)),\u2003".toList, by decide, by decide⟩
  have hresult := (parameters_iff_counts _).2.2.2 _ hfound
  exact ⟨hfound, by decide, hends, hresult.1 (.inr hends), hresult.2.2⟩

end ArithFormula.Call
