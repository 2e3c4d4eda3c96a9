import ArithFormula.Proofs.Expr.ParameterList
import ArithFormula.Proofs.Expr.ShownCalls
import ArithFormula.Proofs.Text.Layout

/-!
# What is read on the way

In the course of reading a text the reader takes up the texts of its calls and numbers, each on its
own: first the whole text, then the left parameter with all that is in it, then the right one. The
list of these readings is kept here beside the reader, so that something can be said of every call
that was read, at whatever level.

One thing is the number of separators in a call. A call of two parameters is meant to have one, and
the number of parameters is checked. But a separator at the end of a body adds no parameter, so the
check does not see it: a call whose body ends with a separator is accepted if it has two. No other
surplus separator is.

## Main results

* `Expr.operators_readings` — the calls among the readings are those of the expression, in preorder.
* `Outline.separators_of_read` — how many separators a call has that is read.
* `Expr.parse_separators` — the separators of all calls of an accepted text.
-/

namespace ArithFormula

/-! ## Readings -/

/-- A text that is read, inside so many calls. -/
structure Reading where
  depth : Nat
  text : Text
deriving DecidableEq

/-- The call that is read there, if it is one. -/
def Reading.call? (limit : Option Nat) (reading : Reading) : Option Call :=
  match Outline.read limit reading.depth reading.text with
  | .ok (.call found) => some found
  | _ => none

theorem Reading.call?_eq_some_iff {limit : Option Nat} {reading : Reading} {call : Call} :
    reading.call? limit = some call ↔
      Outline.read limit reading.depth reading.text = .ok (.call call) := by
  unfold call?
  cases Outline.read limit reading.depth reading.text with
  | error e => simp
  | ok outline => cases outline <;> simp

namespace Expr

/-- The texts that are read in the course of reading one, in their order. The right parameter of a
call is read only if the left one is an expression. -/
def readings (limit : Option Nat) (depth : Nat) (text : Text) : List Reading :=
  match h : Outline.read limit depth text with
  | .error _ => [⟨depth, text⟩]
  | .ok (.number _) => [⟨depth, text⟩]
  | .ok (.call found) =>
      have _ := Outline.length_lt_of_read h
      ⟨depth, text⟩ :: (readings limit (depth + 1) found.left ++
        match parseAt limit (depth + 1) found.left with
        | .error _ => []
        | .ok _ => readings limit (depth + 1) found.right)
termination_by text.length

theorem readings_number {limit : Option Nat} {depth : Nat} {text : Text} {value : Binary64}
    (h : Outline.read limit depth text = .ok (.number value)) :
    readings limit depth text = [⟨depth, text⟩] := by
  rw [readings]
  split <;> simp_all

theorem readings_error {limit : Option Nat} {depth : Nat} {text : Text} {e : ParseError}
    (h : Outline.read limit depth text = .error e) :
    readings limit depth text = [⟨depth, text⟩] := by
  rw [readings]
  split <;> simp_all

/-- Where the left parameter of a call is an expression, both parameters are read. -/
theorem readings_call {limit : Option Nat} {depth : Nat} {text : Text} {found : Call} {left : Expr}
    (h : Outline.read limit depth text = .ok (.call found))
    (hleft : parseAt limit (depth + 1) found.left = .ok left) :
    readings limit depth text =
      ⟨depth, text⟩ :: (readings limit (depth + 1) found.left ++
        readings limit (depth + 1) found.right) := by
  rw [readings]
  split <;> simp_all

/-- Where the left parameter of a call is no expression, the right one is not read. -/
theorem readings_call_of_error {limit : Option Nat} {depth : Nat} {text : Text} {found : Call}
    {e : ParseError} (h : Outline.read limit depth text = .ok (.call found))
    (hleft : parseAt limit (depth + 1) found.left = .error e) :
    readings limit depth text = ⟨depth, text⟩ :: readings limit (depth + 1) found.left := by
  rw [readings]
  split <;> simp_all

/-- The calls among the readings are those of the expression, in preorder. -/
theorem operators_readings {limit : Option Nat} {depth : Nat} {text : Text} :
    ∀ {e : Expr}, parseAt limit depth text = .ok e →
      ((readings limit depth text).filterMap (Reading.call? limit)).map Call.operator =
        e.operators := by
  induction depth, text using parseAt.induct limit with
  | case1 depth text error h =>
      intro e he
      rw [parseAt_error h] at he
      cases he
  | case2 depth text value h =>
      intro e he
      rw [parseAt_number h] at he
      cases he
      have hnone : Reading.call? limit ⟨depth, text⟩ = none := by simp [Reading.call?, h]
      rw [readings_number h, List.filterMap_cons_none hnone]
      rfl
  | case3 depth text found h ihLeft ihRight =>
      intro e he
      rw [parseAt_call h] at he
      obtain ⟨l, hl, he⟩ := bind_eq_ok_iff.mp he
      obtain ⟨r, hr, he⟩ := bind_eq_ok_iff.mp he
      obtain rfl := return_eq_ok_iff.mp he
      have hcall : Reading.call? limit ⟨depth, text⟩ = some found :=
        Reading.call?_eq_some_iff.mpr h
      rw [readings_call h hl, List.filterMap_cons_some hcall, List.filterMap_append, List.map_cons,
        List.map_append, ihLeft hl, ihRight hr, Expr.operators]

end Expr

/-! ## Separators -/

/-- There is one piece behind each separator. -/
theorem Text.length_separators {text : Text} (h : Text.Balanced text) :
    (Text.separators 0 text).length = (Text.pieces 0 text).2.length := by
  have hdepth : Text.depthAfter 0 text ≠ none := by simp [Text.balanced_iff.mp h]
  have hcut := congrArg List.length (Text.cutAt_separators hdepth)
  rw [Text.length_cutAt, List.length_cons] at hcut
  omega

/-- Blanks at the ends of a text add no separators. -/
theorem Text.length_separators_trim {text : Text} (h : Text.Balanced text) :
    (Text.separators 0 (Text.trim text)).length = (Text.separators 0 text).length := by
  have hpieces := Text.pieces_tidy 0 (Text.trim text)
  rw [Text.tidy_trim, Text.pieces_tidy] at hpieces
  have hlength := congrArg (fun pieces => pieces.2.length) hpieces
  simp only [List.length_map] at hlength
  rw [Text.length_separators (Text.balanced_trim_iff.mpr h), Text.length_separators h, hlength]

/-- A call that is read has one separator less than parameters between its parentheses, or one
more than that, which ends its body. -/
theorem Outline.separators_of_read {limit : Option Nat} {depth : Nat} {text : Text} {found : Call}
    (h : read limit depth text = .ok (.call found)) :
    ∃ front inner post, Text.Encloses text front inner post ∧
      (¬Text.EndsWithSeparator (Text.trim inner) ∧
          (Text.separators 0 inner).length + 1 = found.operator.arity ∨
        Text.EndsWithSeparator (Text.trim inner) ∧
          (Text.separators 0 inner).length = found.operator.arity) := by
  obtain ⟨_, _, body, hbody, hparameters⟩ := Call.read_eq_ok_iff.mp (read_eq_call_iff.mp h).2
  obtain ⟨front, inner, post, htrim, hfront, hpost, rfl⟩ := Call.body_eq_ok_iff.mp hbody
  obtain ⟨front', post', hencloses, _⟩ := Text.Encloses.of_trim ⟨htrim, hfront, hpost⟩
  obtain ⟨hbalanced, hlist⟩ := Call.parameters_eq_ok_iff.mp hparameters
  obtain ⟨hsurplus, hexact⟩ := Call.length_parameterList hbalanced
  have hinner := Text.length_separators_trim (Text.balanced_trim_iff.mp hbalanced)
  rw [← hlist, hinner] at hsurplus hexact
  refine ⟨front', inner, post', hencloses, ?_⟩
  by_cases hends : Text.EndsWithSeparator (Text.trim inner)
  · exact .inr ⟨hends, (hsurplus (.inr hends)).symm⟩
  · refine .inl ⟨hends, (hexact ?_).symm⟩
    rintro (hnil | hends')
    · rw [hnil] at hlist
      simp [Call.parameterList, Text.pieces_nil, Call.dropEmptyLast] at hlist
    · exact hends hends'

namespace Expr

/-- Every call that was read in an accepted text, at whatever level, has as many separators between
its first `(` and its last `)` as its parameters need, or one more if its body ends with one. The
calls that were read are those of the expression. -/
theorem parse_separators {limit : Option Nat} {text : Text} {e : Expr}
    (h : parse limit text = .ok e) :
    ((readings limit 0 text).filterMap (Reading.call? limit)).map Call.operator = e.operators ∧
      ∀ reading ∈ readings limit 0 text, ∀ call, reading.call? limit = some call →
        ∃ front inner post, Text.Encloses reading.text front inner post ∧
          (¬Text.EndsWithSeparator (Text.trim inner) ∧
              (Text.separators 0 inner).length + 1 = call.operator.arity ∨
            Text.EndsWithSeparator (Text.trim inner) ∧
              (Text.separators 0 inner).length = call.operator.arity) := by
  refine ⟨operators_readings h, ?_⟩
  intro reading _ call hcall
  exact Outline.separators_of_read (Reading.call?_eq_some_iff.mp hcall)

/-- The statement for a call inside another one whose body ends with a separator and a blank. -/
theorem parse_separators_nestedSurplus :
    parse none "add(multiply(2, 3, ), 4)".toList =
        .ok (.call .add (.call .multiply (.number (.ofNat 2)) (.number (.ofNat 3)))
          (.number (.ofNat 4))) ∧
      ⟨1, "multiply(2, 3, )".toList⟩ ∈ readings none 0 "add(multiply(2, 3, ), 4)".toList ∧
      ((readings none 0 "add(multiply(2, 3, ), 4)".toList).filterMap (Reading.call? none)).map
          Call.operator = [.add, .multiply] ∧
      ∃ front inner post, Text.Encloses "multiply(2, 3, )".toList front inner post ∧
        (¬Text.EndsWithSeparator (Text.trim inner) ∧ (Text.separators 0 inner).length + 1 = 2 ∨
          Text.EndsWithSeparator (Text.trim inner) ∧ (Text.separators 0 inner).length = 2) := by
  have h : parse none "add(multiply(2, 3, ), 4)".toList =
      .ok (.call .add (.call .multiply (.number (.ofNat 2)) (.number (.ofNat 3)))
        (.number (.ofNat 4))) := by decide +kernel
  have hmem : ⟨1, "multiply(2, 3, )".toList⟩ ∈
      readings none 0 "add(multiply(2, 3, ), 4)".toList := by decide +kernel
  have hcall : Reading.call? none ⟨1, "multiply(2, 3, )".toList⟩ =
      some ⟨.multiply, "2".toList, "3".toList⟩ := by decide +kernel
  obtain ⟨hoperators, hseparators⟩ := parse_separators h
  exact ⟨h, hmem, hoperators, hseparators _ hmem _ hcall⟩

/-- A separator that ends the body of a call is not caught: with two parameters in front of it the
call is accepted, although it has one separator more than these need. -/
theorem parse_surplusSeparator_accepted :
    parse none "add(2,3,)".toList = .ok (.call .add (.number (.ofNat 2)) (.number (.ofNat 3))) ∧
      Text.Encloses "add(2,3,)".toList "add".toList "2,3,".toList [] ∧
      (Text.separators 0 "2,3,".toList).length ≠ Operator.add.arity - 1 :=
  ⟨by decide +kernel, ⟨rfl, by decide, by decide⟩, by decide⟩

end Expr

end ArithFormula
