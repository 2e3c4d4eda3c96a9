import ArithFormula.Proofs.Expr.Defects
import ArithFormula.Proofs.Expr.Readings
import Mathlib.Logic.Relation

/-!
# How much is read

Without a limit nothing but the text itself bounds the reader. What bounds it is the number of `(`:
each call that is read has one of its own, and what is left is shared by its two parameters. So the
readings never stand inside more calls than the text has `(`, and there are at most two for each
`(`, and the first. This holds of texts that are no formulas too, for which the reader stops on the
way.

That the list of readings is what the reader does is shown with a reader that keeps a log. It takes
the same steps and notes each text that it takes up.

## Main results

* `Expr.run_parseLogged` — the log of the reader is the list of readings.
* `Expr.mem_readings_iff` — a text is read exactly if it is reached from the first one.
* `Reading.TakesUp.shorter` — what one reading takes up is a shorter part of its text.
* `Expr.length_readings_le` — how many readings there are.
* `Expr.readings_bounded` — the reader without a limit, bounded by the number of `(`.
-/

namespace ArithFormula

/-! ## The log -/

namespace Expr

/-- Reading with a log: each text that is taken up is noted first. -/
def parseLogged (limit : Option Nat) (depth : Nat) (text : Text) :
    ExceptT ParseError (StateM (List Reading)) Expr := do
  modify (· ++ [⟨depth, text⟩])
  match h : Outline.read limit depth text with
  | .error e => throw e
  | .ok (.number value) => return .number value
  | .ok (.call found) => do
    let left ← parseLogged limit (depth + 1) found.left
    let right ← parseLogged limit (depth + 1) found.right
    return .call found.operator left right
termination_by text.length
decreasing_by
  · exact (Outline.length_lt_of_read h).1
  · exact (Outline.length_lt_of_read h).2

/-- One step of the reader with a log. -/
theorem parseLogged_eq (limit : Option Nat) (depth : Nat) (text : Text) :
    parseLogged limit depth text =
      (do
        modify (· ++ [⟨depth, text⟩])
        match Outline.read limit depth text with
        | .error e => throw e
        | .ok (.number value) => return .number value
        | .ok (.call found) => do
          let left ← parseLogged limit (depth + 1) found.left
          let right ← parseLogged limit (depth + 1) found.right
          return .call found.operator left right) := by
  rw [parseLogged]
  congr 1
  funext _
  split <;> simp_all

section Log

variable {α β : Type} {first : ExceptT ParseError (StateM (List Reading)) α}
  {second : α → ExceptT ParseError (StateM (List Reading)) β} {log log' : List Reading}

theorem run_bind_of_ok {a : α} (h : first.run log = (.ok a, log')) :
    (first >>= second).run log = (second a).run log' := by
  show ExceptT.bindCont second (first.run log).1 (first.run log).2 = _
  rw [h]
  rfl

theorem run_bind_of_error {e : ParseError} (h : first.run log = (.error e, log')) :
    (first >>= second).run log = (.error e, log') := by
  show ExceptT.bindCont second (first.run log).1 (first.run log).2 = _
  rw [h]
  rfl

end Log

/-- The log of the reader is the list of readings, and its result is what is read without it. -/
theorem run_parseLogged (limit : Option Nat) (depth : Nat) (text : Text) (log : List Reading) :
    (parseLogged limit depth text).run log =
      (parseAt limit depth text, log ++ readings limit depth text) := by
  have hnoted : ∀ (log : List Reading) (reading : Reading),
      (modify (· ++ [reading]) : ExceptT ParseError (StateM (List Reading)) PUnit).run log =
        (.ok (), log ++ [reading]) :=
    fun _ _ => rfl
  induction depth, text using parseAt.induct limit generalizing log with
  | case1 depth text error h =>
      rw [parseLogged_eq, run_bind_of_ok (hnoted _ _), h, parseAt_error h, readings_error h]
      rfl
  | case2 depth text value h =>
      rw [parseLogged_eq, run_bind_of_ok (hnoted _ _), h, parseAt_number h, readings_number h]
      rfl
  | case3 depth text found h ihLeft ihRight =>
      rw [parseLogged_eq, run_bind_of_ok (hnoted _ _), h, parseAt_call h]
      have hleft := ihLeft (log ++ [⟨depth, text⟩])
      cases hresult : parseAt limit (depth + 1) found.left with
      | error e =>
          rw [hresult] at hleft
          rw [readings_call_of_error h hresult, run_bind_of_error hleft, List.append_assoc]
          rfl
      | ok left =>
          rw [hresult] at hleft
          have hright :=
            ihRight (log ++ [⟨depth, text⟩] ++ readings limit (depth + 1) found.left)
          rw [readings_call h hresult, run_bind_of_ok hleft]
          cases hresult' : parseAt limit (depth + 1) found.right with
          | error e =>
              rw [hresult'] at hright
              rw [run_bind_of_error hright, List.append_assoc, List.append_assoc]
              rfl
          | ok right =>
              rw [hresult'] at hright
              rw [run_bind_of_ok hright, List.append_assoc, List.append_assoc]
              rfl

end Expr

/-! ## What a reading takes up -/

/-- Reading a call takes up the text of its left parameter and, if that is an expression, the text
of its right one. -/
inductive Reading.TakesUp (limit : Option Nat) (outer : Reading) : Reading → Prop where
  | left {found : Call} (hcall : outer.call? limit = some found) :
      TakesUp limit outer ⟨outer.depth + 1, found.left⟩
  | right {found : Call} {left : Expr} (hcall : outer.call? limit = some found)
      (hleft : Expr.parseAt limit (outer.depth + 1) found.left = .ok left) :
      TakesUp limit outer ⟨outer.depth + 1, found.right⟩

/-- Only a call takes up another text. -/
theorem Reading.TakesUp.exists_call {limit : Option Nat} {outer inner : Reading}
    (h : outer.TakesUp limit inner) :
    ∃ found, Outline.read limit outer.depth outer.text = .ok (.call found) := by
  cases h with
  | left hcall => exact ⟨_, Reading.call?_eq_some_iff.mp hcall⟩
  | right hcall _ => exact ⟨_, Reading.call?_eq_some_iff.mp hcall⟩

/-- What one reading takes up is a shorter part of its text, with fewer `(`, one call deeper. -/
theorem Reading.TakesUp.shorter {limit : Option Nat} {outer inner : Reading}
    (h : outer.TakesUp limit inner) :
    inner.text <:+: outer.text ∧ inner.text.length < outer.text.length ∧
      inner.text.count '(' < outer.text.count '(' ∧ inner.depth = outer.depth + 1 := by
  cases h with
  | @left found hcall =>
      have hread := Reading.call?_eq_some_iff.mp hcall
      have hinside : IsInside found.left outer.text :=
        (Outline.holdsCall_of_read hread).isInside (by simp)
      exact ⟨hinside.within, (Outline.length_lt_of_read hread).1, hinside.fewer, rfl⟩
  | @right found _ hcall _ =>
      have hread := Reading.call?_eq_some_iff.mp hcall
      have hinside : IsInside found.right outer.text :=
        (Outline.holdsCall_of_read hread).isInside (by simp)
      exact ⟨hinside.within, (Outline.length_lt_of_read hread).2, hinside.fewer, rfl⟩

namespace Expr

variable {limit : Option Nat} {depth : Nat} {text : Text}

/-- The readings of a call: its own, those of its left parameter and, if that is an expression,
those of its right one. -/
theorem mem_readings_call_iff {found : Call} {reading : Reading}
    (h : Outline.read limit depth text = .ok (.call found)) :
    reading ∈ readings limit depth text ↔
      reading = ⟨depth, text⟩ ∨ reading ∈ readings limit (depth + 1) found.left ∨
        ∃ left, parseAt limit (depth + 1) found.left = .ok left ∧
          reading ∈ readings limit (depth + 1) found.right := by
  cases hleft : parseAt limit (depth + 1) found.left with
  | error e =>
      rw [readings_call_of_error h hleft]
      simp
  | ok left =>
      rw [readings_call h hleft]
      simp

/-- The first reading is that of the whole text. -/
theorem mem_readings_self (limit : Option Nat) (depth : Nat) (text : Text) :
    ⟨depth, text⟩ ∈ readings limit depth text := by
  cases h : Outline.read limit depth text with
  | error e =>
      rw [readings_error h]
      simp
  | ok outline =>
      cases outline with
      | number value =>
          rw [readings_number h]
          simp
      | call found => exact (mem_readings_call_iff h).mpr (.inl rfl)

/-- What a reading takes up is read. -/
theorem mem_readings_of_takesUp {outer inner : Reading} (houter : outer ∈ readings limit depth text)
    (h : outer.TakesUp limit inner) : inner ∈ readings limit depth text := by
  obtain ⟨call, hcall⟩ := h.exists_call
  induction depth, text using parseAt.induct limit with
  | case1 depth text error hread =>
      rw [readings_error hread, List.mem_singleton] at houter
      rw [houter] at hcall
      simp [hread] at hcall
  | case2 depth text value hread =>
      rw [readings_number hread, List.mem_singleton] at houter
      rw [houter] at hcall
      simp [hread] at hcall
  | case3 depth text found hread ihLeft ihRight =>
      rw [mem_readings_call_iff hread] at houter ⊢
      rcases houter with rfl | hleft | ⟨left, hleft, hright⟩
      · have hsame : ∀ {found' : Call}, Reading.call? limit ⟨depth, text⟩ = some found' →
            found = found' := by
          intro found' hfound
          simpa [Reading.call?, hread] using hfound
        cases h with
        | left hfound =>
            obtain rfl := hsame hfound
            exact .inr (.inl (mem_readings_self _ _ _))
        | right hfound hleft =>
            obtain rfl := hsame hfound
            exact .inr (.inr ⟨_, hleft, mem_readings_self _ _ _⟩)
      · exact .inr (.inl (ihLeft hleft))
      · exact .inr (.inr ⟨left, hleft, ihRight hright⟩)

/-- A text is read exactly if it is reached from the first one. -/
theorem mem_readings_iff {reading : Reading} :
    reading ∈ readings limit depth text ↔
      Relation.ReflTransGen (Reading.TakesUp limit) ⟨depth, text⟩ reading := by
  constructor
  · intro h
    induction depth, text using parseAt.induct limit with
    | case1 depth text error hread =>
        rw [readings_error hread, List.mem_singleton] at h
        rw [h]
    | case2 depth text value hread =>
        rw [readings_number hread, List.mem_singleton] at h
        rw [h]
    | case3 depth text found hread ihLeft ihRight =>
        have hcall : Reading.call? limit ⟨depth, text⟩ = some found :=
          Reading.call?_eq_some_iff.mpr hread
        rcases (mem_readings_call_iff hread).mp h with rfl | hleft | ⟨left, hleft, hright⟩
        · exact .refl
        · exact .head (.left hcall) (ihLeft hleft)
        · exact .head (.right hcall hleft) (ihRight hright)
  · intro h
    induction h with
    | refl => exact mem_readings_self limit depth text
    | tail _ hstep ih => exact mem_readings_of_takesUp ih hstep

/-- There are at most two readings for each `(`, and the first. -/
theorem length_readings_le (limit : Option Nat) (depth : Nat) (text : Text) :
    (readings limit depth text).length ≤ 1 + 2 * text.count '(' := by
  induction depth, text using parseAt.induct limit with
  | case1 depth text error h =>
      rw [readings_error h, List.length_singleton]
      omega
  | case2 depth text value h =>
      rw [readings_number h, List.length_singleton]
      omega
  | case3 depth text found h ihLeft ihRight =>
      have hcount := Outline.count_opening_of_read h
      cases hleft : parseAt limit (depth + 1) found.left with
      | error e =>
          rw [readings_call_of_error h hleft, List.length_cons]
          omega
      | ok left =>
          rw [readings_call h hleft, List.length_cons, List.length_append]
          omega

/-- A reading is inside as many calls more than the first one as it has `(` less, at most. -/
theorem depth_add_count_le {reading : Reading} (h : reading ∈ readings limit depth text) :
    reading.depth + reading.text.count '(' ≤ depth + text.count '(' := by
  induction mem_readings_iff.mp h with
  | refl => exact Nat.le_refl _
  | tail hreach hstep ih =>
      have hbefore := ih (mem_readings_iff.mpr hreach)
      obtain ⟨_, _, hcount, hdepth⟩ := hstep.shorter
      omega

/-- Without a limit the reader takes up, beside the whole text, what its readings take up. What a
reading takes up is a shorter part of its text. No reading is inside more calls than the text has
`(`, and there are at most two for each of these, and the first. -/
theorem readings_bounded (text : Text) :
    (parseLogged none 0 text).run [] = (parse none text, readings none 0 text) ∧
      (∀ outer ∈ readings none 0 text, ∀ inner, outer.TakesUp none inner →
        inner ∈ readings none 0 text ∧ inner.text <:+: outer.text ∧
          inner.text.length < outer.text.length ∧ inner.depth = outer.depth + 1) ∧
      (∀ inner ∈ readings none 0 text,
        inner = ⟨0, text⟩ ∨ ∃ outer ∈ readings none 0 text, outer.TakesUp none inner) ∧
      (∀ reading ∈ readings none 0 text, reading.depth ≤ text.count '(') ∧
      (readings none 0 text).length ≤ 1 + 2 * text.count '(' := by
  refine ⟨?_, ?_, ?_, ?_, length_readings_le none 0 text⟩
  · exact run_parseLogged none 0 text []
  · intro outer houter inner hstep
    obtain ⟨hwithin, hshorter, _, hdepth⟩ := hstep.shorter
    exact ⟨mem_readings_of_takesUp houter hstep, hwithin, hshorter, hdepth⟩
  · intro inner hinner
    rcases (mem_readings_iff.mp hinner).cases_tail with hfirst | ⟨outer, hreach, hstep⟩
    · exact .inl hfirst
    · exact .inr ⟨outer, mem_readings_iff.mpr hreach, hstep⟩
  · intro reading hreading
    have hsum := depth_add_count_le hreading
    omega

/-- The statement for a text that is no formula. Its last parameter is not read. -/
theorem readings_bounded_stopped :
    (parseLogged none 0 "add(multiply(2, x), 3)".toList).run [] =
        (.error (.notANumber "x".toList),
          [⟨0, "add(multiply(2, x), 3)".toList⟩, ⟨1, "multiply(2, x)".toList⟩, ⟨2, "2".toList⟩,
            ⟨2, "x".toList⟩]) ∧
      ⟨1, "multiply(2, x)".toList⟩ ∈ readings none 0 "add(multiply(2, x), 3)".toList ∧
      Reading.TakesUp none ⟨1, "multiply(2, x)".toList⟩ ⟨2, "x".toList⟩ ∧
      ⟨2, "x".toList⟩ ∈ readings none 0 "add(multiply(2, x), 3)".toList ∧
      "x".toList <:+: "multiply(2, x)".toList ∧
      2 ≤ "add(multiply(2, x), 3)".toList.count '(' ∧
      (readings none 0 "add(multiply(2, x), 3)".toList).length ≤ 1 + 2 * 2 := by
  have hresult : parse none "add(multiply(2, x), 3)".toList = .error (.notANumber "x".toList) := by
    decide +kernel
  have hlist : readings none 0 "add(multiply(2, x), 3)".toList =
      [⟨0, "add(multiply(2, x), 3)".toList⟩, ⟨1, "multiply(2, x)".toList⟩, ⟨2, "2".toList⟩,
        ⟨2, "x".toList⟩] := by decide +kernel
  have houter : ⟨1, "multiply(2, x)".toList⟩ ∈
      readings none 0 "add(multiply(2, x), 3)".toList := by
    rw [hlist]
    decide
  have hcall : Reading.call? none ⟨1, "multiply(2, x)".toList⟩ =
      some ⟨.multiply, "2".toList, "x".toList⟩ := by decide +kernel
  have hleft : parseAt none 2 "2".toList = .ok (.number (.ofNat 2)) := by decide +kernel
  have hstep : Reading.TakesUp none ⟨1, "multiply(2, x)".toList⟩ ⟨2, "x".toList⟩ :=
    .right hcall hleft
  obtain ⟨hlog, hsteps, _, hdepths, hlength⟩ := readings_bounded "add(multiply(2, x), 3)".toList
  obtain ⟨hinner, hwithin, _, _⟩ := hsteps _ houter _ hstep
  rw [hresult, hlist] at hlog
  exact ⟨hlog, houter, hstep, hinner, hwithin, hdepths _ hinner, hlength⟩

end Expr

end ArithFormula
