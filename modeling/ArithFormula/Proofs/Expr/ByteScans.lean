import ArithFormula.Expr.Parser
import ArithFormula.Proofs.Expr.ParameterList
import ArithFormula.Proofs.Text.Bytes

/-!
# Reading by bytes

A reader of texts in UTF-8 does not cut texts. It finds places, as numbers of bytes, and takes
slices between them; and it looks parameters up by their index. Neither may be there: a slice needs
two places in order, and a list an element at the index. Here the reader is written in this way, and
a scan that takes a slice or a parameter that is not there breaks off without any result.

It never does. The places that it takes slices at are behind parts of the text that it has passed,
and a place one byte behind a parenthesis or a separator is a place again, since these have one
byte. So the reader has the results of the reader that cuts texts, on every text.

## Main results

* `Call.run_keywordByBytes`, `Call.run_bodyByBytes`, `Call.run_parametersByBytes` — the parts of a
  call.
* `Call.scanFrom_separator`, `Call.scanFrom_other` — one step of the scan for parameters.
* `Call.scanFrom_of_some` — the whole scan: which pieces it found, and where the last one starts.
* `Expr.byteScans_never_break_off` — nothing that is taken is missing, in any text.
-/

namespace ArithFormula

/-- A scan that breaks off, without result or error, where it takes a slice or an element that is
not there. -/
abbrev ByteScan (α : Type) := ExceptT ParseError Option α

namespace ByteScan

variable {α β : Type}

/-- What may be missing. -/
def take (part : Option α) : ByteScan α := ExceptT.lift part

/-- What is an error or not, but never missing. -/
def check (result : Except ParseError α) : ByteScan α := ExceptT.mk (some result)

theorem run_check (result : Except ParseError α) : (check result).run = some result := rfl

theorem run_take_bind {part : Option α} {a : α} (h : part = some a) (next : α → ByteScan β) :
    (take part >>= next).run = (next a).run := by
  rw [h]
  rfl

/-- Scans one after the other have a result if each of them has one. -/
theorem run_bind {first : ByteScan α} {result : Except ParseError α} {second : α → ByteScan β}
    {next : α → Except ParseError β} (hfirst : first.run = some result)
    (hsecond : ∀ a, result = .ok a → (second a).run = some (next a)) :
    (first >>= second).run = some (result >>= next) := by
  rw [ExceptT.run_bind, hfirst]
  cases result with
  | error e => rfl
  | ok a => exact hsecond a rfl

end ByteScan

open ByteScan

namespace Call

/-! ## Keyword and body -/

/-- The keyword, taken as a slice. -/
def keywordByBytes (text : Text) : ByteScan Text :=
  match Text.firstPlace? '(' text with
  | none => throw (.noOpening text)
  | some opening => do
    let front ← take (Text.slice? text 0 opening)
    if Text.trim front = [] then throw (.noKeyword text) else return Text.trim front

/-- The body, taken as a slice from behind the first `(` to the last `)`. -/
def bodyByBytes (text : Text) : ByteScan Text :=
  match Text.firstPlace? '(' text, Text.lastPlace? ')' text with
  | none, _ => throw (.noOpening text)
  | some _, none => throw (.noClosing text)
  | some opening, some closing =>
      if closing < opening then throw (.closingBeforeOpening text)
      else do
        let inner ← take (Text.slice? text (opening + 1) closing)
        return Text.trim inner

theorem slice?_keyword (front rest : Text) :
    Text.slice? (front ++ '(' :: rest) 0 (Text.byteLength front) = some front :=
  Text.slice?_append [] front ('(' :: rest)

/-- The body starts one byte behind the place of its `(`. -/
theorem slice?_body (front inner post : Text) :
    Text.slice? (front ++ '(' :: (inner ++ ')' :: post)) (Text.byteLength front + 1)
      (Text.byteLength (front ++ '(' :: inner)) = some inner := by
  have hone : Char.utf8Size '(' = 1 := rfl
  simpa [hone] using Text.slice?_append (front ++ ['(']) inner (')' :: post)

theorem run_keywordByBytes (text : Text) : (keywordByBytes text).run = some (keyword text) := by
  rw [keywordByBytes, keyword, Text.firstPlace?_eq]
  cases h : Text.cutFirst '(' text with
  | none => rfl
  | some cut =>
      obtain ⟨front, rest⟩ := cut
      obtain ⟨rfl, _⟩ := Text.eq_append_of_cutFirst h
      simp only [Option.map_some, run_take_bind (slice?_keyword front rest)]
      split <;> rfl

/-- The last `)` of a text with a `(` is in front of the first `(`, or behind it at the end of the
body. -/
theorem run_bodyByBytes (text : Text) : (bodyByBytes text).run = some (body text) := by
  rw [bodyByBytes, body, Text.firstPlace?_eq, Text.lastPlace?_eq]
  cases hopen : Text.cutFirst '(' text with
  | none => rfl
  | some cut =>
      obtain ⟨front, rest⟩ := cut
      obtain ⟨rfl, _⟩ := Text.eq_append_of_cutFirst hopen
      cases hclose : Text.cutLast ')' rest with
      | some cut =>
          obtain ⟨inner, post⟩ := cut
          obtain ⟨rfl, hpost⟩ := Text.eq_append_of_cutLast hclose
          have hlast : Text.cutLast ')' (front ++ '(' :: (inner ++ ')' :: post)) =
              some (front ++ '(' :: inner, post) := by
            simpa using Text.cutLast_append hpost (front ++ '(' :: inner)
          have horder : ¬Text.byteLength (front ++ '(' :: inner) < Text.byteLength front :=
            Nat.not_lt.mpr (Text.byteLength_le_append front ('(' :: inner))
          have hslice := slice?_body front inner post
          simp only [hlast, hclose, Option.map_some, if_neg horder, run_take_bind hslice]
          rfl
      | none =>
          -- The last `)`, if there is any, stands in front of the first `(`.
          have hrest : ')' ∉ '(' :: rest := by simp [Text.cutLast_eq_none_iff.mp hclose]
          have hlast := Text.cutLast_append_of_not_mem hrest front
          cases hbefore : Text.cutLast ')' front with
          | none =>
              have hfront := Text.cutLast_eq_none_iff.mp hbefore
              rw [hlast, hbefore]
              simp only [Option.map_none, Option.map_some, hclose, if_neg hfront]
              rfl
          | some cut =>
              obtain ⟨before, after⟩ := cut
              obtain ⟨rfl, _⟩ := Text.eq_append_of_cutLast hbefore
              have horder : Text.byteLength before < Text.byteLength (before ++ ')' :: after) :=
                Text.byteLength_lt_append before (List.cons_ne_nil ')' after)
              have hfront : ')' ∈ before ++ ')' :: after := by simp
              rw [hlast, hbefore]
              simp only [Option.map_some, hclose, if_pos horder, if_pos hfront]
              rfl

/-! ## Parameters -/

/-- What the scan for parameters keeps: the depth, where the current piece starts, and the
parameters that were found. -/
structure Scan where
  depth : Nat
  start : Nat
  found : List Text

/-- One character of a body, at its place. -/
def Scan.step (body : Text) (scan : Scan) (here : Nat × Char) : ByteScan Scan :=
  if here.2 = '(' then return { scan with depth := scan.depth + 1 }
  else if here.2 = ')' then
    if scan.depth = 0 then throw .tooManyClosing else return { scan with depth := scan.depth - 1 }
  else if here.2 = ',' ∧ scan.depth = 0 then do
    let piece ← take (Text.slice? body scan.start here.1)
    return ⟨scan.depth, here.1 + 1, scan.found ++ [Text.trim piece]⟩
  else return scan

/-- The parameters, taken as slices between the separators. The last slice is taken only if it is
not empty. -/
def parametersByBytes (body : Text) : ByteScan (List Text) := do
  let scan ← (Text.placed 0 body).foldlM (Scan.step body) ⟨0, 0, []⟩
  if scan.depth ≠ 0 then throw .unclosed
  else if scan.start < Text.byteLength body then do
    let last ← take (Text.slice? body scan.start (Text.byteLength body))
    return scan.found ++ [Text.trim last]
  else return scan.found

/-- The scan for parameters from a place on. Behind `front` starts the current piece, of which
`piece` was passed. -/
def scanFrom (front piece rest : Text) (depth : Nat) (found : List Text) : ByteScan Scan :=
  (Text.placed (Text.byteLength (front ++ piece)) rest).foldlM (Scan.step (front ++ piece ++ rest))
    ⟨depth, Text.byteLength front, found⟩

section Scan

variable (front piece rest : Text) (depth : Nat) (found : List Text)

theorem scanFrom_nil :
    scanFrom front piece [] depth found = pure ⟨depth, Text.byteLength front, found⟩ := rfl

/-- A `)` ends the scan where nothing is open. -/
theorem scanFrom_closing : scanFrom front piece (')' :: rest) 0 found = throw .tooManyClosing := rfl

/-- A separator ends the current piece, and the next one starts behind it. The slice is the piece,
since both of its ends were passed; the separator has one byte. -/
theorem scanFrom_separator :
    scanFrom front piece (',' :: rest) 0 found =
      scanFrom (front ++ piece ++ [',']) [] rest 0 (found ++ [Text.trim piece]) := by
  have hslice : Text.slice? (front ++ piece ++ ',' :: rest) (Text.byteLength front)
      (Text.byteLength (front ++ piece)) = some piece :=
    Text.slice?_append front piece (',' :: rest)
  have hbehind : Text.byteLength (front ++ piece ++ [',']) =
      Text.byteLength (front ++ piece) + 1 := by
    rw [Text.byteLength_append _ [',']]
    rfl
  have hstep : Scan.step (front ++ piece ++ ',' :: rest) ⟨0, Text.byteLength front, found⟩
      (Text.byteLength (front ++ piece), ',') =
        pure ⟨0, Text.byteLength (front ++ piece ++ [',']), found ++ [Text.trim piece]⟩ := by
    simp only [Scan.step, hslice, hbehind]
    rfl
  have hbody : front ++ piece ++ [','] ++ [] ++ rest = front ++ piece ++ ',' :: rest := by simp
  rw [scanFrom, Text.placed, List.foldlM_cons, hstep, pure_bind, scanFrom, hbody, List.append_nil,
    hbehind]
  rfl

/-- Every other character becomes part of the current piece. -/
theorem scanFrom_other {c : Char} (hclosing : ¬(c = ')' ∧ depth = 0))
    (hseparator : ¬(c = ',' ∧ depth = 0)) :
    scanFrom front piece (c :: rest) depth found =
      scanFrom front (piece ++ [c]) rest (Text.nest depth c) found := by
  have hstep : ∀ body start place, Scan.step body ⟨depth, start, found⟩ (place, c) =
      pure ⟨Text.nest depth c, start, found⟩ := by
    intro body start place
    by_cases hopen : c = '('
    · simp [Scan.step, Text.nest, hopen]
    · by_cases hclose : c = ')'
      · have hdepth : depth ≠ 0 := fun hzero => hclosing ⟨hclose, hzero⟩
        simp [Scan.step, Text.nest, hclose, hdepth]
      · simp [Scan.step, Text.nest, hopen, hclose, hseparator]
  have hbody : front ++ (piece ++ [c]) ++ rest = front ++ piece ++ c :: rest := by simp
  have hplace : Text.byteLength (front ++ (piece ++ [c])) =
      Text.byteLength (front ++ piece) + c.utf8Size := by simp [Nat.add_assoc]
  rw [scanFrom, Text.placed, List.foldlM_cons, hstep, pure_bind, scanFrom, hbody, hplace]

/-- The scan ends where a `)` stands and nothing is open. -/
theorem scanFrom_of_none (h : Text.depthAfter depth rest = none) :
    scanFrom front piece rest depth found = throw .tooManyClosing := by
  induction rest generalizing front piece depth found with
  | nil => cases h
  | cons c rest ih =>
      by_cases hclosing : c = ')' ∧ depth = 0
      · obtain ⟨rfl, rfl⟩ := hclosing
        exact scanFrom_closing front piece rest found
      · rw [Text.depthAfter, if_neg hclosing] at h
        by_cases hseparator : c = ',' ∧ depth = 0
        · obtain ⟨rfl, rfl⟩ := hseparator
          rw [scanFrom_separator]
          exact ih _ _ _ _ h
        · rw [scanFrom_other _ _ _ _ _ hclosing hseparator]
          exact ih _ _ _ _ h

/-- At the end of the body all pieces but the last one are found, and where the last one starts is
known. -/
theorem scanFrom_of_some {final : Nat} (h : Text.depthAfter depth rest = some final) :
    ∃ before closed last, front ++ piece ++ rest = before ++ last ∧
      (piece ++ (Text.pieces depth rest).1) :: (Text.pieces depth rest).2 = closed ++ [last] ∧
      scanFrom front piece rest depth found =
        pure ⟨final, Text.byteLength before, found ++ closed.map Text.trim⟩ := by
  induction rest generalizing front piece depth found with
  | nil =>
      obtain rfl : depth = final := by simpa [Text.depthAfter] using h
      refine ⟨front, [], piece, by simp, by simp [Text.pieces_nil], ?_⟩
      rw [scanFrom_nil, List.map_nil, List.append_nil]
  | cons c rest ih =>
      have hclosing : ¬(c = ')' ∧ depth = 0) := by
        intro hclosing
        simp [Text.depthAfter, hclosing] at h
      rw [Text.depthAfter, if_neg hclosing] at h
      by_cases hseparator : c = ',' ∧ depth = 0
      · obtain ⟨rfl, rfl⟩ := hseparator
        obtain ⟨before, closed, last, hbody, hpieces, hscan⟩ :=
          ih (front ++ piece ++ [',']) [] 0 (found ++ [Text.trim piece]) h
        refine ⟨before, piece :: closed, last, by simpa using hbody, ?_, ?_⟩
        · rw [Text.pieces_separator, List.append_nil, List.cons_append, ← hpieces, List.nil_append]
        · rw [scanFrom_separator, hscan, List.map_cons, List.append_assoc, List.singleton_append]
      · obtain ⟨before, closed, last, hbody, hpieces, hscan⟩ := ih front (piece ++ [c]) _ found h
        refine ⟨before, closed, last, by simpa using hbody, ?_, ?_⟩
        · rw [Text.pieces_other hseparator, ← hpieces, List.append_assoc, List.singleton_append]
        · rw [scanFrom_other _ _ _ _ _ hclosing hseparator, hscan]

end Scan

/-- The last slice is what stands behind the last separator, and it is taken as the last piece is
kept: unless it is empty. -/
theorem run_parametersByBytes (body : Text) :
    (parametersByBytes body).run = some (parameters body) := by
  have hscan : (Text.placed 0 body).foldlM (Scan.step body) ⟨0, 0, []⟩ =
      scanFrom [] [] body 0 [] := rfl
  rw [parametersByBytes, hscan, parameters]
  cases hdepth : Text.depthAfter 0 body with
  | none =>
      rw [scanFrom_of_none _ _ _ _ _ hdepth]
      rfl
  | some final =>
      obtain ⟨before, closed, last, hbody, hpieces, hfinal⟩ :=
        scanFrom_of_some [] [] body 0 [] hdepth
      rw [hfinal, pure_bind]
      cases final with
      | succ final => rfl
      | zero =>
          have hlist : parameterList body =
              if last = [] then closed.map Text.trim
              else closed.map Text.trim ++ [Text.trim last] := by
            show (dropEmptyLast (([] ++ _) :: _)).map Text.trim = _
            rw [hpieces, dropEmptyLast_append]
            split <;> simp
          obtain rfl : body = before ++ last := hbody
          dsimp only
          rw [hlist]
          by_cases hlast : last = []
          · subst hlast
            simp
          · have hmore : Text.byteLength before < Text.byteLength (before ++ last) :=
              Text.byteLength_lt_append before hlast
            have hslice : Text.slice? (before ++ last) (Text.byteLength before)
                (Text.byteLength (before ++ last)) = some last := by
              simpa using Text.slice?_append before last []
            simp only [ne_eq, not_true_eq_false, if_false, if_pos hmore, run_take_bind hslice,
              if_neg hlast]
            rfl

/-! ## Calls -/

/-- The call that a whole text writes, by bytes. The two parameters are looked up after their number
was checked. -/
def readByBytes (limit : Option Nat) (depth : Nat) (text : Text) : ByteScan Call := do
  let keyword ← keywordByBytes text
  let operator ← check (operatorNamed keyword)
  check (checkDepth limit depth)
  let body ← bodyByBytes text
  let parameters ← parametersByBytes body
  check (checkCount keyword operator.arity parameters.length)
  let left ← take parameters[0]?
  let right ← take parameters[1]?
  return ⟨operator, left, right⟩

/-- The parameters are there, since as many were counted as any operator takes. -/
theorem run_lookup {operator : Operator} {keyword : Text} {parameters : List Text}
    (hcount : checkCount keyword operator.arity parameters.length = .ok ()) :
    (do
      let left ← take parameters[0]?
      let right ← take parameters[1]?
      return (⟨operator, left, right⟩ : Call)).run =
        some (.ok ⟨operator, parameters.getD 0 [], parameters.getD 1 []⟩) := by
  have hoperands : operands keyword operator parameters =
      .ok (parameters.getD 0 [], parameters.getD 1 []) := by
    rw [operands, hcount]
    rfl
  obtain ⟨left, right, rfl⟩ : ∃ left right, parameters = [left, right] :=
    ⟨_, _, operands_eq_ok_iff.mp hoperands⟩
  rfl

theorem run_readByBytes (limit : Option Nat) (depth : Nat) (text : Text) :
    (readByBytes limit depth text).run = some (read limit depth text) := by
  refine run_bind (run_keywordByBytes text) fun keyword _ => ?_
  refine run_bind (run_check (operatorNamed keyword)) fun operator _ => ?_
  refine run_bind (run_check (checkDepth limit depth)) fun _ _ => ?_
  refine run_bind (run_bodyByBytes text) fun body _ => ?_
  refine run_bind (run_parametersByBytes body) fun parameters _ => ?_
  rw [operands, bind_assoc]
  have hcheck := run_check (checkCount keyword operator.arity parameters.length)
  exact run_bind hcheck fun _ hcount => run_lookup hcount

end Call

/-! ## Formulas -/

/-- The outline of a text inside `depth` calls, by bytes. -/
def Outline.readByBytes (limit : Option Nat) (depth : Nat) (text : Text) : ByteScan Outline :=
  let trimmed := Text.trim text
  if trimmed = [] then throw .blank
  else
    match Literal.read? trimmed with
    | some value => return .number value
    | none =>
        if '(' ∈ trimmed ∨ ')' ∈ trimmed then do
          let found ← Call.readByBytes limit depth trimmed
          return .call found
        else throw (.notANumber trimmed)

theorem Outline.run_readByBytes (limit : Option Nat) (depth : Nat) (text : Text) :
    (readByBytes limit depth text).run = some (read limit depth text) := by
  unfold readByBytes read
  dsimp only
  split
  · rfl
  · cases Literal.read? (Text.trim text) with
    | some value => rfl
    | none =>
        dsimp only
        split
        · have hcall := Call.run_readByBytes limit depth (Text.trim text)
          rw [ExceptT.run_bind, hcall]
          cases Call.read limit depth (Text.trim text) <;> rfl
        · rfl

namespace Expr

/-- The expression that a whole text writes inside `depth` calls, by bytes. -/
def parseAtByBytes (limit : Option Nat) (depth : Nat) (text : Text) : ByteScan Expr :=
  match h : (Outline.readByBytes limit depth text).run with
  | none => ExceptT.mk none
  | some (.error e) => throw e
  | some (.ok (.number value)) => return .number value
  | some (.ok (.call found)) => do
    let left ← parseAtByBytes limit (depth + 1) found.left
    let right ← parseAtByBytes limit (depth + 1) found.right
    return .call found.operator left right
termination_by text.length
decreasing_by
  all_goals
    rw [Outline.run_readByBytes, Option.some.injEq] at h
  · exact (Outline.length_lt_of_read h).1
  · exact (Outline.length_lt_of_read h).2

/-- One step of the reader. -/
theorem parseAtByBytes_eq (limit : Option Nat) (depth : Nat) (text : Text) :
    parseAtByBytes limit depth text =
      (match Outline.read limit depth text with
      | .error e => throw e
      | .ok (.number value) => return .number value
      | .ok (.call found) => do
        let left ← parseAtByBytes limit (depth + 1) found.left
        let right ← parseAtByBytes limit (depth + 1) found.right
        return .call found.operator left right) := by
  have hread := Outline.run_readByBytes limit depth text
  rw [parseAtByBytes]
  split
  · next h => cases hread.symm.trans h
  · next h => rw [Option.some.inj (hread.symm.trans h)]
  · next h => rw [Option.some.inj (hread.symm.trans h)]
  · next h => rw [Option.some.inj (hread.symm.trans h)]

theorem run_parseAtByBytes (limit : Option Nat) (depth : Nat) (text : Text) :
    (parseAtByBytes limit depth text).run = some (parseAt limit depth text) := by
  induction depth, text using parseAt.induct limit with
  | case1 depth text error h =>
      rw [parseAtByBytes_eq, h, parseAt_error h]
      rfl
  | case2 depth text value h =>
      rw [parseAtByBytes_eq, h, parseAt_number h]
      rfl
  | case3 depth text found h ihLeft ihRight =>
      rw [parseAtByBytes_eq, h, parseAt_call h]
      refine run_bind ihLeft fun left _ => ?_
      refine run_bind ihRight fun right _ => ?_
      rfl

/-- No scan of the reader breaks off, on any text and wherever it starts: each has the result of the
reader that cuts texts. A slice is there, where it is taken, only if its ends are places of the text
in order; so all slices that are taken are such, and all parameters that are looked up are there. -/
theorem byteScans_never_break_off (text : Text) :
    (∀ start stop, (Text.slice? text start stop).isSome = true ↔
        start ≤ stop ∧ stop ≤ (String.ofList text).utf8ByteSize ∧
          String.Pos.Raw.IsValid (String.ofList text) ⟨start⟩ ∧
          String.Pos.Raw.IsValid (String.ofList text) ⟨stop⟩) ∧
      (Call.keywordByBytes text).run = some (Call.keyword text) ∧
      (Call.bodyByBytes text).run = some (Call.body text) ∧
      (Call.parametersByBytes text).run = some (Call.parameters text) ∧
      ∀ limit depth,
        (Call.readByBytes limit depth text).run = some (Call.read limit depth text) ∧
          (parseAtByBytes limit depth text).run = some (parseAt limit depth text) :=
  ⟨fun _ _ => Text.isSome_slice?_iff, Call.run_keywordByBytes text, Call.run_bodyByBytes text,
    Call.run_parametersByBytes text, fun limit depth =>
      ⟨Call.run_readByBytes limit depth text, run_parseAtByBytes limit depth text⟩⟩

end Expr

end ArithFormula
