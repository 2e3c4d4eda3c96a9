import ArithFormula.Text.Blank
import ArithFormula.Text.Nesting

/-!
# Texts that stand as one parameter

A separator is found by counting parentheses from the left, so whether a comma of a
text is one depends on everything in front of it. A text that is balanced and keeps
each of its commas inside its own parentheses is different: wherever it stands at
depth zero, the scan passes over it and is back at depth zero behind it. Such a text
is a **parameter**, and the pieces of a balanced text are parameters.

Proofs by induction on a scan need the same for a text that is read from a depth on;
that is `RunsOn`, and `isParameter_iff` joins it to the counts.

## Main results

* `isParameter_iff` — the counts of parentheses and the running depth agree.
* `pieces_append_separator` — the scan cuts behind a parameter and starts afresh.
* `isParameter_of_mem_pieces` — the pieces of a balanced text are parameters.
* `isParameter_enclosed` — a balanced text in parentheses is part of one parameter.
-/

namespace ArithFormula.Text

/-! ## Parameters -/

/-- A text that is balanced and keeps each of its commas inside its own parentheses. -/
structure IsParameter (text : Text) : Prop where
  balanced : Balanced text
  /-- In front of each comma more is opened than closed. -/
  inside : ∀ front back, text = front ++ ',' :: back → front.count ')' < front.count '('

/-- Read from a depth on, the text closes all that is open and has no separator. -/
def RunsOn (depth : Nat) (text : Text) : Prop :=
  depthAfter depth text = some 0 ∧ pieces depth text = (text, [])

theorem runsOn_nil {depth : Nat} : RunsOn depth [] ↔ depth = 0 := by
  simp [RunsOn, depthAfter, pieces]

/-- One step of the scan: the character closes nothing that is not open, is no separator, and
the rest is read on from the next depth. -/
theorem runsOn_cons {depth : Nat} {c : Char} {rest : Text} :
    RunsOn depth (c :: rest) ↔
      ¬(c = ')' ∧ depth = 0) ∧ ¬(c = ',' ∧ depth = 0) ∧ RunsOn (nest depth c) rest := by
  by_cases hclose : c = ')' ∧ depth = 0
  · simp [RunsOn, depthAfter, hclose]
  · by_cases hsep : c = ',' ∧ depth = 0
    · obtain ⟨rfl, rfl⟩ := hsep
      simp [RunsOn, pieces_separator]
    · rw [RunsOn, RunsOn, depthAfter, if_neg hclose, pieces_other hsep, Prod.ext_iff, Prod.ext_iff]
      simp [hclose, hsep]

/-- What a character adds to the openings and to the closings accounts for its step. -/
theorem nest_add_count {depth : Nat} {c : Char} (h : ¬(c = ')' ∧ depth = 0)) (front : Text) :
    nest depth c + front.count '(' + (c :: front).count ')' =
      depth + (c :: front).count '(' + front.count ')' := by
  by_cases hopen : c = '('
  · simp [hopen, nest]
    omega
  · by_cases hclose : c = ')'
    · simp [hclose, nest] at h ⊢
      omega
    · simp [hopen, hclose, nest]

/-- The scan cuts nowhere exactly if more is open than closed in front of each comma. -/
theorem pieces_eq_self_iff {depth : Nat} {text : Text} (h : depthAfter depth text ≠ none) :
    pieces depth text = (text, []) ↔
      ∀ front back, text = front ++ ',' :: back →
        front.count ')' < depth + front.count '(' := by
  induction text generalizing depth with
  | nil => simp [pieces]
  | cons c rest ih =>
      have hclose : ¬(c = ')' ∧ depth = 0) := by
        intro hc
        simp [depthAfter, hc] at h
      rw [depthAfter, if_neg hclose] at h
      by_cases hsep : c = ',' ∧ depth = 0
      · obtain ⟨rfl, rfl⟩ := hsep
        simp only [pieces_separator, Prod.mk.injEq, reduceCtorEq, false_and, false_iff]
        intro hall
        simpa using hall [] rest rfl
      · have hstep : pieces depth (c :: rest) = (c :: rest, []) ↔
            pieces (nest depth c) rest = (rest, []) := by
          rw [pieces_other hsep, Prod.ext_iff, Prod.ext_iff]
          simp
        rw [hstep, ih h]
        constructor
        · intro hall front back heq
          cases front with
          | nil =>
              obtain ⟨rfl, rfl⟩ : c = ',' ∧ rest = back := by simpa using heq
              simp at hsep ⊢
              omega
          | cons b front =>
              obtain ⟨rfl, rfl⟩ : c = b ∧ rest = front ++ ',' :: back := by simpa using heq
              have hfront := hall front back rfl
              have hcount := nest_add_count hclose front
              omega
        · intro hall front back heq
          have hfront := hall (c :: front) back (by rw [heq, List.cons_append])
          have hcount := nest_add_count hclose front
          omega

/-- A text is a parameter exactly if the running depth returns to zero and the scan cuts
nowhere. -/
theorem isParameter_iff {text : Text} : IsParameter text ↔ RunsOn 0 text := by
  constructor
  · intro h
    have hdepth := balanced_iff.mp h.balanced
    refine ⟨hdepth, (pieces_eq_self_iff (by simp [hdepth])).mpr ?_⟩
    simpa using h.inside
  · intro h
    refine ⟨balanced_iff.mpr h.1, ?_⟩
    simpa using (pieces_eq_self_iff (by simp [h.1])).mp h.2

instance (text : Text) : Decidable (IsParameter text) :=
  decidable_of_iff (depthAfter 0 text = some 0 ∧ pieces 0 text = (text, [])) isParameter_iff.symm

/-! ## Cutting between parameters -/

/-- The scan cuts behind a text that runs on, and starts afresh behind the comma. -/
theorem pieces_append_of_runsOn {depth : Nat} {front : Text} (h : RunsOn depth front)
    (back : Text) :
    pieces depth (front ++ ',' :: back) =
      (front, (pieces 0 back).1 :: (pieces 0 back).2) := by
  induction front generalizing depth with
  | nil =>
      obtain rfl := runsOn_nil.mp h
      exact pieces_separator back
  | cons c front ih =>
      obtain ⟨_, hsep, hrest⟩ := runsOn_cons.mp h
      rw [List.cons_append, pieces_other hsep, ih hrest]

/-- The scan cuts behind a parameter and starts afresh. -/
theorem pieces_append_separator {front : Text} (h : IsParameter front) (back : Text) :
    pieces 0 (front ++ ',' :: back) = (front, (pieces 0 back).1 :: (pieces 0 back).2) :=
  pieces_append_of_runsOn (isParameter_iff.mp h) back

theorem pieces_of_isParameter {text : Text} (h : IsParameter text) : pieces 0 text = (text, []) :=
  (isParameter_iff.mp h).2

/-- If all that is open gets closed, the first piece runs on and the others are parameters. -/
theorem runsOn_pieces {depth : Nat} {text : Text} (h : depthAfter depth text = some 0) :
    RunsOn depth (pieces depth text).1 ∧ ∀ piece ∈ (pieces depth text).2, IsParameter piece := by
  induction text generalizing depth with
  | nil =>
      have hzero : depth = 0 := by simpa [depthAfter] using h
      simp [pieces, runsOn_nil, hzero]
  | cons c rest ih =>
      have hclose : ¬(c = ')' ∧ depth = 0) := by
        intro hc
        simp [depthAfter, hc] at h
      rw [depthAfter, if_neg hclose] at h
      obtain ⟨hfirst, hothers⟩ := ih h
      by_cases hsep : c = ',' ∧ depth = 0
      · obtain ⟨rfl, rfl⟩ := hsep
        rw [pieces_separator]
        refine ⟨runsOn_nil.mpr rfl, ?_⟩
        intro piece hpiece
        cases List.mem_cons.mp hpiece with
        | inl heq => exact heq ▸ isParameter_iff.mpr hfirst
        | inr hmem => exact hothers piece hmem
      · rw [pieces_other hsep]
        exact ⟨runsOn_cons.mpr ⟨hclose, hsep, hfirst⟩, hothers⟩

/-- The pieces of a balanced text are parameters. -/
theorem isParameter_of_mem_pieces {text piece : Text} (h : Balanced text)
    (hpiece : piece ∈ (pieces 0 text).1 :: (pieces 0 text).2) : IsParameter piece := by
  obtain ⟨hfirst, hothers⟩ := runsOn_pieces (balanced_iff.mp h)
  cases List.mem_cons.mp hpiece with
  | inl heq => exact heq ▸ isParameter_iff.mpr hfirst
  | inr hmem => exact hothers piece hmem

/-- The last piece ends the text. -/
theorem exists_append_of_getLast?_pieces {text piece : Text}
    (h : ((pieces 0 text).1 :: (pieces 0 text).2).getLast? = some piece) :
    ∃ front, text = front ++ piece := by
  have htext := joinPieces_pieces 0 text
  generalize pieces 0 text = cut at h htext
  obtain ⟨first, others⟩ := cut
  obtain ⟨before, hbefore⟩ := List.getLast?_eq_some_iff.mp h
  cases before with
  | nil =>
      obtain ⟨rfl, rfl⟩ : first = piece ∧ others = [] := by simpa using hbefore
      exact ⟨[], by simpa [joinPieces] using htext.symm⟩
  | cons first' before =>
      obtain ⟨rfl, rfl⟩ : first = first' ∧ others = before ++ [piece] := by simpa using hbefore
      refine ⟨first ++ before.flatMap (',' :: ·) ++ [','], ?_⟩
      simpa [joinPieces] using htext.symm

/-! ## Building parameters -/

theorem balanced_append_separator {left right : Text} (hleft : Balanced left)
    (hright : Balanced right) : Balanced (left ++ ',' :: right) := by
  rw [balanced_iff] at hleft hright ⊢
  rw [depthAfter_append, hleft, Option.bind_some, depthAfter]
  simpa [nest] using hright

theorem no_paren_of_no_mark {text : Text} (h : ∀ c ∈ text, c ≠ '(' ∧ c ≠ ')' ∧ c ≠ ',') :
    '(' ∉ text ∧ ')' ∉ text :=
  ⟨fun hmem => (h _ hmem).1 rfl, fun hmem => (h _ hmem).2.1 rfl⟩

/-- Characters that are no mark leave the scan where it is. -/
theorem runsOn_append_of_no_mark {front : Text} (h : ∀ c ∈ front, c ≠ '(' ∧ c ≠ ')' ∧ c ≠ ',')
    {depth : Nat} {back : Text} : RunsOn depth (front ++ back) ↔ RunsOn depth back := by
  induction front with
  | nil => rfl
  | cons c front ih =>
      obtain ⟨hopen, hclose, hsep⟩ := h c (by simp)
      have hnest : nest depth c = depth := by simp [nest, hopen, hclose]
      rw [List.cons_append, runsOn_cons, hnest, ih fun c hc => h c (by simp [hc])]
      simp [hclose, hsep]

theorem isParameter_of_no_mark {text : Text} (h : ∀ c ∈ text, c ≠ '(' ∧ c ≠ ')' ∧ c ≠ ',') :
    IsParameter text := by
  rw [isParameter_iff, ← List.append_nil text, runsOn_append_of_no_mark h]
  exact runsOn_nil.mpr rfl

/-- One level up, what was at depth zero is inside: its commas no longer cut, and the `)` that
follows closes the extra level. -/
private theorem runsOn_succ_append {depth : Nat} {body back : Text}
    (hbody : depthAfter depth body = some 0) (hback : RunsOn 0 back) :
    RunsOn (depth + 1) (body ++ ')' :: back) := by
  induction body generalizing depth with
  | nil =>
      obtain rfl : depth = 0 := by simpa [depthAfter] using hbody
      rw [List.nil_append, runsOn_cons]
      simpa [nest] using hback
  | cons c body ih =>
      have hclose : ¬(c = ')' ∧ depth = 0) := by
        intro hc
        simp [depthAfter, hc] at hbody
      rw [depthAfter, if_neg hclose] at hbody
      have hnest : nest (depth + 1) c = nest depth c + 1 := by
        simp only [nest]
        split
        · rfl
        · split
          · next hc =>
              have hpos : depth ≠ 0 := fun hzero => hclose ⟨hc, hzero⟩
              omega
          · rfl
      rw [List.cons_append, runsOn_cons, hnest]
      exact ⟨by simp, by simp, ih hbody⟩

/-- A name without marks and a balanced text in parentheses behind it are one parameter. -/
theorem isParameter_enclosed {name body : Text}
    (hname : ∀ c ∈ name, c ≠ '(' ∧ c ≠ ')' ∧ c ≠ ',') (hbody : Balanced body) :
    IsParameter (name ++ '(' :: (body ++ [')'])) := by
  rw [isParameter_iff, runsOn_append_of_no_mark hname, runsOn_cons]
  refine ⟨by simp, by simp, ?_⟩
  exact runsOn_succ_append (balanced_iff.mp hbody) (runsOn_nil.mpr rfl)

/-! ## Blanks -/

/-- No mark is blank. -/
theorem no_mark_of_isBlank {c : Char} (h : isBlank c = true) : c ≠ '(' ∧ c ≠ ')' ∧ c ≠ ',' := by
  refine ⟨?_, ?_, ?_⟩ <;>
    · intro hc
      subst hc
      revert h
      decide

theorem no_mark_of_blank {blanks : Text} (h : Blank blanks) :
    ∀ c ∈ blanks, c ≠ '(' ∧ c ≠ ')' ∧ c ≠ ',' :=
  fun c hc => no_mark_of_isBlank (h c hc)

/-- Characters that are no mark leave the depth as it is. -/
theorem depthAfter_append_of_no_mark {front : Text}
    (h : ∀ c ∈ front, c ≠ '(' ∧ c ≠ ')' ∧ c ≠ ',') (depth : Nat) (back : Text) :
    depthAfter depth (front ++ back) = depthAfter depth back := by
  induction front with
  | nil => rfl
  | cons c front ih =>
      obtain ⟨hopen, hclose, _⟩ := h c (by simp)
      have hnest : nest depth c = depth := by simp [nest, hopen, hclose]
      rw [List.cons_append, depthAfter, if_neg (by simp [hclose]), hnest]
      exact ih fun c hc => h c (by simp [hc])

/-- Blanks at either end do not matter to the depth. -/
theorem depthAfter_trim (depth : Nat) (text : Text) :
    depthAfter depth (trim text) = depthAfter depth text := by
  obtain ⟨leading, trailing, hleading, htrailing, htext⟩ := eq_append_trim text
  have htail : ∀ final, depthAfter final trailing = some final := by
    intro final
    rw [← List.append_nil trailing, depthAfter_append_of_no_mark (no_mark_of_blank htrailing)]
    rfl
  conv => rhs; rw [htext]
  rw [List.append_assoc, depthAfter_append_of_no_mark (no_mark_of_blank hleading),
    depthAfter_append]
  cases depthAfter depth (trim text) with
  | none => rfl
  | some final => exact (htail final).symm

/-- Blanks at either end do not matter to balance. -/
theorem balanced_trim_iff {text : Text} : Balanced (trim text) ↔ Balanced text := by
  rw [balanced_iff, balanced_iff, depthAfter_trim]

theorem runsOn_append_blank {blanks : Text} (h : Blank blanks) {depth : Nat} {front : Text} :
    RunsOn depth (front ++ blanks) ↔ RunsOn depth front := by
  induction front generalizing depth with
  | nil =>
      rw [List.nil_append, ← List.append_nil blanks,
        runsOn_append_of_no_mark (no_mark_of_blank h)]
  | cons c front ih => rw [List.cons_append, runsOn_cons, runsOn_cons, ih]

/-- Blanks at either end do not matter to a parameter. -/
theorem isParameter_append_blank {leading trailing : Text} (hleading : Blank leading)
    (htrailing : Blank trailing) {text : Text} :
    IsParameter (leading ++ text ++ trailing) ↔ IsParameter text := by
  rw [isParameter_iff, isParameter_iff, runsOn_append_blank htrailing,
    runsOn_append_of_no_mark (no_mark_of_blank hleading)]

/-- Trimming a parameter leaves a parameter. -/
theorem IsParameter.trim {text : Text} (h : IsParameter text) : IsParameter (Text.trim text) := by
  obtain ⟨leading, trailing, hleading, htrailing, htext⟩ := eq_append_trim text
  rw [htext] at h
  exact (isParameter_append_blank hleading htrailing).mp h

theorem IsParameter.trimStart {text : Text} (h : IsParameter text) :
    IsParameter (Text.trimStart text) := by
  obtain ⟨blanks, hblanks, heq⟩ := exists_blank_append_trimStart text
  rw [heq, ← List.append_nil (blanks ++ _)] at h
  exact (isParameter_append_blank hblanks blank_nil).mp h

theorem IsParameter.trimEnd {text : Text} (h : IsParameter text) :
    IsParameter (Text.trimEnd text) := by
  obtain ⟨blanks, hblanks, heq⟩ := exists_trimEnd_append_blank text
  rw [heq, ← List.nil_append (Text.trimEnd text)] at h
  exact (isParameter_append_blank blank_nil hblanks).mp h

end ArithFormula.Text
