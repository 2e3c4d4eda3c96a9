import ArithFormula.Proofs.Expr.ParameterList
import ArithFormula.Proofs.Text.Layout

/-!
# Blanks at the ends of a body

Parameters are trimmed, so blanks at the ends of a body do not show in them. They may show in the
number of parameters. A last piece is dropped only if it is empty before it is trimmed, and blanks
make it non-empty: an empty body has no parameters, a body of blanks has an empty one; a separator
at the end adds no parameter, a separator in front of blanks adds an empty one. Nothing else
changes. The reader trims a body before it cuts it and so never meets the difference.

## Main results

* `Text.exists_last_piece` — text without marks at the end belongs to the last piece.
* `Call.parameterList_append_blank` — what blanks at the ends make of the parameters.
* `Call.parameters_append_blank_iff` — when they leave all results as they are.
-/

namespace ArithFormula

/-! ## The last piece -/

namespace Text

/-- Text without marks at the end belongs to the last piece. -/
theorem exists_last_piece {tail : Text} (h : ∀ c ∈ tail, c ≠ '(' ∧ c ≠ ')' ∧ c ≠ ',')
    (depth : Nat) (text : Text) :
    ∃ front last, (pieces depth text).1 :: (pieces depth text).2 = front ++ [last] ∧
      (pieces depth (text ++ tail)).1 :: (pieces depth (text ++ tail)).2 =
        front ++ [last ++ tail] := by
  induction text generalizing depth with
  | nil =>
      have htail := pieces_append_of_no_mark h depth []
      rw [List.append_nil, pieces_nil, List.append_nil] at htail
      exact ⟨[], [], rfl, by rw [List.nil_append, htail]; rfl⟩
  | cons c text ih =>
      by_cases hsep : c = ',' ∧ depth = 0
      · obtain ⟨rfl, rfl⟩ := hsep
        obtain ⟨front, last, htext, happend⟩ := ih 0
        refine ⟨[] :: front, last, ?_, ?_⟩
        · rw [pieces_separator, htext]
          rfl
        · rw [List.cons_append, pieces_separator, happend]
          rfl
      · obtain ⟨front, last, htext, happend⟩ := ih (nest depth c)
        rw [List.cons_append, pieces_other hsep, pieces_other hsep]
        cases front with
        | nil =>
            obtain ⟨hfirst, hothers⟩ := List.cons.inj htext
            obtain ⟨hfirst', hothers'⟩ := List.cons.inj happend
            exact ⟨[], c :: last, by rw [hfirst, hothers]; rfl, by rw [hfirst', hothers']; rfl⟩
        | cons first front =>
            obtain ⟨hfirst, hothers⟩ := List.cons.inj htext
            obtain ⟨hfirst', hothers'⟩ := List.cons.inj happend
            exact ⟨(c :: first) :: front, last, by rw [hfirst, hothers]; rfl,
              by rw [hfirst', hothers']; rfl⟩

/-- A single piece is the whole text. -/
theorem eq_of_pieces_eq_singleton {depth : Nat} {text piece : Text}
    (h : (pieces depth text).1 :: (pieces depth text).2 = [piece]) : text = piece := by
  obtain ⟨hfirst, hothers⟩ := List.cons.inj h
  have htext := joinPieces_pieces depth text
  rw [joinPieces, hfirst, hothers] at htext
  simpa using htext.symm

/-- The last piece is empty behind a separator that ends the text, and in the empty text. -/
theorem last_piece_eq_nil_iff {text last : Text} {front : List Text} (h : Balanced text)
    (hpieces : (pieces 0 text).1 :: (pieces 0 text).2 = front ++ [last]) :
    last = [] ↔ text = [] ∨ EndsWithSeparator text := by
  have hdepth : depthAfter 0 text ≠ none := by simp [balanced_iff.mp h]
  rw [← getLast?_cut_eq_nil_iff, cutAt_separators hdepth, hpieces]
  simp

theorem EndsWithSeparator.ne_nil {text : Text} (h : EndsWithSeparator text) : text ≠ [] := by
  obtain ⟨front, rfl, _⟩ := h
  simp

end Text

namespace Call

/-! ## Parameters -/

/-- A body without separators is its own parameter, unless it is empty. -/
theorem parameterList_of_single {body : Text} (h : (Text.pieces 0 body).2 = []) :
    parameterList body = if body = [] then [] else [Text.trim body] := by
  have hwhole := Text.eq_of_pieces_eq_singleton (congrArg ((Text.pieces 0 body).1 :: ·) h)
  have hdrop := dropEmptyLast_append [] body
  rw [List.nil_append] at hdrop
  simp only [parameterList, ← hwhole, h, hdrop]
  split <;> rfl

/-- Blanks in front of a body add an empty parameter if the body is empty, and otherwise change
nothing. -/
theorem parameterList_blank_append {leading : Text} (hleading : Text.Blank leading)
    (body : Text) :
    (body = [] ∧ leading ≠ [] → parameterList (leading ++ body) = parameterList body ++ [[]]) ∧
      (¬(body = [] ∧ leading ≠ []) → parameterList (leading ++ body) = parameterList body) := by
  have htrim : ∀ piece : Text, Text.trim (leading ++ piece) = Text.trim piece := by
    intro piece
    simpa using Text.trim_append_blank hleading Text.blank_nil piece
  have hpieces := Text.pieces_append_of_no_mark (Text.no_mark_of_blank hleading) 0 body
  cases hothers : (Text.pieces 0 body).2 with
  | nil =>
      have hothers' : (Text.pieces 0 (leading ++ body)).2 = [] := by rw [hpieces, hothers]
      rw [parameterList_of_single hothers, parameterList_of_single hothers', htrim]
      constructor
      · intro ⟨hbody, hne⟩
        subst hbody
        simp [hne, Text.trim_eq_nil_iff, Text.blank_nil]
      · intro hadds
        by_cases hbody : body = []
        · have hempty : leading = [] := by
            by_cases hempty : leading = []
            · exact hempty
            · exact absurd ⟨hbody, hempty⟩ hadds
          rw [hempty, List.nil_append]
        · simp [hbody]
  | cons second others =>
      have hbody : body ≠ [] := by
        intro hbody
        simp [hbody, Text.pieces_nil] at hothers
      have hsame : parameterList (leading ++ body) = parameterList body := by
        simp only [parameterList, hpieces, hothers]
        rw [dropEmptyLast_cons_cons, dropEmptyLast_cons_cons, List.map_cons, List.map_cons, htrim]
      exact ⟨fun hadds => absurd hadds.1 hbody, fun _ => hsame⟩

/-- Blanks behind a body add an empty parameter if the body is empty or ends with a separator, and
otherwise change nothing. -/
theorem parameterList_append_blank {trailing body : Text} (htrailing : Text.Blank trailing)
    (hbalanced : Text.Balanced body) :
    ((body = [] ∨ Text.EndsWithSeparator body) ∧ trailing ≠ [] →
        parameterList (body ++ trailing) = parameterList body ++ [[]]) ∧
      (¬((body = [] ∨ Text.EndsWithSeparator body) ∧ trailing ≠ []) →
        parameterList (body ++ trailing) = parameterList body) := by
  have htrim : ∀ piece : Text, Text.trim (piece ++ trailing) = Text.trim piece := by
    intro piece
    simpa using Text.trim_append_blank Text.blank_nil htrailing piece
  obtain ⟨front, last, hpieces, happend⟩ :=
    Text.exists_last_piece (Text.no_mark_of_blank htrailing) 0 body
  have hlast := Text.last_piece_eq_nil_iff hbalanced hpieces
  simp only [parameterList, hpieces, happend, dropEmptyLast_append, ← hlast]
  by_cases hnil : last = []
  · subst hnil
    have hblank : Text.trim trailing = [] := Text.trim_eq_nil_iff.mpr htrailing
    by_cases hempty : trailing = []
    · simp [hempty]
    · simp [hempty, hblank]
  · simp [hnil, htrim]

/-- Blanks at both ends add an empty parameter around an empty body and behind a separator that ends
the body, one at most, and otherwise change nothing. -/
theorem parameterList_padded {leading trailing body : Text} (hleading : Text.Blank leading)
    (htrailing : Text.Blank trailing) (hbalanced : Text.Balanced body) :
    (body = [] ∧ leading ++ trailing ≠ [] ∨ Text.EndsWithSeparator body ∧ trailing ≠ [] →
        parameterList (leading ++ body ++ trailing) = parameterList body ++ [[]]) ∧
      (¬(body = [] ∧ leading ++ trailing ≠ [] ∨ Text.EndsWithSeparator body ∧ trailing ≠ []) →
        parameterList (leading ++ body ++ trailing) = parameterList body) := by
  obtain ⟨hbehind, hbehind'⟩ := parameterList_append_blank htrailing hbalanced
  obtain ⟨hfront, hfront'⟩ := parameterList_blank_append hleading (body ++ trailing)
  rw [List.append_assoc]
  by_cases hbody : body = []
  · subst hbody
    have hends : ¬Text.EndsWithSeparator [] := fun hends => hends.ne_nil rfl
    by_cases htail : trailing = []
    · subst htail
      simp only [List.append_nil, ne_eq, true_and, hends, false_and, or_false] at hfront hfront' ⊢
      exact ⟨hfront, hfront'⟩
    · rw [hfront' (by simp [htail]), hbehind ⟨.inl rfl, htail⟩]
      simp [htail]
  · rw [hfront' (by simp [hbody])]
    simp only [hbody, false_or, false_and] at hbehind hbehind' ⊢
    exact ⟨hbehind, hbehind'⟩

/-- Blanks at the ends of a body change its results only where they add an empty parameter: around
an empty body, and behind a separator that ends a balanced one. -/
theorem parameters_append_blank_iff {leading trailing : Text} (hleading : Text.Blank leading)
    (htrailing : Text.Blank trailing) (body : Text) :
    (parameters (leading ++ body ++ trailing) = parameters body ↔
        ¬(Text.Balanced body ∧
          (body = [] ∧ leading ++ trailing ≠ [] ∨
            Text.EndsWithSeparator body ∧ trailing ≠ []))) ∧
      (Text.Balanced body ∧
          (body = [] ∧ leading ++ trailing ≠ [] ∨
            Text.EndsWithSeparator body ∧ trailing ≠ []) →
        ∃ found, parameters body = .ok found ∧
          parameters (leading ++ body ++ trailing) = .ok (found ++ [[]])) := by
  have hdepth : Text.depthAfter 0 (leading ++ body ++ trailing) = Text.depthAfter 0 body := by
    rw [← Text.depthAfter_trim, Text.trim_append_blank hleading htrailing, Text.depthAfter_trim]
  by_cases hbalanced : Text.Balanced body
  · have hpadded : Text.Balanced (leading ++ body ++ trailing) := by
      rw [Text.balanced_iff, hdepth]
      exact Text.balanced_iff.mp hbalanced
    have hbody : parameters body = .ok (parameterList body) :=
      parameters_eq_ok_iff.mpr ⟨hbalanced, rfl⟩
    have hbody' : parameters (leading ++ body ++ trailing) =
        .ok (parameterList (leading ++ body ++ trailing)) :=
      parameters_eq_ok_iff.mpr ⟨hpadded, rfl⟩
    obtain ⟨hadds, hkeeps⟩ := parameterList_padded hleading htrailing hbalanced
    rw [hbody, hbody']
    constructor
    · constructor
      · intro hsame hmore
        rw [hadds hmore.2] at hsame
        have hlength := congrArg List.length (Except.ok.inj hsame)
        simp at hlength
      · intro hnone
        rw [hkeeps fun hmore => hnone ⟨hbalanced, hmore⟩]
    · intro hmore
      exact ⟨_, rfl, by rw [hadds hmore.2]⟩
  · have hsame : parameters (leading ++ body ++ trailing) = parameters body := by
      have hopen : Text.depthAfter 0 body ≠ some 0 := fun h => hbalanced (Text.balanced_iff.mpr h)
      simp only [parameters, hdepth]
      split
      · rfl
      · rfl
      · next h => exact absurd h hopen
    exact ⟨⟨fun _ hmore => hbalanced hmore.1, fun _ => hsame⟩,
      fun hmore => absurd hmore.1 hbalanced⟩

/-- The statement for blanks on both sides of a body that ends with a separator. -/
theorem parameters_append_blank_iff_trailing :
    Text.Blank "\u2003".toList ∧ Text.Blank " \u00a0".toList ∧
      Text.Balanced "f(1, (ü)),".toList ∧ Text.EndsWithSeparator "f(1, (ü)),".toList ∧
      parameters "f(1, (ü)),".toList = .ok ["f(1, (ü))".toList] ∧
      parameters ("\u2003".toList ++ "f(1, (ü)),".toList ++ " \u00a0".toList) =
        .ok ["f(1, (ü))".toList, []] := by
  have hleading : Text.Blank "\u2003".toList := by decide
  have htrailing : Text.Blank " \u00a0".toList := by decide
  have hbalanced : Text.Balanced "f(1, (ü)),".toList := by decide
  have hends : Text.EndsWithSeparator "f(1, (ü)),".toList :=
    ⟨"f(1, (ü))".toList, by decide, by decide⟩
  have hbody : parameters "f(1, (ü)),".toList = .ok ["f(1, (ü))".toList] := by decide +kernel
  obtain ⟨found, hfound, hpadded⟩ :=
    (parameters_append_blank_iff hleading htrailing _).2 ⟨hbalanced, .inr ⟨hends, by decide⟩⟩
  obtain rfl := Except.ok.inj (hbody.symm.trans hfound)
  exact ⟨hleading, htrailing, hbalanced, hends, hbody, hpadded⟩

/-- Blanks behind a separator that ends the body are not taken off: the body has one parameter
without them and two with them. -/
theorem parameters_blank_behind_separator_ne :
    Text.Blank " ".toList ∧ parameters "1,".toList = .ok ["1".toList] ∧
      parameters ([] ++ "1,".toList ++ " ".toList) = .ok ["1".toList, []] ∧
      parameters ([] ++ "1,".toList ++ " ".toList) ≠ parameters "1,".toList :=
  ⟨by decide, by decide +kernel, by decide +kernel, by decide +kernel⟩

end Call

end ArithFormula
