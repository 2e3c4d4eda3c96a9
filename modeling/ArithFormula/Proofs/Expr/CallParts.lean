import ArithFormula.Proofs.Expr.Composition

/-!
# Keyword and body

The keyword of a call ends at the first `(`, which is looked for from the front. The body stands
between that and the last `)`, which is looked for from the back. The two are found apart, and each
is trimmed on its own; still they belong together. If both are found, the text is made up of them,
the two parentheses, blanks around each and whatever follows the last `)`: nothing in front of the
last `)` is lost but blanks, and the text can be taken apart like this in one way only.

A body may also be found where no keyword is. It is missing from three kinds of texts only: those
without `(`, those without `)`, and those in which every `)` stands in front of every `(`.

## Main results

* `Text.allBefore_append_cons_iff` — what stands in front of what, seen from the first `(`.
* `Call.found_put`, `Call.exists_put_of_found` — a keyword and a body are found in the texts that
  they are put into, and in no others.
* `Call.put_inj` — how a text is made up of its keyword and its body is determined, up to the
  blanks that an empty body stands between.
* `Call.body_eq_error_iff_marks` — in which texts the body is not found, and why.
* `Call.keyword_and_body_iff` — where both are found and where the body is not, for any text.
-/

namespace ArithFormula

namespace Text

/-! ## The order of marks -/

/-- Every `first` of a text stands in front of every `second` of it. -/
def AllBefore (first second : Char) (text : Text) : Prop :=
  ∀ i j : Nat, text[i]? = some first → text[j]? = some second → i < j

/-- One look behind the leftmost `second` is enough. -/
theorem allBefore_append_cons_iff {first second : Char} {front : Text} (hne : first ≠ second)
    (hfront : second ∉ front) (rest : Text) :
    AllBefore first second (front ++ second :: rest) ↔ first ∉ rest := by
  constructor
  · intro hbefore hmem
    obtain ⟨k, hk⟩ := List.mem_iff_getElem?.mp hmem
    have hfirst : (front ++ second :: rest)[front.length + (k + 1)]? = some first := by
      rw [List.getElem?_append_right (by omega), Nat.add_sub_cancel_left, List.getElem?_cons_succ]
      exact hk
    have hsecond : (front ++ second :: rest)[front.length]? = some second := by simp
    have hlt := hbefore _ _ hfirst hsecond
    omega
  · intro hrest i j hi hj
    have hinside : i < front.length := by
      apply Nat.lt_of_not_le
      intro hle
      rw [List.getElem?_append_right hle] at hi
      rcases List.mem_cons.mp (List.mem_of_getElem? hi) with heq | hmem
      · exact hne heq
      · exact hrest hmem
    have hbehind : front.length ≤ j := by
      apply Nat.le_of_not_lt
      intro hlt
      rw [List.getElem?_append_left hlt] at hj
      exact hfront (List.mem_of_getElem? hj)
    exact Nat.lt_of_lt_of_le hinside hbehind

/-! ## Taking a text apart -/

/-- There is one first `(` and one last `)`. -/
theorem Encloses.inj {text front inner post front' inner' post' : Text}
    (h : Encloses text front inner post) (h' : Encloses text front' inner' post') :
    front = front' ∧ inner = inner' ∧ post = post' := by
  obtain ⟨hfront, hrest⟩ := append_first_mark_inj h.first h'.first (h.eq.symm.trans h'.eq)
  exact ⟨hfront, append_last_mark_inj h.last h'.last hrest⟩

/-- Blanks around a trimmed text are found again, unless the text is empty. -/
theorem append_trimmed_inj {text leading trailing leading' trailing' : Text} (hne : text ≠ [])
    (htrim : trim text = text) (hleading : Blank leading) (hleading' : Blank leading')
    (h : leading ++ text ++ trailing = leading' ++ text ++ trailing') :
    leading = leading' ∧ trailing = trailing' := by
  have hblank : ¬Blank text := by
    rw [← trim_eq_nil_iff, htrim]
    exact hne
  have hstart : ∀ {before behind : Text}, Blank before →
      trimStart (before ++ text ++ behind) = text ++ behind := by
    intro before behind hbefore
    rw [List.append_assoc, trimStart_append_blank hbefore, trimStart_append_of_not_blank hblank,
      trimStart_of_trim_eq_self htrim]
  have hbehind : text ++ trailing = text ++ trailing' := by
    rw [← hstart hleading, h, hstart hleading']
  obtain rfl := List.append_cancel_left hbehind
  rw [List.append_assoc, List.append_assoc] at h
  exact ⟨List.append_cancel_right h, rfl⟩

end Text

namespace Call

/-! ## What stands around keyword and body -/

/-- A text that can be a keyword: not empty, without `(`, and without blanks at its ends. -/
structure IsName (name : Text) : Prop where
  ne_nil : name ≠ []
  trimmed : Text.trim name = name
  no_opening : '(' ∉ name

/-- The rest of a text around a keyword and a body: blanks on both sides of each of them, and the
text behind the last `)`. -/
@[ext]
structure Surroundings where
  beforeName : Text
  behindName : Text
  beforeBody : Text
  behindBody : Text
  post : Text
  blank_beforeName : Text.Blank beforeName
  blank_behindName : Text.Blank behindName
  blank_beforeBody : Text.Blank beforeBody
  blank_behindBody : Text.Blank behindBody
  no_closing : ')' ∉ post

/-- The text with a keyword and a body put into its surroundings. -/
def Surroundings.put (around : Surroundings) (name found : Text) : Text :=
  around.beforeName ++ name ++ around.behindName ++
    '(' :: (around.beforeBody ++ found ++ around.behindBody ++ ')' :: around.post)

/-- The parentheses around the body are the first `(` and the last `)`. -/
theorem Surroundings.encloses (around : Surroundings) {name : Text} (hname : '(' ∉ name)
    (found : Text) :
    Text.Encloses (around.put name found) (around.beforeName ++ name ++ around.behindName)
      (around.beforeBody ++ found ++ around.behindBody) around.post where
  eq := rfl
  first := by
    have hbefore := (Text.no_paren_of_no_mark (Text.no_mark_of_blank around.blank_beforeName)).1
    have hbehind := (Text.no_paren_of_no_mark (Text.no_mark_of_blank around.blank_behindName)).1
    simp [hbefore, hbehind, hname]
  last := around.no_closing

/-- A keyword and a body are found where they were put. -/
theorem found_put (around : Surroundings) {name found : Text} (hname : IsName name)
    (hfound : Text.trim found = found) :
    keyword (around.put name found) = .ok name ∧ body (around.put name found) = .ok found := by
  refine found_iff_encloses.mpr
    ⟨_, _, _, around.encloses hname.no_opening found, ?_, hname.ne_nil, ?_⟩
  · rw [Text.trim_append_blank around.blank_beforeName around.blank_behindName, hname.trimmed]
  · rw [Text.trim_append_blank around.blank_beforeBody around.blank_behindBody, hfound]

/-- What was found is all there is in front of the last `)`, blanks apart. -/
theorem exists_put_of_found {text name found : Text}
    (h : keyword text = .ok name ∧ body text = .ok found) :
    IsName name ∧ Text.trim found = found ∧
      ∃ around : Surroundings, text = around.put name found := by
  obtain ⟨front, inner, post, ⟨htext, hfirst, hlast⟩, rfl, hne, rfl⟩ := found_iff_encloses.mp h
  have hname : IsName (Text.trim front) :=
    ⟨hne, Text.trim_trim front, fun hmem => hfirst (Text.mem_of_mem_trim hmem)⟩
  obtain ⟨beforeName, behindName, hbeforeName, hbehindName, hfront⟩ := Text.eq_append_trim front
  obtain ⟨beforeBody, behindBody, hbeforeBody, hbehindBody, hinner⟩ := Text.eq_append_trim inner
  refine ⟨hname, Text.trim_trim inner, ⟨beforeName, behindName, beforeBody, behindBody, post,
    hbeforeName, hbehindName, hbeforeBody, hbehindBody, hlast⟩, ?_⟩
  rw [htext, Surroundings.put, ← hfront, ← hinner]

/-- A text is made up of a keyword and a body in one way only. But an empty body stands somewhere
between blanks, and the text does not tell where. -/
theorem put_inj {around around' : Surroundings} {name name' found found' : Text}
    (hname : IsName name) (hname' : IsName name') (hfound : Text.trim found = found)
    (hfound' : Text.trim found' = found') (h : around.put name found = around'.put name' found') :
    name = name' ∧ found = found' ∧ (found ≠ [] → around = around') := by
  obtain ⟨hkeyword, hbody⟩ := found_put around hname hfound
  obtain ⟨hkeyword', hbody'⟩ := found_put around' hname' hfound'
  rw [← h] at hkeyword' hbody'
  obtain rfl : name = name' := Except.ok.inj (hkeyword.symm.trans hkeyword')
  obtain rfl : found = found' := Except.ok.inj (hbody.symm.trans hbody')
  refine ⟨rfl, rfl, fun hne => ?_⟩
  have hencloses := around.encloses hname.no_opening found
  rw [h] at hencloses
  obtain ⟨hfront, hinner, hpost⟩ := hencloses.inj (around'.encloses hname.no_opening found)
  obtain ⟨hbeforeName, hbehindName⟩ := Text.append_trimmed_inj hname.ne_nil hname.trimmed
    around.blank_beforeName around'.blank_beforeName hfront
  obtain ⟨hbeforeBody, hbehindBody⟩ := Text.append_trimmed_inj hne hfound
    around.blank_beforeBody around'.blank_beforeBody hinner
  exact Surroundings.ext hbeforeName hbehindName hbeforeBody hbehindBody hpost

/-! ## Texts without a body -/

/-- The body is not found in a text without `(`, in one without `)`, and in one whose every `)`
stands in front of every `(`. -/
theorem body_eq_error_iff_marks {text : Text} {e : ParseError} :
    body text = .error e ↔
      ('(' ∉ text ∧ e = .noOpening text) ∨
        ('(' ∈ text ∧ ')' ∉ text ∧ e = .noClosing text) ∨
        ('(' ∈ text ∧ ')' ∈ text ∧ Text.AllBefore ')' '(' text ∧
          e = .closingBeforeOpening text) := by
  rw [body_eq_error_iff]
  constructor
  · rintro (⟨hopen, rfl⟩ | ⟨front, rest, rfl, hfront, hrest, rfl⟩)
    · exact .inl ⟨hopen, rfl⟩
    · have hbefore := (Text.allBefore_append_cons_iff (by decide) hfront rest).mpr hrest
      by_cases hclose : ')' ∈ front
      · exact .inr (.inr ⟨by simp, by simp [hclose], hbefore, if_pos hclose⟩)
      · exact .inr (.inl ⟨by simp, by simp [hclose, hrest], if_neg hclose⟩)
  · rintro (⟨hopen, rfl⟩ | ⟨hopen, hclose, rfl⟩ | ⟨hopen, hclose, hbefore, rfl⟩)
    · exact .inl ⟨hopen, rfl⟩
    · obtain ⟨front, rest, rfl, hfront⟩ := List.eq_append_cons_of_mem hopen
      have hparts : ')' ∉ front ∧ ')' ∉ rest := by simpa using hclose
      exact .inr ⟨front, rest, rfl, hfront, hparts.2, (if_neg hparts.1).symm⟩
    · obtain ⟨front, rest, rfl, hfront⟩ := List.eq_append_cons_of_mem hopen
      have hrest := (Text.allBefore_append_cons_iff (by decide) hfront rest).mp hbefore
      have hmem : ')' ∈ front := by simpa [hrest] using hclose
      exact .inr ⟨front, rest, rfl, hfront, hrest, (if_pos hmem).symm⟩

/-! ## Any text -/

/-- A keyword and a body are found together exactly in the texts that they can be put into. If there
is no body, the parentheses of the text tell which error it is. -/
theorem keyword_and_body_iff (text : Text) :
    (∀ name found, keyword text = .ok name ∧ body text = .ok found ↔
      IsName name ∧ Text.trim found = found ∧
        ∃ around : Surroundings, text = around.put name found) ∧
      (∀ shown, body text = .error (.noOpening shown) ↔ '(' ∉ text ∧ shown = text) ∧
      (∀ shown, body text = .error (.noClosing shown) ↔
        '(' ∈ text ∧ ')' ∉ text ∧ shown = text) ∧
      ∀ shown, body text = .error (.closingBeforeOpening shown) ↔
        '(' ∈ text ∧ ')' ∈ text ∧ Text.AllBefore ')' '(' text ∧ shown = text := by
  refine ⟨?found, ?noOpening, ?noClosing, ?order⟩
  case found =>
      intro name found
      constructor
      · exact exists_put_of_found
      · rintro ⟨hname, hfound, around, rfl⟩
        exact found_put around hname hfound
  all_goals
    intro shown
    rw [body_eq_error_iff_marks]
    simp

/-- Blanks on all four sides, and text behind the last `)`. -/
def padded : Surroundings where
  beforeName := "\u2003".toList
  behindName := "  ".toList
  beforeBody := "\t".toList
  behindBody := " ".toList
  post := " , (".toList
  blank_beforeName := by decide
  blank_behindName := by decide
  blank_beforeBody := by decide
  blank_behindBody := by decide
  no_closing := by decide

/-- The statement for a keyword and a body with blanks on all four sides, a body in which the
parentheses do not match, and for a text with its `)` in front of its `(`. -/
theorem keyword_and_body_iff_padded :
    keyword "\u2003add  (\t1 ) ) , (".toList = .ok "add".toList ∧
      body "\u2003add  (\t1 ) ) , (".toList = .ok "1 )".toList ∧
      body ")2, 3(".toList = .error (.closingBeforeOpening ")2, 3(".toList) ∧
      Text.AllBefore ')' '(' ")2, 3(".toList := by
  have hname : IsName "add".toList := ⟨by decide, by decide, by decide⟩
  have htrim : Text.trim "1 )".toList = "1 )".toList := by decide
  have hput : "\u2003add  (\t1 ) ) , (".toList = padded.put "add".toList "1 )".toList := by decide
  obtain ⟨hkeyword, hbody⟩ :=
    ((keyword_and_body_iff "\u2003add  (\t1 ) ) , (".toList).1 _ _).mpr ⟨hname, htrim, padded, hput⟩
  have herror : body ")2, 3(".toList = .error (.closingBeforeOpening ")2, 3(".toList) := rfl
  obtain ⟨_, _, hbefore, _⟩ := ((keyword_and_body_iff ")2, 3(".toList).2.2.2 _).mp herror
  exact ⟨hkeyword, hbody, herror, hbefore⟩

end Call

end ArithFormula
