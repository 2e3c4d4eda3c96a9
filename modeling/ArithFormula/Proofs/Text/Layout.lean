import ArithFormula.Proofs.Text.Parameters

/-!
# Layout

The marks of a text are its parentheses and commas; they cut it into segments. Two texts have
the same **layout** if they have the same marks in the same order and between them the same
segments, blanks at the ends of segments aside.

A text is **tidied** by trimming each of its segments. Texts have the same layout exactly if
tidying makes them one text, so what holds of two texts of the same layout follows from what
tidying does to one. And it does little: a tidied text is tidied on both sides of each of its
marks. From this one equation follows that tidying goes through every cut and every scan.

## Main results

* `tidy_append_mark` — the two sides of a mark are tidied on their own.
* `tidy_eq_tidy_iff` — texts have the same layout exactly if they are the same when tidied.
* `tidy_trim`, `trim_tidy` — blanks at the ends of a text go with those of its segments.
* `cutFirst_tidy`, `cutLast_tidy`, `depthAfter_tidy`, `pieces_tidy` — tidying goes through
  cuts and scans.
-/

namespace ArithFormula.Text

/-! ## Marks and segments -/

/-- Whether a character is a parenthesis or a comma. -/
def isMark (c : Char) : Bool := c = '(' || c = ')' || c = ','

theorem isMark_eq_false_iff {c : Char} : isMark c = false ↔ c ≠ '(' ∧ c ≠ ')' ∧ c ≠ ',' := by
  simp [isMark, and_assoc]

theorem isMark_eq_true_iff {c : Char} : isMark c = true ↔ c = '(' ∨ c = ')' ∨ c = ',' := by
  simp [isMark, or_assoc]

/-- No mark is blank. -/
theorem isBlank_of_isMark {c : Char} (h : isMark c = true) : isBlank c = false := by
  rcases isMark_eq_true_iff.mp h with rfl | rfl | rfl <;> decide

/-- Every text is a segment, or a segment, a mark and a text. -/
theorem segment_induction {motive : Text → Prop}
    (last : ∀ segment : Text, (∀ c ∈ segment, isMark c = false) → motive segment)
    (mark : ∀ (segment : Text) (c : Char) (rest : Text), (∀ c ∈ segment, isMark c = false) →
      isMark c = true → motive rest → motive (segment ++ c :: rest)) (text : Text) :
    motive text := by
  have hfrom : ∀ segment : Text, (∀ c ∈ segment, isMark c = false) → motive (segment ++ text) := by
    induction text with
    | nil =>
        intro segment hsegment
        rw [List.append_nil]
        exact last segment hsegment
    | cons c rest ih =>
        intro segment hsegment
        by_cases hc : isMark c = true
        · exact mark segment c rest hsegment hc (ih [] (by simp))
        · rw [← List.singleton_append, ← List.append_assoc]
          refine ih (segment ++ [c]) ?_
          intro d hd
          rcases List.mem_append.mp hd with hd | hd
          · exact hsegment d hd
          · rw [List.mem_singleton.mp hd]
            exact Bool.eq_false_iff.mpr hc
  exact hfrom [] (by simp)

/-- The texts have the same marks, and their segments are the same but for blanks at the ends. -/
structure SameLayout (text text' : Text) : Prop where
  marks : text.filter isMark = text'.filter isMark
  segments : (text.splitOnP isMark).map trim = (text'.splitOnP isMark).map trim

instance (text text' : Text) : Decidable (SameLayout text text') :=
  decidable_of_iff (text.filter isMark = text'.filter isMark ∧
      (text.splitOnP isMark).map trim = (text'.splitOnP isMark).map trim)
    ⟨fun h => ⟨h.1, h.2⟩, fun h => ⟨h.marks, h.segments⟩⟩

/-! ## Tidying -/

/-- Segments with a mark behind each but the last. -/
def joinAt : List Char → List Text → Text
  | mark :: marks, segment :: segments => segment ++ mark :: joinAt marks segments
  | _, segments => segments.flatten

/-- The text with each segment trimmed. -/
def tidy (text : Text) : Text := joinAt (text.filter isMark) ((text.splitOnP isMark).map trim)

/-- A segment has no marks, so a filter for them leaves nothing. -/
theorem filter_isMark_of_no_mark {segment : Text} (h : ∀ c ∈ segment, isMark c = false) :
    segment.filter isMark = [] :=
  List.filter_eq_nil_iff.mpr fun c hc => Bool.eq_false_iff.mp (h c hc)

theorem no_isMark_trim {segment : Text} (h : ∀ c ∈ segment, isMark c = false) :
    ∀ c ∈ trim segment, isMark c = false := fun c hc => h c (mem_of_mem_trim hc)

theorem tidy_of_no_mark {segment : Text} (h : ∀ c ∈ segment, isMark c = false) :
    tidy segment = trim segment := by
  rw [tidy, filter_isMark_of_no_mark h, List.splitOnP_eq_singleton h]
  simp [joinAt]

/-- The first segment is trimmed and the rest tidied. -/
theorem tidy_segment_append {segment : Text} (h : ∀ c ∈ segment, isMark c = false) {c : Char}
    (hc : isMark c = true) (rest : Text) :
    tidy (segment ++ c :: rest) = trim segment ++ c :: tidy rest := by
  have hmarks : (segment ++ c :: rest).filter isMark = c :: rest.filter isMark := by
    rw [List.filter_append, filter_isMark_of_no_mark h, List.filter_cons_of_pos hc,
      List.nil_append]
  rw [tidy, hmarks, List.splitOnP_append_cons segment rest hc, List.splitOnP_eq_singleton h,
    List.singleton_append, List.map_cons, joinAt, tidy]

/-- The two sides of a mark are tidied on their own. -/
theorem tidy_append_mark (front : Text) {c : Char} (hc : isMark c = true) (back : Text) :
    tidy (front ++ c :: back) = tidy front ++ c :: tidy back := by
  induction front using segment_induction with
  | last segment h => rw [tidy_segment_append h hc, tidy_of_no_mark h]
  | mark segment d rest h hd ih =>
      rw [tidy_segment_append h hd, List.append_assoc, List.cons_append,
        tidy_segment_append h hd, ih, List.append_assoc, List.cons_append]

/-- Tidying keeps the marks. -/
theorem filter_isMark_tidy (text : Text) : (tidy text).filter isMark = text.filter isMark := by
  induction text using segment_induction with
  | last segment h =>
      rw [tidy_of_no_mark h, filter_isMark_of_no_mark h,
        filter_isMark_of_no_mark (no_isMark_trim h)]
  | mark segment c rest h hc ih =>
      rw [tidy_segment_append h hc, List.filter_append, List.filter_append,
        filter_isMark_of_no_mark h, filter_isMark_of_no_mark (no_isMark_trim h),
        List.filter_cons_of_pos hc, List.filter_cons_of_pos hc, ih]

/-- The segments of the tidied text are the trimmed ones. -/
theorem splitOnP_tidy (text : Text) :
    (tidy text).splitOnP isMark = (text.splitOnP isMark).map trim := by
  induction text using segment_induction with
  | last segment h =>
      rw [tidy_of_no_mark h, List.splitOnP_eq_singleton h,
        List.splitOnP_eq_singleton (no_isMark_trim h)]
      rfl
  | mark segment c rest h hc ih =>
      rw [tidy_segment_append h hc, List.splitOnP_append_cons _ _ hc,
        List.splitOnP_append_cons _ _ hc, List.map_append, ih, List.splitOnP_eq_singleton h,
        List.splitOnP_eq_singleton (no_isMark_trim h)]
      rfl

/-- Texts have the same layout exactly if they are the same when tidied. -/
theorem tidy_eq_tidy_iff {text text' : Text} : tidy text = tidy text' ↔ SameLayout text text' := by
  constructor
  · intro h
    refine ⟨?_, ?_⟩
    · rw [← filter_isMark_tidy, h, filter_isMark_tidy]
    · rw [← splitOnP_tidy, h, splitOnP_tidy]
  · intro h
    rw [tidy, h.marks, h.segments, tidy]

theorem mem_tidy_iff {c : Char} (hc : isMark c = true) {text : Text} :
    c ∈ tidy text ↔ c ∈ text := by
  have hmem : ∀ t : Text, c ∈ t.filter isMark ↔ c ∈ t := fun t => by simp [hc]
  rw [← hmem, filter_isMark_tidy, hmem]

/-! ## Blanks at the ends -/

theorem no_isMark_of_blank {blanks : Text} (h : Blank blanks) : ∀ c ∈ blanks, isMark c = false :=
  fun c hc => isMark_eq_false_iff.mpr (no_mark_of_isBlank (h c hc))

theorem tidy_append_blank {leading trailing : Text} (hleading : Blank leading)
    (htrailing : Blank trailing) (text : Text) :
    tidy (leading ++ text ++ trailing) = tidy text := by
  have hno : ∀ {left right : Text}, (∀ c ∈ left, isMark c = false) →
      (∀ c ∈ right, isMark c = false) → ∀ c ∈ left ++ right, isMark c = false :=
    fun hleft hright c hc => (List.mem_append.mp hc).elim (hleft c) (hright c)
  induction text using segment_induction generalizing leading with
  | last segment h =>
      rw [tidy_of_no_mark (hno (hno (no_isMark_of_blank hleading) h)
        (no_isMark_of_blank htrailing)), tidy_of_no_mark h, trim_append_blank hleading htrailing]
  | mark segment c rest h hc ih =>
      have hrest : tidy (rest ++ trailing) = tidy rest := ih blank_nil
      have hfront : trim (leading ++ segment) = trim segment := by
        simpa using trim_append_blank hleading blank_nil segment
      rw [← List.append_assoc, List.append_assoc, List.cons_append,
        tidy_segment_append (hno (no_isMark_of_blank hleading) h) hc, hrest, hfront,
        tidy_segment_append h hc]

/-- Blanks at the ends of a text are blanks at the ends of segments. -/
theorem tidy_trim (text : Text) : tidy (trim text) = tidy text := by
  obtain ⟨leading, trailing, hleading, htrailing, htext⟩ := eq_append_trim text
  have h := tidy_append_blank hleading htrailing (trim text)
  rw [← htext] at h
  exact h.symm

/-- A tidied text has no blanks at its ends. -/
theorem trim_tidy (text : Text) : trim (tidy text) = tidy text := by
  induction text using segment_induction with
  | last segment h => rw [tidy_of_no_mark h, trim_trim]
  | mark segment c rest h hc ih =>
      rw [tidy_segment_append h hc, trim_append_cons (isBlank_of_isMark hc),
        trimStart_of_trim_eq_self (trim_trim segment), trimEnd_of_trim_eq_self ih]

theorem tidy_eq_nil_iff {text : Text} : tidy text = [] ↔ Blank text := by
  induction text using segment_induction with
  | last segment h => rw [tidy_of_no_mark h, trim_eq_nil_iff]
  | mark segment c rest h hc ih =>
      have hblank : ¬Blank (segment ++ c :: rest) := by
        intro hall
        have hmem := hall c (by simp)
        rw [isBlank_of_isMark hc] at hmem
        cases hmem
      simp [tidy_segment_append h hc, hblank]

/-! ## Cuts and scans -/

theorem cutFirst_tidy {mark : Char} (hmark : isMark mark = true) (text : Text) :
    cutFirst mark (tidy text) =
      (cutFirst mark text).map fun (before, after) => (tidy before, tidy after) := by
  cases h : cutFirst mark text with
  | none =>
      have hnone := (not_congr (mem_tidy_iff hmark)).mpr (cutFirst_eq_none_iff.mp h)
      exact cutFirst_eq_none_iff.mpr hnone
  | some cut =>
      obtain ⟨rfl, hbefore⟩ := eq_append_of_cutFirst h
      rw [tidy_append_mark _ hmark]
      exact cutFirst_append ((not_congr (mem_tidy_iff hmark)).mpr hbefore) _

theorem cutLast_tidy {mark : Char} (hmark : isMark mark = true) (text : Text) :
    cutLast mark (tidy text) =
      (cutLast mark text).map fun (before, after) => (tidy before, tidy after) := by
  cases h : cutLast mark text with
  | none =>
      have hnone := (not_congr (mem_tidy_iff hmark)).mpr (cutLast_eq_none_iff.mp h)
      exact cutLast_eq_none_iff.mpr hnone
  | some cut =>
      obtain ⟨rfl, hafter⟩ := eq_append_of_cutLast h
      rw [tidy_append_mark _ hmark]
      exact cutLast_append ((not_congr (mem_tidy_iff hmark)).mpr hafter) _

theorem no_mark_of_no_isMark {segment : Text} (h : ∀ c ∈ segment, isMark c = false) :
    ∀ c ∈ segment, c ≠ '(' ∧ c ≠ ')' ∧ c ≠ ',' :=
  fun c hc => isMark_eq_false_iff.mp (h c hc)

/-- Tidying keeps the depth. -/
theorem depthAfter_tidy (depth : Nat) (text : Text) :
    depthAfter depth (tidy text) = depthAfter depth text := by
  induction text using segment_induction generalizing depth with
  | last segment h => rw [tidy_of_no_mark h, depthAfter_trim]
  | mark segment c rest h hc ih =>
      rw [tidy_segment_append h hc,
        depthAfter_append_of_no_mark (no_mark_of_no_isMark (no_isMark_trim h)),
        depthAfter_append_of_no_mark (no_mark_of_no_isMark h), depthAfter, depthAfter, ih]

/-- Characters that are no mark belong to the first piece. -/
theorem pieces_append_of_no_mark {front : Text} (h : ∀ c ∈ front, c ≠ '(' ∧ c ≠ ')' ∧ c ≠ ',')
    (depth : Nat) (back : Text) :
    pieces depth (front ++ back) = (front ++ (pieces depth back).1, (pieces depth back).2) := by
  induction front with
  | nil => rfl
  | cons c front ih =>
      obtain ⟨hopen, hclose, hsep⟩ := h c (by simp)
      have hnest : nest depth c = depth := by simp [nest, hopen, hclose]
      rw [List.cons_append, pieces_other (by simp [hsep]), hnest,
        ih fun c hc => h c (by simp [hc])]
      rfl

/-- The pieces of the tidied text are the tidied pieces. -/
theorem pieces_tidy (depth : Nat) (text : Text) :
    pieces depth (tidy text) = (tidy (pieces depth text).1, (pieces depth text).2.map tidy) := by
  induction text using segment_induction generalizing depth with
  | last segment h =>
      have hwhole : ∀ t : Text, (∀ d ∈ t, isMark d = false) → pieces depth t = (t, []) := by
        intro t ht
        simpa [pieces_nil] using pieces_append_of_no_mark (no_mark_of_no_isMark ht) depth []
      rw [tidy_of_no_mark h, hwhole _ (no_isMark_trim h), hwhole _ h, tidy_of_no_mark h]
      rfl
  | mark segment c rest h hc ih =>
      rw [tidy_segment_append h hc,
        pieces_append_of_no_mark (no_mark_of_no_isMark (no_isMark_trim h)),
        pieces_append_of_no_mark (no_mark_of_no_isMark h)]
      by_cases hsep : c = ',' ∧ depth = 0
      · obtain ⟨rfl, rfl⟩ := hsep
        simp only [pieces_separator, ih, List.append_nil, List.map_cons, tidy_of_no_mark h]
      · simp only [pieces_other hsep, ih, tidy_segment_append h hc]

end ArithFormula.Text
