import ArithFormula.Text.Basic

/-!
# Places in bytes

A scan that works on bytes names the places of a text by the number of bytes in front of them. A
character has one to four bytes, so not every number is a place: only the ends of the text and the
places between two characters are. A slice from one number to another is a part of the text if both
are places, in this order; else there is no such slice.

## Main results

* `isBoundary_iff` — a place has a front part of the text before it.
* `slice?_eq_some_iff` — a slice is what stands between two places.
* `isSome_slice?_iff` — which slices there are.
* `firstPlace?_eq`, `lastPlace?_eq` — a mark is found where the text is cut.
-/

namespace ArithFormula.Text

/-! ## Bytes and boundaries -/

/-- The number of bytes of a text, in UTF-8. -/
def byteLength (text : Text) : Nat := (String.ofList text).utf8ByteSize

/-- The number of bytes ends in front of a character of the text, or at its end. -/
def IsBoundary (text : Text) (place : Nat) : Prop :=
  String.Pos.Raw.IsValid (String.ofList text) ⟨place⟩

@[simp]
theorem byteLength_nil : byteLength [] = 0 := rfl

@[simp]
theorem byteLength_append (front back : Text) :
    byteLength (front ++ back) = byteLength front + byteLength back := by
  rw [byteLength, String.ofList_append, String.utf8ByteSize_append, byteLength, byteLength]

@[simp]
theorem byteLength_cons (c : Char) (rest : Text) :
    byteLength (c :: rest) = c.utf8Size + byteLength rest := by
  rw [byteLength, String.ofList_cons, String.utf8ByteSize_append, String.utf8ByteSize_singleton,
    byteLength]

theorem byteLength_eq_zero_iff {text : Text} : byteLength text = 0 ↔ text = [] := by
  cases text with
  | nil => simp
  | cons c rest =>
      have hpos := c.utf8Size_pos
      simp
      omega

theorem byteLength_le_append (front back : Text) :
    byteLength front ≤ byteLength (front ++ back) := by
  rw [byteLength_append]
  exact Nat.le_add_right _ _

/-- Every character takes a byte at least. -/
theorem byteLength_lt_append (front : Text) {back : Text} (h : back ≠ []) :
    byteLength front < byteLength (front ++ back) := by
  have hback := mt byteLength_eq_zero_iff.mp h
  rw [byteLength_append]
  omega

/-- A place has a front part of the text before it. -/
theorem isBoundary_iff {text : Text} {place : Nat} :
    IsBoundary text place ↔ ∃ front back, text = front ++ back ∧ place = byteLength front := by
  rw [IsBoundary, String.Pos.Raw.isValid_ofList]
  constructor
  · rintro ⟨n, hplace⟩
    exact ⟨text.take n, text.drop n, (List.take_append_drop n text).symm, hplace⟩
  · rintro ⟨front, back, rfl, rfl⟩
    exact ⟨front.length, by rw [List.take_left]; rfl⟩

/-! ## Slices -/

/-- What stands in front of a place and behind it; none where no place is. -/
def splitAtByte? (place : Nat) : Text → Option (Text × Text)
  | [] => if place = 0 then some ([], []) else none
  | c :: rest =>
      if place = 0 then some ([], c :: rest)
      else if place < c.utf8Size then none
      else (splitAtByte? (place - c.utf8Size) rest).map fun (front, back) => (c :: front, back)

theorem splitAtByte?_append (front back : Text) :
    splitAtByte? (byteLength front) (front ++ back) = some (front, back) := by
  induction front with
  | nil => cases back <;> rfl
  | cons c front ih =>
      have hpos := c.utf8Size_pos
      rw [byteLength_cons, List.cons_append, splitAtByte?, if_neg (by omega), if_neg (by omega),
        Nat.add_sub_cancel_left, ih]
      rfl

/-- A text is split at a place in one way only. -/
theorem splitAtByte?_eq_some_iff {place : Nat} {text front back : Text} :
    splitAtByte? place text = some (front, back) ↔
      text = front ++ back ∧ place = byteLength front := by
  constructor
  · intro h
    induction text generalizing place front with
    | nil =>
        obtain ⟨rfl, rfl, rfl⟩ : place = 0 ∧ front = [] ∧ back = [] := by
          simpa [splitAtByte?, eq_comm] using h
        exact ⟨rfl, rfl⟩
    | cons c rest ih =>
        rw [splitAtByte?] at h
        split at h
        · next hzero =>
            obtain ⟨rfl, rfl⟩ : [] = front ∧ c :: rest = back := by simpa using h
            exact ⟨rfl, hzero⟩
        · split at h
          · cases h
          · next hinside =>
              obtain ⟨⟨front', back'⟩, hrest, hsplit⟩ := Option.map_eq_some_iff.mp h
              obtain ⟨rfl, rfl⟩ : c :: front' = front ∧ back' = back := by simpa using hsplit
              obtain ⟨rfl, hplace⟩ := ih hrest
              refine ⟨rfl, ?_⟩
              rw [byteLength_cons]
              omega
  · rintro ⟨rfl, rfl⟩
    exact splitAtByte?_append front back

/-- The part of a text from one place to another. There is none if one of the numbers is no place,
or the second is in front of the first. -/
def slice? (text : Text) (start stop : Nat) : Option Text := do
  let (front, _) ← splitAtByte? stop text
  let (_, part) ← splitAtByte? start front
  return part

/-- A slice is what stands between two places. -/
theorem slice?_eq_some_iff {text part : Text} {start stop : Nat} :
    slice? text start stop = some part ↔
      ∃ front back, text = front ++ part ++ back ∧ start = byteLength front ∧
        stop = byteLength (front ++ part) := by
  simp only [slice?, Option.bind_eq_bind, Option.bind_eq_some_iff, Prod.exists,
    splitAtByte?_eq_some_iff]
  constructor
  · rintro ⟨upTo, back, ⟨rfl, rfl⟩, front, inner, ⟨rfl, rfl⟩, hpart⟩
    obtain rfl : inner = part := by simpa using hpart
    exact ⟨front, back, rfl, rfl, rfl⟩
  · rintro ⟨front, back, rfl, rfl, rfl⟩
    exact ⟨front ++ part, back, ⟨rfl, rfl⟩, front, part, ⟨rfl, rfl⟩, rfl⟩

/-- The slice of a part of a text, by the bytes in front of its ends. -/
theorem slice?_append (front part back : Text) :
    slice? (front ++ part ++ back) (byteLength front) (byteLength (front ++ part)) = some part :=
  slice?_eq_some_iff.mpr ⟨front, back, rfl, rfl, rfl⟩

/-- The slices of a text: both ends are places, in this order and inside the text. -/
theorem isSome_slice?_iff {text : Text} {start stop : Nat} :
    (slice? text start stop).isSome = true ↔
      start ≤ stop ∧ stop ≤ byteLength text ∧ IsBoundary text start ∧ IsBoundary text stop := by
  simp only [Option.isSome_iff_exists, slice?_eq_some_iff, isBoundary_iff]
  constructor
  · rintro ⟨part, front, back, rfl, rfl, rfl⟩
    refine ⟨by simp, by simp, ⟨front, part ++ back, ?_, rfl⟩, front ++ part, back, rfl, rfl⟩
    rw [List.append_assoc]
  · rintro ⟨hle, -, ⟨front, rest, hfront, rfl⟩, upTo, back, hupTo, rfl⟩
    rcases List.append_eq_append_iff.mp (hfront.symm.trans hupTo) with
      ⟨part, rfl, rfl⟩ | ⟨part, rfl, rfl⟩
    · exact ⟨part, front, back, by rw [hupTo], rfl, rfl⟩
    · -- The second place is not behind the first one: nothing stands between them.
      obtain rfl : part = [] := by
        rw [← byteLength_eq_zero_iff]
        rw [byteLength_append] at hle
        omega
      exact ⟨[], upTo, rest, by simpa using hfront, by simp, by simp⟩

example : slice? "(ü)".toList 1 3 = some "ü".toList ∧ slice? "(ü)".toList 1 2 = none := by decide

/-! ## Marks -/

/-- The characters of a text that starts at a place, each with its own place. -/
def placed (place : Nat) : Text → List (Nat × Char)
  | [] => []
  | c :: rest => (place, c) :: placed (place + c.utf8Size) rest

/-- The place of the first `mark` of a text. -/
def firstPlace? (mark : Char) (text : Text) : Option Nat :=
  ((placed 0 text).find? fun here => here.2 = mark).map Prod.fst

/-- The place of the last `mark` of a text, which is scanned from its end. -/
def lastPlace? (mark : Char) (text : Text) : Option Nat :=
  ((placed 0 text).reverse.find? fun here => here.2 = mark).map Prod.fst

theorem placed_append (place : Nat) (front back : Text) :
    placed place (front ++ back) =
      placed place front ++ placed (place + byteLength front) back := by
  induction front generalizing place with
  | nil => rfl
  | cons c front ih => simp [placed, ih, Nat.add_assoc]

theorem mem_of_mem_placed {place : Nat} {text : Text} {here : Nat × Char}
    (h : here ∈ placed place text) : here.2 ∈ text := by
  induction text generalizing place with
  | nil => cases h
  | cons c rest ih =>
      rcases List.mem_cons.mp h with rfl | hrest
      · exact List.mem_cons_self
      · exact List.mem_cons_of_mem c (ih hrest)

/-- Nothing is found in a text without the mark, from neither end. -/
theorem find?_placed_eq_none {mark : Char} {text : Text} (h : mark ∉ text) (place : Nat) :
    ((placed place text).find? fun here => here.2 = mark) = none ∧
      ((placed place text).reverse.find? fun here => here.2 = mark) = none := by
  have hother : ∀ here ∈ placed place text, ¬decide (here.2 = mark) = true := by
    intro here hhere hmark
    exact h (of_decide_eq_true hmark ▸ mem_of_mem_placed hhere)
  constructor
  · exact List.find?_eq_none.mpr hother
  · exact List.find?_eq_none.mpr fun here hhere => hother here (List.mem_reverse.mp hhere)

/-- The first mark is found where the text is cut at it. -/
theorem firstPlace?_eq (mark : Char) (text : Text) :
    firstPlace? mark text = (cutFirst mark text).map fun cut => byteLength cut.1 := by
  cases h : cutFirst mark text with
  | none =>
      rw [firstPlace?, (find?_placed_eq_none (cutFirst_eq_none_iff.mp h) 0).1]
      rfl
  | some cut =>
      obtain ⟨front, back⟩ := cut
      obtain ⟨rfl, hfront⟩ := eq_append_of_cutFirst h
      rw [firstPlace?, placed_append, List.find?_append, (find?_placed_eq_none hfront 0).1]
      simp [placed]

/-- The last mark is found where the text is cut at it. -/
theorem lastPlace?_eq (mark : Char) (text : Text) :
    lastPlace? mark text = (cutLast mark text).map fun cut => byteLength cut.1 := by
  cases h : cutLast mark text with
  | none =>
      rw [lastPlace?, (find?_placed_eq_none (cutLast_eq_none_iff.mp h) 0).2]
      rfl
  | some cut =>
      obtain ⟨front, back⟩ := cut
      obtain ⟨rfl, hback⟩ := eq_append_of_cutLast h
      rw [lastPlace?, placed_append, placed, List.reverse_append, List.reverse_cons,
        List.append_assoc, List.find?_append, (find?_placed_eq_none hback _).2]
      simp

/-- Text without the mark behind a text does not change where its last mark is. -/
theorem cutLast_append_of_not_mem {mark : Char} {back : Text} (h : mark ∉ back) (front : Text) :
    cutLast mark (front ++ back) =
      (cutLast mark front).map fun cut => (cut.1, cut.2 ++ back) := by
  cases hfront : cutLast mark front with
  | none =>
      have hmark := cutLast_eq_none_iff.mp hfront
      exact cutLast_eq_none_iff.mpr (by simp [hmark, h])
  | some cut =>
      obtain ⟨before, after⟩ := cut
      obtain ⟨rfl, hafter⟩ := eq_append_of_cutLast hfront
      have hmark : mark ∉ after ++ back := by simp [hafter, h]
      simpa using cutLast_append hmark before

end ArithFormula.Text
