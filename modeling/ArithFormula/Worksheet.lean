import ArithFormula.Settings

/-!
# Worksheets

A worksheet keeps settings and named slots that hold expressions. Commands change
one setting, ask for answers, fill a slot, or look at filled slots; each command has
a reply. A command that fails changes nothing, and a command that reads an empty
slot fails.

## Main results

* `slot?_put_self`, `slot?_put_of_ne` — filling a slot changes that slot alone.
* `length_performAll` — every command has one reply.
-/

namespace ArithFormula

/-- Settings and named expressions. -/
structure Worksheet where
  settings : Settings
  /-- The filled slots, the last filled first. -/
  slots : List (Text × Expr)

/-- What a worksheet can be asked to do. -/
inductive Command where
  /-- Change the number of decimal places. -/
  | setPlaces (places : Nat)
  /-- Change how deep calls may nest. -/
  | setMaxDepth (limit : Option Nat)
  /-- Change which divisors count as zero. -/
  | setZeroTolerance (tolerance : Binary64)
  /-- Change what becomes of a half. -/
  | setRounding (mode : RoundingMode)
  /-- Show the settings. -/
  | showSettings
  /-- Answer a formula. -/
  | answer (formula : Text)
  /-- Answer several formulas. -/
  | answers (formulas : List Text)
  /-- Give the rounded value of a formula. -/
  | value (formula : Text)
  /-- Read a formula into a slot. -/
  | parse (formula slot : Text)
  /-- Fill a slot with a call on the expressions of two slots. -/
  | combine (operator : Operator) (left right slot : Text)
  /-- Give the value of a slot, not rounded. -/
  | resolve (slot : Text)
  /-- Read the canonical text of a slot and compare the result with the slot. -/
  | reparse (slot : Text)
  /-- Compare two slots. -/
  | equal (left right : Text)

/-- What a worksheet replies to a command. -/
inductive Reply where
  | settings (settings : Settings)
  | text (text : Text)
  | texts (texts : List Text)
  | value (value : Binary64)
  | expression (e : Expr)
  | equal (equal : Bool)
  | failed (error : FormulaError)
  /-- A slot that the command reads is empty. -/
  | emptySlot

namespace Worksheet

/-! ## Slots -/

/-- A worksheet without filled slots. -/
def empty (settings : Settings) : Worksheet := ⟨settings, []⟩

/-- The expression in a slot. -/
def slot? (sheet : Worksheet) (name : Text) : Option Expr := sheet.slots.lookup name

/-- The worksheet with a slot filled. -/
def put (sheet : Worksheet) (name : Text) (e : Expr) : Worksheet :=
  { sheet with slots := (name, e) :: sheet.slots }

theorem slot?_put_self (sheet : Worksheet) (name : Text) (e : Expr) :
    (sheet.put name e).slot? name = some e := by
  simp [put, slot?]

theorem slot?_put_of_ne {name other : Text} (h : other ≠ name) (sheet : Worksheet) (e : Expr) :
    (sheet.put name e).slot? other = sheet.slot? other := by
  have hne : (other == name) = false := by simpa using h
  simp [put, slot?, List.lookup_cons, hne]

/-! ## Commands -/

/-- The reply to a result, or to the error in its place. -/
def reply {α : Type} (onSuccess : α → Reply) : Except FormulaError α → Reply
  | .ok result => onSuccess result
  | .error error => .failed error

/-- Whether reading the canonical text of an expression gives an equal one. -/
def rereads (settings : Settings) (e : Expr) : Except FormulaError Bool :=
  ((settings.parse e.toText).map (·.numericEq e)).mapError .parse

/-- The worksheet after a command, and the reply. -/
def perform (sheet : Worksheet) : Command → Worksheet × Reply
  | .setPlaces places => changed { sheet.settings with places := places }
  | .setMaxDepth limit => changed { sheet.settings with maxDepth := limit }
  | .setZeroTolerance tolerance => changed { sheet.settings with zeroTolerance := tolerance }
  | .setRounding mode => changed { sheet.settings with rounding := mode }
  | .showSettings => (sheet, .settings sheet.settings)
  | .answer formula => (sheet, .text (sheet.settings.answer formula))
  | .answers formulas => (sheet, .texts (sheet.settings.answers formulas))
  | .value formula => (sheet, reply .value (sheet.settings.value formula))
  | .parse formula name =>
      match sheet.settings.parse formula with
      | .ok e => filled name e
      | .error error => (sheet, .failed (.parse error))
  | .combine operator left right name =>
      match sheet.slot? left, sheet.slot? right with
      | some l, some r => filled name (.call operator l r)
      | _, _ => (sheet, .emptySlot)
  | .resolve name =>
      match sheet.slot? name with
      | some e => (sheet, reply .value ((sheet.settings.resolve e).mapError .eval))
      | none => (sheet, .emptySlot)
  | .reparse name =>
      match sheet.slot? name with
      | some e => (sheet, reply .equal (rereads sheet.settings e))
      | none => (sheet, .emptySlot)
  | .equal left right =>
      match sheet.slot? left, sheet.slot? right with
      | some l, some r => (sheet, .equal (l.numericEq r))
      | _, _ => (sheet, .emptySlot)
where
  /-- The worksheet with other settings, which are also the reply. -/
  changed (settings : Settings) : Worksheet × Reply :=
    ({ sheet with settings := settings }, .settings settings)
  /-- The worksheet with a slot filled, whose expression is also the reply. -/
  filled (name : Text) (e : Expr) : Worksheet × Reply := (sheet.put name e, .expression e)

/-- The replies to commands performed one after another. -/
def performAll (sheet : Worksheet) : List Command → List Reply
  | [] => []
  | command :: rest =>
      let (next, reply) := sheet.perform command
      reply :: next.performAll rest

theorem length_performAll (sheet : Worksheet) (commands : List Command) :
    (sheet.performAll commands).length = commands.length := by
  induction commands generalizing sheet with
  | nil => rfl
  | cons command rest ih => simp [performAll, ih]

end Worksheet

end ArithFormula
