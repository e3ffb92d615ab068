import StridedArray.Arithmetic
import StridedArray.Datum
import StridedArray.Text.Numeral

/-! # Reading loosely typed arguments

Numbers and sequences inside of data. Every reader says how the wrong form fails.

* `whole` — an integer, a number being cut towards zero and a text being read; `exact` — an integer and
  nothing else;
* `number` — a double; `truthy` — a condition;
* `items`, `two`, `wholes`, `pairs` — sequences;
* `extents` — the extents of a shape. -/

namespace StridedArray

def Text.Written.toScalar : Text.Written → Scalar
  | .notANumber negative => .nan negative Scalar.quietBit
  | w => .float w.toFloat

namespace Datum

/-- A number as an integer, cut towards zero; a text as the integer that it holds. -/
def whole : Datum → Except Failure Int
  | scalar value => value.toInt
  | text s =>
    match Text.integer? s with
    | some n => pure n
    | Option.none => throw .malformed
  | _ => throw .operand

def exact : Datum → Except Failure Int
  | scalar value =>
    match value.whole? with
    | some n => pure n
    | Option.none => throw .operand
  | _ => throw .operand

def plainInts? (items : List Datum) : Option (List Int) :=
  items.mapM fun item =>
    match item with
    | scalar (.int n) => some n
    | _ => Option.none

/-- The double that a single value is read as. Nothing is read as what is no number. -/
def number : Datum → Except Failure Scalar
  | none => pure Scalar.notANumber
  | scalar (.nan negative fraction) => pure (.nan negative fraction)
  | scalar value => Scalar.float <$> value.toFloat
  | text s =>
    match Text.written? s with
    | some w => pure w.toScalar
    | Option.none => throw .malformed
  | _ => throw .operand

/-- Does data count as true? Everything does but nothing, zero and what is empty. -/
def truthy : Datum → Bool
  | none => false
  | scalar value => value.truthy
  | text s => !s.isEmpty
  | list items => !items.isEmpty
  | slice .. => true

def items : Datum → Except Failure (List Datum)
  | list items => pure items
  | text s => pure (s.toList.map fun c => text (String.singleton c))
  | _ => throw .operand

def wholes (d : Datum) : Except Failure (List Int) := do (← d.items).mapM whole

def exacts (d : Datum) : Except Failure (List Int) := do (← d.items).mapM exact

def two (d : Datum) : Except Failure (Datum × Datum) := do
  match ← d.items with
  | [a, b] => pure (a, b)
  | _ => throw .malformed

def wholePair (d : Datum) : Except Failure (Int × Int) := do
  let (a, b) ← d.two
  return (← a.whole, ← b.whole)

def pairs (d : Datum) : Except Failure (List (Int × Int)) := do (← d.items).mapM wholePair

def isInt (d : Datum) (n : Int) : Bool :=
  match d with
  | scalar value => value.sameNumber (.int n)
  | _ => false

/-- The extents of a shape: numbers without a fraction that are not negative. -/
def extents (d : Datum) : Except Failure (List Int) := do
  let given ← d.items
  given.mapM fun item => do
    let n ← item.whole
    if n < 0 || !item.isInt n then throw (.shape (.extents given))
    return n

@[simp] theorem whole_int (n : Int) : (int n).whole = .ok n := rfl

@[simp] theorem exact_int (n : Int) : (int n).exact = .ok n := rfl

@[simp] theorem items_list (xs : List Datum) : (list xs).items = .ok xs := rfl

@[simp] theorem plainInts?_ints (ns : List Int) : plainInts? (ints ns) = some ns := by
  induction ns with
  | nil => rfl
  | cons n rest ih =>
    simp only [plainInts?, ints, List.map_cons, List.mapM_cons] at ih ⊢
    rw [ih]; rfl

@[simp] theorem exacts_ints (ns : List Int) : (list (ints ns)).exacts = .ok ns := by
  have each : (ints ns).mapM exact = .ok ns := by
    induction ns with
    | nil => rfl
    | cons n rest ih =>
      simp only [ints, List.map_cons, List.mapM_cons] at ih ⊢
      rw [ih]; rfl
  simpa [exacts, bind, Except.bind] using each

@[simp] theorem wholes_ints (ns : List Int) : (list (ints ns)).wholes = .ok ns := by
  have each : (ints ns).mapM whole = .ok ns := by
    induction ns with
    | nil => rfl
    | cons n rest ih =>
      simp only [ints, List.map_cons, List.mapM_cons] at ih ⊢
      rw [ih]; rfl
  simpa [wholes, bind, Except.bind] using each

end Datum

/-! ## Elements -/

namespace Datum

mutual

/-- The shape of nested sequences, if all sequences next to each other are alike. -/
def extents? : Datum → Option (List Int)
  | list items => do
    let inner ← commonExtents? items
    return (items.length : Int) :: inner
  | _ => some []

/-- The shape that all items have; no items have the shape of nothing. -/
def commonExtents? : List Datum → Option (List Int)
  | [] => some []
  | [item] => item.extents?
  | item :: rest => do
    let first ← item.extents?
    let others ← commonExtents? rest
    if first = others then some first else Option.none

end

mutual

def leaves : Datum → List Datum
  | list items => leavesOf items
  | d => [d]

def leavesOf : List Datum → List Datum
  | [] => []
  | item :: rest => item.leaves ++ leavesOf rest

end

end Datum

namespace Element

/-- A single-precision number out of data. Nested sequences have to be rectangular and to hold one
    value. -/
def single (d : Datum) : Except Failure Scalar := do
  match d with
  | .list _ =>
    if d.extents?.isNone then throw .malformed
    match ← d.leaves.mapM Datum.number with
    | [value] => float32.coerce value
    | _ => throw .operand
  | d => float32.coerce (← d.number)

def ofDatum (kind : Element) (d : Datum) : Except Failure Scalar :=
  match kind with
  | .bool => pure (.bool d.truthy)
  | .int32 => do return .int (wrap32 (← d.whole))
  | .float32 => single d

end Element

end StridedArray
