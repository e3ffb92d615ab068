import StridedArray.Buffer.Table
import StridedArray.Element.Held
import StridedArray.Element.Request
import StridedArray.Tensor.Contents

/-! # Data to be uploaded

Data for a new array comes as nested sequences. Its shape and the type of its elements are found out
first, or the type is asked for; then the elements are converted to the kind that the new array is to
have.

* `ElementForm.ofDatum`, `ElementForm.join` — the form of a value, and the form that holds two;
* `Source` — the data with shape and type; `Source.discover`, `Source.typed`, `Source.ofContents` —
  where it comes from; `Source.filled` — one value everywhere;
* `Source.kind`, `Source.elements` — the kind that is meant, and the elements as that kind;
* `Source.memory` — the bytes of the data;
* `Datum.filledShape` — the extents that an array of one value is asked for with. -/

namespace StridedArray

namespace ElementForm

def ofInt (n : Int) : ElementForm :=
  -- Beyond 64 bits an integer is held as itself.
  if fitsSigned 64 n then signed 8
  else if fitsUnsigned 64 n then unsigned 8
  else anything

def ofDatum : Datum → ElementForm
  | .scalar (.bool _) => bool
  | .scalar (.int n) => ofInt n
  | .scalar (.float _) => floating 8
  | .scalar (.nan ..) => floating 8
  | .text s => text (max s.length 1)
  | _ => anything

def textLength : ElementForm → Nat
  | bool => 5
  | signed _ => 21
  | unsigned _ => 20
  | floating _ => 32
  | text length => length
  | _ => 0

/-- The form that holds the values of two forms. Numbers beside text become text. -/
def join (a b : ElementForm) : ElementForm :=
  match a, b with
  | anything, _ => anything
  | _, anything => anything
  | text m, b => text (max m b.textLength)
  | a, text n => text (max a.textLength n)
  | bool, b => b
  | a, bool => a
  | a, b => if a = b then a else floating 8

def common : List Datum → ElementForm
  | [] => floating 8
  | first :: rest => rest.foldl (fun form d => form.join (ofDatum d)) (ofDatum first)

end ElementForm

/-! ## Shapes of nested sequences -/

namespace Datum

/-- The extents that two shapes have in common at the front. -/
def commonFront : List Int → List Int → List Int
  | m :: ms, n :: ns => if m = n then m :: commonFront ms ns else []
  | _, _ => []

mutual

/-- The shape of nested sequences down to where sequences next to each other differ. -/
def frontExtents : Datum → List Int
  | list items => (items.length : Int) :: sharedExtents items
  | _ => []

def sharedExtents : List Datum → List Int
  | [] => []
  | [item] => item.frontExtents
  | item :: rest => commonFront item.frontExtents (sharedExtents rest)

end

def partsAt : Nat → Datum → List Datum
  | 0, d => [d]
  | depth + 1, list items => items.flatMap (partsAt depth)
  | _ + 1, d => [d]

def spread (extents : List Int) (d : Datum) : Except Failure (List Datum) :=
  let everywhere := fun (d : Datum) => List.replicate (Shape.product extents).toNat d
  match d with
  | list _ =>
    match d.extents?, d.leaves with
    | some given, leaves =>
      if given = extents then pure leaves
      else
        match leaves with
        | [value] => pure (everywhere value)
        | _ => throw .malformed
    | Option.none, _ => throw .malformed
  | d => pure (everywhere d)

/-- The shape of nested sequences, which must be alike where they stand next to each other. -/
def regularShape (d : Datum) : Except Failure (List Int) :=
  match d.extents? with
  | some shape => if shape.length ≤ Contents.mostAxes then pure shape else throw .malformed
  | Option.none => throw .malformed

end Datum

/-! ## Data with shape and type -/

/-- Data in row-major order with its shape and type. -/
structure Source where
  shape : List Int
  type : SourceType
  values : List Held

namespace Source

def discover (d : Datum) : Except Failure Source := do
  let shape ← d.regularShape
  let form := ElementForm.common d.leaves
  return ⟨shape, .ofForm form, ← d.leaves.mapM form.hold⟩

def simple (shape : List Int) (form : ElementForm) (swapped : Bool) (values : List Datum) :
    Except Failure Source := do
  let form := form.settled values
  return ⟨shape, .simple form swapped, ← values.mapM form.hold⟩

def fields (types : List SourceType) (d : Datum) : Except Failure Unit := do
  let values ← match d with
    | .list items => if items.length = types.length then pure items else throw .malformed
    | d => pure (types.map fun _ => d)
  discard ((types.zip values).mapM fun (type, value) =>
    match type with
    | .simple form _ => discard (form.hold value)
    | _ => pure ())

/-- Nested sequences as a type that was asked for. Types that are put together take sequences as their
    elements. -/
def typed (type : SourceType) (d : Datum) : Except Failure Source := do
  match type with
  | .simple .anything swapped =>
    let shape := d.frontExtents
    simple shape .anything swapped (d.partsAt shape.length)
  | .simple form swapped => simple (← d.regularShape) form swapped d.leaves
  | .repeated (.simple form swapped) extents =>
    let shape := extents.map Int.ofNat
    simple shape form swapped (← d.spread shape)
  | .record types =>
    fields types d
    return ⟨[], type, []⟩
  | .repeated .. => throw .malformed

def ofContents (c : Contents) : Source :=
  ⟨c.shape, .ofForm (.ofElement c.kind), c.values.toList.map Held.scalar⟩

def filled (shape : List Int) (kind : Element) (value : Int) : Source :=
  ⟨shape, .ofForm (.ofElement kind),
    List.replicate (Shape.product shape).toNat (.scalar (storeScalar kind (.int value)))⟩

/-! ## Conversion -/

def kind (s : Source) : KindRequest → Except Failure Element
  | .unspecified => s.type.element
  | request => request.resolve

def elements (s : Source) (kind : Element) : Except Failure (List Scalar) :=
  match s.type with
  | .record _ => throw .operand
  | _ => s.values.mapM (Held.store kind)

/-- The bytes of the data. Several axes, or none, only have bytes if there are elements. -/
def memory (s : Source) : Except Failure Bytes := do
  match s.type with
  | .simple form swapped =>
    form.requireVisible
    if s.shape.length ≠ 1 ∧ s.shape.contains 0 then throw .operand
    return (s.values.flatMap (form.memory swapped)).toArray
  | _ => throw .operand

end Source

/-- The extents that an array of one value is asked for with: a sequence of integers, or the only one.
    They must be integers, not negative, and give an array that can be on the host. -/
def Datum.filledShape [Room] (itemSize : Nat) (d : Datum) : Except Failure (List Int) := do
  let items ← match d with
    | none => pure []
    | scalar value => pure [scalar value]
    | slice .. => throw .operand
    | d => d.items
  if Contents.mostAxes < items.length then throw .malformed
  let extents ← items.mapM fun item =>
    match item with
    | scalar (.int n) => if fitsSigned 64 n then pure n else throw .malformed
    | _ => throw .operand
  if !Contents.fits extents itemSize then throw .malformed
  if Room.limit ≤ Shape.product extents * itemSize then throw .tooLarge
  return extents

end StridedArray
