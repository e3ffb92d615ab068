import StridedArray.Element.TimeUnit

/-! # Forms of uploaded elements

Data can be given as arrays of many forms. A form fixes how many bytes an element takes and what it
stands for.

* `ElementForm` — the forms; `itemSize`, `hasByteOrder`, `isUnsized`;
* `code` — the letter of a form and its width; `name` — as messages mention it; `shortName` — inside of
  the name of a compound type;
* `element` — the kind that elements of a form are stored as. -/

namespace StridedArray

/-- A form of elements. Widths are in bytes, lengths in characters; texts without a length take the
    one of the longest. -/
inductive ElementForm
  | bool
  | signed (width : Nat)
  | unsigned (width : Nat)
  | floating (width : Nat)
  | complex (width : Nat)
  /-- Text of characters that take one byte. -/
  | bytes (length : Nat)
  | text (length : Nat)
  /-- Bytes that stand for nothing in particular. -/
  | raw (length : Nat)
  /-- Text of any length. -/
  | strings
  | anything
  | date (unit : TimeUnit)
  | duration (unit : TimeUnit)
  deriving DecidableEq

namespace ElementForm

def itemSize : ElementForm → Nat
  | bool => 1
  | signed width | unsigned width | floating width | complex width => width
  | bytes length | raw length => length
  | text length => 4 * length
  | strings => 16
  | anything | date _ | duration _ => 8

def hasByteOrder : ElementForm → Bool
  | signed width | unsigned width => decide (1 < width)
  | floating _ | complex _ | text _ | date _ | duration _ => true
  | bool | bytes _ | raw _ | strings | anything => false

def isUnsized : ElementForm → Bool
  | bytes length | text length | raw length => length == 0
  | _ => false

def sized (length : Nat) : ElementForm → ElementForm
  | bytes _ => bytes length
  | text _ => text length
  | raw _ => raw length
  | form => form

def code : ElementForm → String
  | bool => "b1"
  | signed width => s!"i{width}"
  | unsigned width => s!"u{width}"
  | floating width => s!"f{width}"
  | complex width => s!"c{width}"
  | bytes length => s!"S{length}"
  | text length => s!"U{length}"
  | raw length => s!"V{length}"
  | strings => "T"
  | anything => "O"
  | date unit => "M8" ++ unit.text
  | duration unit => "m8" ++ unit.text

def orderMark (form : ElementForm) (swapped : Bool) : String :=
  if !form.hasByteOrder then "" else if swapped then ">" else "<"

def name (form : ElementForm) (swapped : Bool) : String :=
  match form with
  | bytes _ | raw _ => "|" ++ form.code
  | text _ => form.orderMark swapped ++ form.code
  | form =>
    if form.hasByteOrder && swapped then form.orderMark swapped ++ form.code
    else
      match form with
      | bool => "bool"
      | signed width => s!"int{8 * width}"
      | unsigned width => s!"uint{8 * width}"
      | floating width => s!"float{8 * width}"
      | complex width => s!"complex{8 * width}"
      | strings => "StringDType()"
      | anything => "object"
      | date unit => "datetime64" ++ unit.text
      | duration unit => "timedelta64" ++ unit.text
      | form => form.code

def shortName (form : ElementForm) (swapped : Bool) : String :=
  let code := match form with
    | bool => "?"
    | bytes 0 => "S"
    | text 0 => "U"
    | raw 0 => "V"
    | form => form.code
  Text.quoted (form.orderMark swapped ++ code)

def element? : ElementForm → Option Element
  | bool => some .bool
  | signed _ | unsigned _ | duration _ => some .int32
  | floating _ => some .float32
  | _ => none

def ofElement : Element → ElementForm
  | .bool => bool
  | .int32 => signed 4
  | .float32 => floating 4

@[simp] theorem element?_ofElement (kind : Element) : (ofElement kind).element? = some kind := by
  cases kind <;> rfl

end ElementForm

end StridedArray
