import StridedArray.Scalar

/-! # Nested data

Arguments of operations arrive as nested data: nothing, single values, texts, sequences and slices.

* `Datum` — the type; `Datum.int` — an integer as data;
* `shown`, `plain` — the spelling in messages, texts being quoted or not; `typeName` — the name of the
  form. -/

namespace StridedArray

inductive Datum
  | none
  | scalar (value : Scalar)
  | text (s : String)
  | list (items : List Datum)
  | slice (start stop step : Datum)
  deriving Inhabited

namespace Datum

abbrev int (n : Int) : Datum := scalar (.int n)

def ints (ns : List Int) : List Datum := ns.map int

def shown : Datum → String
  | none => "None"
  | scalar value => value.text
  | text s => Text.quoted s
  | list items => Text.tuple (items.map shown)
  | slice start stop step =>
    "slice(" ++ start.shown ++ ", " ++ stop.shown ++ ", " ++ step.shown ++ ")"

/-- The spelling of data in the running text of a message: a text stands there without quotes. -/
def plain : Datum → String
  | text s => s
  | d => d.shown

def typeName : Datum → String
  | none => "NoneType"
  | scalar (.bool _) => "bool"
  | scalar (.int _) => "int"
  | scalar (.float _) => "float"
  | scalar (.nan ..) => "float"
  | text _ => "str"
  | list _ => "tuple"
  | slice .. => "slice"

end Datum

end StridedArray
