import StridedArray.Element.Form

/-! # Types of uploaded elements

A type is a form with an order of the bytes, or it is put together from other types: the same one at
all positions of a small array, or several side by side.

* `SourceType` — the types; `SourceType.ofForm` — a form in the usual order; `itemSize` — bytes of an
  element;
* `SourceType.name` — in messages;
* `SourceType.element` — the kind that elements of a type are stored as. -/

namespace StridedArray

inductive SourceType
  /-- Elements of one form. The bytes of each may stand in the reverse order. -/
  | simple (form : ElementForm) (swapped : Bool)
  /-- The same type at all positions of a shape. -/
  | repeated (base : SourceType) (extents : List Nat)
  /-- Several types side by side. -/
  | record (fields : List SourceType)

namespace SourceType

def ofForm (form : ElementForm) : SourceType := simple form false

mutual

def itemSize : SourceType → Nat
  | simple form _ => form.itemSize
  | repeated base extents => base.itemSize * extents.foldl (· * ·) 1
  | record fields => itemSizes fields

def itemSizes : List SourceType → Nat
  | [] => 0
  | field :: rest => field.itemSize + itemSizes rest

end

mutual

def shortName : SourceType → String
  | simple form swapped => form.shortName swapped
  | repeated base extents =>
    "(" ++ base.shortName ++ ", " ++ Text.tuple (extents.map toString) ++ ")"
  | record fields => Text.bracketed (fieldNames 0 fields)

def fieldNames (place : Nat) : List SourceType → List String
  | [] => []
  | field :: rest =>
    let shown := match field with
      | repeated base extents => base.shortName ++ ", " ++ Text.tuple (extents.map toString)
      | field => field.shortName
    ("(" ++ Text.quoted s!"f{place}" ++ ", " ++ shown ++ ")") :: fieldNames (place + 1) rest

end

def name : SourceType → String
  | simple form swapped => form.name swapped
  | type => type.shortName

def element (type : SourceType) : Except Failure Element :=
  let kind? := match type with
    | simple form _ => form.element?
    | _ => none
  match kind? with
  | some kind => pure kind
  | none => throw (.kind (.unsupportedElements type.name))

@[simp] theorem element_ofElement (kind : Element) :
    (ofForm (.ofElement kind)).element = .ok kind := by
  simp [ofForm, element, pure, Except.pure]

end SourceType

end StridedArray
