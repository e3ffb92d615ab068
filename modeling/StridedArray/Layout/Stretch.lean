import StridedArray.Datum.Operators
import StridedArray.Layout.Move

/-! # Shapes given in part

Two movements that complete the shape they are given.

* `Layout.inferred`, `Layout.reshapeTo` — another shape, one extent of which may be left open as `-1`;
* `Layout.stretch`, `Layout.stretchTo` — broadcasting: new axes in front, axes of extent 1 repeated. -/

namespace StridedArray

def Datum.isOpen (d : Datum) : Bool := d.isInt (-1)

def Layout.inferred (l : Layout) (extents : List Datum) : Except Failure (List Datum) := do
  let fails : Failure := .shape (.inferredExtent l.shape extents)
  match extents.countP Datum.isOpen with
  | 0 => return extents
  | 1 =>
    let known ← (extents.filter fun e => !e.isOpen).foldlM Datum.multiply (.int 1)
    if known.isInt 0 then throw fails
    if (← (Datum.int l.size).floorModulo known).truthy then throw fails
    let rest ← (Datum.int l.size).floorDivide known
    return extents.map fun e => if e.isOpen then rest else e
  | _ => throw (.shape .unknownExtents)

/-- The extents that a shape is given by: a sequence, or the only one. -/
def Datum.shapeItems : Datum → Except Failure (List Datum)
  | scalar (.bool b) => pure [scalar (.bool b)]
  | scalar (.int n) => pure [scalar (.int n)]
  | given => given.items

def Layout.reshapeTo (l : Layout) (shape : Datum) : Except Failure Layout := do
  l.reshape (← (← l.inferred (← shape.shapeItems)).mapM Datum.whole)

def Layout.raise (l : Layout) (rank : Nat) : Except Failure Layout :=
  l.reshape (List.replicate (rank - l.rank) 1 ++ l.shape)

def Layout.stretch (l : Layout) (shape : List Int) : Except Failure Layout := do
  if shape.length < l.rank then throw (.shape (.broadcastTo l.shape (Datum.ints shape)))
  if l.shape = shape then return l
  (← l.raise shape.length).expand shape

/-- The layout broadcast to a shape that is given as data. Extents are compared before they are cut to
    integers. -/
def Layout.stretchTo (l : Layout) (shape : Datum) : Except Failure Layout := do
  let extents ← shape.items
  match Datum.plainInts? extents with
  | some shape => l.stretch shape
  | none =>
    if extents.length < l.rank then throw (.shape (.broadcastTo l.shape extents))
    if Datum.sameAll (Datum.ints l.shape) extents then return l
    (← l.raise extents.length).expand (← extents.mapM Datum.whole)

end StridedArray
