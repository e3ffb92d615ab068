import StridedArray.Layout
import StridedArray.View.Loose

/-! # Addresses of loosely typed positions

Positions that are not integers have addresses too, as far as arithmetic goes: a position between two
neighbours has an offset between theirs.

* `Layout.addressOf`, `Layout.addressOfFlat` — the offset of a multi-index and of a row-major position
  that are given as data. -/

namespace StridedArray

def LooseView.ofView (v : View) : LooseView := ⟨v.shape, Datum.ints v.strides, v.offset, v.mask⟩

namespace Layout

def descendData : List View → Datum → Except Failure (Option Datum)
  | [], offset => pure (some offset)
  | v :: rest, offset => do
    let index ← Loose.unravelItems offset (Datum.ints v.shape)
    match ← (LooseView.ofView v).offsetOf (.list index) with
    | some offset => descendData rest offset
    | none => return none

/-- Fail at the first number of a multi-index that is out of range. -/
def requireInside : Nat → List Datum → List Int → Except Failure Unit
  | axis, i :: is, s :: ss => do
    if !(← Datum.within (.int 0) i (.int s)) then throw (.shape (.indexOutside i axis s))
    requireInside (axis + 1) is ss
  | _, _, _ => pure ()

/-- The offset of a multi-index of numbers; nothing for padding. -/
def addressItems (l : Layout) (index : List Datum) : Except Failure (Option Datum) := do
  if index.length ≠ l.rank then throw (.shape (.indexRank index l.shape))
  requireInside 0 index l.shape
  match ← (LooseView.ofView l.top).offsetOf (.list index) with
  | some offset => descendData l.below offset
  | none => return none

def addressOf (l : Layout) (given : Datum) : Except Failure (Option Datum) := do
  let index ← given.items
  match Datum.plainInts? index with
  | some ns => return (← l.address ns).map Datum.int
  | none => l.addressItems index

/-- The offset of a row-major position; nothing for padding. -/
def addressOfFlat (l : Layout) (flat : Datum) : Except Failure (Option Datum) := do
  match flat with
  | .scalar (.int n) => return (← l.addressFlat n).map Datum.int
  | flat =>
    if ← Datum.within (.int 0) flat (.int l.size) then
      l.addressItems (← Loose.unravelItems flat (Datum.ints l.shape))
    else throw (.index (.outsideView flat l.size))

end Layout

end StridedArray
