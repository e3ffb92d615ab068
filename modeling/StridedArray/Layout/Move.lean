import StridedArray.Layout

/-! # Moving layouts

Every movement gives another layout over the same buffer. It replaces the top view where a single
view can show the result, and pushes a new one where it cannot.

* `reshape`, `permute`, `moveAxis`, `pad`, `shrink`, `expand`, `tile`, `flip` — the movements with
  checked arguments;
* `Move` — a movement as a value; `Move.run`, `Layout.runAll` — doing one, doing several. -/

namespace StridedArray

namespace Layout

def replaceTop (l : Layout) (v : View) : Layout := { l with top := v }

def axisNumbers (rank : Nat) : List Int := (List.range rank).map Int.ofNat

def reshape (l : Layout) (shape : List Int) : Except Failure Layout :=
  if shape.any (· < 0) then throw (.shape (.negativeExtent shape))
  else if Shape.product shape ≠ l.size then throw (.shape (.sizes l.shape l.size shape))
  else if shape = l.shape then pure l
  else
    match l.top.reshape? shape with
    | some v => pure (l.replaceTop v)
    -- The new top only renumbers; the positions it addresses are those of the old one.
    | none => pure ⟨View.rowMajor shape, l.top :: l.below⟩

def permute (l : Layout) (order : List Int) : Except Failure Layout :=
  if order.isPerm (axisNumbers l.rank) then
    match l.top.permute? order with
    | some v => pure (l.replaceTop v)
    | none => throw .noElement
  else throw (.shape (.permutation (Datum.ints order) l.rank))

def moveOrder (rank source target : Nat) : List Int :=
  ((axisNumbers rank).filter fun a => a ≠ (source : Int)).insertIdx target (source : Int)

def moveAxis (l : Layout) (source target : Int) : Except Failure Layout :=
  let n : Int := l.rank
  if -n ≤ source ∧ source < n ∧ -n ≤ target ∧ target < n then
    l.permute (moveOrder l.rank (source % n).toNat (target % n).toNat)
  else throw (.shape (.moveAxis (.int source) (.int target) l.rank))

def requirePairs (l : Layout) (operation : String) (pairs : List (Int × Int)) :
    Except Failure Unit :=
  if pairs.length = l.rank then pure ()
  else throw (.shape (.pairCount operation l.rank pairs.length))

def pad (l : Layout) (widths : List (Int × Int)) : Except Failure Layout := do
  l.requirePairs "pad" widths
  if widths.any fun w => w.1 < 0 || w.2 < 0 then throw (.shape (.negativePadding widths))
  if widths.all (· = (0, 0)) then return l
  return l.replaceTop (l.top.pad widths)

/-- The first range that is not one of its axis, with the number and extent of that axis. -/
def firstBadRange? : Nat → List (Int × Int) → List Int → Option ((Int × Int) × Nat × Int)
  | axis, r :: rs, s :: ss =>
    if 0 ≤ r.1 ∧ r.1 ≤ r.2 ∧ r.2 ≤ s then firstBadRange? (axis + 1) rs ss else some (r, axis, s)
  | _, _, _ => none

def shrink (l : Layout) (ranges : List (Int × Int)) : Except Failure Layout := do
  l.requirePairs "shrink" ranges
  match firstBadRange? 0 ranges l.shape with
  | some ((low, high), axis, extent) => throw (.shape (.badRange low high axis extent))
  | none =>
    if ranges = View.fullMask l.shape then return l
    return l.replaceTop (l.top.shrink ranges)

def expand (l : Layout) (shape : List Int) : Except Failure Layout :=
  if shape.length ≠ l.rank then throw (.shape (.expandRank shape l.rank))
  else if (l.shape.zip shape).any fun (s, n) => s ≠ n && s ≠ 1 then
    throw (.shape (.expand l.shape shape))
  else if shape = l.shape then pure l
  else pure (l.replaceTop (l.top.expand shape))

def interleave (xs ys : List Int) : List Int := (xs.zip ys).flatMap fun (x, y) => [x, y]

def tile (l : Layout) (counts : List Int) : Except Failure Layout := do
  if counts.length ≠ l.rank ∨ counts.any (· < 1) then throw (.shape (.repeatCounts counts))
  let base := l.shape
  -- An axis of extent 1 in front of every axis is stretched, and then joined with it.
  let split ← l.reshape (interleave (base.map fun _ => 1) base)
  let tiled ← split.expand (interleave counts base)
  tiled.reshape (counts.zipWith (· * ·) base)

def flip (l : Layout) (axes : List Int) : Except Failure Layout := do
  let axes ← axes.mapM fun a => Shape.normalizeAxis a l.rank
  match l.top.flip? (axes.map Int.ofNat) with
  | some v => return l.replaceTop v
  | none => throw .noElement

end Layout

inductive Move
  | reshape (shape : List Int)
  | permute (order : List Int)
  | moveAxis (source target : Int)
  | pad (widths : List (Int × Int))
  | shrink (ranges : List (Int × Int))
  | expand (shape : List Int)
  | tile (counts : List Int)
  | flip (axes : List Int)
  deriving DecidableEq

namespace Move

def run (l : Layout) : Move → Except Failure Layout
  | .reshape shape => l.reshape shape
  | .permute order => l.permute order
  | .moveAxis source target => l.moveAxis source target
  | .pad widths => l.pad widths
  | .shrink ranges => l.shrink ranges
  | .expand shape => l.expand shape
  | .tile counts => l.tile counts
  | .flip axes => l.flip axes

end Move

def Layout.runAll (l : Layout) (moves : List Move) : Except Failure Layout := moves.foldlM Move.run l

end StridedArray
