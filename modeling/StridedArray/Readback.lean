import StridedArray.Bytes
import StridedArray.Shape

/-! # Reading buffers back

Some accelerators cannot map their memory. There the bytes go through an image in host memory: tiles
of pixels with four bytes each, first whole tiles, then whole rows, then what is left of a row.

* `Tile`, `tiles` — the rectangles that cover a number of pixels;
* `Staging` — the image, which is reused; `Staging.copyTile` — one rectangle through it;
* `Readback` — the two ways, with `Readback.ofDatum` and `Readback.read`. -/

namespace StridedArray

/-- A rectangle of pixels that begins at a pixel of the buffer. -/
structure Tile where
  start : Nat
  width : Nat
  height : Nat
  deriving DecidableEq

/-- An image of four-byte pixels, row by row. -/
structure Staging where
  width : Nat
  height : Nat
  image : Bytes

def channels : Nat := 4

namespace Staging

def blank (width height : Nat) : Staging := ⟨width, height, Array.replicate (width * height * channels) 0⟩

def tiles (width height pixels : Nat) : List Tile :=
  let perTile := width * height
  let whole := pixels / perTile
  let rest := pixels % perTile
  let rows := rest / width
  let last := rest % width
  (List.range whole).map (fun i => ⟨i * perTile, width, height⟩)
    ++ (if 0 < rows then [⟨whole * perTile, width, rows⟩] else [])
    ++ (if 0 < last then [⟨whole * perTile + rows * width, last, 1⟩] else [])

def rowPlace (s : Staging) (row : Nat) : Nat := row * s.width * channels

def putRow (s : Staging) (source : Bytes) (t : Tile) (image : Bytes) (row : Nat) : Bytes :=
  (List.range (t.width * channels)).foldl
    (fun image i =>
      image.setIfInBounds (s.rowPlace row + i)
        (byteAt source ((t.start + row * t.width) * channels + i)))
    image

def takeRow (s : Staging) (t : Tile) (image : Bytes) (out : Bytes) (row : Nat) : Bytes :=
  (List.range (t.width * channels)).foldl
    (fun out i => out.push (byteAt image (s.rowPlace row + i))) out

def copyTile (s : Staging) (source : Bytes) (out : Bytes) (t : Tile) : Bytes × Staging :=
  -- Beside and below the rows of this tile the image still holds an earlier one.
  let image := (List.range t.height).foldl (s.putRow source t) s.image
  ((List.range t.height).foldl (s.takeRow t image) out, { s with image := image })

def wholePixels (bytes : Bytes) : Bytes :=
  bytes ++ Array.replicate ((channels - bytes.size % channels) % channels) 0

def read (s : Staging) (bytes : Bytes) : Bytes × Staging :=
  let source := wholePixels bytes
  let (out, s) := (tiles s.width s.height (source.size / channels)).foldl
    (fun (out, s) t => s.copyTile source out t) (#[], s)
  (out.take bytes.size, s)

end Staging

inductive Readback
  | mapped
  /-- Through an image, made when it is first needed. -/
  | staged (staging : Option Staging)

namespace Readback

def imageExtent : Nat := 256

def name : Readback → String
  | mapped => "mapped"
  | staged _ => "staged"

/-- The way of the given name. Slices cannot be looked up at all. -/
def ofDatum (name : Datum) : Except Failure Readback :=
  match name with
  | .text "auto" | .text "mapped" => pure mapped
  | .text "staged" => pure (staged none)
  | .slice .. => throw .operand
  | name => throw (.argument (.readbackStrategy name))

def read (r : Readback) (bytes : Bytes) : Bytes × Readback :=
  match r with
  | mapped => (bytes, mapped)
  | staged staging =>
    let (out, s) := (staging.getD (.blank imageExtent imageExtent)).read bytes
    (out, staged (some s))

end Readback

end StridedArray
