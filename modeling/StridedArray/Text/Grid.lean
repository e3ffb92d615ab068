import StridedArray.Text

/-! # Arrays as text

Arrays are written as nested brackets: one line for every row, the cells of a row divided by blanks
and wrapped where the line would get too long. Only the edges of large arrays are written.

* `places` — which positions of an axis are written; `shownCells` — which cells;
* `appendWord`, `line` — the words of a row; `rows` — the nested brackets;
* `grid` — the whole text, all cells being right-aligned. -/

namespace StridedArray.Text.Grid

def lineWidth : Nat := 75

def threshold : Nat := 1000

def edge : Nat := 3

def places (abridged : Bool) (extent : Nat) : List (Option Nat) :=
  if abridged && decide (2 * edge < extent) then
    (List.range edge).map some ++ [none]
      ++ (List.range edge).map fun i => some (extent - edge + i)
  else (List.range extent).map some

def count (shape : List Nat) : Nat := shape.foldl (· * ·) 1

def shownCells (abridged : Bool) : List Nat → Nat → List Nat
  | [], start => [start]
  | n :: rest, start =>
    ((places abridged n).filterMap id).flatMap fun i =>
      shownCells abridged rest (start + i * count rest)

def trimmedRight (s : String) : String :=
  String.ofList (s.toList.reverse.dropWhile (· = ' ')).reverse

/-- Lines written so far and the current one, with one more word. A line that holds nothing but its
    indentation is never wrapped. -/
def appendWord (width indent : Nat) (state : String × String) (word : String) : String × String :=
  let (done, line) := state
  if width < line.length + word.length ∧ indent < line.length then
    (done ++ trimmedRight line ++ "\n", paddedLeft indent "" ++ word)
  else (done, line ++ word)

/-- The words of a row on lines with the given indentation, which the first line leaves out. -/
def line (width indent : Nat) (words : List String) : String :=
  let step := fun (state : String × String) (word : String) =>
    let (done, line) := appendWord width indent state word
    (done, line ++ " ")
  let (done, last) := words.dropLast.foldl step ("", paddedLeft indent "")
  let (done, last) := match words.getLast? with
    | some word => appendWord width indent (done, last) word
    | none => (done, last)
  ((done ++ last).drop indent).toString

def ellipsis : String := "..."

def rows (abridged : Bool) (cell : Nat → String) : List Nat → (indent width start : Nat) → String
  | [], _, _, start => cell start
  | [n], indent, width, start =>
    let words := (places abridged n).map fun
      | some i => cell (start + i)
      | none => ellipsis
    "[" ++ line (width - 1) indent words ++ "]"
  | n :: m :: rest, indent, width, start =>
    let nested := (places abridged n).map fun
      | some i =>
        rows abridged cell (m :: rest) (indent + 1) (width - 1) (start + i * count (m :: rest))
      | none => ellipsis
    let lineBreaks := String.ofList (List.replicate (rest.length + 1) '\n')
    "[" ++ (lineBreaks ++ paddedLeft indent "").intercalate nested ++ "]"

def grid (shape : List Nat) (cells : Array String) (least : Nat) : String :=
  if shape.isEmpty then cells[0]?.getD ""
  else if count shape = 0 then "[]"
  else
    let abridged := decide (threshold < count shape)
    let cell := fun i => cells[i]?.getD ""
    let width := (shownCells abridged shape 0).foldl (fun w i => max w (cell i).length) least
    rows abridged (fun i => paddedLeft width (cell i)) shape 1 lineWidth 0

end StridedArray.Text.Grid
