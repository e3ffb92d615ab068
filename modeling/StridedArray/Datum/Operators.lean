import StridedArray.Datum.Reading

/-! # Operators on data

Operators that work on more than numbers: texts and sequences can be joined, repeated and compared.
Where an operator is not defined on its operands it fails.

* `add`, `subtract`, `multiply`, `floorDivide`, `floorModulo`, `ceilDivide`, `negate` — arithmetic;
* `same`, `less`, `atMost` — comparison; `larger`, `smaller` — the greater and the lesser of two;
* `entryAt` — an entry of a sequence;
* `sort` — whether items can be put in order, and the order. -/

namespace StridedArray.Datum

/-! ## Comparison -/

mutual

def same : Datum → Datum → Bool
  | none, none => true
  | scalar a, scalar b => a.sameNumber b
  | text a, text b => a == b
  | list a, list b => sameAll a b
  | slice a b c, slice a' b' c' => same a a' && same b b' && same c c'
  | _, _ => false

def sameAll : List Datum → List Datum → Bool
  | [], [] => true
  | a :: as, b :: bs => same a b && sameAll as bs
  | _, _ => false

end

/-- An order of two values, with or without equal ones. -/
structure Order where
  scalars : Scalar → Scalar → Bool
  texts : String → String → Bool
  counts : Nat → Nat → Bool

def Order.below : Order := ⟨Scalar.less, fun a b => decide (a < b), fun m n => decide (m < n)⟩

def Order.upTo : Order :=
  ⟨fun a b => a.less b || a.sameNumber b, fun a b => decide (a < b) || a == b,
    fun m n => decide (m ≤ n)⟩

mutual

/-- Are two data in order? Only numbers, texts and sequences have one, each among themselves. -/
def ordered (o : Order) : Datum → Datum → Except Failure Bool
  | scalar a, scalar b => pure (o.scalars a b)
  | text a, text b => pure (o.texts a b)
  | list a, list b => orderedAll o a b
  | slice a b c, slice a' b' c' =>
    if !same a a' then ordered o a a'
    else if !same b b' then ordered o b b'
    else if !same c c' then ordered o c c'
    else pure (o.counts 3 3)
  | _, _ => throw .operand

/-- Are two sequences in order? The first items that differ decide, or the lengths. -/
def orderedAll (o : Order) : List Datum → List Datum → Except Failure Bool
  | a :: as, b :: bs => if same a b then orderedAll o as bs else ordered o a b
  | as, bs => pure (o.counts as.length bs.length)

end

def less (a b : Datum) : Except Failure Bool := ordered .below a b

def atMost (a b : Datum) : Except Failure Bool := ordered .upTo a b

/-- Is the value at least the first bound and below the second? The second one is only looked at if the
    first one holds. -/
def within (low value high : Datum) : Except Failure Bool := do
  if ← atMost low value then less value high else return false

def larger (a b : Datum) : Except Failure Datum := do return if ← less a b then b else a

def smaller (a b : Datum) : Except Failure Datum := do return if ← less b a then b else a

/-! ## Arithmetic -/

def longestRepetition : Int := 0x10000000

def repeated {α : Type} (items : List α) (count : Int) : Except Failure (List α) :=
  if !fitsSigned 64 count then throw .overflow
  else if items.isEmpty then pure []
  else if longestRepetition < count * items.length then throw .exhausted
  else pure (List.replicate count.toNat items).flatten

/-- The characters of a text repeated. Lengths beyond 64 bits are not even tried. -/
def repeatedText (s : String) (count : Int) : Except Failure String :=
  if 0 < count ∧ !fitsSigned 64 (count * s.length) then throw .overflow
  else String.ofList <$> repeated s.toList count

def add : Datum → Datum → Except Failure Datum
  | scalar a, scalar b => scalar <$> a.add b
  | text a, text b => pure (text (a ++ b))
  | list a, list b => pure (list (a ++ b))
  | _, _ => throw .operand

def subtract : Datum → Datum → Except Failure Datum
  | scalar a, scalar b => scalar <$> a.subtract b
  | _, _ => throw .operand

def repeatedBy (d : Datum) (count : Scalar) : Except Failure Datum := do
  let some n := count.whole? | throw .operand
  match d with
  | text s => return text (← repeatedText s n)
  | list items => return list (← repeated items n)
  | _ => throw .operand

def multiply : Datum → Datum → Except Failure Datum
  | scalar a, scalar b => scalar <$> a.multiply b
  | scalar a, d => repeatedBy d a
  | d, scalar b => repeatedBy d b
  | _, _ => throw .operand

def floorDivide : Datum → Datum → Except Failure Datum
  | scalar a, scalar b => scalar <$> a.floorDivide b
  | _, _ => throw .operand

def floorModulo : Datum → Datum → Except Failure Datum
  | scalar a, scalar b => scalar <$> a.floorModulo b
  | _, _ => throw .operand

def negate : Datum → Except Failure Datum
  | scalar a => pure (scalar a.negate)
  | _ => throw .operand

def ceilDivide (a b : Datum) : Except Failure Datum := do
  (← (← a.negate).floorDivide b).negate

@[simp] theorem add_int (m n : Int) : add (int m) (int n) = .ok (int (m + n)) := rfl

@[simp] theorem multiply_int (m n : Int) : multiply (int m) (int n) = .ok (int (m * n)) := rfl

@[simp] theorem subtract_int (m n : Int) : subtract (int m) (int n) = .ok (int (m - n)) := rfl

/-! ## Entries -/

def requirePart : Datum → Except Failure Unit
  | none => pure ()
  | d => do discard d.exact

/-- The entry of a sequence that data stands for, negative numbers counting from the end. A slice gives
    a sequence, whose items are of no use where one entry is meant. -/
def entryAt (xs : List Datum) (place : Datum) : Except Failure Datum := do
  match place with
  | slice start stop step =>
    requirePart step
    if (match step with | scalar s => s.sameNumber (.int 0) | _ => false) then throw .malformed
    requirePart start
    requirePart stop
    return list []
  | place =>
    let n ← place.exact
    let fromStart := if n < 0 then n + xs.length else n
    if fromStart < 0 then throw .noElement
    match xs[fromStart.toNat]? with
    | some x => return x
    | Option.none => throw .noElement

/-! ## Sorting -/

def placeAmong (sorted : Array Datum) (item : Datum) : Nat → Nat → Nat → Except Failure Nat
  | 0, low, _ => pure low
  | fuel + 1, low, high => do
    if high ≤ low then return low
    let middle := (low + high) / 2
    match sorted[middle]? with
    | some known =>
      if ← less item known then placeAmong sorted item fuel low middle
      else placeAmong sorted item fuel (middle + 1) high
    | Option.none => return low

def sortInto (sorted : Array Datum) : List Datum → Except Failure (Array Datum)
  | [] => pure sorted
  | item :: rest => do
    let place ← placeAmong sorted item sorted.size 0 sorted.size
    sortInto (sorted.insertIdxIfInBounds place item) rest

def risingLength : Datum → List Datum → Except Failure Nat
  | _, [] => pure 0
  | before, item :: rest => do
    if ← less item before then return 0
    return (← risingLength item rest) + 1

def fallingLength : Datum → List Datum → Except Failure Nat
  | _, [] => pure 0
  | before, item :: rest => do
    if ← less item before then return (← fallingLength item rest) + 1
    return 0

def sort (items : List Datum) : Except Failure (List Datum) := do
  match items with
  | first :: second :: rest =>
    -- A falling run at the front is turned around first, and the items behind it are put in one by one.
    let falls ← less second first
    let run ← if falls then fallingLength second rest else risingLength second rest
    let front := items.take (run + 2)
    let front := if falls then front.reverse else front
    return (← sortInto front.toArray (items.drop (run + 2))).toList
  | items => return items

end StridedArray.Datum
