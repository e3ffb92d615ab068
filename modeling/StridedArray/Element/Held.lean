import StridedArray.Bytes
import StridedArray.Datum.Reading
import StridedArray.Element.Form
import StridedArray.Element.Moment
import StridedArray.FloatFormat

/-! # Elements as arrays of their form hold them

An element of uploaded data goes two steps: from the value that was given to what an array of the form
holds, and from there to an element of the kind that is stored.

* `Held` — what arrays hold; `ElementForm.hold` — a value as an array of the form holds it;
* `ElementForm.settled` — a form with what the values decide about it;
* `Held.store` — as an element of a kind;
* `ElementForm.memory`, `ElementForm.requireVisible` — the bytes that it takes, and which forms show
  theirs. -/

namespace StridedArray

open Binary64 (Parts)

inductive Held
  | scalar (value : Scalar)
  /-- A number of extended precision. -/
  | extended (value : Parts)
  | text (s : String)
  | thing (d : Datum)
  deriving Inhabited

/-! ## Numbers of other precision -/

/-- A number out of text as exact parts, rounded to extended precision. -/
def Text.Written.toParts : Text.Written → Parts
  | notANumber _ => .notANumber
  | infinite negative => .infinite negative
  | decimal negative digits power =>
    let leading := power + Text.decimalWidth digits
    let exact :=
      -- Powers far outside of every format are not computed.
      if digits = 0 ∨ leading < -farthestPower then .finite negative 0 0
      else if farthestPower < leading then .infinite negative
      else if 0 ≤ power then .finite negative (digits * Nat.pow 10 power.toNat) 0
      else FloatFormat.ofQuotient negative digits (Nat.pow 10 (-power).toNat)
    FloatFormat.extended.round exact

def Scalar.parts : Scalar → Parts
  | .bool b => FloatFormat.ofInt (if b then 1 else 0)
  | .int n => FloatFormat.ofInt n
  | .float x => Binary64.parts x
  | .nan .. => .notANumber

def FloatFormat.narrow (f : FloatFormat) (value : Scalar) : Scalar :=
  match value with
  | .nan negative fraction => .nan negative fraction
  | value => .float (FloatFormat.toFloat (f.round value.parts))

/-- Texts of extended precision are written plainly: in ASCII, without underscores, and without blanks
    behind the number. -/
def isPlainNumeral (s : String) : Bool :=
  s.toList.all (fun c => decide (c.toNat < 0x80) && c != '_')
    && !(s.toList.getLast?.any Text.isPlainBlank)

/-- A value as a number of extended precision. Integers and texts are not brought to a double first. -/
def Datum.extended (d : Datum) : Except Failure Parts := do
  match d with
  | .scalar value => return FloatFormat.extended.round value.parts
  | .text s =>
    match (if isPlainNumeral s then Text.written? s else Option.none) with
    | some w => return w.toParts
    | Option.none => throw .malformed
  | d => return (← d.number).parts

/-! ## From values -/

def fitting (fits : Int → Bool) (n : Int) : Except Failure Held :=
  if fits n then pure (.scalar (.int n)) else throw .overflow

def noDate : Int := -0x8000000000000000

def isNoDate (s : String) : Bool := s.isEmpty || Text.capitals s == "NAT"

def trimmedText (length : Nat) (s : String) : String :=
  String.ofList (((s.toList.take length).reverse.dropWhile (·.toNat = 0)).reverse)

def holdDate (unit : TimeUnit) : Datum → Except Failure Held
  | .none => pure (.scalar (.int noDate))
  | .text s =>
    if isNoDate s then pure (.scalar (.int noDate))
    else
      match Moment.ofText? s with
      | some m => fitting (fitsSigned 64) (m.countIn unit)
      | none => throw .malformed
  | .scalar value =>
    match value.whole? with
    | some n => if unit.base = .generic then throw .malformed else fitting (fitsSigned 64) n
    | none => throw .malformed
  | _ => throw .malformed

def holdDuration : Datum → Except Failure Held
  | .none => pure (.scalar (.int noDate))
  | .text s =>
    if isNoDate s then pure (.scalar (.int noDate))
    else
      match leadingInteger? s.toList with
      | some (n, []) => fitting (fitsSigned 64) n
      | _ => throw .malformed
  | .scalar value =>
    match value.whole? with
    | some n => fitting (fitsSigned 64) n
    | none => throw .malformed
  | _ => throw .malformed

namespace ElementForm

def hold (form : ElementForm) (d : Datum) : Except Failure Held := do
  match form with
  | bool => return .scalar (.bool d.truthy)
  | signed width => fitting (fitsSigned (8 * width)) (← d.whole)
  | unsigned width => fitting (fitsUnsigned (8 * width)) (← d.whole)
  | floating 2 => return .scalar (FloatFormat.half.narrow (← d.number))
  | floating 4 | complex 8 => return .scalar (← Element.float32.coerce (← d.number))
  | floating 16 => return .extended (← d.extended)
  | floating _ | complex _ => return .scalar (← d.number)
  | bytes length =>
    let s := d.plain
    if s.toList.all fun c => decide (c.toNat < 0x80) then return .text (trimmedText length s)
    else throw .unencodable
  | text length => return .text (trimmedText length d.plain)
  | strings => return .text d.plain
  | raw _ => throw .operand
  | anything => return .thing d
  | date unit => holdDate unit d
  | duration _ => holdDuration d

def longest (values : List Datum) : Nat :=
  max 1 ((values.map fun d => d.plain.length).foldl max 0)

def finestUnit (values : List Datum) : TimeUnit :=
  let bases := values.filterMap fun d =>
    match d with
    | .text s => if isNoDate s then none else (Moment.ofText? s).map (·.finest)
    | _ => none
  let rank := fun (b : TimeBase) => (TimeBase.table.map (·.1)).idxOf b
  match bases with
  | [] => .generic
  | first :: rest => ⟨1, rest.foldl (fun a b => if rank a < rank b then b else a) first⟩

def settled (form : ElementForm) (values : List Datum) : ElementForm :=
  match form with
  | bytes 0 => bytes (longest values)
  | text 0 => text (longest values)
  | date unit => if unit.base = .generic then date (finestUnit values) else form
  | form => form

end ElementForm

/-! ## To elements -/

def singleOfInt (n : Int) : Float := FloatFormat.toFloat (FloatFormat.single.round (FloatFormat.ofInt n))

/-- The integer of 32 bits next to exact parts on the side of zero; the least one if there is none. -/
def truncatedParts : Parts → Int
  | .finite negative m e =>
    let n := Binary64.truncate negative m e
    if fitsSigned 32 n then n else -0x80000000
  | _ => -0x80000000

def Binary64.Parts.truthy : Parts → Bool
  | .finite _ m _ => decide (m ≠ 0)
  | _ => true

def singleOfParts (p : Parts) : Scalar :=
  match FloatFormat.single.round p with
  | .notANumber => Scalar.notANumber
  | p => .float (FloatFormat.toFloat p)

/-- A scalar that an array holds as an element of a kind. Integers wrap around, other numbers without an
    integer of 32 bits become the least one. -/
def storeScalar (kind : Element) (value : Scalar) : Scalar :=
  match kind, value with
  | .bool, value => .bool value.truthy
  | .int32, .float x => .int (truncate32 x)
  | .int32, .nan .. => .int (-0x80000000)
  | .int32, value => .int (wrap32 (value.whole?.getD 0))
  | .float32, .float x => .float (roundSingle x)
  | .float32, .nan negative fraction => .nan negative (roundSingleBits (Scalar.quiet fraction))
  | .float32, value => .float (singleOfInt (value.whole?.getD 0))

def storeThing (kind : Element) (d : Datum) : Except Failure Scalar := do
  match kind, d with
  | .bool, d => return .bool d.truthy
  | _, .list _ => throw .malformed
  | .int32, d => return .int (← requireWord (← d.whole))
  | .float32, d => Element.float32.coerce (← d.number)

def Held.store (kind : Element) : Held → Except Failure Scalar
  | scalar value => pure (storeScalar kind value)
  | extended p =>
    pure (match kind with
      | .bool => .bool p.truthy
      | .int32 => .int (truncatedParts p)
      | .float32 => singleOfParts p)
  | text s => storeThing kind (.text s)
  | thing d => storeThing kind d

/-! ## As bytes -/

def lowBytes : Nat → Nat → List UInt8
  | 0, _ => []
  | count + 1, n => UInt8.ofNat (n % 256) :: lowBytes count (n / 256)

def floatBytes (width : Nat) (p : Parts) : List UInt8 :=
  match width with
  | 2 => lowBytes 2 (FloatFormat.half.bits p)
  | 4 => lowBytes 4 (FloatFormat.single.bits p)
  | 16 => lowBytes 10 (FloatFormat.extendedBits p) ++ List.replicate 6 0
  | _ => lowBytes 8 (FloatFormat.double.bits p)

def Held.parts : Held → Parts
  | scalar value => value.parts
  | extended p => p
  | _ => .notANumber

def Held.integer : Held → Int
  | scalar value => value.whole?.getD 0
  | _ => 0

def Held.characters (length : Nat) : Held → List Nat
  | text s => (s.toList.map Char.toNat) ++ List.replicate (length - s.length) 0
  | _ => List.replicate length 0

/-- The bytes of what an array of a form holds. Values that stand for anything have none of their own. -/
def ElementForm.memory (form : ElementForm) (swapped : Bool) (h : Held) : List UInt8 :=
  let inOrder := fun (bytes : List UInt8) => if swapped then bytes.reverse else bytes
  match form with
  | bool => lowBytes 1 (if h.integer = 0 then 0 else 1)
  | signed width | unsigned width =>
    inOrder (lowBytes width (h.integer % Nat.pow 2 (8 * width)).toNat)
  | floating width => inOrder (floatBytes width h.parts)
  | complex width =>
    let imaginary := match h with
      | .scalar (.nan ..) => h.parts
      | _ => FloatFormat.ofInt 0
    inOrder (floatBytes (width / 2) h.parts) ++ inOrder (floatBytes (width / 2) imaginary)
  | bytes length => (h.characters length).map UInt8.ofNat
  | text length => (h.characters length).flatMap fun c => inOrder (lowBytes 4 c)
  | raw length => List.replicate length 0
  | date _ | duration _ => inOrder (lowBytes 8 (h.integer % Nat.pow 2 64).toNat)
  | strings | anything => []

/-- Do arrays of a form show their bytes? Dates, durations and text of any length do not, and what stands
    for anything cannot be told by its bytes. -/
def ElementForm.requireVisible : ElementForm → Except Failure Unit
  | date _ | duration _ | strings => throw .malformed
  | anything => throw .operand
  | _ => pure ()

end StridedArray
