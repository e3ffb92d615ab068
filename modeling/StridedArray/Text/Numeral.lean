import StridedArray.Binary64
import StridedArray.Text.Digit

/-! # Numbers written in text

A number in text may have blanks around it, a sign in front, digits of any script, and single
underscores between digits.

* `plainNumeral` — the text with digits and blanks of ASCII only;
* `integer?` — an integer; `written?` — a number with a fraction or an exponent, an infinity, or the
  word for what is no number. -/

namespace StridedArray.Text

def plainCharacter (c : Char) : Option Char :=
  if c.toNat < 0x7f then some c
  else if isBlank c then some ' '
  else (digitValue? c).map Nat.digitChar

/-- A text with the digits and blanks of other scripts replaced. Fails on any other character outside
    of ASCII. -/
def plainNumeral (s : String) : Option (List Char) := s.toList.mapM plainCharacter

def trimBlanks (cs : List Char) : List Char :=
  ((cs.dropWhile isPlainBlank).reverse.dropWhile isPlainBlank).reverse

def splitSign : List Char → Bool × List Char
  | '-' :: rest => (true, rest)
  | '+' :: rest => (false, rest)
  | cs => (false, cs)

/-- The text without the underscores between digits; `none` if one stands anywhere else. The flag
    tells whether a digit stands just before. -/
def dropUnderscores : Bool → List Char → Option (List Char)
  | _, [] => some []
  | after, '_' :: rest =>
    match rest with
    | d :: _ => if after && d.isDigit then dropUnderscores false rest else none
    | [] => none
  | _, c :: rest => (c :: ·) <$> dropUnderscores c.isDigit rest

def digitsValue (cs : List Char) : Nat := cs.foldl (fun n c => 10 * n + (c.toNat - '0'.toNat)) 0

def longestInteger : Nat := 4300

def integer? (s : String) : Option Int := do
  let (negative, digits) := splitSign (trimBlanks (← plainNumeral s))
  let digits ← dropUnderscores false digits
  if digits.isEmpty || !digits.all Char.isDigit || decide (longestInteger < digits.length) then none
  else some (Binary64.signed negative (digitsValue digits))

inductive Written
  | notANumber (negative : Bool)
  | infinite (negative : Bool)
  /-- `digits * 10 ^ power` with a sign. -/
  | decimal (negative : Bool) (digits : Nat) (power : Int)

def exponent? : List Char → Option Int
  | [] => some 0
  | c :: rest =>
    if c = 'e' ∨ c = 'E' then
      let (negative, digits) := splitSign rest
      if digits.isEmpty || !digits.all Char.isDigit then none
      else some (Binary64.signed negative (digitsValue digits))
    else none

def decimal? (negative : Bool) (cs : List Char) : Option Written := do
  let whole := cs.takeWhile Char.isDigit
  let rest := cs.dropWhile Char.isDigit
  let (fraction, rest) := match rest with
    | '.' :: rest => (rest.takeWhile Char.isDigit, rest.dropWhile Char.isDigit)
    | rest => ([], rest)
  if whole.isEmpty && fraction.isEmpty then none
  else
    let power ← exponent? rest
    some (.decimal negative (digitsValue (whole ++ fraction)) (power - fraction.length))

def written? (s : String) : Option Written := do
  let (negative, cs) := splitSign (trimBlanks (← plainNumeral s))
  match String.ofList (cs.map Char.toLower) with
  | "nan" => some (.notANumber negative)
  | "inf" | "infinity" => some (.infinite negative)
  | _ => decimal? negative (← dropUnderscores false cs)

def decimalWidth (n : Nat) : Nat := (Nat.toDigits 10 n).length

namespace Written

def farthestPower : Int := 6000

def toFloat : Written → Float
  | notANumber _ => Binary64.notANumber
  | infinite negative => if negative then Binary64.negativeInfinity else Binary64.infinity
  | decimal negative digits power =>
    let leading := power + decimalWidth digits
    let magnitude :=
      if digits = 0 ∨ leading < -farthestPower then 0
      else if farthestPower < leading then Binary64.infinity
      else if 0 ≤ power then Float.ofScientific digits false power.toNat
      else Float.ofScientific digits true (-power).toNat
    if negative then -magnitude else magnitude

end Written

end StridedArray.Text
