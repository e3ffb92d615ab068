import StridedArray.Element.TimeUnit

/-! # Moments written in text

A date is written as `2020-01-31`, with the time of day behind it as `T12:30:05.25` if it has one. It can
be cut short behind any of its parts.

* `Moment` — the parts, and the base that the last one is counted in;
* `Moment.ofText?` — a moment out of text;
* `Moment.countIn` — how many units there are between the beginning of 1970 and a moment. -/

namespace StridedArray

structure Moment where
  year : Int
  month : Nat := 1
  day : Nat := 1
  /-- Seconds since the beginning of the day. -/
  seconds : Nat := 0
  /-- Parts of a second that there are `10 ^ 18` of. -/
  attos : Nat := 0
  /-- The base of the last part that is written. -/
  finest : TimeBase := .year

namespace Moment

def isLeap (year : Int) : Bool :=
  decide (year % 4 = 0) && (decide (year % 100 ≠ 0) || decide (year % 400 = 0))

def daysOfMonth (year : Int) (month : Nat) : Nat :=
  if month = 2 then (if isLeap year then 29 else 28)
  else if [4, 6, 9, 11].contains month then 30 else 31

def daysBeforeYear (year : Int) : Int :=
  365 * year + (year + 3) / 4 - (year + 99) / 100 + (year + 399) / 400

def days (m : Moment) : Int :=
  let months := (List.range (m.month - 1)).foldl (fun n i => n + daysOfMonth m.year (i + 1)) 0
  daysBeforeYear m.year - daysBeforeYear 1970 + months + m.day - 1

/-! ## Reading -/

def twoDigits? (greatest : Nat) : List Char → Option (Nat × List Char)
  | a :: b :: rest =>
    let n := Text.digitsValue [a, b]
    if a.isDigit && b.isDigit && decide (n ≤ greatest) then some (n, rest) else none
  | _ => none

/-- The base of the last of so many decimal places of a second. -/
def baseOfPlaces (places : Nat) : TimeBase :=
  if places ≤ 3 then .milli
  else if places ≤ 6 then .micro
  else if places ≤ 9 then .nano
  else if places ≤ 12 then .pico
  else if places ≤ 15 then .femto
  else .atto

def mostPlaces : Nat := 18

def readFraction? (m : Moment) : List Char → Option (Moment × List Char)
  | '.' :: rest =>
    let digits := rest.takeWhile Char.isDigit
    if mostPlaces < digits.length then none
    else
      let attos := Text.digitsValue digits * Nat.pow 10 (mostPlaces - digits.length)
      some ({ m with attos, finest := baseOfPlaces digits.length }, rest.dropWhile Char.isDigit)
  | rest => some (m, rest)

def readTime? (m : Moment) (cs : List Char) : Option (Moment × List Char) := do
  let (hours, rest) ← twoDigits? 23 cs
  let m := { m with seconds := 3600 * hours, finest := .hour }
  let ':' :: rest := rest | some (m, rest)
  let (minutes, rest) ← twoDigits? 59 rest
  let m := { m with seconds := m.seconds + 60 * minutes, finest := .minute }
  let ':' :: rest := rest | some (m, rest)
  let (seconds, rest) ← twoDigits? 59 rest
  readFraction? { m with seconds := m.seconds + seconds, finest := .second } rest

def readDay? (m : Moment) (cs : List Char) : Option Moment := do
  let (day, rest) ← twoDigits? (daysOfMonth m.year m.month) cs
  if day = 0 then none
  let m := { m with day, finest := .day }
  match rest with
  | [] => some m
  | c :: rest =>
    if c ≠ 'T' ∧ c ≠ ' ' then none
    let (m, rest) ← readTime? m rest
    let rest := match rest with
      | 'Z' :: rest => rest
      | rest => rest
    if rest.all Text.isPlainBlank then some m else none

def readMonth? (m : Moment) (cs : List Char) : Option Moment := do
  let (month, rest) ← twoDigits? 12 cs
  if month = 0 then none
  let m := { m with month, finest := .month }
  match rest with
  | [] => some m
  | '-' :: rest => readDay? m rest
  | _ => none

def ofText? (s : String) : Option Moment := do
  let cs := s.toList.dropWhile Text.isPlainBlank
  let (negative, rest) := match cs with
    | '-' :: rest => (true, rest)
    | rest => (false, rest)
  let digits := rest.takeWhile Char.isDigit
  if digits.isEmpty then none
  let m : Moment := { year := Binary64.signed negative (Text.digitsValue digits) }
  match rest.dropWhile Char.isDigit with
  | [] => some m
  | '-' :: rest => readMonth? m rest
  | _ => none

/-! ## Counting -/

/-- How many of a base there are between the beginning of 1970 and a moment, what is left over being
    dropped. -/
def countInBase (m : Moment) (base : TimeBase) : Int :=
  let seconds := 86400 * m.days + m.seconds
  let parts := fun (places : Nat) =>
    seconds * Nat.pow 10 places + m.attos / Nat.pow 10 (mostPlaces - places)
  match base with
  | .year => m.year - 1970
  | .month => 12 * (m.year - 1970) + m.month - 1
  | .week => m.days / 7
  | .day | .generic => m.days
  | .hour => seconds / 3600
  | .minute => seconds / 60
  | .second => seconds
  | .milli => parts 3
  | .micro => parts 6
  | .nano => parts 9
  | .pico => parts 12
  | .femto => parts 15
  | .atto => parts 18

def countIn (m : Moment) (unit : TimeUnit) : Int :=
  let n := m.countInBase unit.base
  if 1 < unit.count then n / unit.count else n

end Moment

end StridedArray
