import StridedArray.Failure
import StridedArray.Text.Numeral

/-! # Units of dates and durations

Dates and durations are counted in a unit: a base, such as days or seconds, taken so many times. A unit
is written in brackets behind the name of a type, `[s]`, `[25us]` or `[D/24]`. What is written as a part
of a base is brought to a finer base that the part is a multiple of.

* `TimeBase` — the bases, with `text` and `ofText?`; `TimeBase.finer` — the finer bases and how many of
  them make one;
* `leadingInteger?` — the integer at the front of a text;
* `TimeUnit` — a base and a count, with `text`; `TimeUnit.divided` — a part of a unit;
  `TimeUnit.ofSuffix` — as it stands behind the name of a type. -/

namespace StridedArray

/-- What dates and durations are counted in. The generic base leaves it open. -/
inductive TimeBase
  | year
  | month
  | week
  | day
  | hour
  | minute
  | second
  | milli
  | micro
  | nano
  | pico
  | femto
  | atto
  | generic
  deriving DecidableEq, Repr

namespace TimeBase

def table : List (TimeBase × String) :=
  [(year, "Y"), (month, "M"), (week, "W"), (day, "D"), (hour, "h"), (minute, "m"), (second, "s"),
   (milli, "ms"), (micro, "us"), (nano, "ns"), (pico, "ps"), (femto, "fs"), (atto, "as"),
   (generic, "generic")]

def text (b : TimeBase) : String := (table.lookup b).getD ""

def ofText? (s : String) : Option TimeBase :=
  if s = "μs" then some micro else (table.find? (·.2 == s)).map (·.1)

/-- Finer bases with the number of them that makes one. Months and years are taken to have an even number
    of days. The last way for weeks is none at all. -/
def finer : TimeBase → List (Int × TimeBase)
  | year => [(12, month), (52, week), (365, day)]
  | month => [(4, week), (30, day), (720, hour)]
  | week => [(7, day), (168, hour), (10080, minute), (0, year)]
  | day => [(24, hour), (1440, minute), (86400, second)]
  | hour => [(60, minute), (3600, second)]
  | minute => [(60, second), (60000, milli)]
  | second => [(1000, milli), (1000000, micro)]
  | milli => [(1000, micro), (1000000, nano)]
  | micro => [(1000, nano), (1000000, pico)]
  | nano => [(1000, pico), (1000000, femto)]
  | pico => [(1000, femto), (1000000, atto)]
  | femto => [(1000, atto)]
  | atto => []
  | generic => []

theorem ofText?_text (b : TimeBase) : ofText? b.text = some b := by
  cases b <;> decide

end TimeBase

def leadingInteger? (cs : List Char) : Option (Int × List Char) :=
  let (negative, rest) := Text.splitSign (cs.dropWhile Text.isPlainBlank)
  let digits := rest.takeWhile Char.isDigit
  if digits.isEmpty then none
  else some (Binary64.signed negative (Text.digitsValue digits), rest.dropWhile Char.isDigit)

def greatestSize : Int := 0x7fffffff

structure TimeUnit where
  count : Int
  base : TimeBase
  deriving DecidableEq, Repr

namespace TimeUnit

def generic : TimeUnit := ⟨1, .generic⟩

/-- A unit in brackets. One of a base is written without the number. -/
def text (u : TimeUnit) : String :=
  if u.base = .generic then ""
  else if u.count = 1 then "[" ++ u.base.text ++ "]"
  else "[" ++ toString u.count ++ u.base.text ++ "]"

/-- A part of a unit, in the first finer base that the part is a multiple of. -/
def divided (u : TimeUnit) (parts : Int) : Except Failure TimeUnit :=
  match u.base.finer.find? fun p => decide (p.1 % parts = 0) with
  | some (number, base) => pure ⟨u.count * number.tdiv parts, base⟩
  | none => throw .malformed

def readCount (cs : List Char) : Except Failure (Int × List Char) :=
  match leadingInteger? cs with
  | some (n, rest) => if n < 0 ∨ greatestSize < n then throw .operand else pure (n, rest)
  | none => pure (1, cs)

def ofText (cs : List Char) : Except Failure TimeUnit := do
  let (count, rest) ← readCount cs
  let some base := TimeBase.ofText? (String.ofList (rest.takeWhile (· ≠ '/'))) | throw .operand
  match rest.dropWhile (· ≠ '/') with
  | [] => return ⟨count, base⟩
  | _ :: behind =>
    match leadingInteger? behind with
    | some (parts, []) =>
      if parts = 0 then throw .operand
      else if parts = 1 then return ⟨count, base⟩
      else divided ⟨count, base⟩ parts
    | _ => throw .operand

/-- A unit as it stands behind the name of a type: nothing, or something in brackets. -/
def ofSuffix : List Char → Except Failure TimeUnit
  | [] => pure generic
  | '[' :: cs =>
    let inside := cs.takeWhile (· ≠ ']')
    match cs.dropWhile (· ≠ ']') with
    | [_] => if inside.isEmpty then throw .operand else ofText inside
    | _ => throw .operand
  | _ => throw .operand

end TimeUnit

end StridedArray
