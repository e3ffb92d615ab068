import StridedArray.Element.Source

/-! # Names of element types

A type is named by a word such as `int16`, by a letter, by a letter with a width such as `f8`, or as a
date or duration with its unit. Before the short names a mark may stand for the order of bytes. Names
with commas, and names that begin with a number, stand for compound types.

* `formOfLetter?`, `formOfCode?`, `wordTable` — the three ways to name a form;
* `isCompound` — which names are put together from others; `TypeItem`, `splitItem` — their parts;
  `Repetition` — how often a part is taken; `splitItems` — all parts;
* `SourceType.ofName` — the type of a name. -/

namespace StridedArray

/-! ## Forms -/

def formOfLetter? : Char → Option ElementForm
  | '?' => some .bool
  | 'b' => some (.signed 1)
  | 'B' => some (.unsigned 1)
  | 'h' => some (.signed 2)
  | 'H' => some (.unsigned 2)
  | 'i' => some (.signed 4)
  | 'I' => some (.unsigned 4)
  | 'l' | 'q' | 'p' | 'n' => some (.signed 8)
  | 'L' | 'Q' | 'P' | 'N' => some (.unsigned 8)
  | 'e' => some (.floating 2)
  | 'f' => some (.floating 4)
  | 'd' => some (.floating 8)
  | 'g' => some (.floating 16)
  | 'F' => some (.complex 8)
  | 'D' => some (.complex 16)
  | 'G' => some (.complex 32)
  | 'S' | 'a' => some (.bytes 0)
  | 'c' => some (.bytes 1)
  | 'U' => some (.text 0)
  | 'V' => some (.raw 0)
  | 'T' => some .strings
  | 'O' => some .anything
  | 'M' => some (.date .generic)
  | 'm' => some (.duration .generic)
  | _ => none

def formOfCode? (letter : Char) (width : Nat) : Option ElementForm :=
  let among := fun (widths : List Nat) (form : ElementForm) =>
    if widths.contains width then some form else none
  match letter with
  | 'b' => among [1] .bool
  | 'i' => among [1, 2, 4, 8] (.signed width)
  | 'u' => among [1, 2, 4, 8] (.unsigned width)
  | 'f' => among [2, 4, 8, 16] (.floating width)
  | 'c' => among [8, 16, 32] (.complex width)
  | 'O' => among [4, 8] .anything
  | 'M' => among [8] (.date .generic)
  | 'm' => among [8] (.duration .generic)
  | 'S' | 'a' => some (.bytes width)
  | 'U' => if 4 * (width : Int) ≤ greatestSize then some (.text width) else none
  | 'V' => some (.raw width)
  | _ => none

def wordTable : List (String × ElementForm) :=
  [("bool", .bool), ("bool_", .bool), ("int8", .signed 1), ("int16", .signed 2),
   ("int32", .signed 4), ("int64", .signed 8), ("uint8", .unsigned 1), ("uint16", .unsigned 2),
   ("uint32", .unsigned 4), ("uint64", .unsigned 8), ("intp", .signed 8), ("uintp", .unsigned 8),
   ("byte", .signed 1), ("ubyte", .unsigned 1), ("short", .signed 2), ("ushort", .unsigned 2),
   ("intc", .signed 4), ("uintc", .unsigned 4), ("long", .signed 8), ("ulong", .unsigned 8),
   ("longlong", .signed 8), ("ulonglong", .unsigned 8), ("int", .signed 8), ("int_", .signed 8),
   ("uint", .unsigned 8), ("float16", .floating 2), ("float32", .floating 4),
   ("float64", .floating 8), ("float128", .floating 16), ("half", .floating 2),
   ("single", .floating 4), ("double", .floating 8), ("longdouble", .floating 16),
   ("float", .floating 8), ("complex64", .complex 8), ("complex128", .complex 16),
   ("complex256", .complex 32), ("csingle", .complex 8), ("cdouble", .complex 16),
   ("clongdouble", .complex 32), ("complex", .complex 16), ("object", .anything),
   ("object_", .anything), ("bytes", .bytes 0), ("bytes_", .bytes 0), ("str", .text 0),
   ("str_", .text 0), ("unicode", .text 0), ("void", .raw 0)]

def timeForms : List (String × (TimeUnit → ElementForm)) :=
  [("M8", .date), ("m8", .duration), ("datetime64", .date), ("timedelta64", .duration)]

def timeForm? (cs : List Char) : Option (Except Failure ElementForm) :=
  timeForms.findSome? fun (start, form) =>
    if start.toList.isPrefixOf cs then some (form <$> TimeUnit.ofSuffix (cs.drop start.length))
    else none

/-- The width at the front of a text, with blanks and a sign before it, and what follows. Without any
    digits it is zero. -/
def leadingWidth (cs : List Char) : Int × List Char :=
  let (negative, rest) := Text.splitSign (cs.dropWhile Text.isPlainBlank)
  let rest := rest.dropWhile Text.isPlainBlank
  (Binary64.signed negative (Text.digitsValue (rest.takeWhile Char.isDigit)),
    rest.dropWhile Char.isDigit)

def codeForm? : List Char → Except Failure (Option ElementForm)
  | [letter] => pure (formOfLetter? letter)
  | letter :: rest =>
    let (width, behind) := leadingWidth rest
    if width < 0 ∨ greatestSize < width then throw .operand
    else pure (if behind.isEmpty then formOfCode? letter width.toNat else none)
  | [] => pure none

/-! ## Marks of the order of bytes -/

def isOrderMark (c : Char) : Bool := ['<', '>', '=', '|'].contains c

def splitMark : List Char → Option Char × List Char
  | c :: rest => if isOrderMark c then (some c, rest) else (none, c :: rest)
  | [] => (none, [])

/-- The type of a name that is not compound. Words stand alone, without a mark. -/
def SourceType.ofPlainName (cs : List Char) : Except Failure SourceType := do
  let (mark, rest) := splitMark cs
  let typed := fun (form : ElementForm) =>
    SourceType.simple form (mark == some '>' && form.hasByteOrder)
  if rest.isEmpty then throw .operand
  match timeForm? rest with
  | some form => return typed (← form)
  | none =>
    match ← codeForm? rest with
    | some form => return typed form
    | none =>
      match wordTable.lookup (String.ofList cs) with
      | some form => return .simple form false
      | none => throw .operand

/-! ## Parts of compound names -/

def hasOuterComma : Int → List Char → Bool
  | _, [] => false
  | opened, c :: rest =>
    if c = ',' ∧ opened = 0 then true
    else if c = '[' then hasOuterComma (opened + 1) rest
    else if c = ']' then hasOuterComma (opened - 1) rest
    else hasOuterComma opened rest

def startsRepeated : List Char → Bool
  | '(' :: ')' :: _ => true
  | c :: _ => c.isDigit
  | [] => false

def isCompound (cs : List Char) : Bool :=
  startsRepeated cs
    || (match cs with
        | c :: rest => isOrderMark c && startsRepeated rest
        | [] => false)
    || hasOuterComma 0 (cs.drop 1)

/-- One part of a compound name: how often it is taken, and a type with two places for a mark. -/
structure TypeItem where
  first : Option Char
  repetition : List Char
  second : Option Char
  name : List Char

def isRepetitionCharacter (c : Char) : Bool := c = ' ' || c = ',' || c.isDigit

def splitRepetition (cs : List Char) : List Char × List Char :=
  let opened := cs.dropWhile (· = ' ')
  let inside := match opened with
    | '(' :: rest => rest
    | rest => rest
  let closed := inside.dropWhile isRepetitionCharacter
  let behind := match closed with
    | ')' :: rest => rest.dropWhile (· = ' ')
    | rest => rest
  (cs.take (cs.length - behind.length), behind)

def isNameCharacter (c : Char) : Bool := c.isAlphanum || c = '.' || c = '?'

def splitName (cs : List Char) : List Char × List Char :=
  let word := cs.takeWhile isNameCharacter
  let rest := cs.dropWhile isNameCharacter
  let isInside := fun (c : Char) => c.isAlphanum || c = ',' || c = '.'
  match rest with
  | '[' :: more =>
    match more.dropWhile isInside with
    | ']' :: behind => (word ++ '[' :: more.takeWhile isInside ++ [']'], behind)
    | _ => (word, rest)
  | _ => (word, rest)

def splitItem (cs : List Char) : TypeItem × List Char :=
  let (first, cs) := splitMark cs
  let (repetition, cs) := splitRepetition cs
  let (second, cs) := splitMark cs
  let (name, cs) := splitName cs
  (⟨first, repetition, second, name⟩, cs)

namespace TypeItem

/-- The mark of a part. The two marks must not contradict each other. -/
def mark (item : TypeItem) : Except Failure (Option Char) :=
  let plain := fun (c : Char) => if c = '=' then '<' else c
  match item.first, item.second with
  | first, none => pure first
  | none, second => pure second
  | some a, some b => if plain a = plain b then pure (some (plain a)) else throw .malformed

def markedName (item : TypeItem) : Except Failure (List Char) := do
  match ← item.mark with
  | some '>' => return '>' :: item.name
  | _ => return item.name

end TypeItem

/-! ## Repetitions -/

/-- How often a part is taken: so many times, or at the positions of a shape. -/
inductive Repetition
  | count (n : Nat)
  | extents (ns : List Nat)

def trimSpaces (cs : List Char) : List Char :=
  ((cs.dropWhile (· = ' ')).reverse.dropWhile (· = ' ')).reverse

def plainNumber? (cs : List Char) : Option Nat :=
  if cs.isEmpty || !cs.all Char.isDigit then none
  else if cs.head? = some '0' && !cs.all (· = '0') then none
  else some (Text.digitsValue cs)

def splitCommas : List Char → List (List Char)
  | [] => [[]]
  | c :: rest =>
    match splitCommas rest with
    | [] => [[c]]
    | piece :: pieces => if c = ',' then [] :: piece :: pieces else (c :: piece) :: pieces

/-- A repetition out of a text: a number, or numbers with commas, where the last comma may be idle.
    Parentheses may stand around, and have to if there is no number. -/
def Repetition.ofText (cs : List Char) : Except Failure Repetition := do
  let cs := trimSpaces cs
  let enclosed := cs.head? = some '('
  if enclosed != (cs.getLast? = some ')') then throw .illFormed
  let inside := if enclosed then (cs.drop 1).dropLast else cs
  let pieces := (splitCommas inside).map trimSpaces
  match pieces with
  | [piece] =>
    if enclosed && piece.isEmpty then return .extents []
    match plainNumber? piece with
    | some n => return .count n
    | none => throw .illFormed
  | pieces =>
    let pieces := if pieces.getLast? = some [] then pieces.dropLast else pieces
    match pieces.mapM plainNumber? with
    | some ns => return .extents ns
    | none => throw .illFormed

def TypeItem.read (item : TypeItem) : Except Failure (List Char × Option Repetition) := do
  let name ← item.markedName
  if item.repetition.isEmpty then return (name, none)
  return (name, some (← Repetition.ofText item.repetition))

/-- The parts of a compound name, and whether they are divided by commas. The first argument bounds
    their number. -/
def splitItems : Nat → List Char → Except Failure (List (List Char × Option Repetition) × Bool)
  | 0, _ => throw .malformed
  | fuel + 1, cs => do
    let (item, rest) := splitItem cs
    if rest.all Text.isBlank then return ([← item.read], false)
    match rest.dropWhile Text.isBlank with
    | ',' :: more =>
      let part ← item.read
      let next := more.dropWhile Text.isBlank
      if next.isEmpty then return ([part], true)
      let (parts, _) ← splitItems fuel next
      return (part :: parts, true)
    | _ => throw .malformed

namespace SourceType

def mostExtents : Nat := 64

def repeat? (base : SourceType) (extents : List Nat) : Except Failure SourceType :=
  let type := repeated base extents
  if mostExtents < extents.length ∨ extents.any (fun n => decide (greatestSize < n))
      ∨ greatestSize < (extents.foldl (· * ·) 1 : Nat) ∨ greatestSize < type.itemSize then
    throw .malformed
  else pure type

/-- A type taken as often as a repetition says. A number behind a form without a length is the length. -/
def taken (base : SourceType) (r : Repetition) : Except Failure SourceType :=
  match base, r with
  | simple .strings _, _ => throw .operand
  | simple form swapped, .count n =>
    if form.isUnsized then
      let form := form.sized n
      if greatestSize < form.itemSize then throw .malformed else pure (simple form swapped)
    else if n = 1 then pure base
    else repeat? base [n]
  | simple form _, .extents ns =>
    if form.isUnsized then throw .malformed
    else if ns.isEmpty then pure base
    else repeat? base ns
  | base, .count n => if n = 1 then pure base else repeat? base [n]
  | base, .extents ns => if ns.isEmpty then pure base else repeat? base ns

/-- Can a type stand beside others? Text of any length cannot. -/
def isField : SourceType → Bool
  | simple .strings _ => false
  | _ => true

/-- The type of a name. The first argument bounds the depth of compound types. -/
def read : Nat → List Char → Except Failure SourceType
  | 0, _ => throw .operand
  | fuel + 1, cs => do
    if !isCompound cs then return ← ofPlainName cs
    let (parts, divided) ← splitItems (cs.length + 1) cs
    let types ← parts.mapM fun (name, repetition) => do
      let base ← read fuel name
      match repetition with
      | some r => base.taken r
      | none => return base
    match types, divided with
    | [type], false => return type
    | types, _ => if types.all isField then return record types else throw .operand

def ofName (name : String) : Except Failure SourceType := read (name.length + 1) name.toList

end SourceType

end StridedArray
