import StridedArray.Text.Visible

/-! # Texts of tuples, lists and quoted strings

The spelling of compound values inside messages:

* `tuple` — `()`, `(3,)`, `(2, 3)`; `bracketed` — `[]`, `[3]`, `[2, 3]`;
* `quoted` — a string between quotes, with control characters escaped;
* `capitals` — a word whatever the case of its letters; `paddedLeft` — right-aligned columns. -/

namespace StridedArray.Text

def tuple : List String → String
  | [x] => "(" ++ x ++ ",)"
  | xs => "(" ++ ", ".intercalate xs ++ ")"

def bracketed (xs : List String) : String := "[" ++ ", ".intercalate xs ++ "]"

def integers (xs : List Int) : String := tuple (xs.map toString)

def pair (p : Int × Int) : String := integers [p.1, p.2]

def pairs (ps : List (Int × Int)) : String := tuple (ps.map pair)

def truth (b : Bool) : String := if b then "True" else "False"

def hexadecimal (width n : Nat) : String :=
  let digits := Nat.toDigits 16 n
  String.ofList (List.replicate (width - digits.length) '0' ++ digits)

def escaped (quote : Char) (c : Char) : String :=
  if c = quote ∨ c = '\\' then String.ofList ['\\', c]
  else if c = '\n' then "\\n"
  else if c = '\r' then "\\r"
  else if c = '\t' then "\\t"
  else if isVisible c then String.singleton c
  else if c.toNat ≤ 0xff then "\\x" ++ hexadecimal 2 c.toNat
  else if c.toNat ≤ 0xffff then "\\u" ++ hexadecimal 4 c.toNat
  else "\\U" ++ hexadecimal 8 c.toNat

/-- A string in single quotes, or in double quotes if it holds single quotes and no double ones. -/
def quoted (s : String) : String :=
  let cs := s.toList
  let quote := if cs.contains '\'' && !cs.contains '"' then '"' else '\''
  String.singleton quote ++ String.join (cs.map (escaped quote)) ++ String.singleton quote

/-- A letter as a capital, if that is one of the Latin alphabet. Besides the small letters these are the
    ones without a dot and the long ones. -/
def capital (c : Char) : Char :=
  if c = 'ı' then 'I' else if c = 'ſ' then 'S' else c.toUpper

def capitals (s : String) : String := String.ofList (s.toList.map capital)

def paddedLeft (width : Nat) (s : String) : String :=
  String.ofList (List.replicate (width - s.length) ' ') ++ s

end StridedArray.Text
