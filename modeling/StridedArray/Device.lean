import StridedArray.Failure

/-! # Names of devices

A device is named by its kind, with an index behind a colon if there are several of the kind. Indices
are kept in eight bits, where -1 stands for none.

* `Device`, `Device.text` — a device and its name;
* `Device.ofText` — the device of a name, or what is wrong with the name. -/

namespace StridedArray

structure Device where
  kind : String
  index : Int := -1
  deriving DecidableEq

namespace Device

def isKindLetter (c : Char) : Bool := c.isAlpha || c = '_'

def isIndex (s : List Char) : Bool :=
  !s.isEmpty && s.all Char.isDigit && (s = ['0'] || s.head? ≠ some '0')

def text (d : Device) : String :=
  if d.index = -1 then d.kind else d.kind ++ ":" ++ toString d.index

def indexLimit : Nat := 0x80000000

def readIndex (given : String) (digits : List Char) : Except DeviceFault Int :=
  let n := digits.foldl (fun n c => 10 * n + (c.toNat - '0'.toNat)) 0
  if indexLimit ≤ n then throw (.index (String.ofList digits) given)
  else pure ((n : Int).bmod 0x100)

def known (d : Device) : Except DeviceFault Device :=
  if DeviceFault.kinds.contains d.kind then pure d else throw (.unknown d.kind)

def ofText (s : String) : Except DeviceFault Device :=
  let letters := s.toList.takeWhile isKindLetter
  let rest := s.toList.dropWhile isKindLetter
  if s.isEmpty then throw .empty
  else if letters.isEmpty then throw (.form s)
  else
    match rest with
    | [] => known { kind := String.ofList letters }
    | ':' :: index =>
      if isIndex index then do
        known { kind := String.ofList letters, index := ← readIndex s index }
      else throw (.form s)
    | _ => throw (.form s)

def isAccelerator (d : Device) : Bool := d.kind = "cuda"

end Device

end StridedArray
