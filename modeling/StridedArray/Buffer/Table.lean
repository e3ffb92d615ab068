import StridedArray.Failure

/-! # Tables of counted slots

An executor keeps its buffers in a table of slots with reference counts. Callers hold handles: the
owner of the table and the number of the slot. Numbers are never used twice, so a handle outlives its
slot without ever meaning another one.

* `Handle`, `Slot`, `Table` — the data; what a slot holds is a parameter;
* `lookup` — the slot of a handle; `allocate`, `retain`, `release` — counting;
* `live` — the number of slots in use. -/

namespace StridedArray

structure Handle where
  owner : Nat
  slot : Nat
  deriving DecidableEq, Repr

/-- What is passed where a handle is expected. -/
inductive HandleArgument
  | handle (h : Handle)
  /-- Something else, by the name of its form. -/
  | other (typeName : String)

instance : Coe Handle HandleArgument := ⟨.handle⟩

def HandleArgument.require : HandleArgument → Except Failure Handle
  | .handle h => pure h
  | .other typeName => throw (.kind (.notAHandle typeName))

structure Slot (σ : Type) where
  size : Nat
  refcount : Nat
  content : σ

/-- A table of slots, numbered in order of allocation. A slot that was given back stays empty. -/
structure Table (σ : Type) where
  owner : Nat
  /-- The executor that the table belongs to, as messages show it. -/
  shown : String
  slots : Array (Option (Slot σ)) := #[]

def Handle.text (h : Handle) : String := s!"BufferHandle(slot={h.slot})"

namespace Table

variable {σ : Type}

def slot? (t : Table σ) (n : Nat) : Option (Slot σ) := (t.slots[n]?).join

def lookup (t : Table σ) (h : Handle) : Except Failure (Slot σ) :=
  if h.owner ≠ t.owner then throw (.execution (.foreignHandle h.slot t.shown))
  else
    match t.slot? h.slot with
    | some s => pure s
    | none => throw (.lifetime .released h.slot)

def resolve (t : Table σ) (given : HandleArgument) : Except Failure (Handle × Slot σ) := do
  let h ← given.require
  return (h, ← t.lookup h)

def live (t : Table σ) : Nat := t.slots.toList.countP Option.isSome

def put (t : Table σ) (n : Nat) (entry : Option (Slot σ)) : Table σ :=
  { t with slots := t.slots.setIfInBounds n entry }

def allocate (t : Table σ) (size : Nat) (content : σ) : Handle × Table σ :=
  (⟨t.owner, t.slots.size⟩, { t with slots := t.slots.push (some ⟨size, 1, content⟩) })

def skip (t : Table σ) : Table σ := { t with slots := t.slots.push none }

def retain (t : Table σ) (h : Handle) : Except Failure (Table σ) := do
  let s ← t.lookup h
  return t.put h.slot (some { s with refcount := s.refcount + 1 })

def release (t : Table σ) (h : Handle) : Except Failure (Table σ) := do
  let s ← t.lookup h
  if s.refcount = 1 then return t.put h.slot none
  return t.put h.slot (some { s with refcount := s.refcount - 1 })

def refcount (t : Table σ) (h : Handle) : Except Failure Nat := Slot.refcount <$> t.lookup h

def size (t : Table σ) (h : Handle) : Except Failure Nat := Slot.size <$> t.lookup h

def modifyContent (t : Table σ) (n : Nat) (f : σ → σ) : Table σ :=
  match t.slot? n with
  | some s => t.put n (some { s with content := f s.content })
  | none => t

end Table

/-- The memory of the machine. There is no room for a block of `limit` bytes or more, but there is
    for as many integers as 32 bits count from zero. -/
class Room where
  limit : Int
  ample : Element.int32.itemSize * 0x80000000 < limit

/-- A machine with 64 GiB. What is proved holds of all others as well. -/
instance : Room := ⟨0x1000000000, by decide⟩

def initialBytes (size : Int) (initial : Option (Array UInt8)) : Except Failure (Array UInt8) :=
  if size < 0 then throw (.execution (.negativeAllocation size))
  else
    match initial with
    | none => pure (Array.replicate size.toNat 0)
    | some bytes =>
      if (bytes.size : Int) = size then pure bytes
      else throw (.execution (.initialSize bytes.size size))

end StridedArray
