/-! # Element kinds

Arrays, buffers and expressions hold truth values, 32-bit integers or single-precision numbers.

* `Element` — the three kinds, with `name`, `title`, `itemSize` and `priority`;
* `promote` — the kind of the result of arithmetic: the wider of the two. -/

namespace StridedArray

inductive Element
  | bool
  | int32
  | float32
  deriving DecidableEq, Repr, Inhabited

namespace Element

def name : Element → String
  | .bool => "bool"
  | .int32 => "int32"
  | .float32 => "float32"

def title : Element → String
  | .bool => "Bool"
  | .int32 => "Int32"
  | .float32 => "Float32"

def text (e : Element) : String := "DType." ++ e.title

def itemSize : Element → Nat
  | .bool => 1
  | .int32 => 4
  | .float32 => 4

def priority : Element → Nat
  | .bool => 0
  | .int32 => 1
  | .float32 => 2

def all : List Element := [.bool, .int32, .float32]

def ofName? (s : String) : Option Element := all.find? (·.name == s)

def promote (a b : Element) : Element := if b.priority ≤ a.priority then a else b

theorem itemSize_pos (e : Element) : 0 < e.itemSize := by cases e <;> decide

@[simp] theorem promote_self (e : Element) : promote e e = e := by cases e <;> rfl

theorem promote_comm (a b : Element) : promote a b = promote b a := by
  cases a <;> cases b <;> rfl

end Element

end StridedArray
