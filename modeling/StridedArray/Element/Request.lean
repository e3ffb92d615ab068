import StridedArray.Element.SourceName

/-! # Asking for a kind

* `KindRequest` — the ways to ask for the kind of elements of a new array;
* `KindRequest.resolve` — the kind that is meant. -/

namespace StridedArray

inductive KindRequest
  /-- Nothing is said. -/
  | unspecified
  /-- The short name of a kind. -/
  | named (name : String)
  /-- The name of an element type of uploaded data. -/
  | source (name : String)

namespace KindRequest

def ofSource (name : String) : Except Failure Element := do (← SourceType.ofName name).element

/-- The kind that is asked for; numbers of single precision if nothing is said. -/
def resolve : KindRequest → Except Failure Element
  | unspecified => pure .float32
  | named name =>
    match Element.ofName? name with
    | some kind => pure kind
    | none => throw .malformed
  | source name => ofSource name

@[simp] theorem resolve_unspecified : resolve unspecified = .ok .float32 := rfl

@[simp] theorem resolve_named (kind : Element) : resolve (named kind.name) = .ok kind := by
  cases kind <;> rfl

end KindRequest

end StridedArray
