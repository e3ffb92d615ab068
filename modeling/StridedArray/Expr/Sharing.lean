import Std.Data.HashMap
import StridedArray.Expr.Equality

/-! # Work that is done once for every operand

Expressions use operands many times over, so that what goes through all occurrences may take much
longer than what goes through all nodes.

* `Expr.fingerprint` — a number by which expressions are filed;
* `Expr.Memory`, `Expr.remember` — results met so far. Each carries the proof that it is the result, so
  that what is computed with a memory is right by construction;
* `Expr.foldUp` — a function computed from the leaves upwards; `Expr.foldUpShared` — the same with a
  memory, `foldUpShared_eq`. -/

namespace StridedArray.Expr

/-! ## Filing -/

def scalarMark : Scalar → UInt64
  | .bool b => if b then 3 else 5
  | .int n => mixHash 7 (hash n)
  | .float x => mixHash 11 x.toBits
  | .nan negative fraction => mixHash (if negative then 13 else 17) (hash fraction)

/-- A number made of the upper levels of an expression. Equal expressions have the same one; different
    ones mostly do not. -/
def fingerprint : Nat → Expr → UInt64
  | 0, _ => 1
  | depth + 1, e =>
    let below := e.operands.foldl (fun h x => mixHash h (fingerprint depth x)) (hash e.operation)
    match e with
    | const _ value number => mixHash below (mixHash (scalarMark value) (hash number))
    | special name extent number =>
      mixHash below (mixHash (hash name) (mixHash (hash extent) (hash number)))
    | accessor slot _ _ _ => mixHash below (hash slot)
    | load slot _ _ => mixHash below (hash slot)
    | reduce _ _ _ extent => mixHash below (hash extent)
    | _ => below

def fingerprintDepth : Nat := 5

/-! ## Memory -/

section Memory

variable {β : Type} (f : Expr → β)

/-- The result of a function on an expression. -/
structure Solved (e : Expr) where
  result : β
  eq_result : result = f e

abbrev Memory := Std.HashMap UInt64 (List ((e : Expr) × Solved f e))

def found? (e : Expr) : List ((e : Expr) × Solved f e) → Option (Solved f e)
  | [] => none
  | ⟨known, solved⟩ :: rest =>
    if same : known = e then some (same ▸ solved) else found? e rest

/-- The result for an expression: what the memory holds, or what is found out now. -/
def remember (e : Expr) (solve : Unit → StateM (Memory f) (Solved f e)) :
    StateM (Memory f) (Solved f e) := do
  let mark := fingerprint fingerprintDepth e
  if let some solved := found? f e ((← get).getD mark []) then return solved
  let solved ← solve ()
  modify fun memory => memory.insert mark (⟨e, solved⟩ :: memory.getD mark [])
  return solved

end Memory

/-! ## Upwards -/

section Upwards

variable {β : Type} (step : Expr → List β → β)

/-- A function computed from the leaves upwards: of every node and the results for its operands. -/
def foldUp : Expr → β
  | e@(const ..) => step e []
  | e@(special ..) => step e []
  | e@(accessor _ _ _ index) => step e [foldUp index]
  | e@(load _ _ index) => step e [foldUp index]
  | e@(unary _ _ a) => step e [foldUp a]
  | e@(binary _ _ a b) => step e [foldUp a, foldUp b]
  | e@(select _ condition a b) => step e [foldUp condition, foldUp a, foldUp b]
  | e@(reduce _ _ body _) => step e [foldUp body]

def foldUpRemembering (e : Expr) :
    StateM (Memory (foldUp step)) (Solved (foldUp step) e) :=
  remember (foldUp step) e fun _ =>
    match e with
    | const kind value number => pure ⟨step (const kind value number) [], rfl⟩
    | special name extent number => pure ⟨step (special name extent number) [], rfl⟩
    | accessor slot kind layout index => do
      let x ← foldUpRemembering index
      pure ⟨step (accessor slot kind layout index) [x.result], by rw [x.eq_result]; rfl⟩
    | load slot kind index => do
      let x ← foldUpRemembering index
      pure ⟨step (load slot kind index) [x.result], by rw [x.eq_result]; rfl⟩
    | unary op kind a => do
      let x ← foldUpRemembering a
      pure ⟨step (unary op kind a) [x.result], by rw [x.eq_result]; rfl⟩
    | binary op kind a b => do
      let x ← foldUpRemembering a
      let y ← foldUpRemembering b
      pure ⟨step (binary op kind a b) [x.result, y.result], by
        rw [x.eq_result, y.eq_result]; rfl⟩
    | select kind condition a b => do
      let c ← foldUpRemembering condition
      let x ← foldUpRemembering a
      let y ← foldUpRemembering b
      pure ⟨step (select kind condition a b) [c.result, x.result, y.result], by
        rw [c.eq_result, x.eq_result, y.eq_result]; rfl⟩
    | reduce op kind body extent => do
      let x ← foldUpRemembering body
      pure ⟨step (reduce op kind body extent) [x.result], by rw [x.eq_result]; rfl⟩

/-- The function, operands that occur several times being gone through once. Equal operands are made
    one object first. -/
def foldUpShared (e : Expr) : β :=
  ((foldUpRemembering step (ShareCommon.shareCommon' e)).run {}).1.result

theorem foldUpShared_eq (e : Expr) : foldUpShared step e = foldUp step e :=
  ((foldUpRemembering step e).run {}).1.eq_result

end Upwards

end StridedArray.Expr
