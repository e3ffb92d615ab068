import StridedArray.Executor
import StridedArray.Proofs.Kernel.Accepted
import StridedArray.Proofs.Kernel.Host
import StridedArray.Proofs.Lanes.Failures

/-! # The bytes of an output

One output of an accepted kernel, computed element by element by the host and for all positions at once
by the deferred executor.

* `Expr.Portable` — what is asked of the kinds, layouts and reductions of an expression;
* `Accepted.served`, `Accepted.prepared` — acceptance gives the simulation what it needs;
* `lanes_ok` — the values at all positions of an output; `outputBytes_agree` — its bytes. -/

namespace StridedArray

open StridedArray.Expr (Addressed Every Integral Served SmallBuffers Typed Unfailing readLanes)

/-- An expression of integers and truth values only, whose layouts can be addressed in 32 bits and whose
    reductions have positions. -/
structure Expr.Portable (e : Expr) : Prop where
  typed : Typed e
  integral : Integral e
  addressed : Addressed e
  /-- The lowest view of every layout has a valid range for each of its axes. -/
  ranked : Every (fun node => ∀ slot kind layout index, node = .accessor slot kind layout index →
    layout.base.ranges.length = layout.base.shape.length) e
  several : Every (fun node => ∀ op kind body extent, node = .reduce op kind body extent → 1 ≤ extent) e

namespace Expr

theorem portable_special (name : String) (extent : Int) : Portable (.special name extent) where
  typed := every_special.2 trivial
  integral := every_special.2 nofun
  addressed := every_special.2 nofun
  ranked := every_special.2 nofun
  several := every_special.2 nofun

theorem portable_const (n : Int) (word : Word n) : Portable (.const .int32 (.int n)) where
  typed := every_const.2 ⟨n, rfl, word⟩
  integral := every_const.2 nofun
  addressed := every_const.2 nofun
  ranked := every_const.2 nofun
  several := every_const.2 nofun

theorem Portable.accessor {index : Expr} (portable : index.Portable) (whole : index.kind = .int32)
    {kind : Element} (integral : kind ≠ .float32) {layout : Layout} (addressable : layout.Addressable)
    (ranks : layout.base.ranges.length = layout.base.shape.length) (slot : Int) :
    (accessor slot kind layout index).Portable where
  typed := every_accessor.2 ⟨portable.typed, whole⟩
  integral := every_accessor.2 ⟨portable.integral, integral⟩
  addressed := every_accessor.2 ⟨portable.addressed, by rintro _ _ _ _ ⟨⟩; exact addressable⟩
  ranked := every_accessor.2 ⟨portable.ranked, by rintro _ _ _ _ ⟨⟩; exact ranks⟩
  several := every_accessor.2 ⟨portable.several, nofun⟩

theorem Portable.sum {body : Expr} (portable : body.Portable) (whole : body.kind = .int32) {extent : Int}
    (several : 1 ≤ extent) : (reduce .add .int32 body extent).Portable where
  typed := every_reduce.2 ⟨portable.typed, whole, nofun⟩
  integral := every_reduce.2 ⟨portable.integral, nofun⟩
  addressed := every_reduce.2 ⟨portable.addressed, nofun⟩
  ranked := every_reduce.2 ⟨portable.ranked, nofun⟩
  several := every_reduce.2 ⟨portable.several, by rintro _ _ _ _ ⟨⟩; exact several⟩

end Expr

theorem Accepted.buffer {inputs : List Bytes} {kernel : Kernel} {e node : Expr} {slot : Int}
    (accepted : Accepted (inputs.map Array.size) kernel.kinds e) (member : node ∈ e.postorder)
    (isRead : node.isRead = true) (reads : readSlot? node = some slot) :
    ∃ bytes evaluated, kernel.buffers inputs slot = some (node.kind.decode bytes)
      ∧ checkRead node bytes.size evaluated = .ok () := by
  obtain ⟨size, evaluated, entry, kind, checked⟩ := accepted.reads node member isRead slot reads
  rw [Shape.entry?_map, Option.map_eq_some_iff] at entry
  obtain ⟨bytes, found, rfl⟩ := entry
  exact ⟨bytes, evaluated, buffers_eq kind found, checked⟩

theorem small_buffers {inputs : List Bytes} (few : ∀ bytes ∈ inputs, bytes.size < 0x80000000)
    (kernel : Kernel) : SmallBuffers (kernel.buffers inputs) := by
  intro slot elements known
  rw [kernel.buffers_eq_bind, Option.bind_eq_some_iff] at known
  obtain ⟨kind, -, known⟩ := known
  obtain ⟨bytes, entry, rfl⟩ := Option.map_eq_some_iff.1 known
  obtain ⟨n, -, place⟩ := Option.bind_eq_some_iff.1 entry
  rw [Element.size_decode]
  exact Nat.lt_of_le_of_lt (Nat.div_le_self ..) (few bytes (List.mem_of_getElem? place))

/-- Acceptance gives every node what it needs from outside. -/
theorem Accepted.served [Room] {inputs : List Bytes} {kernel : Kernel} {e : Expr}
    (accepted : Accepted (inputs.map Array.size) kernel.kinds e) (portable : e.Portable)
    (counted : e.Counted) (small : SmallBuffers (kernel.buffers inputs)) :
    Every (Served (readLanes (kernel.buffers inputs)) (kernel.buffers inputs)) e := by
  intro node member
  cases node with
  | accessor slot kind layout index =>
    obtain ⟨bytes, evaluated, buffer, checked⟩ := accepted.buffer member rfl rfl
    have reaches := Layout.reachesInside_of_checkReach (Layout.checkReach_of_checkRead checked)
    rw [← Element.size_decode] at reaches
    intro R C grid v tracks inside
    exact Expr.readsThrough_readLanes (portable.addressed _ member _ _ _ _ rfl)
      (portable.ranked _ member _ _ _ _ rfl) reaches (small _ _ buffer) buffer Element.holds_decode
      (portable.integral _ member) tracks inside
  | load slot kind index =>
    obtain ⟨bytes, -, buffer, -⟩ := accepted.buffer member rfl rfl
    intro elements known
    rw [buffer] at known
    cases known
    exact Element.holds_decode
  | reduce op kind body extent =>
    exact ⟨portable.several _ member _ _ _ _ rfl, counted _ member _ _ _ _ rfl⟩
  | _ => trivial

theorem Element.encode_ok {kind : Element} {x : Scalar} (holds : kind.Holds x) :
    ∃ bytes, kind.encode x = .ok bytes := by
  cases kind with
  | bool => exact ⟨_, rfl⟩
  | int32 =>
    obtain ⟨n, rfl, word⟩ := holds
    exact ⟨_, word.encode⟩
  | float32 =>
    cases x with
    | bool b => cases holds
    | int n => cases holds
    | float x => exact ⟨_, rfl⟩
    | nan negative fraction => exact ⟨_, rfl⟩

theorem Element.encodeAll_ok {kind : Element} {values : Array Scalar} (holds : ∀ x ∈ values, kind.Holds x) :
    ∃ bytes, kind.encodeAll values = .ok bytes := by
  unfold encodeAll
  rw [← Array.foldlM_toList]
  refine foldlM_ok (fun out x member => ?_) #[]
  obtain ⟨bytes, encoded⟩ := encode_ok (holds x (Array.mem_toList_iff.1 member))
  exact ⟨out ++ bytes.toArray, by rw [encoded]; rfl⟩

/-! ## All positions of an output -/

/-- A grid with a row for each position has the values of the positions in its first column. -/
theorem Lanes.Tracks.first_column {l : Lanes} {n i : Nat} {kind : Element} {v : Nat → Nat → Except Failure Scalar}
    (tracks : l.Tracks n 1 kind v) (bound : i < n) : v i 0 = .ok (l.get i 0) ∧ kind.Holds (l.get i 0) := by
  have place : Lanes.Place n 1 i 0 := ⟨Nat.lt_of_lt_of_le bound (Nat.le_max_left ..), by decide⟩
  obtain ⟨x, known, holds, -⟩ := tracks.value i 0 place
  rw [tracks.get_eq (Nat.zero_lt_of_lt bound) Nat.one_pos place known]
  exact ⟨known, holds⟩

/-- The points of an output: a row for each of its positions, and a single column. -/
def outputPoints (n : Nat) : Lanes.Points := ⟨n, 1, fun i _ => atOutput i, fun _ _ => none⟩

def outputLanes (n : Nat) : LaneEnvironment :=
  fun name => if name = outputIndex then some (.ofColumn (Lanes.numbers n)) else none

theorem rowCount_outputLanes (n : Nat) : Expr.rowCount (outputLanes n) = n := by
  rw [Expr.rowCount, outputLanes, if_pos rfl]
  exact Lanes.size_numbers n

/-- Outside of reductions the output index is the only variable, and it numbers the rows. -/
theorem Accepted.bound {inputSizes : List Nat} {kinds : List (Int × Element)} {e : Expr}
    (accepted : Accepted inputSizes kinds e) {n : Nat} (few : n ≤ 0x80000000) (buffers : Buffers) :
    Every (Expr.Bound (outputLanes n) buffers false (outputPoints n)) e := by
  intro node member
  cases node with
  | special name extent d =>
    intro outside
    have output : name = outputIndex :=
      (accepted.indices member).resolve_right fun index => Bool.noConfusion (outside index)
    subst output
    refine ⟨_, if_pos rfl, (Lanes.tracks_ofColumn few).congr fun i j _ => ?_⟩
    rw [Lanes.Points.values, Expr.valueAt, if_neg (by decide)]
    rfl
  | _ => trivial

section Output

variable [Room] {inputs : List Bytes} {kernel : Kernel} {e : Expr}

/-- An expression of an accepted kernel can be evaluated at all positions of an output together. -/
theorem Accepted.prepared (accepted : Accepted (inputs.map Array.size) kernel.kinds e) (portable : e.Portable)
    (counted : e.Counted) (small : SmallBuffers (kernel.buffers inputs)) {n : Nat} (few : n ≤ 0x80000000) :
    Expr.Prepared (readLanes (kernel.buffers inputs)) (kernel.buffers inputs) (outputLanes n) false (outputPoints n)
      e where
  typed := portable.typed
  integral := portable.integral
  served := accepted.served portable counted small
  scope := accepted.scope
  bound := accepted.bound few _
  outer _ := ⟨rfl, rowCount_outputLanes n⟩

/-- The values of an output at all positions at once are its values at the single positions. -/
theorem lanes_ok (accepted : Accepted (inputs.map Array.size) kernel.kinds e) (portable : e.Portable)
    (counted : e.Counted) (small : SmallBuffers (kernel.buffers inputs)) {n : Nat} (several : 0 < n)
    (few : n ≤ 0x80000000)
    (unfailing : ∀ i < n, Unfailing (atOutput i) (kernel.buffers inputs) e none) :
    ∃ l, e.lanes (kernel.buffers inputs) n = .ok l ∧ ∀ i < n,
      e.evaluate (atOutput i) (kernel.buffers inputs) = .ok (l.get i 0) ∧ e.kind.Holds (l.get i 0) := by
  obtain ⟨l, evaluated, tracks⟩ := Expr.lanesWith_tracks (accepted.prepared portable counted small few)
    fun i j place => unfailing i (by
      have : i < max n 1 := place.row
      omega)
  refine ⟨l, evaluated, fun i bound => ?_⟩
  obtain ⟨known, holds⟩ := tracks.first_column bound
  exact ⟨(Expr.evaluate_eq_valueAt accepted.scope none).trans known, holds⟩

/-- Both executors compute the same bytes of an output. -/
theorem outputBytes_agree (accepted : Accepted (inputs.map Array.size) kernel.kinds e) (portable : e.Portable)
    (counted : e.Counted) (small : SmallBuffers (kernel.buffers inputs)) (several : 1 ≤ kernel.size)
    (few : kernel.size ≤ 0x80000000)
    (unfailing : ∀ i : Nat, i < kernel.size → Unfailing (atOutput i) (kernel.buffers inputs) e none)
    {job : Job} (same : job.kernel = kernel) :
    ∃ bytes, outputBytes e (kernel.buffers inputs) kernel.size = .ok bytes
      ∧ job.outputBytes (kernel.buffers inputs) e = .ok bytes := by
  obtain ⟨l, evaluated, values⟩ := @lanes_ok _ inputs kernel e accepted portable counted small
    kernel.size.toNat (by omega) (by omega) (fun i bound => unfailing i (by omega))
  -- Both go through the positions in order, and append the bytes of one element at a time.
  have appended : ∀ (out : Bytes) position, position ∈ List.range kernel.size.toNat →
      ∃ next, (do return out ++ (← e.kind.encode (l.get position 0)).toArray : Except Failure Bytes) = .ok next
        ∧ (do return out ++ (← elementBytes e (kernel.buffers inputs) position).toArray) = .ok next := by
    intro out position member
    obtain ⟨value, holds⟩ := values position (List.mem_range.1 member)
    obtain ⟨bytes, encoded⟩ := Element.encode_ok holds
    refine ⟨out ++ bytes.toArray, by rw [encoded]; rfl, ?_⟩
    unfold elementBytes
    rw [value, ok_bind, encoded]
    rfl
  obtain ⟨bytes, encoded⟩ := foldlM_ok
    (fun out position member => (appended out position member).imp fun _ => And.left) (#[] : Bytes)
  refine ⟨bytes, ?_, ?_⟩
  · have host := foldlM_ok_congr (fun out position next member step => by
      obtain ⟨_, device, host⟩ := appended out position member
      rw [device] at step
      cases step
      exact host) encoded
    unfold outputBytes
    rw [if_neg (by omega)]
    show Except.mapError whileRunning (List.foldlM _ _ _) = _
    rw [host]
    rfl
  · unfold Job.outputBytes
    rw [same, if_neg (by omega)]
    show (e.lanesShared (kernel.buffers inputs) kernel.size.toNat >>= _) = _
    rw [Expr.lanesShared_eq, evaluated, ok_bind, Element.encodeAll, ← Array.foldlM_toList, Array.toList_map,
      Array.toList_range, List.foldlM_map]
    exact encoded

end Output

end StridedArray
