import StridedArray.Proofs.Executor.Branches
import StridedArray.Proofs.Expr.Computed
import StridedArray.Proofs.Lanes.EmptyViews

/-! # Arrays with empty views

Movements can take an array without elements to one with positions, all of which are padding. The host reads these as
zero. The deferred executor lowers the read when the worker gets to it, and divides by an extent or by a number of
positions that is zero if something constant comes there. Nothing else keeps such an array from being read.

* `Layout.whole` — reading all of a layout; `Layout.Lands.plan_whole` — that is accepted;
* `Layout.Lands.outputBytes_whole`, `Layout.Lands.job_whole_stops` — on the host, and for the deferred executor;
* `Executor.read_moved` — reading through a layout that movements lead to. -/

namespace StridedArray

open Shape (Positive product)
open StridedArray.Expr (Every Formed Plain Scoped outputPosition)

namespace Layout

def whole (kind : Element) (l : Layout) : Expr := .accessor 0 kind l (outputPosition l.size)

theorem scoped_whole (kind : Element) (l : Layout) : Scoped false (l.whole kind) :=
  Expr.scoped_accessor.2 (Expr.scoped_special.2 fun same => absurd same (by decide))

namespace Lands

variable {l : Layout} {count : Int} {kind : Element} {bytes : Bytes} {buffers : Buffers} {elements : Array Scalar}

/-- Reading all of a layout is accepted for a buffer that holds its elements. -/
theorem plan_whole (lands : l.Lands count) (several : 0 < l.size) (held : (bytes.size : Int) = count * kind.itemSize)
    {output : Nat} (fits : (output : Int) = l.size * kind.itemSize) :
    ∃ kinds, Kernel.plan [l.whole kind] [bytes.size] [output] = .ok ⟨[l.whole kind], l.size, kinds⟩
      ∧ kinds.lookup 0 = some kind := by
  have elements : bytes.size % kind.itemSize = 0 := by
    have partly : ((bytes.size % kind.itemSize : Nat) : Int) = 0 := by
      rw [Int.natCast_mod, held, Int.mul_emod_left]
    omega
  have nodes : Every (Expr.Elementary l.size [⟨⟨0, 0⟩, kind, bytes⟩]) (l.whole kind) := by
    refine Expr.every_accessor.2 ⟨Expr.every_special.2 ⟨rfl, rfl⟩, 0, _, rfl, rfl, rfl, rfl, rfl, elements, ?_⟩
    rintro ⟨low, high⟩ announced
    have inside := lands.reachesInside (le_of_eq (Element.count_eq held).symm) low high announced
    dsimp only
    omega
  obtain ⟨kinds, planned, noted⟩ := (Expr.accepted_of_elementary (Int.le_of_lt several) nodes).plan fits
  exact ⟨kinds, planned, noted _ (Expr.self_mem_postorder _) rfl 0 rfl⟩

theorem outputBytes_whole (lands : l.Lands count) (several : 0 < l.size) (buffer : buffers 0 = some elements)
    (enough : count ≤ elements.size) (holds : ∀ x ∈ elements, kind.Holds x) :
    ∃ out, outputBytes (l.whole kind) buffers l.size = .ok out := by
  unfold outputBytes
  simp only [throw_bind, refuse_eq_ok, mapError_eq_ok, Int.not_lt.2 (Int.le_of_lt several), not_false_eq_true, true_and]
  refine foldlM_ok (fun out i member => ?_) #[]
  have bound := List.mem_range.1 member
  obtain ⟨x, read, value⟩ := lands.readAt_ok (p := i) buffer enough holds (Int.natCast_nonneg i) (by omega)
  obtain ⟨encoded, same⟩ := Element.encode_ok value
  refine ⟨out ++ encoded.toArray, ?_⟩
  have evaluated : (l.whole kind).evaluate (atOutput i) buffers = .ok x := by
    rw [Expr.evaluate_eq_valueAt (scoped_whole kind l) none]
    exact read
  rw [elementBytes, evaluated, ok_bind]
  show (do return out ++ (← kind.encode x).toArray : Except Failure Bytes) = _
  rw [same]
  rfl

/-- The worker reads all of a layout, unless a constant is divided by zero. -/
theorem job_whole_stops [Room] (lands : l.Lands count) (several : 0 < l.size)
    (small : ∀ v ∈ l.top :: l.below, product v.shape < 0x80000000) (buffer : buffers 0 = some elements)
    (enough : count ≤ elements.size) (few : elements.size < 0x80000000) (holds : ∀ x ∈ elements, kind.Holds x)
    {job : Job} (size : job.kernel.size = l.size) :
    Stops l.Stuck (fun _ => True) (job.outputBytes buffers (l.whole kind)) := by
  have top : l.size < 0x80000000 := small l.top (List.mem_cons_self ..)
  have read := lands.readLanes_stops several small buffer enough few holds
    (@Lanes.tracks_ofColumn l.size.toNat 1 (by omega)) fun i j p place known => by
      cases known
      have row := place.row
      omega
  have computed : job.outputBytes buffers (l.whole kind)
      = Expr.readLanes buffers 0 kind l (.ofColumn (Lanes.numbers l.size.toNat)) >>= fun out =>
        kind.encodeAll ((Array.range l.size.toNat).map fun i => out.get i 0) := by
    unfold Job.outputBytes
    rw [size, if_neg (by omega)]
    dsimp only
    rw [Expr.lanesShared_eq]
    rfl
  rw [computed]
  refine (read.bind (t := False) fun out tracks => ?_).imp (by rw [or_false]) fun _ => id
  obtain ⟨w, tracks⟩ := tracks
  refine .of_ok id ?_
  have cells : ∀ x ∈ (Array.range l.size.toNat).map fun i => out.get i 0, kind.Holds x := by
    intro x member
    obtain ⟨i, bound, rfl⟩ := Array.mem_map.1 member
    exact (tracks.first_column (Array.mem_range.1 bound)).2
  obtain ⟨bytes, encoded⟩ := Element.encodeAll_ok cells
  exact ⟨bytes, encoded, trivial⟩

end Lands

end Layout

/-! ## Layouts that movements lead to -/

namespace Executor

variable {x : Host} {y : Deferred} {shape : List Int} {moves : List Move} {l : Layout} {count : Int} {kind : Element}

/-- Both executors accept a read of all of a layout. The host carries it out; the result of the deferred executor can
    be read unless a constant is divided by zero. -/
theorem execute_whole [Room] (lands : l.Lands count) (several : 0 < l.size)
    (small : ∀ v ∈ l.top :: l.below, product v.shape < 0x80000000) (few : count < 0x80000000) (a b : Twin x y)
    (opened : y.closed = false) (held : (a.bytes.size : Int) = count * kind.itemSize)
    (fits : (b.bytes.size : Int) = l.size * kind.itemSize) :
    (∃ x', (Executor.host x).execute [l.whole kind] [.handle a.onHost] [.handle b.onHost] = (.ok (), .host x'))
    ∧ ∃ y', (Executor.deferred y).execute [l.whole kind] [.handle a.onDevice] [.handle b.onDevice]
        = (.ok (), .deferred y')
      ∧ ((∃ bytes, ((Executor.deferred y').read b.onDevice).1 = .ok bytes) ↔ ¬ l.Stuck) := by
  obtain ⟨kinds, accepted, noted⟩ := lands.plan_whole several held fits
  let kernel : Kernel := ⟨[l.whole kind], l.size, kinds⟩
  have buffer : kernel.buffers [a.bytes] 0 = some (kind.decode a.bytes) := buffers_eq noted rfl
  have elements : ((kind.decode a.bytes).size : Int) = count := by
    rw [Element.size_decode, Element.count_eq held]
  constructor
  · obtain ⟨out, computed⟩ := lands.outputBytes_whole several buffer (le_of_eq elements.symm) Element.holds_decode
    have results : kernel.exprs.mapM (fun e => outputBytes e (kernel.buffers [a.bytes]) kernel.size) = .ok [out] :=
      mapM_eq_ok.2 (.cons computed .nil)
    have executed := Host.execute_of_plan (@plan_host _ x y [a] [b] kernel _ rfl accepted)
    rw [show ([a].map Twin.hostSlot).map (fun b => b.2.content) = [a.bytes] from rfl, results] at executed
    exact ⟨_, executed⟩
  · obtain ⟨y', executed, readable⟩ := @Deferred.execute_readable_iff _ x y [a] [b] kernel _ opened rfl accepted
    refine ⟨y', executed, ?_⟩
    have known : Noted ([a].map fun b => b.bytes.size) kernel.kinds := (accepted_of_plan accepted).2.1
    have job := lands.job_whole_stops several small buffer (le_of_eq elements.symm) (by omega) Element.holds_decode
      (show (jobOf kernel [a] [b]).kernel.size = l.size from rfl)
    rw [readable b (List.mem_singleton_self b), Job.run_ok_iff, mapM_ok_iff, buffers_jobOf known]
    show (∀ e ∈ [l.whole kind], _) ↔ _
    rw [List.forall_mem_singleton]
    exact job.ok_iff

/-- Reading through a layout that movements lead to, which has positions and whose views have less than `2 ^ 31` each.
    Its address and the read are built for the deferred executor unless a constant would be divided by zero, which
    never happens where no view is empty. The read is zero for padding on the host. Unless an axis of extent 1 was lost
    on the way that hides something, so is what was built, and both executors accept a read of all positions; the host
    carries it out, and on the deferred executor its result can be read just if the read is built. -/
theorem read_moved [Room] (made : (Layout.ofShape shape >>= fun start => start.runAll moves) = .ok l)
    (natural : ∀ m ∈ moves, m.Natural) (several : 0 < l.size)
    (small : ∀ v ∈ l.top :: l.below, product v.shape < 0x80000000) (kind : Element) :
    let padding := fun (e : Expr) => ∀ (k : Nat) (buffers : Buffers), l.addressFlat k = .ok none →
      e.evaluate (atOutput k) buffers = .ok kind.zero
    let covered := (Layout.rowMajor shape).Covered moves
    ((∀ v ∈ l.top :: l.below, Positive v.shape) → ¬ l.Stuck)
    ∧ Stops l.Stuck (fun _ => True) (l.addressExpr (outputPosition l.size))
    ∧ (∀ slot : Int, padding (.accessor slot kind l (outputPosition l.size))
      ∧ Stops l.Stuck (fun low => covered → padding low)
        (Expr.lower (.accessor slot kind l (outputPosition l.size))))
    ∧ (covered → product shape < 0x80000000 → ∀ (x : Host) (y : Deferred) (a b : Twin x y), y.closed = false →
      (a.bytes.size : Int) = product shape * kind.itemSize → (b.bytes.size : Int) = l.size * kind.itemSize →
        (∃ x', (Executor.host x).execute [l.whole kind] [.handle a.onHost] [.handle b.onHost] = (.ok (), .host x'))
        ∧ ∃ y', (Executor.deferred y).execute [l.whole kind] [.handle a.onDevice] [.handle b.onDevice]
            = (.ok (), .deferred y')
          ∧ ((∃ bytes, ((Executor.deferred y').read b.onDevice).1 = .ok bytes) ↔ ¬ l.Stuck)) := by
  obtain ⟨start, fresh, moved⟩ := bind_eq_ok.1 made
  obtain ⟨extents, rfl⟩ := Layout.ofShape_eq_ok.1 fresh
  have lands : (Layout.rowMajor shape).Covered moves → l.Lands (product shape) := fun covered =>
    Layout.lands_runAll (Layout.lands_rowMajor extents) natural covered moved
  -- Whether building stops does not depend on the nodes that are built, so any property of them will do.
  have plain : Plain fun _ => True := fun _ _ _ _ => trivial
  have formed : Formed (fun _ => True) .int32 (outputPosition l.size) :=
    ⟨rfl, Expr.every_special.2 trivial, fun _ _ => trivial⟩
  have scope : Scoped false (outputPosition l.size) := Expr.scoped_special.2 fun same => absurd same (by decide)
  have position : ∀ (k : Nat) (buffers : Buffers),
      (outputPosition l.size).evaluate (atOutput k) buffers = .ok (.int k) := fun k buffers => rfl
  refine ⟨fun positive => ?_, ?_, fun slot => ⟨fun k buffers hidden => ?_, ?_⟩, fun covered few x y a b => ?_⟩
  · rw [Layout.Stuck, Layout.stalls_of_positive positive small]
    exact Bool.false_ne_true
  · exact (Layout.addressExpr_stops plain formed l).imp Iff.rfl fun _ _ => trivial
  · rw [Expr.evaluate_eq_valueAt (Expr.scoped_accessor.2 scope) none]
    exact Layout.readAt_padding hidden
  · have lowered : (outputPosition l.size).lower = .ok (outputPosition l.size) := rfl
    have built := Expr.lower_accessor_stops plain lowered formed slot kind l (fun _ => trivial) trivial
      (fun _ _ _ => trivial)
    refine built.imp Iff.rfl fun low ⟨_, guard⟩ covered k buffers hidden => ?_
    exact (lands covered).guardedLoad_padding several small formed.typed rfl scope guard (position k buffers) hidden
  · exact execute_whole (lands covered) several small few a b

/-- One position of padding in front of nothing, over rows without elements. -/
def paddedNothing : Layout :=
  ⟨{ shape := [1], strides := [0], offset := -1, mask := some [(1, 1)] }, [{ shape := [3, 0], strides := [1, 3] }]⟩

/-- The host reads the padding. The deferred executor accepts the read and then divides by zero. -/
theorem read_moved_paddedNothing :
    let moves : List Move := [.permute [1, 0], .reshape [0], .pad [(1, 0)]]
    let buffers := [#[], bytesOf [7]]
    ((Layout.ofShape [0, 3] >>= fun start => start.runAll moves) = .ok paddedNothing ∧ (∀ m ∈ moves, m.Natural)
      ∧ 0 < paddedNothing.size ∧ ∀ v ∈ paddedNothing.top :: paddedNothing.below, product v.shape < 0x80000000)
    ∧ paddedNothing.addressExpr (outputPosition 1) = .error .divisionByZero
    ∧ (∃ x, (Executor.host (.holding buffers)).execute [paddedNothing.whole .int32] [.handle ⟨0, 0⟩] [.handle ⟨0, 1⟩]
        = (.ok (), .host x))
    ∧ ∃ y, (Executor.deferred (.holding buffers)).execute [paddedNothing.whole .int32] [.handle ⟨0, 0⟩] [.handle ⟨0, 1⟩]
        = (.ok (), .deferred y) ∧ ¬ ∃ bytes, ((Executor.deferred y).read ⟨0, 1⟩).1 = .ok bytes := by
  intro moves buffers
  have made : (Layout.ofShape [0, 3] >>= fun start => start.runAll moves) = .ok paddedNothing := rfl
  have natural : ∀ m ∈ moves, m.Natural := by simp [moves, Move.Natural]
  have small : ∀ v ∈ paddedNothing.top :: paddedNothing.below, product v.shape < 0x80000000 := by decide
  have stuck : paddedNothing.Stuck := by decide
  let nothing : Twin (.holding buffers) (.holding buffers) := .number 0 rfl
  let out : Twin (.holding buffers) (.holding buffers) := .number 1 rfl
  obtain ⟨-, address, -, executed⟩ := read_moved made natural (by decide) small .int32
  obtain ⟨host, y, device, readable⟩ := executed (by decide) (by decide) _ _ nothing out rfl rfl (by
    show ((bytesOf [7]).size : Int) = _
    rw [size_bytesOf]
    rfl)
  refine ⟨⟨made, natural, by decide, small⟩, address.eq_error_iff.2 ⟨stuck, rfl⟩, host, y, device, fun read => ?_⟩
  exact readable.1 read stuck

end Executor

end StridedArray
