import StridedArray.Proofs.Kernel.Inputs
import StridedArray.Proofs.Session.Arrays
import StridedArray.Tensor.Reduction

/-! # Arrays of numbers on the host

Truth values and integers of 32 bits, however an array came to be.

* `Carries` — the bytes of a live array of numbers; `Filled` — its shape and its numbers, if it has all of its
  buffer in row-major order;
* `withNew` — one more array in a buffer of its own; `HasHost.filled_withNew` — it is filled;
* `runs_place_numbers` — uploads make such arrays;
* `runs_runKernel` — and so does an expression over buffers of numbers. -/

namespace StridedArray

open Layout (rowMajor)
open Shape (Inside product ravel unravel)

namespace Session

/-! ## Arrays and their numbers -/

/-- A live array of truth values or integers of a host executor, whose buffer holds the bytes. -/
structure Carries (s : Session) (owner : Nat) (t : Tensor) (bytes : Bytes) : Prop where
  live : t.disposed = false
  whole : t.kind ≠ .float32
  owner : t.handle.owner = owner
  elements : bytes.size % t.kind.itemSize = 0
  stored : s.Stores t.handle 1 bytes

/-- An array of numbers as an upload leaves it: all of its buffer, in row-major order. -/
def Filled (s : Session) (owner : Nat) (r : TensorRef) (kind : Element) (shape : List Int)
    (x : List Int → Int) : Prop :=
  ∃ t bytes, s.tensors[r.number]? = some t ∧ s.Carries owner t bytes ∧ t.kind = kind ∧ t.layout = rowMajor shape
    ∧ (bytes.size : Int) = product shape * kind.itemSize
    ∧ ∀ index, Inside index shape → kind.numberAt bytes (ravel index shape) = x index

variable {s s' : Session} {owner : Nat} {r : TensorRef} {kind : Element} {shape : List Int}
  {x y : List Int → Int}

theorem Carries.later {t : Tensor} {bytes : Bytes} (carries : s.Carries owner t bytes) (later : s.Extends s') :
    s'.Carries owner t bytes :=
  { carries with stored := later.buffers carries.stored }

theorem Filled.congr (filled : s.Filled owner r kind shape x)
    (same : ∀ index, Inside index shape → x index = y index) : s.Filled owner r kind shape y := by
  obtain ⟨t, bytes, known, carries, form, whole, size, numbers⟩ := filled
  exact ⟨t, bytes, known, carries, form, whole, size, fun index inside =>
    (numbers index inside).trans (same index inside)⟩

/-! ## New arrays -/

/-- The session with one more array: a new buffer of a host executor, seen through the layout. -/
def withNew (s : Session) (owner : Nat) (x : Host) (kind : Element) (bytes : Bytes) (layout : Layout) : Session :=
  let s' := s.withHost owner ⟨(x.table.allocate bytes.size bytes).2⟩
  { s' with tensors := s'.tensors.push ⟨⟨owner, x.table.slots.size⟩, layout, kind, false⟩ }

section New

variable {z : Host} {bytes : Bytes} {v : List Int → Int}

theorem HasHost.extends_withNew (has : s.HasHost owner z) (kind : Element) (bytes : Bytes) (layout : Layout) :
    s.Extends (s.withNew owner z kind bytes layout) := by
  constructor
  · intro n t known
    obtain ⟨bound, _⟩ := Array.getElem?_eq_some_iff.1 known
    exact (Array.getElem?_push_lt bound).trans ((Array.getElem?_eq_getElem bound).symm.trans known)
  · intro h held stored
    have kept : (s.withHost owner ⟨(z.table.allocate bytes.size bytes).2⟩).Stores h 1 held :=
      stored.withHost has has.owner fun _ inTable => inTable.allocate ..
    exact kept.samePool rfl

theorem HasHost.hasHost_withNew (has : s.HasHost owner z) (kind : Element) (bytes : Bytes) (layout : Layout) :
    (s.withNew owner z kind bytes layout).HasHost owner ⟨(z.table.allocate bytes.size bytes).2⟩ := by
  have next : (s.withHost owner ⟨(z.table.allocate bytes.size bytes).2⟩).HasHost owner
      ⟨(z.table.allocate bytes.size bytes).2⟩ := has.withHost has.owner
  exact ⟨next.found, next.owner⟩

theorem HasHost.carries_withNew (has : s.HasHost owner z) (whole : kind ≠ .float32)
    (elements : bytes.size % kind.itemSize = 0) (layout : Layout) :
    (s.withNew owner z kind bytes layout).tensors[s.tensors.size]?
        = some ⟨⟨owner, z.table.slots.size⟩, layout, kind, false⟩
      ∧ (s.withNew owner z kind bytes layout).Carries owner ⟨⟨owner, z.table.slots.size⟩, layout, kind, false⟩ bytes := by
  have stored : (s.withHost owner ⟨(z.table.allocate bytes.size bytes).2⟩).Stores
      ⟨owner, z.table.slots.size⟩ 1 bytes :=
    ⟨_, has.withHost has.owner, Table.stores_allocate bytes⟩
  exact ⟨Array.getElem?_push_size .., rfl, whole, rfl, elements, stored.samePool rfl⟩

theorem HasHost.filled_withNew (has : s.HasHost owner z) (whole : kind ≠ .float32)
    (size : (bytes.size : Int) = product shape * kind.itemSize)
    (numbers : ∀ index, Inside index shape → kind.numberAt bytes (ravel index shape) = v index) :
    (s.withNew owner z kind bytes (rowMajor shape)).Filled owner ⟨s.tensors.size⟩ kind shape v := by
  have multiple : (kind.itemSize : Int) ∣ bytes.size := ⟨product shape, by rw [size, Int.mul_comm]⟩
  obtain ⟨known, carries⟩ := has.carries_withNew whole
    (Nat.mod_eq_zero_of_dvd (Int.natCast_dvd_natCast.1 multiple)) (rowMajor shape)
  exact ⟨_, bytes, known, carries, rfl, rfl, size, numbers⟩

theorem HasHost.runs_releaseLast (has : s.HasHost owner z) {slot : Nat}
    (single : z.table.slot? slot = some ⟨bytes.size, 1, bytes⟩) :
    Runs (release ⟨owner, slot⟩) s () (s.withHost owner ⟨z.table.put slot none⟩) := by
  have released : z.table.release ⟨owner, slot⟩ = .ok (z.table.put slot none) := by
    unfold Table.release
    rw [Table.lookup_ok has.owner.symm single]
    rfl
  refine has.runs ?_
  unfold Executor.release Executor.withTable
  simp only [released]
  rfl

theorem HasHost.runs_disposeNew (has : s.HasHost owner z) (kind : Element) (bytes : Bytes) (layout : Layout) :
    ∃ s', Runs (dispose ⟨s.tensors.size⟩) (s.withNew owner z kind bytes layout) () s' ∧ s.Extends s' := by
  have later := has.extends_withNew kind bytes layout
  have here := has.hasHost_withNew kind bytes layout
  have known : (s.withNew owner z kind bytes layout).tensors[(⟨s.tensors.size⟩ : TensorRef).number]?
      = some ⟨⟨owner, z.table.slots.size⟩, layout, kind, false⟩ := Array.getElem?_push_size ..
  have single : (z.table.allocate bytes.size bytes).2.slot? z.table.slots.size = some ⟨bytes.size, 1, bytes⟩ :=
    Table.slot?_allocate_last ..
  generalize s.withNew owner z kind bytes layout = new at later here known
  generalize (z.table.allocate bytes.size bytes).2 = table at here single
  let marked : Session := { new with
    tensors := new.tensors.modify s.tensors.size fun t => { t with disposed := true } }
  have still : marked.HasHost owner ⟨table⟩ := ⟨here.found, here.owner⟩
  refine ⟨marked.withHost owner ⟨table.put z.table.slots.size none⟩, ?_, ?_, ?_⟩
  · have marks : Runs (modify fun s' : Session => { s' with
        tensors := s'.tensors.modify s.tensors.size fun t => { t with disposed := true } }) new () marked := rfl
    exact (runs_live known rfl).bind (marks.bind (still.runs_releaseLast single))
  · intro n t earlier
    obtain ⟨bound, _⟩ := Array.getElem?_eq_some_iff.1 earlier
    exact (Array.getElem?_modify.trans (if_neg (Nat.ne_of_gt bound))).trans (later.arrays earlier)
  · intro h held stored
    have kept : marked.Stores h 1 held := (later.buffers stored).samePool rfl
    refine kept.withHost still here.owner fun same inTable => ?_
    have other : h.slot ≠ z.table.slots.size := by
      intro last
      obtain ⟨w, hasOther, refs, enough, slot⟩ := stored
      rw [same] at hasOther
      obtain rfl := has.unique hasOther
      exact absurd last (Nat.ne_of_lt (Table.slot?_lt slot))
    obtain ⟨refs, enough, slot⟩ := inTable
    exact ⟨refs, enough, (Table.slot?_put_other other _).trans slot⟩

def listed (shape values : List Int) (index : List Int) : Int := values[(ravel index shape).toNat]?.getD 0

theorem numberAt_listed (whole : kind ≠ .float32) {values : List Int} (fits : ∀ n ∈ values, kind.Fits n)
    (count : (values.length : Int) = product shape) {index : List Int} (inside : Inside index shape) :
    kind.numberAt (kind.bytesOf values) (ravel index shape) = listed shape values index := by
  obtain ⟨low, high⟩ := inside.ravel_bounds
  have bound : (ravel index shape).toNat < values.length := by omega
  have number := Element.numberAt_bytesOf fits whole bound
  rw [Int.toNat_of_nonneg low] at number
  rw [number, listed, List.getElem?_eq_getElem bound]
  rfl

end New

/-! ## Single arrays -/

def alone (values : List Int) (layout : Layout) : Session :=
  onHost.withNew 0 (.fresh 0) .int32 (Element.int32.bytesOf values) layout

theorem carries_alone (values : List Int) (layout : Layout) :
    (alone values layout).tensors[0]? = some ⟨⟨0, 0⟩, layout, .int32, false⟩
      ∧ (alone values layout).Carries 0 ⟨⟨0, 0⟩, layout, .int32, false⟩ (Element.int32.bytesOf values) :=
  hasHost_onHost.carries_withNew (by decide) (by rw [Element.size_bytesOf]; exact Nat.mul_mod_left ..) layout

theorem count_bytesOf (values : List Int) :
    (((Element.int32.bytesOf values).size / Element.int32.itemSize : Nat) : Int) = values.length := by
  rw [Element.size_bytesOf, Nat.mul_div_cancel _ Element.int32.itemSize_pos]

theorem filled_alone {values shape : List Int} (words : ∀ n ∈ values, Word n)
    (count : (values.length : Int) = product shape) :
    (alone values (rowMajor shape)).Filled 0 ⟨0⟩ .int32 shape (listed shape values) :=
  hasHost_onHost.filled_withNew (by decide) (by rw [Element.size_bytesOf, ← count, Int.natCast_mul]) fun _ inside =>
    numberAt_listed (by decide) words count inside

/-! ## Uploads -/

def ofNumbers (kind : Element) (shape values : List Int) : Source :=
  ⟨shape, .ofForm (.ofElement kind), values.map fun n => .scalar (kind.number n)⟩

theorem elements_ofNumbers (whole : kind ≠ .float32) {values : List Int} (fits : ∀ n ∈ values, kind.Fits n)
    (shape : List Int) : (ofNumbers kind shape values).elements kind = .ok (values.map kind.number) := by
  show (values.map fun n => Held.scalar (kind.number n)).mapM (Held.store kind) = _
  rw [mapM_eq_ok, List.forall₂_map_left_iff, List.forall₂_map_right_iff, List.forall₂_same]
  intro n member
  cases kind with
  | bool => exact congrArg (Except.ok ∘ Scalar.bool) (Element.truthy_number .bool n)
  | int32 => exact congrArg (Except.ok ∘ Scalar.int) (fits n member).wrap32_eq
  | float32 => exact absurd rfl whole

theorem runs_place_numbers [Room] {z : Host} (has : s.HasHost owner z) (whole : kind ≠ .float32)
    {shape values : List Int} (fits : ∀ n ∈ values, kind.Fits n) (natural : ∀ n ∈ shape, 0 ≤ n)
    (count : (values.length : Int) = product shape) :
    Runs (place (ofNumbers kind shape values) kind owner) s ⟨s.tensors.size⟩
        (s.withNew owner z kind (kind.bytesOf values) (rowMajor shape))
      ∧ (s.withNew owner z kind (kind.bytesOf values) (rowMajor shape)).Filled owner ⟨s.tensors.size⟩ kind shape
        (listed shape values) := by
  have layout : Layout.ofShape shape = .ok (rowMajor shape) := Layout.ofShape_eq_ok.2 ⟨natural, rfl⟩
  constructor
  · exact (runs_ofResult (elements_ofNumbers whole fits shape)).bind
      ((runs_ofResult (Element.encodeAll_numbers fits whole)).bind
        ((runs_allocate_some has (kind.bytesOf values)).bind ((runs_ofResult layout).bind (runs_adopt ..))))
  · exact has.filled_withNew whole (by rw [Element.size_bytesOf, ← count, Int.natCast_mul]) fun index inside =>
      numberAt_listed whole fits count inside

/-! ## Kernels -/

section Kernels

variable {z : Host} {inputs : List Input}

theorem HasHost.runs_zeros [Room] (has : s.HasHost owner z) {size : Int} {zeros : Bytes} (natural : 0 ≤ size)
    (room : size < Room.limit) (blank : zeros = Array.replicate size.toNat 0) :
    Runs (allocate owner size none) s ⟨owner, z.table.slots.size⟩
      (s.withHost owner ⟨(z.table.allocate zeros.size zeros).2⟩) := by
  have made := runs_allocate has natural room
  rwa [← blank, show size.toNat = zeros.size by rw [blank, Array.size_replicate]] at made

theorem HasHost.lookup_inputs (has : s.HasHost owner z)
    (stored : ∀ input ∈ inputs, input.handle.owner = owner ∧ s.Stores input.handle 1 input.bytes) (content : Bytes) :
    ∀ input ∈ inputs, ∃ m, (z.table.allocate content.size content).2.lookup input.handle
      = .ok ⟨input.bytes.size, m, input.bytes⟩ := by
  intro input member
  obtain ⟨same, w, hasInput, m, _, slot⟩ := stored input member
  rw [same] at hasInput
  obtain rfl := has.unique hasInput
  exact ⟨m, Table.lookup_ok (same.trans has.owner.symm) (Table.slot?_allocate _ _ slot)⟩

theorem HasHost.lookup_new (has : s.HasHost owner z) (content : Bytes) :
    (z.table.allocate content.size content).2.lookup ⟨owner, z.table.slots.size⟩ = .ok ⟨content.size, 1, content⟩ :=
  Table.lookup_ok has.owner.symm (Table.slot?_allocate_last ..)

/-- An expression over buffers of numbers makes an array of its values. -/
theorem runs_runKernel [Room] {e : Expr} {v : Nat → Int} (has : s.HasHost owner z)
    (accepted : e.Accepted inputs (product shape)) (whole : e.kind ≠ .float32) (natural : ∀ n ∈ shape, 0 ≤ n)
    (room : product shape * e.kind.itemSize < Room.limit)
    (stored : ∀ input ∈ inputs, input.handle.owner = owner ∧ s.Stores input.handle 1 input.bytes)
    (value : ∀ k : Nat, (k : Int) < product shape →
      e.valueAt (atOutput k) (Input.buffers inputs) none = .ok (e.kind.number (v k)))
    (fits : ∀ k : Nat, (k : Int) < product shape → e.kind.Fits (v k)) :
    ∃ bytes, Runs (runKernel owner e shape (inputs.map Input.handle)) s ⟨s.tensors.size⟩
        (s.withNew owner z e.kind bytes (rowMajor shape))
      ∧ (s.withNew owner z e.kind bytes (rowMajor shape)).Filled owner ⟨s.tensors.size⟩ e.kind shape
        fun index => v (ravel index shape).toNat := by
  have count := Shape.product_nonneg natural
  let size := product shape * e.kind.itemSize
  have least : 0 ≤ size := Int.mul_nonneg count (by omega)
  let zeros : Bytes := Array.replicate size.toNat 0
  have zerosSize : zeros.size = size.toNat := Array.size_replicate
  let numbers := (List.range (product shape).toNat).map v
  have numbersSize : (e.kind.bytesOf numbers).size = size.toNat := by
    rw [Element.size_bytesOf, List.length_map, List.length_range]
    have same : (((product shape).toNat * e.kind.itemSize : Nat) : Int) = size := by
      rw [Int.natCast_mul, Int.toNat_of_nonneg count]
    omega
  let handle : Handle := ⟨owner, z.table.slots.size⟩
  let after : Host := ⟨(z.table.allocate zeros.size zeros).2⟩
  have allocated : Runs (allocate owner size none) s handle (s.withHost owner after) := has.runs_zeros least room rfl
  have here : (s.withHost owner after).HasHost owner after := has.withHost has.owner
  have found := has.lookup_inputs stored zeros
  have output : after.table.lookup handle = .ok ⟨zeros.size, 1, zeros⟩ := has.lookup_new zeros
  -- Overwriting the zeros leaves the table as if the values had been put there in the first place.
  have written : after.table.put handle.slot (some ⟨zeros.size, 1, e.kind.bytesOf numbers⟩)
      = (z.table.allocate (e.kind.bytesOf numbers).size (e.kind.bytesOf numbers)).2 := by
    rw [numbersSize, ← zerosSize]
    exact Table.put_allocate ..
  have executed : Runs (onExecutor owner fun x => x.execute [e]
      ((inputs.map Input.handle).map HandleArgument.handle) [.handle handle]) (s.withHost owner after) ()
      (s.withHost owner ⟨(z.table.allocate (e.kind.bytesOf numbers).size (e.kind.bytesOf numbers)).2⟩) := by
    have work : Runs (onExecutor owner fun x => x.execute [e] (inputs.map fun input => .handle input.handle)
        [.handle handle]) (s.withHost owner after) () ((s.withHost owner after).withHost owner
          ⟨after.table.put handle.slot (some ⟨zeros.size, 1, e.kind.bytesOf numbers⟩)⟩) :=
      here.runs (execute_numbers accepted whole count found output
        (by rw [zerosSize, Int.toNat_of_nonneg least]) value fits)
    rw [withHost_withHost, written] at work
    rwa [List.map_map]
  refine ⟨e.kind.bytesOf numbers, ?_, ?_⟩
  · have layout : Layout.ofShape shape = .ok (rowMajor shape) := Layout.ofShape_eq_ok.2 ⟨natural, rfl⟩
    exact allocated.bind (executed.tryCatch.bind ((runs_ofResult layout).bind (runs_adopt ..)))
  · refine has.filled_withNew whole (by rw [numbersSize, Int.toNat_of_nonneg least]) fun index inside => ?_
    obtain ⟨low, high⟩ := inside.ravel_bounds
    have bound : (ravel index shape).toNat < numbers.length := by
      rw [List.length_map, List.length_range]
      omega
    have room : ∀ n ∈ numbers, e.kind.Fits n := by
      intro n member
      obtain ⟨k, inRange, rfl⟩ := List.mem_map.1 member
      exact fits k (by have := List.mem_range.1 inRange; omega)
    have number := Element.numberAt_bytesOf room whole bound
    rw [Int.toNat_of_nonneg low] at number
    rw [number, List.getElem_map, List.getElem_range]

end Kernels

end Session

end StridedArray
