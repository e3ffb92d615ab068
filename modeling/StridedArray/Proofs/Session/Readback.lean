import StridedArray.Proofs.Session.Operands
import StridedArray.Tensor.Readback

/-! # Reading arrays of numbers

An array whose layout is that of its buffer is read at once, and every other one through a copy. Both give what the
layout addresses.

* `runs_compact` — a copy holds what the layout shows; `runs_hostBytes` — so do the bytes that are read, in both ways;
* `runs_contents` — the contents of an array are the elements that its layout addresses. -/

namespace StridedArray.Session

open Layout (rowMajor)
open Shape (Inside product ravel unravel)

variable {s : Session} {owner : Nat} {r : TensorRef} {t : Tensor} {bytes : Bytes}

/-! ## Copies -/

/-- A copy of an array has a buffer of its own, and holds what the layout shows. -/
theorem runs_compact [Room] {z : Host} (has : s.HasHost owner z) (known : s.tensors[r.number]? = some t)
    (carries : s.Carries owner t bytes) (contained : t.layout.Contained (bytes.size / t.kind.itemSize : Nat))
    (small : product t.shape < 0x80000000) :
    ∃ copied, Runs (compact r) s ⟨s.tensors.size⟩ (s.withNew owner z t.kind copied (rowMajor t.shape))
      ∧ (s.withNew owner z t.kind copied (rowMajor t.shape)).Filled owner ⟨s.tensors.size⟩ t.kind t.shape
        (t.layout.entry (t.kind.numberAt bytes)) := by
  have natural : ∀ n ∈ t.shape, 0 ≤ n := contained.natural
  have found := @runs_common s owner r t.shape t bytes known carries [] [] .nil (Shape.commonShape_single t.shape)
  obtain ⟨read, tabulates⟩ := @runs_argument s owner r ⟨owner, t.shape, t.kind⟩ t bytes t.layout known carries
    t.layout.stretch_self rfl contained []
  have held : ∀ input ∈ ([] : List Input) ++ [Input.mk t.handle t.kind bytes], s.HasInput owner input := by
    intro input member
    obtain rfl := List.mem_singleton.1 member
    exact ⟨carries.owner, carries.stored⟩
  obtain ⟨copied, runs, filled⟩ := runs_tabulated has natural small held tabulates
  refine ⟨copied, found.bind (read.bind ((runs_ofResult rfl).bind runs)), filled.congr fun index inside => ?_⟩
  obtain ⟨low, _⟩ := inside.ravel_bounds
  rw [Int.toNat_of_nonneg low, inside.unravel_ravel]

/-! ## Bytes that are read -/

/-- What is read of an array begins with the elements that its layout shows, in row-major order. -/
theorem runs_hostBytes [Room] (known : s.tensors[r.number]? = some t) (carries : s.Carries owner t bytes)
    (contained : t.layout.Contained (bytes.size / t.kind.itemSize : Nat)) (small : product t.shape < 0x80000000) :
    ∃ front s', Runs (hostBytes r) s front s' ∧ s.Extends s'
      ∧ (product t.shape).toNat * t.kind.itemSize ≤ front.size
      ∧ ∀ index, Inside index t.shape → (t.kind.decode front)[(ravel index t.shape).toNat]?
        = some (t.kind.number (t.layout.entry (t.kind.numberAt bytes) index)) := by
  have count : 0 ≤ product t.shape := Shape.product_nonneg contained.natural
  -- Elements are found by their numbers, however many there are in all.
  have element : ∀ {front : Bytes} {index : List Int}, Inside index t.shape →
      (product t.shape).toNat * t.kind.itemSize ≤ front.size →
      (t.kind.decode front)[(ravel index t.shape).toNat]?
        = some (t.kind.number (t.kind.numberAt front (ravel index t.shape))) := by
    intro front index inside enough
    obtain ⟨low, high⟩ := inside.ravel_bounds
    have bound : (ravel index t.shape).toNat < front.size / t.kind.itemSize := by
      have whole := (Nat.le_div_iff_mul_le t.kind.itemSize_pos).2 enough
      omega
    have number := Element.getElem?_decode_number carries.whole bound
    rwa [Int.toNat_of_nonneg low] at number
  cases contiguous : t.layout.contiguous with
  | true =>
    have size := contained.size_le_of_contiguous contiguous (Int.natCast_nonneg _)
    have enough : (product t.shape).toNat * t.kind.itemSize ≤ bytes.size := by
      refine (Nat.le_div_iff_mul_le t.kind.itemSize_pos).1 ?_
      exact Int.toNat_le.2 size
    refine ⟨bytes, s, ?_, ⟨id, id⟩, enough, fun index inside => ?_⟩
    · refine (runs_find known).bind ?_
      rw [if_pos contiguous]
      exact carries.stored.runs_readBuffer
    · rw [element inside enough, Layout.entry, Layout.offsetOf?_of_contiguous contiguous inside]
      rfl
  | false =>
    obtain ⟨z, has, -⟩ := carries.stored
    rw [carries.owner] at has
    obtain ⟨copied, copies, u, held, there, here, kind, layout, size, numbers⟩ :=
      runs_compact has known carries contained small
    obtain ⟨s', ends, later⟩ := has.runs_disposeNew t.kind copied (rowMajor t.shape)
    have enough : (product t.shape).toNat * t.kind.itemSize ≤ held.size := by
      have same : (((product t.shape).toNat * t.kind.itemSize : Nat) : Int) = held.size := by
        rw [size, Int.natCast_mul, Int.toNat_of_nonneg count]
      omega
    refine ⟨held, s', ?_, later, enough, fun index inside => ?_⟩
    · refine (runs_find known).bind ?_
      rw [if_neg (by rw [contiguous]; decide)]
      have reads : Runs (do readBuffer (← find ⟨s.tensors.size⟩).handle) _ held _ :=
        (runs_find there).bind here.stored.runs_readBuffer
      exact copies.bind (reads.tryCatch.bind (ends.bind (runs_pure ..)))
    · rw [element inside enough, numbers index inside]

/-! ## Contents -/

/-- The elements of an array are those that its layout shows. -/
theorem runs_contents [Room] (known : s.tensors[r.number]? = some t) (carries : s.Carries owner t bytes)
    (contained : t.layout.Contained (bytes.size / t.kind.itemSize : Nat)) (small : product t.shape < 0x80000000)
    (fits : Contents.fits t.shape t.kind.itemSize = true) :
    ∃ values s', Runs (contents r) s ⟨t.shape, t.kind, values⟩ s' ∧ s.Extends s'
      ∧ values.size = (product t.shape).toNat
      ∧ ∀ index, Inside index t.shape → values[(ravel index t.shape).toNat]?
        = some (t.kind.number (t.layout.entry (t.kind.numberAt bytes) index)) := by
  obtain ⟨front, s', reads, later, enough, elements⟩ := runs_hostBytes known carries contained small
  refine ⟨t.kind.decode (front.take ((product t.shape).toNat * t.kind.itemSize)), s', ?_, later, ?_, ?_⟩
  · refine (runs_live known carries.live).bind (reads.bind ?_)
    rw [fits]
    exact runs_pure ..
  · rw [Element.size_decode, Array.take_eq_extract, Array.size_extract_of_le enough, Nat.sub_zero,
      Nat.mul_div_cancel _ t.kind.itemSize_pos]
  · intro index inside
    obtain ⟨low, high⟩ := inside.ravel_bounds
    rw [Element.getElem?_decode_take enough (by omega), elements index inside]

/-- An array whose shape cannot be on the host is not read, though it is copied. -/
theorem contents_unfit [Room] (known : s.tensors[r.number]? = some t) (carries : s.Carries owner t bytes)
    (contained : t.layout.Contained (bytes.size / t.kind.itemSize : Nat)) (small : product t.shape < 0x80000000)
    (unfit : Contents.fits t.shape t.kind.itemSize = false) :
    ∃ s', (contents r).run.run s = (.error .malformed, s') ∧ s.Extends s' := by
  obtain ⟨front, s', reads, later, -⟩ := runs_hostBytes known carries contained small
  refine ⟨s', ?_, later⟩
  unfold contents
  rw [(runs_live known carries.live).bind_run, reads.bind_run, unfit]
  rfl

/-- As many elements as a shape has positions are known by what is there at each multi-index. -/
theorem values_ext {shape : List Int} {first second : Array Scalar} (natural : ∀ n ∈ shape, 0 ≤ n)
    (firstSize : first.size = (product shape).toNat) (secondSize : second.size = (product shape).toNat)
    (same : ∀ index, Inside index shape → first[(ravel index shape).toNat]? = second[(ravel index shape).toNat]?) :
    first = second := by
  refine Array.ext_getElem? fun k => ?_
  by_cases bound : (k : Int) < product shape
  · have positive := Shape.positive_of_product_pos natural (by omega)
    have here := same _ (Shape.inside_unravel positive (k : Int))
    rwa [Shape.ravel_unravel positive (by omega) bound, Int.toNat_natCast] at here
  · rw [Array.getElem?_eq_none (by omega), Array.getElem?_eq_none (by omega)]

/-- The elements of an array are those of its buffer that the layout addresses, and zero where it addresses none,
    whether the buffer is read at once or through a copy. An array whose shape cannot be on the host is not read. A
    contiguous layout addresses every position by itself, and its buffer is large enough. -/
theorem contents_addressed [Room] (known : s.tensors[r.number]? = some t) (carries : s.Carries owner t bytes)
    (natural : ∀ n ∈ t.shape, 0 ≤ n) (shown : ∀ index offset, t.layout.address index = .ok (some offset) →
      0 ≤ offset ∧ offset < (bytes.size / t.kind.itemSize : Nat))
    (announced : ∀ low high, t.layout.offsetRange? = some (low, high) →
      0 ≤ low ∧ high < (bytes.size / t.kind.itemSize : Nat))
    (small : product t.shape < 0x80000000) :
    (Contents.fits t.shape t.kind.itemSize = true → ∃ values,
      (∃ s', Runs (contents r) s ⟨t.shape, t.kind, values⟩ s' ∧ s.Extends s')
      ∧ (∃ copy copied s', Runs (compact r) s copy copied ∧ Runs (contents copy) copied ⟨t.shape, t.kind, values⟩ s')
      ∧ (values.size : Int) = product t.shape
      ∧ ∀ index, Inside index t.shape → ∃ place, t.layout.address index = .ok place
        ∧ values[(ravel index t.shape).toNat]? = match place with
          | some offset => (t.kind.decode bytes)[offset.toNat]?
          | none => some t.kind.zero)
    ∧ (Contents.fits t.shape t.kind.itemSize = false →
      ∃ s', (contents r).run.run s = (.error .malformed, s') ∧ s.Extends s')
    ∧ (t.layout.contiguous = true → product t.shape ≤ (bytes.size / t.kind.itemSize : Nat)
      ∧ ∀ flat, 0 ≤ flat → flat < product t.shape → t.layout.addressFlat flat = .ok (some flat)) := by
  have contained : t.layout.Contained (bytes.size / t.kind.itemSize : Nat) :=
    ⟨natural, fun index offset inside place => shown index offset (by rw [Layout.address_eq inside, place]), announced⟩
  refine ⟨fun fits => ?_, contents_unfit known carries contained small, fun contiguous =>
    ⟨contained.size_le_of_contiguous contiguous (Int.natCast_nonneg _), fun flat low high =>
      Layout.addressFlat_of_contiguous contiguous natural low high⟩⟩
  obtain ⟨values, s', reads, later, size, elements⟩ := runs_contents known carries contained small fits
  have count : (values.size : Int) = product t.shape := by
    rw [size, Int.toNat_of_nonneg (Shape.product_nonneg natural)]
  refine ⟨values, ⟨s', reads, later⟩, ?_, count, fun index inside => ⟨_, Layout.address_eq inside, ?_⟩⟩
  · obtain ⟨z, has, -⟩ := carries.stored
    rw [carries.owner] at has
    obtain ⟨copied, copies, filled⟩ := runs_compact has known carries contained small
    obtain ⟨u, held, there, here, kind, shape, anchored, numbers⟩ := filled.presents natural
    replace kind : u.kind = t.kind := kind
    replace shape : u.shape = t.shape := shape
    obtain ⟨others, s'', again, -, alike, same⟩ :=
      runs_contents there here anchored.contained (shape ▸ small) (by rwa [shape, kind])
    rw [shape, kind] at again
    rw [shape] at alike same
    -- The copy has the same numbers in order, and elements of these kinds are told by their numbers.
    obtain rfl : values = others := values_ext natural size alike fun index inside => by
      rw [elements index inside, same index inside, numbers index inside, kind]
    exact ⟨_, _, s'', copies, again⟩
  · rw [elements index inside, Layout.entry]
    cases place : t.layout.offsetOf? index with
    | none => exact congrArg some (Element.number_zero carries.whole)
    | some offset =>
      obtain ⟨least, most⟩ := contained.shown index offset inside place
      have number := @Element.getElem?_decode_number t.kind carries.whole bytes offset.toNat (by omega)
      rw [Int.toNat_of_nonneg least] at number
      exact number.symm

/-- Three elements behind a position of padding. -/
theorem contents_addressed_padded :
    ∃ l, (rowMajor [3]).pad [(1, 0)] = .ok l ∧ l.contiguous = false
      ∧ ∃ values s', Runs (contents ⟨0⟩) (alone [7, 8, 9] l) ⟨[4], .int32, values⟩ s'
        ∧ values[0]? = some (.int 0) ∧ values[1]? = some (.int 7) := by
  let l : Layout := ⟨View.create [4] [1] (-1) (some [(1, 4)]), []⟩
  have moved : (rowMajor [3]).pad [(1, 0)] = .ok l := rfl
  have whole := @Layout.anchored_rowMajor [3] (by decide)
  obtain ⟨known, carries⟩ := carries_alone [7, 8, 9] l
  have contained := (whole.pad (by decide) moved).contained
  rw [show product [3] = ((Element.int32.bytesOf [7, 8, 9]).size / Element.int32.itemSize : Nat) by decide] at contained
  obtain ⟨values, ⟨s', reads, -⟩, -, -, elements⟩ := (contents_addressed known carries (by decide)
    (fun _ _ place => contained.address_bounds place) contained.announced (by decide)).1 (by decide)
  refine ⟨l, moved, by decide, values, s', reads, ?_, ?_⟩
  · obtain ⟨place, here, element⟩ := elements [0] (by decide)
    obtain rfl : none = place := Except.ok.inj here
    exact element
  · obtain ⟨place, here, element⟩ := elements [1] (by decide)
    obtain rfl : some 0 = place := Except.ok.inj here
    exact element.trans (by decide)

/-! ## Shapes that cannot be on the host -/

/-- A live array of numbers that shows and announces nothing outside of its buffer, and is not read. -/
def Unread [Room] (s : Session) (r : TensorRef) : Prop :=
  ∃ t bytes, s.tensors[r.number]? = some t ∧ s.Carries 0 t bytes
    ∧ t.layout.Contained (bytes.size / t.kind.itemSize : Nat) ∧ product t.shape < 0x80000000
    ∧ ∀ c s', ¬ Runs (contents r) s c s'

theorem unread_alone [Room] {values shape : List Int} (count : (values.length : Int) = product shape)
    (natural : ∀ n ∈ shape, 0 ≤ n) (small : product shape < 0x80000000)
    (unfit : Contents.fits shape Element.int32.itemSize = false) : Unread (alone values (rowMajor shape)) ⟨0⟩ := by
  obtain ⟨known, carries⟩ := carries_alone values (rowMajor shape)
  have contained := (Layout.anchored_rowMajor natural).contained
  rw [← count, ← count_bytesOf] at contained
  refine ⟨_, _, known, carries, contained, small, fun c s' runs => ?_⟩
  obtain ⟨_, fails, -⟩ := contents_unfit known carries contained small unfit
  rw [runs] at fails
  cases fails

/-- One element in too many axes, and no elements in axes that are too long otherwise. -/
theorem contents_unread :
    Unread (alone [7] (rowMajor (List.replicate 65 1))) ⟨0⟩
      ∧ Unread (alone [] (rowMajor [0, 0x100000000, 0x100000000])) ⟨0⟩ :=
  ⟨unread_alone (by decide) (by decide) (by decide) (by decide),
    unread_alone (by decide) (by decide) (by decide) (by decide)⟩

end StridedArray.Session
