import StridedArray.Proofs.Expr.Ranges
import StridedArray.Proofs.Kernel.Products

/-! # Elements as numbers

Truth values and 32-bit integers are both numbers for which a kind has room, truth values being 0 and 1.

* `Element.number`, `Element.image` — a number as an element of a kind, and what becomes of a number that
  a kind has no room for;
* `Element.numberAt` — the number at an offset of a buffer; `Element.bytesOf`, `numberAt_bytesOf` — a buffer
  of numbers;
* `foldlM_encode` — numbers are encoded one after the other; `readAt_number` — a read through a layout. -/

namespace StridedArray

open Shape (Inside ravel)

namespace Element

variable {kind other : Element} {n : Int}

/-! ## Numbers -/

def number (n : Int) : Element → Scalar
  | bool => .bool (decide (n ≠ 0))
  | _ => .int n

def image (n : Int) : Element → Int
  | bool => if n = 0 then 0 else 1
  | _ => wrap32 n

theorem fits_image (kind : Element) (n : Int) : kind.Fits (kind.image n) := by
  cases kind with
  | bool =>
    by_cases zero : n = 0
    · exact .inl (if_pos zero)
    · exact .inr (if_neg zero)
  | int32 => exact word_wrap32 n
  | float32 => trivial

theorem Fits.image_eq (fits : kind.Fits n) (whole : kind ≠ .float32) : kind.image n = n := by
  cases kind with
  | bool => rcases fits with rfl | rfl <;> rfl
  | int32 => exact fits.wrap32_eq
  | float32 => exact absurd rfl whole

theorem Fits.promote (fits : kind.Fits n) (other : Element) : (kind.promote other).Fits n := by
  cases kind with
  | bool =>
    cases other with
    | bool => exact fits
    | int32 =>
      rcases fits with rfl | rfl
      · exact (by decide : Word 0)
      · exact (by decide : Word 1)
    | float32 => trivial
  | int32 => cases other <;> first | exact fits | trivial
  | float32 => cases other <;> trivial

theorem promote_whole (left : kind ≠ .float32) (right : other ≠ .float32) :
    Element.promote kind other ≠ .float32 := by
  cases kind <;> cases other <;> first | exact absurd rfl left | exact absurd rfl right | decide

theorem promote_int32 (whole : kind ≠ .float32) : kind.promote .int32 = .int32 := by
  cases kind <;> first | rfl | exact absurd rfl whole

theorem whole?_number (fits : kind.Fits n) : (kind.number n).whole? = some n := by
  cases kind with
  | bool => rcases fits with rfl | rfl <;> rfl
  | int32 => rfl
  | float32 => rfl

theorem truthy_number (kind : Element) (n : Int) : (kind.number n).truthy = decide (n ≠ 0) := by
  cases kind <;> rfl

theorem Holds.eq_number {value : Scalar} (holds : kind.Holds value) (whole : kind ≠ .float32) :
    ∃ n, value = kind.number n ∧ kind.Fits n := by
  cases kind with
  | bool =>
    obtain ⟨b, rfl⟩ := holds
    cases b with
    | false => exact ⟨0, rfl, .inl rfl⟩
    | true => exact ⟨1, rfl, .inr rfl⟩
  | int32 => exact holds
  | float32 => exact absurd rfl whole

theorem number_injective {m : Int} (first : kind.Fits m) (second : kind.Fits n)
    (same : kind.number m = kind.number n) : m = n := by
  have whole := congrArg Scalar.whole? same
  rw [whole?_number first, whole?_number second] at whole
  exact Option.some.inj whole

theorem number_zero (whole : kind ≠ .float32) : kind.number 0 = kind.zero := by
  cases kind with
  | bool => rfl
  | int32 => rfl
  | float32 => exact absurd rfl whole

theorem coerce_number (fits : kind.Fits n) (whole : other ≠ .float32) :
    other.coerce (kind.number n) = .ok (other.number (other.image n)) := by
  cases other with
  | bool =>
    refine congrArg (Except.ok ∘ Scalar.bool) ?_
    rw [truthy_number]
    by_cases zero : n = 0 <;> simp [image, zero]
  | int32 => exact Scalar.coerce_whole (whole?_number fits)
  | float32 => exact absurd rfl whole

/-! ## Buffers of numbers -/

def numberAt (kind : Element) (bytes : Bytes) (offset : Int) : Int :=
  ((kind.decodeAt bytes (offset.toNat * kind.itemSize)).whole?).getD 0

theorem decodeAt_eq_number (whole : kind ≠ .float32) (bytes : Bytes) (offset : Int) :
    kind.decodeAt bytes (offset.toNat * kind.itemSize) = kind.number (kind.numberAt bytes offset)
      ∧ kind.Fits (kind.numberAt bytes offset) := by
  have holds : kind.Holds (kind.decodeAt bytes (offset.toNat * kind.itemSize)) := by
    cases kind with
    | bool => exact ⟨_, rfl⟩
    | int32 => exact ⟨_, rfl, word_wrap32 _⟩
    | float32 => exact absurd rfl whole
  obtain ⟨n, same, fits⟩ := holds.eq_number whole
  have here : kind.numberAt bytes offset = n := by
    rw [numberAt, same, whole?_number fits, Option.getD_some]
  rw [here]
  exact ⟨same, fits⟩

theorem fits_numberAt (whole : kind ≠ .float32) (bytes : Bytes) (offset : Int) :
    kind.Fits (kind.numberAt bytes offset) :=
  (decodeAt_eq_number whole bytes offset).2

theorem getElem?_decode_number (whole : kind ≠ .float32) {bytes : Bytes} {k : Nat}
    (bound : k < bytes.size / kind.itemSize) :
    (kind.decode bytes)[k]? = some (kind.number (kind.numberAt bytes k)) := by
  rw [Array.getElem?_eq_getElem (by rwa [size_decode])]
  refine congrArg some ?_
  simp only [decode, Array.getElem_ofFn]
  exact (decodeAt_eq_number whole bytes k).1

theorem decodeAt_congr {first second : Bytes} {place : Nat}
    (same : ∀ k < kind.itemSize, byteAt first (place + k) = byteAt second (place + k)) :
    kind.decodeAt first place = kind.decodeAt second place := by
  cases kind with
  | bool => exact congrArg (fun b => Scalar.bool (b != 0)) (same 0 (by decide))
  | _ =>
    have word : wordAt first place = wordAt second place := by
      have lowest := same 0 (by decide)
      rw [Nat.add_zero] at lowest
      unfold wordAt
      rw [lowest, same 1 (by decide), same 2 (by decide), same 3 (by decide)]
    simp only [decodeAt, word]

/-- Elements at the front of a buffer do not depend on what is behind them. -/
theorem getElem?_decode_take {count k : Nat} (enough : count * kind.itemSize ≤ bytes.size) (bound : k < count) :
    (kind.decode (bytes.take (count * kind.itemSize)))[k]? = (kind.decode bytes)[k]? := by
  -- Also the last byte of the element is at the front.
  have last : (k + 1) * kind.itemSize ≤ count * kind.itemSize := Nat.mul_le_mul_right _ bound
  have here : k < (bytes.take (count * kind.itemSize)).size / kind.itemSize := by
    rw [Array.take_eq_extract, Array.size_extract_of_le enough, Nat.sub_zero, Nat.mul_div_cancel _ kind.itemSize_pos]
    exact bound
  have whole : k < bytes.size / kind.itemSize := (Nat.le_div_iff_mul_le kind.itemSize_pos).2 (last.trans enough)
  rw [Array.getElem?_eq_getElem (by rwa [size_decode]), Array.getElem?_eq_getElem (by rwa [size_decode])]
  refine congrArg some ?_
  simp only [decode, Array.getElem_ofFn]
  rw [Nat.succ_mul] at last
  refine decodeAt_congr fun place inside => ?_
  have front : k * kind.itemSize + place < count * kind.itemSize := by omega
  simp [byteAt, front, Nat.min_eq_left enough, Array.getElem?_eq_getElem (front.trans_le enough)]

def numberBytes (n : Int) : Element → List UInt8
  | bool => [if n ≠ 0 then 1 else 0]
  | _ => wordBytes (wordOfInt n)

theorem length_numberBytes (kind : Element) (n : Int) : (kind.numberBytes n).length = kind.itemSize := by
  cases kind <;> rfl

theorem encode_number (fits : kind.Fits n) (whole : kind ≠ .float32) :
    kind.encode (kind.number n) = .ok (kind.numberBytes n) := by
  cases kind with
  | bool =>
    show Except.ok [if decide (n ≠ 0) then (1 : UInt8) else 0] = _
    simp only [decide_eq_true_eq, numberBytes]
  | int32 => exact fits.encode
  | float32 => exact absurd rfl whole

theorem decodeAt_numberBytes (fits : kind.Fits n) (whole : kind ≠ .float32) (front rest : List UInt8) :
    kind.decodeAt (front ++ (kind.numberBytes n ++ rest)).toArray front.length = kind.number n := by
  cases kind with
  | bool =>
    have first := @byteAt_append front (numberBytes n .bool ++ rest) 0
    rw [Nat.add_zero] at first
    show Scalar.bool (byteAt _ _ != 0) = Scalar.bool _
    rw [first]
    rcases fits with rfl | rfl <;> rfl
  | int32 =>
    show Scalar.int (signedWord (wordAt (front ++ (wordBytes (wordOfInt n) ++ rest)).toArray front.length)) = _
    rw [wordAt_wordBytes, signedWord_wordOfInt, fits.wrap32_eq]
    rfl
  | float32 => exact absurd rfl whole

theorem count_eq {size : Nat} (known : (size : Int) = n * kind.itemSize) : ((size / kind.itemSize : Nat) : Int) = n := by
  have positive := kind.itemSize_pos
  rw [Int.natCast_ediv, known]
  exact Int.mul_ediv_cancel n (by omega)

def bytesOf (values : List Int) (kind : Element) : Bytes := (values.flatMap kind.numberBytes).toArray

@[simp] theorem size_bytesOf (values : List Int) (kind : Element) :
    (kind.bytesOf values).size = values.length * kind.itemSize := by
  show (values.flatMap kind.numberBytes).length = _
  induction values with
  | nil => simp
  | cons n values inductionHypothesis =>
    rw [List.flatMap_cons, List.length_append, inductionHypothesis, length_numberBytes, List.length_cons,
      Nat.succ_mul, Nat.add_comm]

/-- The numbers of a buffer are those that were written. -/
theorem numberAt_bytesOf {values : List Int} (fits : ∀ n ∈ values, kind.Fits n) (whole : kind ≠ .float32) {k : Nat}
    (bound : k < values.length) : kind.numberAt (kind.bytesOf values) k = values[k] := by
  -- All elements take up the same space, so this one begins where the ones in front of it end.
  have split : values = values.take k ++ values[k] :: values.drop (k + 1) := by simp
  have bytes : kind.bytesOf values = ((values.take k).flatMap kind.numberBytes
      ++ (kind.numberBytes values[k] ++ (values.drop (k + 1)).flatMap kind.numberBytes)).toArray := by
    conv_lhs => rw [bytesOf, split]
    rw [List.flatMap_append, List.flatMap_cons]
  have place : (k : Int).toNat * kind.itemSize = ((values.take k).flatMap kind.numberBytes).length := by
    have size : ((values.take k).flatMap kind.numberBytes).length = (values.take k).length * kind.itemSize :=
      size_bytesOf (values.take k) kind
    rw [size, List.length_take, Nat.min_eq_left (Nat.le_of_lt bound)]
    rfl
  have here := fits _ (List.getElem_mem bound)
  rw [numberAt, bytes, place, decodeAt_numberBytes here whole, whole?_number here, Option.getD_some]

/-- Numbers are encoded one after the other. -/
theorem foldlM_encode {α : Type} {f : α → Except Failure (List UInt8)} {v : α → Int} {xs : List α}
    (each : ∀ x ∈ xs, f x = .ok (kind.numberBytes (v x))) (front : Bytes) :
    xs.foldlM (fun (out : Bytes) x => do return out ++ (← f x).toArray) front
      = .ok (front ++ kind.bytesOf (xs.map v)) := by
  induction xs generalizing front with
  | nil => simp [bytesOf, pure, Except.pure]
  | cons x xs inductionHypothesis =>
    rw [List.foldlM_cons, each x (List.mem_cons_self ..)]
    show List.foldlM _ (front ++ (kind.numberBytes (v x)).toArray) xs = _
    rw [inductionHypothesis fun y member => each y (List.mem_cons_of_mem _ member)]
    simp [bytesOf]

theorem encodeAll_numbers {values : List Int} (fits : ∀ n ∈ values, kind.Fits n) (whole : kind ≠ .float32) :
    kind.encodeAll (values.map kind.number).toArray = .ok (kind.bytesOf values) := by
  unfold encodeAll
  rw [List.foldlM_toArray, List.foldlM_map, foldlM_encode fun n member => encode_number (fits n member) whole]
  simp

end Element

/-! ## Reading -/

variable {kind : Element} {bytes : Bytes} {buffers : Buffers} {slot : Int}

theorem elementAt_number (whole : kind ≠ .float32) (buffer : buffers slot = some (kind.decode bytes)) {offset : Int}
    (low : 0 ≤ offset) (high : offset < (bytes.size / kind.itemSize : Nat)) :
    elementAt buffers slot (.int offset) = .ok (kind.number (kind.numberAt bytes offset)) := by
  have place : Shape.place? (bytes.size / kind.itemSize) offset = some offset.toNat := by
    unfold Shape.place?
    simp only [if_neg (show ¬ offset < 0 by omega)]
    exact if_pos ⟨low, high⟩
  have element := @Element.getElem?_decode_number kind whole bytes offset.toNat (by omega)
  rw [Int.toNat_of_nonneg low] at element
  unfold elementAt
  simp only [buffer, Scalar.whole?, Element.size_decode, place, element]
  rfl

theorem fits_entry (whole : kind ≠ .float32) (bytes : Bytes) (l : Layout) (index : List Int) :
    kind.Fits (l.entry (kind.numberAt bytes) index) := by
  unfold Layout.entry
  cases l.offsetOf? index with
  | some offset => exact Element.fits_numberAt whole bytes offset
  | none =>
    cases kind with
    | bool => exact .inl rfl
    | int32 => exact (by decide : Word 0)
    | float32 => exact absurd rfl whole

/-- A read through a layout gives what the layout shows, as far as that is in the buffer. -/
theorem readAt_number (whole : kind ≠ .float32) (buffer : buffers slot = some (kind.decode bytes)) {l : Layout}
    {index : List Int} (inside : Inside index l.shape)
    (shown : ∀ offset, l.offsetOf? index = some offset → 0 ≤ offset ∧ offset < (bytes.size / kind.itemSize : Nat)) :
    Expr.readAt buffers slot kind l (.int (ravel index l.shape))
      = .ok (kind.number (l.entry (kind.numberAt bytes) index)) := by
  obtain ⟨least, greatest⟩ : 0 ≤ ravel index l.shape ∧ ravel index l.shape < l.size := inside.ravel_bounds
  have flat : l.addressFlat (ravel index l.shape) = .ok (l.offsetOf? index) := by
    unfold Layout.addressFlat
    rw [if_pos ⟨least, greatest⟩, inside.unravel_ravel, Layout.address_eq inside]
  unfold Expr.readAt Layout.entry
  simp only [Scalar.within_int least greatest, Scalar.whole?, flat, ok_bind, Bool.not_true, Bool.false_eq_true,
    if_false]
  cases known : l.offsetOf? index with
  | none => exact congrArg Except.ok (Element.number_zero whole).symm
  | some offset =>
    obtain ⟨low, high⟩ := shown offset known
    have fits := Element.fits_numberAt whole bytes offset
    simp only [elementAt_number whole buffer low high, ok_bind, Element.coerce_number fits whole,
      fits.image_eq whole]

end StridedArray
