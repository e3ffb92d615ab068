import Mathlib.Data.Int.ModEq
import StridedArray.Bytes

/-! # Integers as words

Buffers of 32-bit integers are read and written one word at a time.

* `wordAt_wordBytes`, `signedWord_wordOfInt` — a word is read as it was written, an integer modulo
  `2 ^ 32`;
* `wrap32_eq_iff` — equal images are congruent numbers; `Word` — the numbers that are their own images;
* `intAt` — the integer at an offset of a buffer; `bytesOf`, `intAt_bytesOf` — a buffer of integers. -/

namespace StridedArray

/-! ## Words -/

theorem joined_wordBytes (w : UInt32) :
    w.toUInt8.toUInt32 ||| ((w >>> 8).toUInt8.toUInt32 <<< 8)
      ||| ((w >>> 16).toUInt8.toUInt32 <<< 16) ||| ((w >>> 24).toUInt8.toUInt32 <<< 24) = w := by
  apply UInt32.toBitVec_inj.1
  apply BitVec.eq_of_getLsbD_eq
  intro i bound
  have first : ((8 : UInt32).toBitVec % 32).toNat = 8 := by decide
  have second : ((16 : UInt32).toBitVec % 32).toNat = 16 := by decide
  have third : ((24 : UInt32).toBitVec % 32).toNat = 24 := by decide
  simp only [UInt32.toBitVec_or, UInt32.toBitVec_shiftLeft, UInt8.toBitVec_toUInt32,
    UInt32.toBitVec_toUInt8, UInt32.toBitVec_shiftRight, BitVec.getLsbD_or, BitVec.getLsbD_setWidth,
    BitVec.getLsbD_shiftLeft, BitVec.getLsbD_ushiftRight, BitVec.shiftLeft_eq',
    BitVec.ushiftRight_eq', first, second, third, bound, decide_true, Bool.true_and]
  -- Every bit comes from one of the four bytes.
  by_cases byte0 : i < 8
  · simp [byte0, show i < 16 by omega, show i < 24 by omega]
  · by_cases byte1 : i < 16
    · simp [byte0, byte1, show i - 8 < 8 by omega, show i - 8 < 32 by omega,
        show 8 + (i - 8) = i by omega, show i < 24 by omega]
    · by_cases byte2 : i < 24
      · simp [byte0, byte1, byte2, show i - 16 < 8 by omega, show i - 16 < 32 by omega,
          show 16 + (i - 16) = i by omega, show ¬ i - 8 < 8 by omega]
      · simp [byte0, byte1, byte2, show i - 24 < 8 by omega, show i - 24 < 32 by omega,
          show 24 + (i - 24) = i by omega, show ¬ i - 8 < 8 by omega, show ¬ i - 16 < 8 by omega]

theorem byteAt_append {front rest : List UInt8} (k : Nat) :
    byteAt (front ++ rest).toArray (front.length + k) = byteAt rest.toArray k := by
  unfold byteAt
  rw [List.getElem?_toArray, List.getElem?_toArray, List.getElem?_append_right (by omega),
    Nat.add_sub_cancel_left]

theorem wordAt_wordBytes (front rest : List UInt8) (w : UInt32) :
    wordAt (front ++ (wordBytes w ++ rest)).toArray front.length = w := by
  have first := @byteAt_append front (wordBytes w ++ rest) 0
  rw [Nat.add_zero] at first
  unfold wordAt
  rw [first, byteAt_append, byteAt_append, byteAt_append]
  exact joined_wordBytes w

theorem signedWord_wordOfInt (n : Int) : signedWord (wordOfInt n) = wrap32 n := by
  have word : (wordOfInt n).toNat = (n % 0x100000000).toNat := by
    rw [wordOfInt, UInt32.toNat_ofNat', Nat.mod_eq_of_lt (by omega)]
  rw [signedWord, word]
  unfold wrap32
  omega

/-! ## Images modulo `2 ^ 32` -/

theorem wrap32_modEq (n : Int) : wrap32 n ≡ n [ZMOD 0x100000000] := by
  unfold wrap32 Int.ModEq
  omega

theorem wrap32_eq_iff {m n : Int} : wrap32 m = wrap32 n ↔ m ≡ n [ZMOD 0x100000000] := by
  unfold wrap32 Int.ModEq
  omega

theorem wrap32_wrap32 (n : Int) : wrap32 (wrap32 n) = wrap32 n :=
  wrap32_eq_iff.2 (wrap32_modEq n)

theorem wrap32_signedWord (w : UInt32) : wrap32 (signedWord w) = signedWord w :=
  wrap32_wrap32 _

def Word (n : Int) : Prop := -0x80000000 ≤ n ∧ n < 0x80000000

instance (n : Int) : Decidable (Word n) :=
  inferInstanceAs (Decidable (-0x80000000 ≤ n ∧ n < 0x80000000))

theorem word_wrap32 (n : Int) : Word (wrap32 n) := wrap32_range n

theorem Word.wrap32_eq {n : Int} (word : Word n) : wrap32 n = n := wrap32_of_range word.1 word.2

theorem Word.encode {n : Int} (word : Word n) : Element.int32.encode (.int n) = .ok (wordBytes (wordOfInt n)) := by
  show (requireWord n >>= fun word => pure (wordBytes (wordOfInt word))) = _
  rw [requireWord_of_range word.1 word.2]
  rfl

/-! ## Buffers of integers -/

def intAt (bytes : Bytes) (offset : Int) : Int := signedWord (wordAt bytes (offset.toNat * 4))

theorem wrap32_intAt (bytes : Bytes) (offset : Int) : wrap32 (intAt bytes offset) = intAt bytes offset :=
  wrap32_signedWord _

@[simp] theorem Element.size_decode (kind : Element) (bytes : Bytes) :
    (kind.decode bytes).size = bytes.size / kind.itemSize := by
  simp [decode]

theorem getElem?_decode {bytes : Bytes} {k : Nat} (bound : k < bytes.size / 4) :
    (Element.int32.decode bytes)[k]? = some (.int (intAt bytes k)) := by
  have size : (Element.int32.decode bytes).size = bytes.size / 4 := Element.size_decode ..
  rw [Array.getElem?_eq_getElem (by rwa [size])]
  simp [Element.decode, Element.decodeAt, Element.itemSize, intAt]

def bytesOf (values : List Int) : Bytes :=
  (values.flatMap fun n => wordBytes (wordOfInt n)).toArray

theorem length_words (values : List Int) :
    (values.flatMap fun n => wordBytes (wordOfInt n)).length = values.length * 4 := by
  induction values with
  | nil => rfl
  | cons n values inductionHypothesis =>
    rw [List.flatMap_cons, List.length_append, inductionHypothesis, List.length_cons, Nat.succ_mul,
      Nat.add_comm]
    rfl

@[simp] theorem size_bytesOf (values : List Int) : (bytesOf values).size = values.length * 4 :=
  length_words values

/-- The integers of a buffer are those that were written. -/
theorem intAt_bytesOf {values : List Int} {k : Nat} (bound : k < values.length) :
    intAt (bytesOf values) k = wrap32 values[k] := by
  have split : values = values.take k ++ values[k] :: values.drop (k + 1) := by simp
  have bytes : bytesOf values = ((values.take k).flatMap (fun n => wordBytes (wordOfInt n))
      ++ (wordBytes (wordOfInt values[k])
        ++ (values.drop (k + 1)).flatMap fun n => wordBytes (wordOfInt n))).toArray := by
    conv_lhs => rw [bytesOf, split]
    rw [List.flatMap_append, List.flatMap_cons]
  have place : ((k : Int).toNat * 4) = ((values.take k).flatMap fun n =>
      wordBytes (wordOfInt n)).length := by
    rw [length_words, List.length_take, Nat.min_eq_left (le_of_lt bound)]
    rfl
  rw [intAt, bytes, place, wordAt_wordBytes, signedWord_wordOfInt]

end StridedArray
