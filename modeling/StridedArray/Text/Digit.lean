/-! # Digits and blanks of all scripts

* `digitZeros`, `digitValue?` — decimal digits: every script has its ten in a row;
* `isBlank`, `isPlainBlank` — characters that separate words, in all scripts and in ASCII. -/

namespace StridedArray.Text

/-- The zeros of the scripts that have decimal digits. The other nine digits follow. -/
def digitZeros : List Nat :=
  [0x30, 0x660, 0x6f0, 0x7c0, 0x966, 0x9e6, 0xa66, 0xae6, 0xb66, 0xbe6, 0xc66, 0xce6, 0xd66, 0xde6,
   0xe50, 0xed0, 0xf20, 0x1040, 0x1090, 0x17e0, 0x1810, 0x1946, 0x19d0, 0x1a80, 0x1a90, 0x1b50,
   0x1bb0, 0x1c40, 0x1c50, 0xa620, 0xa8d0, 0xa900, 0xa9d0, 0xa9f0, 0xaa50, 0xabf0, 0xff10, 0x104a0,
   0x10d30, 0x11066, 0x110f0, 0x11136, 0x111d0, 0x112f0, 0x11450, 0x114d0, 0x11650, 0x116c0,
   0x11730, 0x118e0, 0x11950, 0x11c50, 0x11d50, 0x11da0, 0x16a60, 0x16ac0, 0x16b50, 0x1d7ce,
   0x1d7d8, 0x1d7e2, 0x1d7ec, 0x1d7f6, 0x1e140, 0x1e2f0, 0x1e950, 0x1fbf0]

def digitValue? (c : Char) : Option Nat :=
  (digitZeros.find? fun first => decide (first ≤ c.toNat ∧ c.toNat < first + 10)).map fun first =>
    c.toNat - first

def isPlainBlank (c : Char) : Bool := c = ' ' || decide (0x9 ≤ c.toNat ∧ c.toNat ≤ 0xd)

def isBlank (c : Char) : Bool :=
  isPlainBlank c || decide (0x1c ≤ c.toNat ∧ c.toNat ≤ 0x1f)
    || decide (0x2000 ≤ c.toNat ∧ c.toNat ≤ 0x200a)
    || [0x85, 0xa0, 0x1680, 0x2028, 0x2029, 0x202f, 0x205f, 0x3000].contains c.toNat

theorem digitValue?_ascii : "0123456789".toList.map digitValue? = (List.range 10).map some := by
  decide

end StridedArray.Text
