import Mathlib.Data.UInt

/-!
# Bit fields of 32-bit registers

A field is given by its mask. `writeField` replaces the bits under the mask and
leaves the others alone; setting and clearing a flag are instances of it.
-/

namespace AoaBoard.Library.Bits

def writeField (mask v r : UInt32) : UInt32 := (r &&& ~~~mask) ||| v

theorem uint32_ext {a b : UInt32} (h : ∀ i < 32, a.toBitVec.getLsbD i = b.toBitVec.getLsbD i) :
    a = b :=
  UInt32.toBitVec_inj.mp (BitVec.eq_of_getLsbD_eq h)

theorem bit_and {a b c : UInt32} (h : a &&& b = c) (i : ℕ) :
    (a.toBitVec.getLsbD i && b.toBitVec.getLsbD i) = c.toBitVec.getLsbD i := by
  rw [← h, UInt32.toBitVec_and, BitVec.getLsbD_and]

theorem bit_writeField (mask v r : UInt32) {i : ℕ} (hi : i < 32) :
    (writeField mask v r).toBitVec.getLsbD i =
      (r.toBitVec.getLsbD i && !mask.toBitVec.getLsbD i || v.toBitVec.getLsbD i) := by
  simp only [writeField, UInt32.toBitVec_or, UInt32.toBitVec_and, UInt32.toBitVec_not,
    BitVec.getLsbD_or, BitVec.getLsbD_and, BitVec.getLsbD_not, hi, decide_true, Bool.true_and]

theorem writeField_and_mask {mask v : UInt32} (h : v &&& mask = v) (r : UInt32) :
    writeField mask v r &&& mask = v := by
  apply uint32_ext
  intro i hi
  have hv := bit_and h i
  rw [UInt32.toBitVec_and, BitVec.getLsbD_and, bit_writeField mask v r hi]
  cases hm : mask.toBitVec.getLsbD i <;> simp_all

theorem writeField_and_other {mask v other : UInt32} (h : v &&& mask = v)
    (hother : mask &&& other = 0) (r : UInt32) : writeField mask v r &&& other = r &&& other := by
  apply uint32_ext
  intro i hi
  have hv := bit_and h i
  have hd := bit_and hother i
  rw [UInt32.toBitVec_and, UInt32.toBitVec_and, BitVec.getLsbD_and, BitVec.getLsbD_and,
    bit_writeField mask v r hi]
  cases hm : mask.toBitVec.getLsbD i <;> simp_all

theorem or_eq_writeField (r flag : UInt32) : r ||| flag = writeField flag flag r := by
  apply uint32_ext
  intro i hi
  rw [UInt32.toBitVec_or, BitVec.getLsbD_or, bit_writeField flag flag r hi]
  cases hm : flag.toBitVec.getLsbD i <;> simp

theorem and_not_eq_writeField (r flag : UInt32) : r &&& ~~~flag = writeField flag 0 r := by
  rw [writeField, UInt32.or_zero]

end AoaBoard.Library.Bits
