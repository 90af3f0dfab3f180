import Mathlib.Data.LawfulXor.Basic
import AoaBoard.Usb.Controller

/-!
# Counting the bytes of a TD

The controller moves `CurrentBufferPointer` to the first byte that it has not
transferred, or clears it. What is left is taken to lie in two pages of memory.
-/

namespace AoaBoard.Usb.Ohci

theorem offset4k_toNat (value : UInt32) : (offset4k value).toNat = value.toNat % 0x1000 := by
  rw [offset4k, UInt32.toNat_and, show (0xFFF : UInt32).toNat = 2 ^ 12 - 1 from rfl,
    Nat.and_two_pow_sub_one_eq_mod]

theorem and_page_mask {n : ℕ} (h : n < 2 ^ 32) : n &&& 0xFFFFF000 = n >>> 12 <<< 12 := by
  refine Nat.eq_of_testBit_eq fun i => ?_
  have hmask : (0xFFFFF000 : ℕ) = (2 ^ 20 - 1) <<< 12 := by decide
  rw [hmask, Nat.testBit_and, Nat.testBit_shiftLeft, Nat.testBit_shiftLeft, Nat.testBit_shiftRight,
    Nat.testBit_two_pow_sub_one]
  by_cases hi : 12 ≤ i
  · rw [Nat.add_sub_cancel' hi]
    by_cases hlt : i < 32
    · simp [hi, show i - 12 < 20 by omega]
    · rw [Nat.testBit_lt_two_pow (h.trans_le (Nat.pow_le_pow_right (by decide) (by omega)))]
      simp
  · simp [hi]

theorem align4k_xor (a b : UInt32) : align4k (a ^^^ b) = 0 ↔
    a.toNat / 0x1000 = b.toNat / 0x1000 := by
  rw [← UInt32.toNat_inj, align4k, UInt32.toNat_and, UInt32.toNat_xor,
    show (0xFFFFF000 : UInt32).toNat = 0xFFFFF000 from rfl,
    and_page_mask (Nat.xor_lt_two_pow a.toNat_lt b.toNat_lt), Nat.shiftRight_xor_distrib]
  rw [Nat.shiftRight_eq_div_pow, Nat.shiftRight_eq_div_pow, Nat.shiftLeft_eq]
  simp [xor_eq_zero_iff]

theorem remaining_toNat (a b : UInt32) :
    (remaining a b).toUInt16.toNat =
      ((if b.toNat / 0x1000 = a.toNat / 0x1000 then 0 else 0x1000) + b.toNat % 0x1000 +
        (2 ^ 16 - a.toNat % 0x1000) + 1) % 2 ^ 16 := by
  rw [UInt32.toNat_toUInt16, remaining, UInt32.toNat_add, UInt32.toNat_sub, UInt32.toNat_add,
    offset4k_toNat, offset4k_toNat, show (1 : UInt32).toNat = 1 from rfl]
  by_cases hpage : b.toNat / 0x1000 = a.toNat / 0x1000
  · rw [if_pos hpage, if_neg (not_not.mpr ((align4k_xor b a).mpr hpage)),
      show (0 : UInt32).toNat = 0 from rfl]
    omega
  · rw [if_neg hpage, if_pos fun h => hpage ((align4k_xor b a).mp h),
      show (0x1000 : UInt32).toNat = 0x1000 from rfl]
    omega

theorem countTransfer_count (s : Host) (i : Fin maxGtd) :
    ((countTransfer s i).gtds i).transferCount =
      if (s.gtds i).currentBufferPointer ≠ 0 then
        (s.gtds i).transferCount -
          (remaining (s.gtds i).currentBufferPointer (s.gtds i).bufferEnd).toUInt16
      else (s.gtds i).transferCount := by
  simp only [countTransfer]
  split_ifs <;> split <;> simp [Host.setGtd]

/-- Where the controller leaves `CurrentBufferPointer` after some bytes of a piece. -/
def leftAt (P : Piece) (k : ℕ) : UInt32 :=
  if k = P.xferLen.toNat then 0 else P.currentBufferPointer + UInt32.ofNat k

def counted (s : Host) (i : Fin maxGtd) (P : Piece) (k : ℕ) (next : Option Td)
    (code : ConditionCode) : ℕ :=
  ((countTransfer (s.setGtd i { s.gtds i with
    nextTD := next, conditionCode := code, currentBufferPointer := leftAt P k }) i).gtds
      i).transferCount.toNat

/-- The count of a TD is right if what was not transferred lies in two pages, and only then. This
holds of all pieces that `QueueGTDs` cuts. -/
theorem count_exact_iff (s : Host) (i : Fin maxGtd) (P : Piece) (k : ℕ) (next : Option Td)
    (code : ConditionCode) (hholds : Holds s (.gtd i) P) (hbuffer : P.currentBufferPointer ≠ 0)
    (hwrap : P.currentBufferPointer.toNat + P.xferLen.toNat ≤ 2 ^ 32)
    (hshort : P.xferLen.toNat < 2 ^ 16) (hk : k ≤ P.xferLen.toNat) :
    (counted s i P k next code = k ↔
      k = P.xferLen.toNat ∨ (P.currentBufferPointer.toNat + P.xferLen.toNat - 1) / 0x1000 ≤
        (P.currentBufferPointer.toNat + k) / 0x1000 + 1) ∧
      ((offset4k P.currentBufferPointer).toNat + P.xferLen.toNat ≤ 0x2000 →
        counted s i P k next code = k) := by
  suffices hiff : counted s i P k next code = k ↔
      k = P.xferLen.toNat ∨ (P.currentBufferPointer.toNat + P.xferLen.toNat - 1) / 0x1000 ≤
        (P.currentBufferPointer.toNat + k) / 0x1000 + 1 by
    refine ⟨hiff, fun hpages => hiff.mpr (Or.inr ?_)⟩
    rw [offset4k_toNat] at hpages
    omega
  obtain ⟨j, hj, -, -, hcbp, hend, hcount⟩ := hholds.gtd
  obtain rfl := Td.gtd.inj hj
  generalize hs' : s.setGtd i { s.gtds i with
    nextTD := next, conditionCode := code, currentBufferPointer := leftAt P k } = s'
  have hgtd : s'.gtds i = { s.gtds i with
      nextTD := next, conditionCode := code, currentBufferPointer := leftAt P k } := by
    rw [← hs']
    exact Function.update_self _ _ _
  have hlen : P.xferLen.toUInt16.toNat = P.xferLen.toNat := by
    rw [UInt32.toNat_toUInt16]
    omega
  rw [counted, hs', countTransfer_count, hgtd]
  simp only [hcount, hend, leftAt]
  by_cases hall : k = P.xferLen.toNat
  · rw [if_pos hall, if_neg (by simp), hlen]
    exact iff_of_true hall.symm (Or.inl hall)
  · have hpos : P.xferLen ≠ 0 := fun hzero => by
      rw [hzero] at hall hk
      simp at hk
      exact hall hk
    have hbuf : 0 < P.currentBufferPointer.toNat :=
      Nat.pos_of_ne_zero fun h => hbuffer (UInt32.toNat_inj.mp h)
    have hleft : (P.currentBufferPointer + UInt32.ofNat k).toNat =
        P.currentBufferPointer.toNat + k := by
      rw [UInt32.toNat_add, UInt32.toNat_ofNat']
      omega
    have hlast : (P.currentBufferPointer + P.xferLen - 1).toNat =
        P.currentBufferPointer.toNat + P.xferLen.toNat - 1 := by
      rw [UInt32.toNat_sub, UInt32.toNat_add, show (1 : UInt32).toNat = 1 from rfl]
      omega
    have hne : P.currentBufferPointer + UInt32.ofNat k ≠ 0 := fun h => by
      rw [h] at hleft
      simp at hleft
      omega
    rw [if_neg hall, if_pos hne, if_pos hpos, UInt16.toNat_sub, remaining_toNat, hleft, hlast, hlen,
      or_iff_right hall]
    split_ifs with hpage
    · omega
    · omega

def somePiece : Piece := ⟨0x20080F00, 0x1200, 2, 3, false⟩

def someHost : Host :=
  zeroHost.setGtd ⟨0, Nat.zero_lt_succ 10⟩ (fillGtd (freshGtd firstEd) 0x20080F00 0x1200 2 3 false)

theorem someHost_holds : Holds someHost (.gtd ⟨0, Nat.zero_lt_succ 10⟩) somePiece :=
  ⟨⟨_, rfl, rfl, rfl, rfl, rfl, rfl⟩, rfl⟩

theorem count_exact_iff_three_pages :
    (counted someHost ⟨0, Nat.zero_lt_succ 10⟩ somePiece 64 none .stall = 64 ↔
      64 = somePiece.xferLen.toNat ∨
        (somePiece.currentBufferPointer.toNat + somePiece.xferLen.toNat - 1) / 0x1000 ≤
          (somePiece.currentBufferPointer.toNat + 64) / 0x1000 + 1) ∧
      ((offset4k somePiece.currentBufferPointer).toNat + somePiece.xferLen.toNat ≤ 0x2000 →
        counted someHost ⟨0, Nat.zero_lt_succ 10⟩ somePiece 64 none .stall = 64) :=
  count_exact_iff someHost ⟨0, Nat.zero_lt_succ 10⟩ somePiece 64 none .stall someHost_holds
    (by decide) (by decide) (by decide) (by decide)

end AoaBoard.Usb.Ohci
