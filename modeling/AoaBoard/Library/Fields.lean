import AoaBoard.Library.Bits
import Mathlib.Logic.Function.Basic
import Mathlib.Data.Nat.Bitwise

/-!
# Bit fields in a memory of words

A place is a range of bits of one word. An assignment replaces the bits of its
place and leaves every other bit of the memory alone, so places apart from each
other do not interfere, and a place holds the value of its last assignment.
-/

namespace AoaBoard.Library.Fields
open Bits

structure Place (ι : Type*) where
  word : ι
  offset : ℕ
  width : ℕ
  nonempty : 0 < width
  fits : offset + width ≤ 32
  deriving DecidableEq

variable {ι : Type*}

def Place.Covers (p : Place ι) (i : ι) (b : ℕ) : Prop :=
  i = p.word ∧ p.offset ≤ b ∧ b < p.offset + p.width

def Apart (p q : Place ι) : Prop := ∀ i b, p.Covers i b → ¬ q.Covers i b

def bit (m : ι → UInt32) (i : ι) (b : ℕ) : Bool := (m i).toBitVec.getLsbD b

theorem memory_ext {m n : ι → UInt32} (h : ∀ i, ∀ b < 32, bit m i b = bit n i b) : m = n :=
  funext fun i => uint32_ext (h i)

def read (p : Place ι) (m : ι → UInt32) : ℕ := (m p.word).toNat / 2 ^ p.offset % 2 ^ p.width

theorem testBit_read (p : Place ι) (m : ι → UInt32) (b : ℕ) :
    (read p m).testBit b = (decide (b < p.width) && bit m p.word (b + p.offset)) := by
  rw [read, Nat.testBit_mod_two_pow, Nat.testBit_div_two_pow, bit, BitVec.getLsbD]
  rfl

theorem bit_shiftLeft (v : UInt32) {s b : ℕ} (hs : s < 32) (hb : b < 32) :
    (v <<< UInt32.ofNat s).toBitVec.getLsbD b =
      (decide (s ≤ b) && v.toBitVec.getLsbD (b - s)) := by
  have hmod : ((UInt32.ofNat s).toBitVec % 32).toNat = s := by
    rw [BitVec.toNat_umod]
    change (UInt32.ofNat s).toNat % 32 = s
    rw [UInt32.toNat_ofNat_of_lt' (by rw [UInt32.size]; omega), Nat.mod_eq_of_lt hs]
  rw [UInt32.toBitVec_shiftLeft, BitVec.shiftLeft_eq', hmod, BitVec.getLsbD_shiftLeft]
  simp only [hb, decide_true, Bool.true_and]
  by_cases hle : s ≤ b
  · simp [hle]
  · simp [hle]

structure Assignment (ι : Type*) where
  place : Place ι
  value : ℕ
  fits : value < 2 ^ place.width

def Place.mask (p : Place ι) : UInt32 := UInt32.ofNat (2 ^ p.width - 1) <<< UInt32.ofNat p.offset

theorem bit_ofNat {n : ℕ} (hn : n < 2 ^ 32) (b : ℕ) :
    (UInt32.ofNat n).toBitVec.getLsbD b = n.testBit b := by
  rw [BitVec.getLsbD]
  change (UInt32.ofNat n).toNat.testBit b = n.testBit b
  rw [UInt32.toNat_ofNat_of_lt' hn]

theorem Place.pow_width_le (p : Place ι) : 2 ^ p.width ≤ 2 ^ 32 :=
  Nat.pow_le_pow_right Nat.two_pos (by have := p.fits; omega)

theorem Place.bit_mask (p : Place ι) {b : ℕ} (hb : b < 32) :
    p.mask.toBitVec.getLsbD b = (decide (p.offset ≤ b) && decide (b < p.offset + p.width)) := by
  have hfits := p.fits
  have hnonempty := p.nonempty
  have hle := p.pow_width_le
  have hpos := Nat.two_pow_pos p.width
  rw [Place.mask, bit_shiftLeft _ (by omega) hb, bit_ofNat (by omega), Nat.testBit_two_pow_sub_one]
  by_cases hoff : p.offset ≤ b
  · simp only [hoff, decide_true, Bool.true_and, decide_eq_decide]
    omega
  · simp [hoff]

section Assign
variable [DecidableEq ι]

def assign (m : ι → UInt32) (a : Assignment ι) : ι → UInt32 :=
  Function.update m a.place.word
    (writeField a.place.mask (UInt32.ofNat a.value <<< UInt32.ofNat a.place.offset)
      (m a.place.word))

variable {m : ι → UInt32} {a : Assignment ι}

theorem bit_assign {i : ι} {b : ℕ} (hb : b < 32) : bit (assign m a) i b =
    if i = a.place.word ∧ a.place.offset ≤ b ∧ b < a.place.offset + a.place.width then
      a.value.testBit (b - a.place.offset)
    else bit m i b := by
  have hfits := a.place.fits
  have hnonempty := a.place.nonempty
  have hvalue := lt_of_lt_of_le a.fits a.place.pow_width_le
  by_cases hi : i = a.place.word
  · subst hi
    rw [bit, assign, Function.update_self, bit_writeField _ _ _ hb, Place.bit_mask _ hb,
      bit_shiftLeft _ (by omega) hb, bit_ofNat hvalue]
    by_cases hlow : a.place.offset ≤ b
    · by_cases hhigh : b < a.place.offset + a.place.width
      · simp [hlow, hhigh]
      · have hzero : a.value.testBit (b - a.place.offset) = false :=
          Nat.testBit_lt_two_pow (lt_of_lt_of_le a.fits
            (Nat.pow_le_pow_right Nat.two_pos (by omega)))
        simp [hlow, hhigh, hzero, bit]
    · simp [hlow, bit]
  · rw [bit, assign, Function.update_of_ne hi, if_neg fun h => hi h.1, bit]

theorem bit_assign_of_covers {i : ι} {b : ℕ} (h : a.place.Covers i b) :
    bit (assign m a) i b = a.value.testBit (b - a.place.offset) := by
  have hfits := a.place.fits
  rw [bit_assign (lt_of_lt_of_le h.2.2 hfits)]
  exact if_pos h

theorem bit_assign_other {i : ι} {b : ℕ} (h : ¬ a.place.Covers i b) :
    bit (assign m a) i b = bit m i b := by
  by_cases hb : b < 32
  · rw [bit_assign hb]
    exact if_neg h
  · rw [bit, bit, BitVec.getLsbD_of_ge _ _ (not_lt.mp hb), BitVec.getLsbD_of_ge _ _ (not_lt.mp hb)]

theorem read_assign_self : read a.place (assign m a) = a.value := by
  apply Nat.eq_of_testBit_eq
  intro b
  rw [testBit_read]
  by_cases hb : b < a.place.width
  · have hcovers : a.place.Covers a.place.word (b + a.place.offset) := ⟨rfl, by omega, by omega⟩
    rw [bit_assign_of_covers hcovers, Nat.add_sub_cancel, decide_eq_true hb, Bool.true_and]
  · have hzero : a.value.testBit b = false := Nat.testBit_lt_two_pow
      (lt_of_lt_of_le a.fits (Nat.pow_le_pow_right Nat.two_pos (not_lt.mp hb)))
    rw [decide_eq_false hb, Bool.false_and, hzero]

theorem read_assign_other {p : Place ι} (h : Apart p a.place) :
    read p (assign m a) = read p m := by
  apply Nat.eq_of_testBit_eq
  intro b
  rw [testBit_read, testBit_read]
  by_cases hb : b < p.width
  · rw [bit_assign_other (h p.word _ ⟨rfl, by omega, by omega⟩)]
  · rw [decide_eq_false hb, Bool.false_and, Bool.false_and]

theorem assign_comm {c : Assignment ι} (h : Apart a.place c.place) :
    assign (assign m a) c = assign (assign m c) a := by
  apply memory_ext
  intro i b hb
  by_cases ha : a.place.Covers i b
  · rw [bit_assign_other (h i b ha), bit_assign_of_covers ha, bit_assign_of_covers ha]
  · rw [bit_assign_other ha]
    by_cases hc : c.place.Covers i b
    · rw [bit_assign_of_covers hc, bit_assign_of_covers hc]
    · rw [bit_assign_other hc, bit_assign_other ha, bit_assign_other hc]

def assignAll (m : ι → UInt32) (as : List (Assignment ι)) : ι → UInt32 := as.foldl assign m

def lastAt (p : Place ι) (as : List (Assignment ι)) : Option ℕ :=
  as.reverse.findSome? fun a => if a.place = p then some a.value else none

theorem lastAt_append (p : Place ι) (as cs : List (Assignment ι)) :
    lastAt p (as ++ cs) = (lastAt p cs).or (lastAt p as) := by
  rw [lastAt, List.reverse_append, List.findSome?_append, lastAt, lastAt]

theorem read_assignAll {p : Place ι} {as : List (Assignment ι)}
    (h : ∀ a ∈ as, a.place = p ∨ Apart p a.place) :
    read p (assignAll m as) = (lastAt p as).getD (read p m) := by
  induction as generalizing m with
  | nil => rfl
  | cons a as ih =>
    have hsplit : lastAt p (a :: as) = (lastAt p as).or (lastAt p [a]) := lastAt_append p [a] as
    rw [assignAll, List.foldl_cons, ← assignAll,
      ih fun c hc => h c (List.mem_cons_of_mem a hc), hsplit]
    have hfirst : read p (assign m a) = (lastAt p [a]).getD (read p m) := by
      by_cases ha : a.place = p
      · subst ha
        simp [read_assign_self, lastAt]
      · rw [read_assign_other ((h a List.mem_cons_self).resolve_left ha)]
        simp [lastAt, ha]
    rw [hfirst]
    cases lastAt p as with
    | none => rfl
    | some v => rfl

theorem bit_assignAll_other {as : List (Assignment ι)} {i : ι} {b : ℕ}
    (h : ∀ a ∈ as, ¬ a.place.Covers i b) : bit (assignAll m as) i b = bit m i b := by
  induction as generalizing m with
  | nil => rfl
  | cons a as ih =>
    rw [assignAll, List.foldl_cons, ← assignAll, ih fun c hc => h c (List.mem_cons_of_mem a hc),
      bit_assign_other (h a List.mem_cons_self)]

theorem assignAll_assign {as : List (Assignment ι)} (h : ∀ c ∈ as, Apart a.place c.place) :
    assignAll (assign m a) as = assign (assignAll m as) a := by
  induction as generalizing m with
  | nil => rfl
  | cons c as ih =>
    rw [assignAll, List.foldl_cons, assign_comm (h c List.mem_cons_self), ← assignAll,
      ih fun d hd => h d (List.mem_cons_of_mem c hd)]
    rfl

theorem assignAll_comm {as cs : List (Assignment ι)}
    (h : ∀ a ∈ as, ∀ c ∈ cs, Apart a.place c.place) :
    assignAll (assignAll m as) cs = assignAll (assignAll m cs) as := by
  induction as generalizing m with
  | nil => rfl
  | cons a as ih =>
    have hrest := ih (m := assign m a) fun d hd => h d (List.mem_cons_of_mem a hd)
    have hfirst := assignAll_assign (m := m) (h a List.mem_cons_self)
    rw [hfirst] at hrest
    exact hrest

end Assign

end AoaBoard.Library.Fields
