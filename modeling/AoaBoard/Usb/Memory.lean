import AoaBoard.Library.Bits
import AoaBoard.Library.Heap
import Mathlib.Data.UInt
import Mathlib.Logic.Function.Basic
import Mathlib.Tactic.IntervalCases

/-!
# The memory pool of the USB host library

The pool is a region of words of four bytes. A block begins with a header word
that holds its size in bytes, whether it is free, and the offset in words of
the next block from the head of the pool, zero in the last block. A pointer is
the index of the word it points to. The functions walk the chain of headers;
`none` stands for a walk that never ends.

`Tiles` relates the words to the blocks of a heap: the functions then take and
give back blocks as the heap does, and change no word of a block that is handed
out.
-/

namespace AoaBoard.Usb
open Library.Bits Library.Heap

/-- A word of the pool, seen as the bit fields of a header. -/
structure MemBlockInfo where
  size : BitVec 15
  isFree : Bool
  next : BitVec 16
  deriving DecidableEq

abbrev Memory := ℕ → MemBlockInfo

def headerSize : UInt32 := 4

def nextBlock (m : Memory) (x : ℕ) : Option ℕ :=
  if (m x).next.toNat = 0 then none else some (m x).next.toNat

def linkToThisBlock (x : ℕ) : BitVec 16 := BitVec.ofNat 16 x

/-- Offsets have sixteen bits, so that a walk of more blocks goes round in a circle. -/
def maxBlocks : ℕ := 2 ^ 16

def usbMemoryInit (m : Memory) (memoryPoolSize : UInt32) : Memory :=
  Function.update m 0
    ⟨BitVec.ofNat 15 ((memoryPoolSize &&& 0xfffffffc) - headerSize).toNat, true, BitVec.ofNat 16 0⟩

def alignSize (size : UInt32) : UInt32 :=
  if size % 4 ≠ 0 then ((size >>> 2) <<< 2) + 4 else size

/-- The loop over the chain that looks for a free block of at least `size` bytes. -/
def firstFit (m : Memory) (size : UInt32) : ℕ → Option ℕ → Option (Option ℕ)
  | _, none => some none
  | 0, some _ => none
  | fuel + 1, some freeBlock =>
    if (m freeBlock).isFree ∧ size.toNat ≤ (m freeBlock).size.toNat then some (some freeBlock)
    else firstFit m size fuel (nextBlock m freeBlock)

def splitBlock (m : Memory) (blkPtr : ℕ) (size : UInt32) : Memory :=
  if (m blkPtr).size.toNat ≤ (headerSize + size).toNat then
    Function.update m blkPtr { m blkPtr with isFree := false }
  else
    let freeBlock := blkPtr + size.toNat / 4 + 1
    Function.update
      (Function.update m freeBlock
        ⟨BitVec.ofNat 15 ((m blkPtr).size.toNat - (headerSize + size).toNat), true,
          (m blkPtr).next⟩)
      blkPtr ⟨BitVec.ofNat 15 size.toNat, false, linkToThisBlock freeBlock⟩

def usbMemoryAlloc (m : Memory) (size : UInt32) : Option (Memory × Option ℕ) :=
  match firstFit m (alignSize size) maxBlocks (some 0) with
  | none => none
  | some none => some (m, none)
  | some (some blkPtr) => some (splitBlock m blkPtr (alignSize size), some (blkPtr + 1))

def prevBlock (m : Memory) (blkPtr : ℕ) : ℕ → Option ℕ → Option (Option ℕ)
  | _, none => some none
  | 0, some _ => none
  | fuel + 1, some prev =>
    if nextBlock m prev = some blkPtr then some (some prev)
    else prevBlock m blkPtr fuel (nextBlock m prev)

def absorb (m : Memory) (blk other : ℕ) : Memory :=
  Function.update m blk { m blk with
    size := BitVec.ofNat 15 ((m blk).size.toNat + (m other).size.toNat + headerSize.toNat)
    next := (m other).next }

def mergeNext (m : Memory) (blkPtr : ℕ) : Memory :=
  match nextBlock m blkPtr with
  | some next => if (m next).isFree then absorb m blkPtr next else m
  | none => m

def setFree (m : Memory) (blkPtr : ℕ) : Memory :=
  Function.update m blkPtr { m blkPtr with isFree := true }

def usbMemoryFree (m : Memory) : Option ℕ → Option Memory
  | none => some m
  | some ptr =>
    let blkPtr := ptr - 1
    let m := mergeNext m blkPtr
    match prevBlock m blkPtr maxBlocks (some 0) with
    | none => none
    | some (some prev) =>
      if (m prev).isFree then some (setFree (absorb m prev blkPtr) prev)
      else some (setFree m blkPtr)
    | some none => some (setFree m blkPtr)

theorem shifts_toNat (x : UInt32) : ((x >>> 2) <<< 2).toNat = 4 * (x.toNat / 4) := by
  have := x.toNat_lt
  rw [UInt32.toNat_shiftLeft, UInt32.toNat_shiftRight]
  simp only [UInt32.reduceToNat, Nat.shiftLeft_eq, Nat.shiftRight_eq_div_pow, Nat.reduceMod,
    Nat.reducePow]
  omega

theorem and_mask (x : UInt32) : x &&& (0xfffffffc : UInt32) = (x >>> 2) <<< 2 := by
  apply uint32_ext
  intro i hi
  rw [UInt32.toBitVec_and, BitVec.getLsbD_and, UInt32.toBitVec_shiftLeft,
    UInt32.toBitVec_shiftRight]
  interval_cases i <;> simp

theorem alignSize_toNat (size : UInt32) : (alignSize size).toNat =
    if size.toNat ≤ 2 ^ 32 - 4 then 4 * ((size.toNat + 3) / 4) else 0 := by
  have hlt := size.toNat_lt
  have hmod : size % 4 = 0 ↔ size.toNat % 4 = 0 := by
    rw [← UInt32.toNat_inj, UInt32.toNat_mod]
    rfl
  unfold alignSize
  split_ifs with h hle hle
  · rw [UInt32.toNat_add, shifts_toNat]
    simp only [UInt32.reduceToNat]
    rw [Ne, hmod] at h
    omega
  · rw [UInt32.toNat_add, shifts_toNat]
    simp only [UInt32.reduceToNat]
    rw [Ne, hmod] at h
    omega
  · rw [not_not, hmod] at h
    omega
  · rw [not_not, hmod] at h
    omega
def header (b : Block) (next : ℕ) : MemBlockInfo :=
  ⟨BitVec.ofNat 15 (4 * b.size), b.free, BitVec.ofNat 16 next⟩

def link (last a : ℕ) : List Block → ℕ
  | [] => last
  | _ :: _ => a

def Tiles (m : Memory) (last : ℕ) : ℕ → List Block → Prop
  | _, [] => True
  | a, b :: bs =>
    m a = header b (link last (a + b.cells) bs) ∧ Tiles m last (a + b.cells) bs

/-- The pool is small enough for the bit fields: fifteen bits for the size in bytes. -/
def maxWords : ℕ := 2 ^ 13

variable {m m' : Memory} {a last : ℕ} {b : Block} {bs us vs : List Block}

theorem tiles_append : Tiles m last a (us ++ vs) ↔
    Tiles m (link last (a + extent us) vs) a us ∧ Tiles m last (a + extent us) vs := by
  induction us generalizing a with
  | nil => simp [Tiles]
  | cons u us ih =>
    have hlink : link last (a + u.cells) (us ++ vs) =
        link (link last (a + (u.cells + extent us)) vs) (a + u.cells) us := by
      cases us with
      | nil => rfl
      | cons w us => rfl
    rw [List.cons_append, Tiles, Tiles, ih, extent_cons, Nat.add_assoc, hlink, and_assoc]

theorem Tiles.congr (h : Tiles m last a bs) (hsame : ∀ w ∈ headers a bs, m' w = m w) :
    Tiles m' last a bs := by
  induction bs generalizing a with
  | nil => trivial
  | cons b bs ih =>
    obtain ⟨hb, hbs⟩ := h
    refine ⟨(hsame a List.mem_cons_self).trans hb, ih hbs fun w hw => ?_⟩
    exact hsame w (List.mem_cons_of_mem a hw)

theorem Tiles.update (h : Tiles m last a bs) {w : ℕ} (hw : w < a ∨ a + extent bs ≤ w)
    (v : MemBlockInfo) : Tiles (Function.update m w v) last a bs := by
  refine h.congr fun x hx => Function.update_of_ne ?_ _ _
  have := headers_bounds hx
  omega

theorem header_size (next : ℕ) (h : b.cells ≤ maxWords) :
    (header b next).size.toNat = 4 * b.size := by
  simp only [Block.cells, maxWords] at h
  simp only [header, BitVec.toNat_ofNat]
  omega

theorem header_next {next : ℕ} (b : Block) (h : next ≤ maxWords) :
    (header b next).next.toNat = next := by
  simp only [maxWords] at h
  simp only [header, BitVec.toNat_ofNat]
  omega

def walk (a : ℕ) : List Block → Option ℕ
  | [] => none
  | _ :: _ => some a

theorem nextBlock_tiles (h : Tiles m 0 a (b :: bs)) (hext : a + extent (b :: bs) ≤ maxWords) :
    nextBlock m a = walk (a + b.cells) bs := by
  rw [extent_cons] at hext
  rw [nextBlock, h.1]
  cases bs with
  | nil => rw [link, header_next b (Nat.zero_le _), if_pos rfl, walk]
  | cons c bs =>
    have hpos : a + b.cells ≠ 0 := by
      simp only [Block.cells]
      omega
    rw [link, header_next b (by omega), if_neg hpos, walk]

theorem firstFit_tiles {n fuel : ℕ} {size : UInt32} (h : Tiles m 0 a bs)
    (hext : a + extent bs ≤ maxWords) (hfuel : bs.length ≤ fuel) (hsize : size.toNat = 4 * n) :
    firstFit m size fuel (walk a bs) = some ((take n a bs).map fun r => r.1 - 1) := by
  induction bs generalizing a fuel with
  | nil => cases fuel <;> rfl
  | cons b bs ih =>
    cases fuel with
    | zero => simp at hfuel
    | succ fuel =>
      have hnext := nextBlock_tiles h hext
      rw [extent_cons, ← Nat.add_assoc] at hext
      have hfits : ((m a).isFree = true ∧ size.toNat ≤ (m a).size.toNat) ↔ Fits n b := by
        rw [h.1, header_size _ (by omega), hsize]
        exact and_congr_right fun _ => by omega
      have hrest := ih h.2 hext (Nat.le_of_succ_le_succ hfuel)
      rw [walk, take, firstFit]
      by_cases hb : Fits n b
      · rw [if_pos hb, if_pos (hfits.mpr hb)]
        rfl
      · rw [if_neg hb, if_neg (mt hfits.mp hb), hnext, hrest, Option.map_map]
        rfl

theorem prevBlock_tiles {t fuel : ℕ} {u : Block} (h : Tiles m 0 a (us ++ u :: b :: vs))
    (hext : a + extent (us ++ u :: b :: vs) ≤ maxWords)
    (hfuel : (us ++ u :: b :: vs).length ≤ fuel) (ht : t = a + extent us + u.cells) :
    prevBlock m t fuel (walk a (us ++ u :: b :: vs)) = some (some (a + extent us)) := by
  induction us generalizing a fuel with
  | nil =>
    cases fuel with
    | zero => simp at hfuel
    | succ fuel =>
      have hnext : nextBlock m a = some t := by
        rw [ht, nextBlock_tiles h hext]
        rfl
      rw [List.nil_append, walk, prevBlock, if_pos hnext]
      rfl
  | cons w us ih =>
    cases fuel with
    | zero => simp at hfuel
    | succ fuel =>
      have hnext : nextBlock m a = walk (a + w.cells) (us ++ u :: b :: vs) :=
        nextBlock_tiles h hext
      have hne : nextBlock m a ≠ some t := by
        rw [hnext]
        cases us with
        | nil =>
          refine fun heq => ?_
          have := Option.some.inj heq
          simp only [extent_cons, extent_nil, Block.cells] at ht this
          omega
        | cons x us =>
          refine fun heq => ?_
          have := Option.some.inj heq
          simp only [extent_cons, Block.cells] at ht this
          omega
      rw [List.cons_append, extent_cons, ← Nat.add_assoc] at hext
      rw [extent_cons, ← Nat.add_assoc] at ht
      rw [List.cons_append, walk, prevBlock, if_neg hne, hnext,
        ih h.2 hext (Nat.le_of_succ_le_succ hfuel) ht, extent_cons, Nat.add_assoc a]

theorem prevBlock_head {fuel : ℕ} (h : Tiles m 0 a bs) (hext : a + extent bs ≤ maxWords)
    (hfuel : bs.length ≤ fuel) : prevBlock m 0 fuel (walk a bs) = some none := by
  induction bs generalizing a fuel with
  | nil => cases fuel <;> rfl
  | cons b bs ih =>
    cases fuel with
    | zero => simp at hfuel
    | succ fuel =>
      have hnext := nextBlock_tiles h hext
      have hne : nextBlock m a ≠ some 0 := by
        rw [hnext]
        cases bs with
        | nil => exact nofun
        | cons c bs =>
          refine fun heq => ?_
          have := Option.some.inj heq
          simp only [Block.cells] at this
          omega
      rw [extent_cons, ← Nat.add_assoc] at hext
      rw [walk, prevBlock, if_neg hne, hnext, ih h.2 hext (Nat.le_of_succ_le_succ hfuel)]

def Keeps (m m' : Memory) (bs : List Block) : Prop :=
  ∀ q ∈ pieces 0 bs, ∀ k < q.size, m' (q.start + k) = m (q.start + k)

theorem headerSize_add {n : ℕ} {size : UInt32} (hfits : Fits n b) (hsize : size.toNat = 4 * n)
    (hb : 4 * b.size < 2 ^ 15) : (headerSize + size).toNat = 4 + 4 * n := by
  have := hfits.2
  rw [UInt32.toNat_add, hsize, headerSize]
  simp only [UInt32.reduceToNat]
  omega

theorem splitBlock_tiles {n : ℕ} {size : UInt32} (h : Tiles m 0 0 (us ++ b :: vs))
    (hext : extent (us ++ b :: vs) ≤ maxWords) (hfits : Fits n b) (hsize : size.toNat = 4 * n) :
    Tiles (splitBlock m (extent us) size) 0 0 (us ++ (cut n b ++ vs)) := by
  obtain ⟨hus, hb, hvs⟩ := tiles_append.mp h
  rw [Nat.zero_add] at hb hvs
  rw [extent_append, extent_cons] at hext
  simp only [maxWords, Block.cells] at hext
  have hblk : (m (extent us)).size.toNat = 4 * b.size := by
    rw [hb, header_size]
    simp only [maxWords, Block.cells]
    omega
  have hroom := headerSize_add hfits hsize (by omega)
  have hwhole : (m (extent us)).size.toNat ≤ (headerSize + size).toNat ↔ b.size ≤ n + 1 := by
    rw [hblk, hroom]
    omega
  unfold splitBlock cut
  by_cases hsmall : b.size ≤ n + 1
  · rw [if_pos (hwhole.mpr hsmall), if_pos hsmall]
    refine tiles_append.mpr ⟨hus.update (Or.inr (by omega)) _, ?_, ?_⟩
    · rw [Nat.zero_add, Function.update_self, hb]
      rfl
    · rw [Nat.zero_add]
      exact hvs.update (Or.inl (by simp only [Block.cells]; omega)) _
  · have hrest : extent us + (⟨n, false⟩ : Block).cells +
        (⟨b.size - (n + 1), true⟩ : Block).cells = extent us + b.cells := by
      simp only [Block.cells]
      omega
    have hfree : extent us + size.toNat / 4 + 1 = extent us + (⟨n, false⟩ : Block).cells := by
      simp only [Block.cells]
      omega
    have hne : extent us + (⟨n, false⟩ : Block).cells ≠ extent us := by
      simp only [Block.cells]
      omega
    rw [if_neg (mt hwhole.mp hsmall), if_neg hsmall]
    simp only [hfree]
    refine tiles_append.mpr ⟨?_, ?_, ?_, ?_⟩
    · exact (hus.update (Or.inr (by omega)) _).update (Or.inr (by omega)) _
    · rw [Nat.zero_add, Function.update_self, hsize]
      rfl
    · have hleft : 4 * b.size - (4 + 4 * n) = 4 * (b.size - (n + 1)) := by omega
      rw [Nat.zero_add, Function.update_of_ne hne, Function.update_self, hrest, hblk, hroom, hb,
        hleft]
      rfl
    · rw [Nat.zero_add, hrest]
      have hlt : extent us + (⟨n, false⟩ : Block).cells < extent us + b.cells := by
        simp only [Block.cells]
        omega
      exact (hvs.update (Or.inl hlt) _).update (Or.inl (by simp only [Block.cells]; omega)) _

theorem splitBlock_keeps {n : ℕ} {size : UInt32} (hfits : Fits n b)
    (hsize : size.toNat = 4 * n) (hb : (m (extent us)).size.toNat = 4 * b.size) :
    Keeps m (splitBlock m (extent us) size) (us ++ b :: vs) := by
  intro q hq k hk
  have hout : q.start + k < extent us ∨ extent us + b.cells ≤ q.start + k := by
    rw [pieces_append, List.mem_append, pieces, if_pos hfits.1, Nat.zero_add] at hq
    rcases hq with hq | hq
    · have := pieces_bounds hq
      omega
    · have := pieces_bounds hq
      omega
  simp only [Block.cells] at hout
  have hroom := headerSize_add hfits hsize (hb ▸ (m (extent us)).size.isLt)
  unfold splitBlock
  split_ifs with hwhole
  · rw [Function.update_of_ne (by omega)]
  · have hfree : q.start + k ≠ extent us + size.toNat / 4 + 1 := by omega
    rw [Function.update_of_ne (by omega), Function.update_of_ne hfree]

section Calls
variable {n p : ℕ} {size : UInt32} {bs' : List Block}

theorem walk_of_ne_nil (a : ℕ) (h : bs ≠ []) : walk a bs = some a := by
  cases bs with
  | nil => exact absurd rfl h
  | cons b bs => rfl

theorem length_le_maxBlocks (hext : extent bs ≤ maxWords) : bs.length ≤ maxBlocks :=
  (length_le_extent bs).trans (hext.trans (by decide))

theorem firstFit_pool (h : Tiles m 0 0 bs) (hext : extent bs ≤ maxWords) (hne : bs ≠ [])
    (hsize : size.toNat = 4 * n) :
    firstFit m size maxBlocks (some 0) = some ((take n 0 bs).map fun r => r.1 - 1) := by
  rw [← walk_of_ne_nil 0 hne]
  exact firstFit_tiles h (by rwa [Nat.zero_add]) (length_le_maxBlocks hext) hsize

theorem usbMemoryAlloc_none (h : Tiles m 0 0 bs) (hext : extent bs ≤ maxWords) (hne : bs ≠ [])
    (hsize : (alignSize size).toNat = 4 * n) (htake : take n 0 bs = none) :
    usbMemoryAlloc m size = some (m, none) := by
  rw [usbMemoryAlloc, firstFit_pool h hext hne hsize, htake]
  rfl

theorem usbMemoryAlloc_some (h : Tiles m 0 0 bs) (hext : extent bs ≤ maxWords)
    (hsize : (alignSize size).toNat = 4 * n) (htake : take n 0 bs = some (p, bs')) :
    ∃ m', usbMemoryAlloc m size = some (m', some p) ∧ Tiles m' 0 0 bs' ∧ Keeps m m' bs := by
  have hne : bs ≠ [] := by
    rintro rfl
    simp [take] at htake
  have hfind := firstFit_pool h hext hne hsize
  rw [htake] at hfind
  obtain ⟨us, b, vs, rfl, -, hfits, rfl, rfl⟩ := take_eq_some htake
  have hhead : (m (extent us)).size.toNat = 4 * b.size := by
    have hcells : b.cells ≤ extent (us ++ b :: vs) := cells_le_extent (by simp)
    have hb := (tiles_append.mp h).2.1
    rw [Nat.zero_add] at hb
    rw [hb, header_size _ (hcells.trans hext)]
  refine ⟨splitBlock m (extent us) (alignSize size), ?_, splitBlock_tiles h hext hfits hsize,
    splitBlock_keeps hfits hsize hhead⟩
  rw [usbMemoryAlloc, hfind]
  simp only [Option.map_some, Nat.zero_add, Nat.add_sub_cancel]

theorem absorb_tiles {x y : Block} (h : Tiles m 0 0 (us ++ x :: y :: vs))
    (hext : extent (us ++ x :: y :: vs) ≤ maxWords) :
    Tiles (absorb m (extent us) (extent us + x.cells)) 0 0
      (us ++ ⟨x.size + y.size + 1, x.free⟩ :: vs) := by
  obtain ⟨hus, hx, hy, hvs⟩ := tiles_append.mp h
  rw [Nat.zero_add] at hx hy hvs
  simp only [extent_append, extent_cons, maxWords, Block.cells] at hext
  have hxs : (m (extent us)).size.toNat = 4 * x.size := by
    rw [hx, header_size]
    simp only [maxWords, Block.cells]
    omega
  have hys : (m (extent us + x.cells)).size.toNat = 4 * y.size := by
    rw [hy, header_size]
    simp only [maxWords, Block.cells]
    omega
  have hsum : 4 * x.size + 4 * y.size + headerSize.toNat = 4 * (x.size + y.size + 1) := by
    rw [headerSize]
    simp only [UInt32.reduceToNat]
    omega
  have hcells : extent us + (⟨x.size + y.size + 1, x.free⟩ : Block).cells =
      extent us + x.cells + y.cells := by
    simp only [Block.cells]
    omega
  refine tiles_append.mpr ⟨hus.update (Or.inr (by omega)) _, ?_, ?_⟩
  · rw [Nat.zero_add, absorb, Function.update_self, hxs, hys, hsum, hx, hy, hcells]
    rfl
  · rw [Nat.zero_add, hcells]
    exact hvs.update (Or.inl (by simp only [Block.cells]; omega)) _

theorem setFree_tiles {x : Block} (h : Tiles m 0 0 (us ++ x :: vs)) :
    Tiles (setFree m (extent us)) 0 0 (us ++ ⟨x.size, true⟩ :: vs) := by
  obtain ⟨hus, hx, hvs⟩ := tiles_append.mp h
  rw [Nat.zero_add] at hx hvs
  refine tiles_append.mpr ⟨hus.update (Or.inr (by omega)) _, ?_, ?_⟩
  · rw [Nat.zero_add, setFree, Function.update_self, hx]
    rfl
  · rw [Nat.zero_add]
    exact hvs.update (Or.inl (by simp only [Block.cells]; omega)) _

theorem mergeNext_tiles {s s' : ℕ} {ws : List Block} (h : Tiles m 0 0 (us ++ ⟨s, false⟩ :: vs))
    (hext : extent (us ++ ⟨s, false⟩ :: vs) ≤ maxWords)
    (hjoin : join ⟨s, true⟩ vs = ⟨s', true⟩ :: ws) :
    Tiles (mergeNext m (extent us)) 0 0 (us ++ ⟨s', false⟩ :: ws) := by
  have hblk := (tiles_append.mp h).2
  rw [Nat.zero_add] at hblk
  rw [extent_append] at hext
  rw [mergeNext, nextBlock_tiles hblk hext]
  cases vs with
  | nil =>
    obtain ⟨hs, rfl⟩ := List.cons.inj hjoin
    obtain rfl : s = s' := congrArg Block.size hs
    exact h
  | cons y vs =>
    have hy := hblk.2.1
    rw [join] at hjoin
    simp only [walk, hy, header]
    by_cases hfree : y.free
    · rw [if_pos ⟨rfl, hfree⟩] at hjoin
      obtain ⟨hs, rfl⟩ := List.cons.inj hjoin
      obtain rfl : s + y.size + 1 = s' := congrArg Block.size hs
      rw [if_pos hfree]
      exact absorb_tiles h (by rwa [extent_append])
    · rw [if_neg (by simp [hfree])] at hjoin
      obtain ⟨hs, rfl⟩ := List.cons.inj hjoin
      obtain rfl : s = s' := congrArg Block.size hs
      rw [if_neg hfree]
      exact h

theorem mergeNext_other {w blkPtr : ℕ} (hw : w ≠ blkPtr) : mergeNext m blkPtr w = m w := by
  unfold mergeNext
  cases nextBlock m blkPtr with
  | none => rfl
  | some next =>
    simp only
    split_ifs
    · exact Function.update_of_ne hw _ _
    · rfl

theorem usbMemoryFree_first {x : Block} (h : Tiles (mergeNext m 0) 0 0 (x :: vs))
    (hext : extent (x :: vs) ≤ maxWords) :
    usbMemoryFree m (some 1) = some (setFree (mergeNext m 0) 0) := by
  have hprev : prevBlock (mergeNext m 0) 0 maxBlocks (some 0) = some none := by
    rw [← walk_of_ne_nil 0 (List.cons_ne_nil x vs)]
    exact prevBlock_head h (by rwa [Nat.zero_add]) (length_le_maxBlocks hext)
  rw [usbMemoryFree]
  simp only [Nat.sub_self, hprev]

theorem usbMemoryFree_after {u x : Block} {blk : ℕ} (hblk : blk = extent us + u.cells)
    (h : Tiles (mergeNext m blk) 0 0 (us ++ u :: x :: vs))
    (hext : extent (us ++ u :: x :: vs) ≤ maxWords) :
    usbMemoryFree m (some (blk + 1)) = some (if u.free then
      setFree (absorb (mergeNext m blk) (extent us) blk) (extent us)
      else setFree (mergeNext m blk) blk) := by
  have hprev : prevBlock (mergeNext m blk) blk maxBlocks (some 0) = some (some (extent us)) := by
    rw [← walk_of_ne_nil 0 (by simp : us ++ u :: x :: vs ≠ []), prevBlock_tiles h
      (by rwa [Nat.zero_add]) (length_le_maxBlocks hext) (by rw [hblk, Nat.zero_add]), Nat.zero_add]
  have hu : (mergeNext m blk (extent us)).isFree = u.free := by
    have hhead := (tiles_append.mp h).2.1
    rw [Nat.zero_add] at hhead
    rw [hhead]
    rfl
  rw [usbMemoryFree]
  simp only [Nat.add_sub_cancel, hprev, hu]
  split_ifs <;> rfl

theorem setFree_other {w blkPtr : ℕ} (hw : w ≠ blkPtr) : setFree m blkPtr w = m w :=
  Function.update_of_ne hw _ _

theorem usbMemoryFree_tiles {q : Piece} (h : Tiles m 0 0 bs) (hext : extent bs ≤ maxWords)
    (hpacked : Packed bs) (hq : q ∈ pieces 0 bs) :
    ∃ m', usbMemoryFree m (some q.start) = some m' ∧ Tiles m' 0 0 (give q.start 0 bs) ∧
      Keeps m m' bs := by
  obtain ⟨us, vs, rfl, hstart⟩ := mem_pieces hq
  rw [Nat.zero_add] at hstart
  have hheads : ∀ r ∈ pieces 0 (us ++ ⟨q.size, false⟩ :: vs), ∀ k < r.size,
      r.start + k ∉ headers 0 (us ++ ⟨q.size, false⟩ :: vs) := fun r hr k hk =>
    not_mem_headers hr hk
  obtain ⟨s', ws, hjoin⟩ := join_head ⟨q.size, true⟩ vs
  have hmerged := mergeNext_tiles h hext hjoin
  have hext' : extent (us ++ ⟨s', false⟩ :: ws) ≤ maxWords := by
    have hcells : (⟨s', true⟩ : Block).cells + extent ws = q.size + 1 + extent vs := by
      rw [← extent_cons, ← hjoin, extent_join, Block.cells]
    simp only [extent_append, extent_cons, Block.cells] at hext hcells ⊢
    omega
  rw [hstart]
  rcases List.eq_nil_or_concat us with rfl | ⟨us, u, rfl⟩
  · refine ⟨_, usbMemoryFree_first hmerged hext', ?_, fun r hr k hk => ?_⟩
    · have hfreed := @setFree_tiles _ [] _ _ hmerged
      rwa [List.nil_append, ← hjoin, ← give_head 0 ⟨q.size, false⟩ vs] at hfreed
    · have hne : r.start + k ≠ 0 := fun heq => hheads r hr k hk (heq ▸ List.mem_cons_self)
      rw [setFree_other hne, mergeNext_other hne]
  · rw [List.concat_eq_append, List.append_assoc, List.singleton_append] at *
    have hblk : extent (us ++ [u]) = extent us + u.cells := by simp
    have hgive : give (extent us + u.cells + 1) 0 (us ++ u :: ⟨q.size, false⟩ :: vs) =
        us ++ join u (⟨s', true⟩ :: ws) := by
      rw [← hjoin]
      exact give_append hpacked (by rw [Nat.zero_add])
    rw [hblk] at hmerged ⊢
    refine ⟨_, usbMemoryFree_after rfl hmerged hext', ?_, fun r hr k hk => ?_⟩
    · rw [hgive, join]
      by_cases hfree : u.free
      · have habsorbed := setFree_tiles (absorb_tiles hmerged hext')
        rw [if_pos hfree, if_pos ⟨hfree, rfl⟩]
        exact habsorbed
      · have hsplit : Tiles (mergeNext m (extent us + u.cells)) 0 0
            (us ++ [u] ++ ⟨s', false⟩ :: ws) := by
          rwa [List.append_assoc, List.singleton_append]
        have hfreed := setFree_tiles hsplit
        rw [if_neg hfree, if_neg (by simp [hfree])]
        rwa [hblk, List.append_assoc, List.singleton_append] at hfreed
    · have hne : r.start + k ≠ extent us + u.cells := by
        refine fun heq => hheads r hr k hk ?_
        simp [heq, headers]
      have hne' : r.start + k ≠ extent us := by
        refine fun heq => hheads r hr k hk ?_
        simp [heq, headers]
      split_ifs
      · rw [setFree_other hne', absorb, Function.update_of_ne hne', mergeNext_other hne]
      · rw [setFree_other hne, mergeNext_other hne]

end Calls

theorem usbMemoryInit_tiles (m : Memory) {memoryPoolSize : UInt32}
    (hmin : 4 ≤ memoryPoolSize.toNat) (hmax : memoryPoolSize.toNat ≤ 2 ^ 15) :
    Tiles (usbMemoryInit m memoryPoolSize) 0 0 [⟨memoryPoolSize.toNat / 4 - 1, true⟩] := by
  have hsize : ((memoryPoolSize &&& 0xfffffffc) - headerSize).toNat =
      4 * (memoryPoolSize.toNat / 4 - 1) := by
    have hle : headerSize ≤ (memoryPoolSize >>> 2) <<< 2 := by
      rw [UInt32.le_iff_toNat_le, shifts_toNat, headerSize]
      simp only [UInt32.reduceToNat]
      omega
    rw [and_mask, UInt32.toNat_sub_of_le _ _ hle, shifts_toNat, headerSize]
    simp only [UInt32.reduceToNat]
    omega
  refine ⟨?_, trivial⟩
  rw [usbMemoryInit, Function.update_self, hsize]
  rfl

end AoaBoard.Usb
