import AoaBoard.Library.Pages
import AoaBoard.Library.Run
import Mathlib.Data.UInt

/-!
# The EEPROM driver

`eeprom.c` over an arbitrary I2C bus: `transfer` stands for
`I2C_MasterTransferData`, and every call of it is recorded with its reply. The
two memories that the board can have differ in size, page and address bytes;
`eeprom_init` selects one of the two configurations. The delay loops do nothing
here.
-/

namespace AoaBoard.Eeprom
open Library Library.Bytes Library.Run Library.Pages

inductive Status
  | success
  | error
  deriving DecidableEq

/-- `I2C_M_SETUP_Type`: nothing is sent when `txData` is empty, nothing is received when
`rxLength` is zero. -/
structure Setup where
  slAddr7bit : UInt8
  txData : List UInt8
  rxLength : ℕ

structure Reply where
  status : Status
  data : List UInt8

def eepromI2cAddr : UInt8 := 0x50

def eui48OrgId : List UInt8 := [0x00, 0x04, 0xa3]

structure Config where
  totalSize : UInt32
  pageSize : UInt32
  is24aa02e48t : Bool

def config24lc : Config := ⟨4096, 32, false⟩

def config24aa : Config := ⟨128, 8, true⟩

structure Ran (β α : Type) where
  value : α
  bus : β
  log : List (Setup × Reply)

section
variable {β : Type} (transfer : β → Setup → β × Reply)

def issue (b : β) (s : Setup) : β × List (Setup × Reply) :=
  ((transfer b s).1, [(s, (transfer b s).2)])

def i2cRead (b : β) (addr : UInt8) (buf : ℕ → UInt8) (len : ℕ) : Ran β (ℤ × (ℕ → UInt8)) :=
  let r := transfer b ⟨addr, [], len⟩
  ⟨(if r.2.status = .success then 0 else -1, fill buf 0 r.2.data), r.1, [(⟨addr, [], len⟩, r.2)]⟩

def i2cWrite (b : β) (addr : UInt8) (data : List UInt8) : Ran β ℤ :=
  let r := transfer b ⟨addr, data, 0⟩
  ⟨if r.2.status = .success then 0 else -1, r.1, [(⟨addr, data, 0⟩, r.2)]⟩

def offsetBytes (c : Config) (off : UInt16) : List UInt8 :=
  if c.is24aa02e48t then [(off &&& 0xff).toUInt8]
  else [((off >>> 8) &&& 0xff).toUInt8, (off &&& 0xff).toUInt8]

def outOfRange (c : Config) (offset len : UInt16) : Prop :=
  c.totalSize < len.toUInt32 ∨ c.totalSize < offset.toUInt32 + len.toUInt32

instance decidableOutOfRange (c : Config) (offset len : UInt16) :
    Decidable (outOfRange c offset len) :=
  inferInstanceAs (Decidable (_ ∨ _))

def eepromRead (c : Config) (b : β) (buf : ℕ → UInt8) (offset len : UInt16) :
    Ran β (Int16 × (ℕ → UInt8)) :=
  if outOfRange c offset len then ⟨(-1, buf), b, []⟩
  else
    let w := i2cWrite transfer b eepromI2cAddr (offsetBytes c offset)
    let r := i2cRead transfer w.bus eepromI2cAddr buf len.toNat
    ⟨(len.toInt16, r.value.2), r.bus, w.log ++ r.log⟩

structure Progress where
  off : UInt16
  len : UInt16
  wLen : UInt16
  written : Int16

def nextProgress (c : Config) (p : Progress) : Progress :=
  let len := p.len - p.wLen
  ⟨p.off + p.wLen, len,
    (if c.pageSize < len.toUInt32 then c.pageSize else len.toUInt32).toUInt16,
    p.written + p.wLen.toInt16⟩

/-- The loop of `eeprom_write`; `none` when `fuel` rounds are not enough. -/
def writeLoop (c : Config) (buf : ℕ → UInt8) : ℕ → Progress → β → Option (Ran β Int16)
  | 0, p, b => if p.len = 0 then some ⟨p.written, b, []⟩ else none
  | fuel + 1, p, b =>
    if p.len = 0 then some ⟨p.written, b, []⟩
    else
      let w := i2cWrite transfer b eepromI2cAddr
        (offsetBytes c p.off ++ slice (shift buf p.written.toNatClampNeg) p.wLen.toNat)
      (writeLoop c buf fuel (nextProgress c p) w.bus).map fun r =>
        ⟨r.value, r.bus, w.log ++ r.log⟩

def startProgress (c : Config) (offset len : UInt16) : Progress :=
  let wLen := (c.pageSize - offset.toUInt32 % c.pageSize).toUInt16
  ⟨offset, len, if wLen < len then wLen else len, 0⟩

def eepromWrite (fuel : ℕ) (c : Config) (b : β) (buf : ℕ → UInt8) (offset len : UInt16) :
    Option (Ran β Int16) :=
  if outOfRange c offset len then some ⟨-1, b, []⟩
  else writeLoop transfer c buf fuel (startProgress c offset len) b

def eepromReadEui48 (b : β) (buf : ℕ → UInt8) : Ran β (Bool × (ℕ → UInt8)) :=
  let w := i2cWrite transfer b eepromI2cAddr [0xFA]
  let r := i2cRead transfer w.bus eepromI2cAddr buf 6
  ⟨(slice r.value.2 3 = eui48OrgId, r.value.2), r.bus, w.log ++ r.log⟩

/-- `eui` is the memory of the local array. -/
def eepromInit (c : Config) (b : β) (eui : ℕ → UInt8) : Ran β Config :=
  let r := eepromReadEui48 transfer b eui
  ⟨if c.is24aa02e48t ∨ r.value.1 then config24aa else config24lc, r.bus, r.log⟩

end

theorem issued_setups {β : Type} (transfer : β → Setup → β × Reply) (b : β) (setups : List Setup) :
    (outputs (issue transfer) b setups).map Prod.fst = setups := by
  induction setups generalizing b with
  | nil => rfl
  | cons s setups ih => rw [outputs_cons, List.map_append, ih, issue, List.map_singleton,
      List.singleton_append]

def writeSetup (c : Config) (q : ℕ × List UInt8) : Setup :=
  ⟨eepromI2cAddr, offsetBytes c (UInt16.ofNat q.1) ++ q.2, 0⟩

def writeSetups (c : Config) (fuel off : ℕ) (data : List UInt8) : List Setup :=
  (pieces c.pageSize.toNat fuel off data).map (writeSetup c)

theorem writeSetups_slice (c : Config) (fuel o : ℕ) {l : ℕ} (hl : l ≠ 0) {buf : ℕ → UInt8} {k : ℕ} :
    let n := min (c.pageSize.toNat - o % c.pageSize.toNat) l
    writeSetups c (fuel + 1) o (slice (shift buf k) l) =
      writeSetup c (o, slice (shift buf k) n) ::
        writeSetups c fuel (o + n) (slice (shift buf (k + n)) (l - n)) := by
  intro n
  have hdata : slice (shift buf k) l ≠ [] := by
    rw [← List.length_pos_iff, slice_length]
    omega
  have hshift : shift (shift buf k) n = shift buf (k + n) := by
    funext i
    rw [shift, shift, shift, Nat.add_assoc]
  have hle : n ≤ l := min_le_right _ _
  rw [writeSetups, pieces_of_ne_nil _ _ _ hdata, slice_length, take_slice, min_eq_left hle,
    drop_slice _ hle, hshift, List.map_cons]
  rfl

theorem toInt16_eq_ofNat (w : UInt16) : w.toInt16 = Int16.ofNat w.toNat := by
  rw [← UInt16.toInt16_ofNat', UInt16.ofNat_toNat]

theorem min_toNat {a : UInt32} (ha : a.toNat < 65536) (w : UInt16) :
    (if a < w.toUInt32 then a else w.toUInt32).toUInt16.toNat = min a.toNat w.toNat := by
  split_ifs with h
  all_goals rw [UInt32.lt_iff_toNat_lt, UInt16.toNat_toUInt32] at h
  · rw [UInt32.toNat_toUInt16, Nat.mod_eq_of_lt ha, min_eq_left (Nat.le_of_lt h)]
  · rw [UInt16.toUInt16_toUInt32, min_eq_right (Nat.le_of_not_lt h)]

structure At (c : Config) (p : Progress) (o l k : ℕ) : Prop where
  off : p.off.toNat = o
  len : p.len.toNat = l
  wLen : p.wLen.toNat = min (c.pageSize.toNat - o % c.pageSize.toNat) l
  written : p.written = Int16.ofNat k

section Loop
variable {c : Config} {p : Progress} {o l k : ℕ}

theorem At.next (h : At c p o l k) (hpos : 0 < c.pageSize.toNat) (hpage : c.pageSize.toNat < 65536)
    (hend : o + l < 65536) :
    At c (nextProgress c p) (o + min (c.pageSize.toNat - o % c.pageSize.toNat) l)
      (l - min (c.pageSize.toNat - o % c.pageSize.toNat) l)
      (k + min (c.pageSize.toNat - o % c.pageSize.toNat) l) := by
  obtain ⟨hoff, hlen, hwLen, hwritten⟩ := h
  have hmod := Nat.mod_lt o hpos
  have hle : p.wLen ≤ p.len := by
    rw [UInt16.le_iff_toNat_le]
    omega
  have hrest : (p.len - p.wLen).toNat = l - min (c.pageSize.toNat - o % c.pageSize.toNat) l := by
    rw [UInt16.toNat_sub_of_le _ _ hle, hlen, hwLen]
  refine ⟨?_, hrest, ?_, ?_⟩
  · rw [nextProgress, UInt16.toNat_add, hoff, hwLen]
    omega
  · rw [nextProgress, min_toNat hpage, hrest, next_piece hpos]
  · rw [nextProgress, hwritten, toInt16_eq_ofNat, hwLen, Int16.ofNat_add]

theorem At.writes (h : At c p o l k) (hk : k < 32768) (buf : ℕ → UInt8) :
    offsetBytes c p.off ++ slice (shift buf p.written.toNatClampNeg) p.wLen.toNat =
      offsetBytes c (UInt16.ofNat o) ++ slice (shift buf k)
        (min (c.pageSize.toNat - o % c.pageSize.toNat) l) := by
  rw [← h.off, UInt16.ofNat_toNat, h.off, h.written, Int16.toNatClampNeg_ofNat_of_lt hk, h.wLen]

variable {β : Type} (transfer : β → Setup → β × Reply)

theorem writeLoop_eq (hpos : 0 < c.pageSize.toNat) (hpage : c.pageSize.toNat < 65536)
    (buf : ℕ → UInt8) {fuel : ℕ} (h : At c p o l k) (hend : o + l < 65536)
    (hwritten : k + l < 32768) (hfuel : l ≤ fuel) (b : β) :
    let setups := writeSetups c fuel o (slice (shift buf k) l)
    writeLoop transfer c buf fuel p b = some ⟨Int16.ofNat (k + l), after (issue transfer) b setups,
      outputs (issue transfer) b setups⟩ := by
  induction fuel generalizing p o l k b with
  | zero =>
    obtain rfl : l = 0 := Nat.le_zero.mp hfuel
    have hzero : p.len = 0 := UInt16.toNat_inj.mp h.len
    rw [writeLoop, if_pos hzero, h.written]
    rfl
  | succ fuel ih =>
    by_cases hl : l = 0
    · subst hl
      have hzero : p.len = 0 := UInt16.toNat_inj.mp h.len
      rw [writeLoop, if_pos hzero, h.written]
      rfl
    · have hsome : ¬ p.len = 0 := by
        intro hzero
        have hlen := h.len
        rw [hzero] at hlen
        exact hl hlen.symm
      have hmod := Nat.mod_lt o hpos
      have hrest := ih (h.next hpos hpage hend) (by omega) (by omega) (by omega)
        (i2cWrite transfer b eepromI2cAddr (offsetBytes c (UInt16.ofNat o) ++
          slice (shift buf k) (min (c.pageSize.toNat - o % c.pageSize.toNat) l))).bus
      have htotal : k + min (c.pageSize.toNat - o % c.pageSize.toNat) l +
          (l - min (c.pageSize.toNat - o % c.pageSize.toNat) l) = k + l := by omega
      rw [htotal] at hrest
      rw [writeLoop, if_neg hsome, h.writes (by omega)]
      simp only at hrest ⊢
      rw [hrest, writeSetups_slice c fuel o hl]
      rfl

end Loop

theorem outOfRange_iff (c : Config) (offset len : UInt16) :
    outOfRange c offset len ↔ c.totalSize.toNat < offset.toNat + len.toNat := by
  have hoffset := offset.toNat_lt
  have hlen := len.toNat_lt
  simp only [outOfRange, UInt32.lt_iff_toNat_lt, UInt32.toNat_add, UInt16.toNat_toUInt32]
  omega

theorem startProgress_at {c : Config} (hpos : 0 < c.pageSize.toNat)
    (hpage : c.pageSize.toNat < 65536) (offset len : UInt16) :
    At c (startProgress c offset len) offset.toNat len.toNat 0 := by
  have hmod := Nat.mod_lt offset.toNat hpos
  have hsub : (c.pageSize - offset.toUInt32 % c.pageSize).toUInt16.toNat =
      c.pageSize.toNat - offset.toNat % c.pageSize.toNat := by
    have hle : offset.toUInt32 % c.pageSize ≤ c.pageSize := by
      rw [UInt32.le_iff_toNat_le, UInt32.toNat_mod, UInt16.toNat_toUInt32]
      omega
    rw [UInt32.toNat_toUInt16, UInt32.toNat_sub_of_le _ _ hle, UInt32.toNat_mod,
      UInt16.toNat_toUInt32]
    omega
  refine ⟨rfl, rfl, ?_, rfl⟩
  simp only [startProgress]
  split_ifs with h
  all_goals rw [UInt16.lt_iff_toNat_lt, hsub] at h
  · rw [hsub, min_eq_left (Nat.le_of_lt h)]
  · rw [min_eq_right (Nat.le_of_not_lt h)]

section
variable {β : Type} (transfer : β → Setup → β × Reply) {c : Config} {offset len : UInt16}

theorem eepromWrite_eq (hpos : 0 < c.pageSize.toNat) (hpage : c.pageSize.toNat < 65536)
    (htotal : c.totalSize.toNat < 32768) (hrange : ¬ outOfRange c offset len) {fuel : ℕ}
    (hfuel : len.toNat ≤ fuel) (b : β) (buf : ℕ → UInt8) :
    let setups := writeSetups c fuel offset.toNat (slice buf len.toNat)
    eepromWrite transfer fuel c b buf offset len = some ⟨len.toInt16,
      after (issue transfer) b setups, outputs (issue transfer) b setups⟩ := by
  rw [outOfRange_iff] at hrange
  have hat := startProgress_at hpos hpage offset len
  have hloop := writeLoop_eq transfer hpos hpage buf hat (by omega) (by omega) hfuel b
  have hbuf : shift buf 0 = buf := by
    funext i
    rw [shift, Nat.zero_add]
  rw [hbuf, Nat.zero_add, ← toInt16_eq_ofNat] at hloop
  rw [eepromWrite, if_neg (by rwa [outOfRange_iff])]
  exact hloop

def readSetups (c : Config) (offset len : UInt16) : List Setup :=
  [⟨eepromI2cAddr, offsetBytes c offset, 0⟩, ⟨eepromI2cAddr, [], len.toNat⟩]

theorem eepromRead_eq (hrange : ¬ outOfRange c offset len) (b : β) (buf : ℕ → UInt8) :
    let setups := readSetups c offset len
    let addressed := (transfer b ⟨eepromI2cAddr, offsetBytes c offset, 0⟩).1
    eepromRead transfer c b buf offset len =
      ⟨(len.toInt16, fill buf 0 (transfer addressed ⟨eepromI2cAddr, [], len.toNat⟩).2.data),
        after (issue transfer) b setups, outputs (issue transfer) b setups⟩ := by
  rw [eepromRead, if_neg hrange]
  rfl

theorem toInt_of_inRange (htotal : c.totalSize.toNat < 32768) (hrange : ¬ outOfRange c offset len) :
    len.toInt16.toInt = len.toNat := by
  rw [outOfRange_iff] at hrange
  rw [toInt16_eq_ofNat, Int16.toInt_ofNat_of_lt (by omega)]

end

end AoaBoard.Eeprom
