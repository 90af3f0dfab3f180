import AoaBoard.Library.Bits
import AoaBoard.Can.Queue
import Mathlib.Tactic.IntervalCases
import Mathlib.Tactic.FinCases

/-!
# The CAN controller registers

`CAN_ReceiveMsg` reads a frame from the receive registers of a controller, and
`CAN_SendMsg` writes one to the registers of a transmit buffer. A transmit
buffer is read back with `transmitted` the way the controller puts it on the
bus: the data length code stands in bits 16 to 19 of the frame information
register, the remote flag in bit 30 and the identifier format in bit 31.
-/

namespace AoaBoard.Can
open Library.Bits

def dataFrame : UInt8 := 0
def remoteFrame : UInt8 := 1
def extIdFormat : UInt8 := 1

structure RxRegs where
  sr : UInt32
  rfs : UInt32
  rid : UInt32
  rda : UInt32
  rdb : UInt32

structure TxRegs where
  tfi : UInt32
  tid : UInt32
  tda : UInt32
  tdb : UInt32

def frameLen (info : UInt32) : UInt8 := ((info &&& 0x000F0000) >>> 16).toUInt8
def frameType (info : UInt32) : UInt8 := ((info &&& 0x40000000) >>> 30).toUInt8
def frameFormat (info : UInt32) : UInt8 := ((info &&& 0x80000000) >>> 31).toUInt8

def dataBytes (data : UInt32) : Fin 4 → UInt8
  | 0 => (data &&& 0x000000FF).toUInt8
  | 1 => ((data &&& 0x0000FF00) >>> 8).toUInt8
  | 2 => ((data &&& 0x00FF0000) >>> 16).toUInt8
  | 3 => ((data &&& 0xFF000000) >>> 24).toUInt8

structure Received where
  success : Bool
  msg : CanMsg
  released : Bool

/-- `msg` is the old content of the message that the frame is stored in, and `released`
says whether the receive buffer is released. -/
def canReceiveMsg (can : RxRegs) (msg : CanMsg) : Received :=
  if can.sr &&& 1 ≠ 0 then
    let msg := { msg with format := frameFormat can.rfs, type := frameType can.rfs
                          len := frameLen can.rfs, id := can.rid }
    if msg.type = dataFrame then
      ⟨true, { msg with dataA := dataBytes can.rda, dataB := dataBytes can.rdb }, true⟩
    else ⟨true, msg, false⟩
  else ⟨false, msg, false⟩

def setLen (tfi : UInt32) (len : UInt8) : UInt32 :=
  (tfi &&& ~~~(0x00F0000 : UInt32)) ||| len.toUInt32 <<< 16

def setFlag (flag tfi : UInt32) (on : Bool) : UInt32 :=
  if on then tfi ||| flag else tfi &&& ~~~flag

def setType (tfi : UInt32) (type : UInt8) : UInt32 :=
  setFlag 0x40000000 tfi (type = remoteFrame)

def setFormat (tfi : UInt32) (format : UInt8) : UInt32 :=
  setFlag 0x80000000 tfi (format = extIdFormat)

def joinByte (data : UInt32) (n : Fin 4) (b : UInt8) : UInt32 :=
  data ||| b.toUInt32 <<< (8 * UInt32.ofNat n)

def transmitted (can : TxRegs) : CanMsg where
  id := can.tid
  dataA := dataBytes can.tda
  dataB := dataBytes can.tdb
  len := frameLen can.tfi
  format := frameFormat can.tfi
  type := frameType can.tfi

def gather (bytes : Fin 4 → UInt8) : ℕ → UInt32
  | 0 => 0
  | n + 1 => if h : n < 4 then joinByte (gather bytes n) ⟨n, h⟩ (bytes ⟨n, h⟩) else gather bytes n

structure Encodable (msg : CanMsg) : Prop where
  len : msg.len.toNat < 16
  type : msg.type.toNat < 2
  format : msg.format.toNat < 2

theorem setFlag_eq_writeField (flag tfi : UInt32) (on : Bool) :
    setFlag flag tfi on = writeField flag (if on then flag else 0) tfi := by
  cases on with
  | false => exact and_not_eq_writeField tfi flag
  | true => exact or_eq_writeField tfi flag

theorem setFlag_and_self (flag tfi : UInt32) (on : Bool) :
    setFlag flag tfi on &&& flag = if on then flag else 0 := by
  rw [setFlag_eq_writeField]
  apply writeField_and_mask
  cases on <;> simp

theorem setFlag_and_other {flag other : UInt32} (h : flag &&& other = 0) (tfi : UInt32)
    (on : Bool) : setFlag flag tfi on &&& other = tfi &&& other := by
  rw [setFlag_eq_writeField]
  apply writeField_and_other _ h
  cases on <;> simp

theorem lenField (len : Fin 16) :
    (UInt8.ofNat len).toUInt32 <<< 16 &&& (0x00F0000 : UInt32) =
      (UInt8.ofNat len).toUInt32 <<< 16 ∧
    ((UInt8.ofNat len).toUInt32 <<< 16 >>> 16).toUInt8 = UInt8.ofNat len := by
  revert len
  decide

theorem frameLen_setLen (tfi : UInt32) {len : UInt8} (h : len.toNat < 16) :
    frameLen (setLen tfi len) = len := by
  obtain ⟨hmask, hback⟩ := lenField ⟨len.toNat, h⟩
  rw [UInt8.ofNat_toNat] at hmask hback
  have hfield : setLen tfi len &&& (0x000F0000 : UInt32) = len.toUInt32 <<< 16 :=
    writeField_and_mask hmask tfi
  rw [frameLen, hfield, hback]

theorem frameLen_setType (tfi : UInt32) (type : UInt8) :
    frameLen (setType tfi type) = frameLen tfi := by
  rw [frameLen, setType, setFlag_and_other (by decide), frameLen]

theorem frameLen_setFormat (tfi : UInt32) (format : UInt8) :
    frameLen (setFormat tfi format) = frameLen tfi := by
  rw [frameLen, setFormat, setFlag_and_other (by decide), frameLen]

theorem eq_zero_or_one {v : UInt8} (h : v.toNat < 2) : v = 0 ∨ v = 1 := by
  have hv : v.toNat = 0 ∨ v.toNat = 1 := by omega
  exact hv.imp (fun h => UInt8.toNat_inj.mp h) (fun h => UInt8.toNat_inj.mp h)

theorem frameType_setType (tfi : UInt32) {type : UInt8} (h : type.toNat < 2) :
    frameType (setType tfi type) = type := by
  rw [frameType, setType, setFlag_and_self]
  rcases eq_zero_or_one h with rfl | rfl <;> decide

theorem frameType_setFormat (tfi : UInt32) (format : UInt8) :
    frameType (setFormat tfi format) = frameType tfi := by
  rw [frameType, setFormat, setFlag_and_other (by decide), frameType]

theorem frameFormat_setFormat (tfi : UInt32) {format : UInt8} (h : format.toNat < 2) :
    frameFormat (setFormat tfi format) = format := by
  rw [frameFormat, setFormat, setFlag_and_self]
  rcases eq_zero_or_one h with rfl | rfl <;> decide

theorem dataBytes_gather (bytes : Fin 4 → UInt8) : dataBytes (gather bytes 4) = bytes := by
  funext n
  apply UInt8.toBitVec_inj.mp
  apply BitVec.eq_of_getLsbD_eq
  intro i hi
  fin_cases n <;> simp [dataBytes, gather, joinByte] <;> interval_cases i <;> simp

theorem masked_toNat_lt (info mask shift : UInt32) {n : ℕ} (hs : shift.toNat < 32)
    (h : mask.toNat / 2 ^ shift.toNat < n) : ((info &&& mask) >>> shift).toUInt8.toNat < n := by
  rw [UInt32.toNat_toUInt8, UInt32.toNat_shiftRight, UInt32.toNat_and, Nat.mod_eq_of_lt hs,
    Nat.shiftRight_eq_div_pow]
  calc (info.toNat &&& mask.toNat) / 2 ^ shift.toNat % 2 ^ 8
      ≤ (info.toNat &&& mask.toNat) / 2 ^ shift.toNat := Nat.mod_le _ _
    _ ≤ mask.toNat / 2 ^ shift.toNat := Nat.div_le_div_right Nat.and_le_right
    _ < n := h

theorem canReceiveMsg_encodable {msg : CanMsg} (h : Encodable msg) (can : RxRegs) :
    Encodable (canReceiveMsg can msg).msg := by
  have hlen : (frameLen can.rfs).toNat < 16 := masked_toNat_lt _ _ _ (by decide) (by decide)
  have htype : (frameType can.rfs).toNat < 2 := masked_toNat_lt _ _ _ (by decide) (by decide)
  have hformat : (frameFormat can.rfs).toNat < 2 := masked_toNat_lt _ _ _ (by decide) (by decide)
  simp only [canReceiveMsg]
  split_ifs
  · exact ⟨hlen, htype, hformat⟩
  · exact ⟨hlen, htype, hformat⟩
  · exact h

end AoaBoard.Can
