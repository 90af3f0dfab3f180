import Mathlib.Data.List.FinRange
import Mathlib.Data.UInt
import Mathlib.Logic.Function.Basic

/-!
# The OHCI host controller driver

The driver shares endpoint descriptors (ED) and transfer descriptors (TD) with
the host controller. Three static EDs head the lists of endpoints that the
controller goes through; an ED in use has a queue of TDs from `HeadP` to the
place holder at `TailP`. The controller takes a finished TD out of the queue and
puts it at the head of its done queue, which `ProcessDoneQueue` reverses.

The functions return `none` where the source follows a null pointer, takes the
one kind of TD for the other while it fills it, or never returns.
-/

namespace AoaBoard.Usb.Ohci

def maxEd : ℕ := 8
def maxGtd : ℕ := maxEd + 3
def maxItd : ℕ := 4
def maxUsbCore : ℕ := 1
def tdMaxXferLength : UInt32 := 0x2000
def tdNoInterruptOnComplete : UInt8 := 7

inductive TransferType
  | control
  | isochronous
  | bulk
  | interrupt
  deriving DecidableEq

inductive TransferDir
  | setup
  | in
  | out
  deriving DecidableEq

inductive Speed
  | full
  | low
  | high
  deriving DecidableEq

inductive ConditionCode
  | ok
  | crc
  | bitStuffing
  | dataToggleMismatch
  | stall
  | deviceNotResponding
  | pidCheckFailure
  | unexpectedPID
  | dataOverrun
  | dataUnderrun
  | reserved1
  | reserved2
  | bufferOverrun
  | bufferUnderrun
  | notAccessed
  | reserved
  deriving DecidableEq

inductive HcdStatus
  | transfer (code : ConditionCode)
  | transferQueued
  | notEnoughEndpoint
  | notEnoughGtd
  | notEnoughItd
  | pipehandleInvalid
  | parameterInvalid
  deriving DecidableEq

abbrev HcdStatus.ok : HcdStatus := .transfer .ok

/-- The static EDs; interrupt and isochronous endpoints share one. -/
inductive ListHead
  | periodic
  | control
  | bulk
  deriving DecidableEq

inductive Td
  | gtd (i : Fin maxGtd)
  | itd (i : Fin maxItd)
  deriving DecidableEq

structure Ed where
  functionAddr : UInt8
  endpointNumber : UInt8
  direction : UInt8
  speed : UInt8
  skip : Bool
  format : Bool
  maxPackageSize : UInt16
  tailP : Option Td
  headTD : Option Td
  halted : Bool
  toggleCarry : Bool
  nextED : Option (Fin maxEd)
  inUse : Bool
  listIndex : ListHead
  interval : UInt8
  status : HcdStatus
  pActualTransferCount : Option ℕ

structure Gtd where
  bufferRounding : Bool
  directionPID : UInt8
  delayInterrupt : UInt8
  dataToggle : UInt8
  conditionCode : ConditionCode
  currentBufferPointer : UInt32
  nextTD : Option Td
  bufferEnd : UInt32
  inUse : Bool
  edIdx : Fin maxEd
  transferCount : UInt16

structure Itd where
  startingFrame : UInt16
  delayInterrupt : UInt8
  frameCount : UInt8
  conditionCode : ConditionCode
  bufferPage0 : UInt32
  nextTD : Option Td
  bufferEnd : UInt32
  offsetPSW : ℕ → UInt16
  inUse : Bool
  edIdx : Fin maxEd

def zeroEd : Ed :=
  ⟨0, 0, 0, 0, false, false, 0, none, none, false, false, none, false, .periodic, 0, .ok, none⟩

def firstEd : Fin maxEd := ⟨0, by decide⟩

def zeroGtd : Gtd := ⟨false, 0, 0, 0, .ok, 0, none, 0, false, firstEd, 0⟩

def zeroItd : Itd := ⟨0, 0, 0, .ok, 0, none, 0, fun _ => 0, false, firstEd⟩

/-- `ohci_data`, the registers of the controller that matter to the driver, and the counters of
transferred bytes that EDs point to. `staticEDs` is `NextED` of a static ED. -/
structure Host where
  eds : Fin maxEd → Ed
  gtds : Fin maxGtd → Gtd
  itds : Fin maxItd → Itd
  staticEDs : ListHead → Option (Fin maxEd)
  controlListFilled : Bool
  bulkListFilled : Bool
  hcDoneHead : Option Td
  hccaDoneHead : Option Td
  writebackDoneHead : Bool
  hccaFrameNumber : UInt16
  counts : ℕ → UInt16

def Td.isItd : Td → Bool
  | .gtd _ => false
  | .itd _ => true

section Access
variable (s : Host)

def Host.nextTD : Td → Option Td
  | .gtd i => (s.gtds i).nextTD
  | .itd i => (s.itds i).nextTD

def Host.tdInUse : Td → Bool
  | .gtd i => (s.gtds i).inUse
  | .itd i => (s.itds i).inUse

def Host.edIdx : Td → Fin maxEd
  | .gtd i => (s.gtds i).edIdx
  | .itd i => (s.itds i).edIdx

def Host.conditionCode : Td → ConditionCode
  | .gtd i => (s.gtds i).conditionCode
  | .itd i => (s.itds i).conditionCode

def Host.delayInterrupt : Td → UInt8
  | .gtd i => (s.gtds i).delayInterrupt
  | .itd i => (s.itds i).delayInterrupt

def Host.setEd (e : Fin maxEd) (d : Ed) : Host := { s with eds := Function.update s.eds e d }

def Host.setGtd (i : Fin maxGtd) (g : Gtd) : Host := { s with gtds := Function.update s.gtds i g }

def Host.setItd (i : Fin maxItd) (t : Itd) : Host := { s with itds := Function.update s.itds i t }

def Host.setNextTD (td : Td) (p : Option Td) : Host :=
  match td with
  | .gtd i => s.setGtd i { s.gtds i with nextTD := p }
  | .itd i => s.setItd i { s.itds i with nextTD := p }

end Access

def isIsoEndpoint (s : Host) (e : Fin maxEd) : Bool := (s.eds e).format

/-- A write to `HeadTD`, which overlays `Halted` and `ToggleCarry`. -/
def setHeadTD (d : Ed) (p : Option Td) : Ed :=
  { d with headTD := p, halted := false, toggleCarry := false }

def firstFree {n : ℕ} (inUse : Fin n → Bool) : Option (Fin n) :=
  (List.finRange n).find? fun i => !inUse i

def linkTd (s : Host) (e : Fin maxEd) (td : Td) : Host :=
  let s := match (s.eds e).tailP with
    | some tail => s.setNextTD tail (some td)
    | none => s.setEd e (setHeadTD (s.eds e) (some td))
  s.setEd e { s.eds e with tailP := some td }

def allocGtdForEd (s : Host) (e : Fin maxEd) : Host × HcdStatus :=
  match firstFree fun i => (s.gtds i).inUse with
  | some i =>
    (linkTd (s.setGtd i { zeroGtd with
        inUse := true, edIdx := e, bufferRounding := true, conditionCode := .notAccessed }) e
      (.gtd i), .ok)
  | none => (s, .notEnoughGtd)

def allocItdForEd (s : Host) (e : Fin maxEd) : Host × HcdStatus :=
  match firstFree fun i => (s.itds i).inUse with
  | some i =>
    (linkTd (s.setItd i { zeroItd with
        inUse := true, edIdx := e, conditionCode := .notAccessed }) e (.itd i), .ok)
  | none => (s, .notEnoughItd)

/-- `inUse` of a general TD lies where an isochronous one has `OffsetPSW[0]`. -/
def freeGtd (s : Host) : Td → Host
  | .gtd i => s.setGtd i { s.gtds i with inUse := false }
  | .itd i => s.setItd i { s.itds i with
      offsetPSW := Function.update (s.itds i).offsetPSW 0 ((s.itds i).offsetPSW 0 &&& 0xFFFE) }

/-- `inUse` of an isochronous TD lies where the next general one has a bit without a name, and
behind the last of them the first ED its function address. -/
def freeItd (s : Host) : Td → Host
  | .itd i => s.setItd i { s.itds i with inUse := false }
  | .gtd i =>
    if i.val + 1 = maxGtd then
      s.setEd firstEd { s.eds firstEd with
        functionAddr := (s.eds firstEd).functionAddr &&& 0x7E }
    else s

def freeTd (s : Host) (e : Fin maxEd) (td : Td) : Host :=
  if isIsoEndpoint s e then freeItd s td else freeGtd s td

structure OpenPipe where
  hostID : UInt8
  deviceAddr : UInt8
  deviceSpeed : Speed
  endpointNumber : UInt8
  transferType : TransferType
  transferDir : TransferDir
  maxPacketSize : UInt16
  interval : UInt8

/-- The driver gives zero for `Mult`. -/
def openPipeVerifyParameters (p : OpenPipe) (mult : UInt8) : HcdStatus :=
  if p.hostID.toNat ≥ maxUsbCore ∨ p.deviceAddr > 127 ∨ p.endpointNumber &&& 0x70 ≠ 0 then
    .parameterInvalid
  else if p.deviceSpeed = .low ∧ (p.transferType = .bulk ∨ p.transferType = .isochronous) then
    .parameterInvalid
  else match p.transferType with
    | .control => if p.maxPacketSize > 64 then .parameterInvalid else .ok
    | .bulk =>
      if (p.deviceSpeed = .full ∧ p.maxPacketSize > 64) ∨
          (p.deviceSpeed = .high ∧ p.maxPacketSize > 512) then .parameterInvalid
      else .ok
    | .interrupt =>
      if p.interval = 0 ∨ (p.deviceSpeed = .full ∧ p.maxPacketSize > 64) ∨
          (p.deviceSpeed = .high ∧ (p.maxPacketSize > 1024 ∨ p.interval > 16 ∨ mult = 0)) then
        .parameterInvalid
      else .ok
    | .isochronous =>
      if p.interval = 0 ∨ p.interval > 16 ∨ (p.deviceSpeed = .full ∧ p.maxPacketSize > 1023) ∨
          (p.deviceSpeed = .high ∧ (p.maxPacketSize > 1024 ∨ mult = 0)) then .parameterInvalid
      else .ok

def listOf : TransferType → ListHead
  | .control => .control
  | .bulk => .bulk
  | .interrupt | .isochronous => .periodic

def newEd (p : OpenPipe) : Ed :=
  { zeroEd with
    inUse := true
    functionAddr := p.deviceAddr
    endpointNumber := p.endpointNumber &&& 0xF
    direction := if p.transferType = .control then 0 else if p.transferDir = .out then 1 else 2
    speed := if p.deviceSpeed = .full then 0 else 1
    format := p.transferType = .isochronous
    maxPackageSize := p.maxPacketSize &&& 0x3FF
    interval := p.interval }

/-- The ED stays in use where there is no TD for its place holder. -/
def allocEd (s : Host) (p : OpenPipe) : Host × Except HcdStatus (Fin maxEd) :=
  match firstFree fun e => (s.eds e).inUse with
  | none => (s, .error .notEnoughEndpoint)
  | some e =>
    let (s, status) :=
      if p.transferType ≠ .isochronous then allocGtdForEd (s.setEd e (newEd p)) e
      else allocItdForEd (s.setEd e (newEd p)) e
    if status = .ok then (s, .ok e) else (s, .error status)

def insertEndpoint (s : Host) (e : Fin maxEd) (h : ListHead) : Host :=
  let s := s.setEd e { s.eds e with nextED := s.staticEDs h }
  { s with staticEDs := Function.update s.staticEDs h (some e) }

def findPrev (s : Host) (e : Fin maxEd) : ℕ → Fin maxEd → Option (Fin maxEd)
  | 0, _ => none
  | fuel + 1, prev =>
    if (s.eds prev).nextED = some e then some prev
    else match (s.eds prev).nextED with
      | some next => findPrev s e fuel next
      | none => none

def removeEndpoint (s : Host) (e : Fin maxEd) : Option Host :=
  let next := (s.eds e).nextED
  let h := (s.eds e).listIndex
  if s.staticEDs h = some e then
    some { s with staticEDs := Function.update s.staticEDs h next }
  else match s.staticEDs h with
    | none => none
    | some first =>
      (findPrev s e maxEd first).map fun prev => s.setEd prev { s.eds prev with nextED := next }

def freeED (s : Host) (e : Fin maxEd) : Option Host :=
  match (s.eds e).tailP with
  | none => none
  | some td =>
    let s := freeTd s e td
    some (s.setEd e { s.eds e with status := .transfer .notAccessed, inUse := false })

def pipehandleCreate (hostID : UInt8) (e : Fin maxEd) : UInt32 :=
  (hostID.toUInt32 <<< 8) + UInt32.ofNat e.val

def pipehandleParse (s : Host) (pipehandle : UInt32) : Option (Fin maxEd) :=
  if (pipehandle >>> 8).toUInt8.toNat ≥ maxUsbCore then none
  else if h : (pipehandle &&& 0xFF).toNat < maxEd then
    if (s.eds ⟨_, h⟩).inUse then some ⟨_, h⟩ else none
  else none

def hcdOpenPipe (s : Host) (p : OpenPipe) : Host × Except HcdStatus UInt32 :=
  if openPipeVerifyParameters p 0 ≠ .ok then (s, .error (openPipeVerifyParameters p 0))
  else match allocEd s p with
    | (s, .error status) => (s, .error status)
    | (s, .ok e) =>
      let s := s.setEd e { s.eds e with listIndex := listOf p.transferType }
      (insertEndpoint s e (listOf p.transferType), .ok (pipehandleCreate p.hostID e))

def freeQueue (e : Fin maxEd) : ℕ → Host → Option Host
  | 0, _ => none
  | fuel + 1, s =>
    if (s.eds e).headTD = (s.eds e).tailP then some s
    else match (s.eds e).headTD with
      | none => none
      | some td => freeQueue e fuel (freeTd (s.setEd e (setHeadTD (s.eds e) (s.nextTD td))) e td)

/-- The wait for the next frame has no semicolon: the loop that frees the TDs is its body, and
does not run if the frame has begun (`sof`) when the driver looks for the first time. -/
def cancelTransfer (s : Host) (e : Fin maxEd) (sof : Bool) : Option Host :=
  let s := s.setEd e { s.eds e with skip := true }
  (if sof then some s else freeQueue e (maxGtd + maxItd + 1) s).map fun s =>
    s.setEd e { setHeadTD (s.eds e) (s.eds e).tailP with skip := false }

def hcdCancelTransfer (s : Host) (pipeHandle : UInt32) (sof : Bool) : Option (Host × HcdStatus) :=
  match pipehandleParse s pipeHandle with
  | none => some (s, .pipehandleInvalid)
  | some e => (cancelTransfer s e sof).map fun s => (s, .ok)

def hcdClosePipe (s : Host) (pipeHandle : UInt32) (sof : Bool) : Option (Host × HcdStatus) :=
  match pipehandleParse s pipeHandle with
  | none => some (s, .pipehandleInvalid)
  | some e => do
    let s ← cancelTransfer s e sof
    let s := s.setEd e { s.eds e with skip := true }
    let s ← removeEndpoint s e
    let s ← freeED s e
    return (s, .ok)

def hcdClearEndpointHalt (s : Host) (pipeHandle : UInt32) : Host × HcdStatus :=
  match pipehandleParse s pipeHandle with
  | none => (s, .pipehandleInvalid)
  | some e =>
    (s.setEd e { s.eds e with halted := false, toggleCarry := false, status := .ok }, .ok)

/-- Without `ioc` the TD asks for no interrupt; with it the field stays as it is. -/
def fillGtd (g : Gtd) (currentBufferPointer xferLen : UInt32) (directionPID dataToggle : UInt8)
    (ioc : Bool) : Gtd :=
  { g with
    directionPID := directionPID
    dataToggle := dataToggle
    currentBufferPointer := currentBufferPointer
    bufferEnd := if xferLen ≠ 0 then currentBufferPointer + xferLen - 1 else 0
    transferCount := xferLen.toUInt16
    delayInterrupt := if ioc then g.delayInterrupt else tdNoInterruptOnComplete }

def queueOneGTD (s : Host) (e : Fin maxEd) (currentBufferPointer xferLen : UInt32)
    (directionPID dataToggle : UInt8) (ioc : Bool) : Option (Host × HcdStatus) :=
  match (s.eds e).tailP with
  | some (.gtd i) =>
    some (allocGtdForEd (s.setGtd i
      (fillGtd (s.gtds i) currentBufferPointer xferLen directionPID dataToggle ioc)) e)
  | _ => none

def align4k (value : UInt32) : UInt32 := value &&& 0xFFFFF000

def offset4k (value : UInt32) : UInt32 := value &&& 0xFFF

def maxTDLen (dataBuff : UInt32) : UInt32 := tdMaxXferLength - offset4k dataBuff

/-- Every round takes a TD or ends with an error, so that the fuel is never used up. -/
def queueGTDs (e : Fin maxEd) (direction : UInt8) :
    ℕ → Host → UInt32 → UInt32 → Option (Host × HcdStatus)
  | 0, _, _, _ => none
  | fuel + 1, s, dataBuff, xferLen =>
    if xferLen = 0 then some (s, .ok)
    else do
      let tdLen := min xferLen (maxTDLen dataBuff)
      let xferLen := xferLen - tdLen
      let (s, status) ← queueOneGTD s e dataBuff tdLen direction 0 (xferLen = 0)
      if status = .ok then queueGTDs e direction fuel s (dataBuff + tdLen) xferLen
      else return (s, status)

/-- A field of three bits. Division by a packet size of zero gives zero on the processor. -/
def frameCount (tdLen maxPackageSize : UInt32) : UInt8 :=
  (tdLen / maxPackageSize + (if tdLen % maxPackageSize ≠ 0 then 1 else 0) - 1).toUInt8 &&& 7

def fillPSW (page maxPackageSize : UInt32) : ℕ → ℕ → UInt32 → UInt32 → (ℕ → UInt16) → ℕ → UInt16
  | 0, _, _, _, psw => psw
  | n + 1, i, tdLen, dataBuff, psw =>
    if tdLen = 0 then psw
    else
      let xactLen := min tdLen maxPackageSize
      fillPSW page maxPackageSize n (i + 1) (tdLen - xactLen) (dataBuff + xactLen)
        (Function.update psw i
          (0xE000 ||| (if align4k dataBuff ≠ align4k page then 0x1000 else 0) |||
          (offset4k dataBuff).toUInt16))

def fillItd (t : Itd) (maxPackageSize dataBuff tdLen : UInt32) (startingFrame : UInt16) : Itd :=
  { t with
    startingFrame := startingFrame
    frameCount := frameCount tdLen maxPackageSize
    bufferPage0 := align4k dataBuff
    bufferEnd := dataBuff + tdLen - 1
    offsetPSW := fillPSW (align4k dataBuff) maxPackageSize 8 0 tdLen dataBuff t.offsetPSW }

def queueOneITD (s : Host) (e : Fin maxEd) (dataBuff tdLen : UInt32) (startingFrame : UInt16) :
    Option (Host × HcdStatus) :=
  match (s.eds e).tailP with
  | some (.itd i) =>
    some (allocItdForEd (s.setItd i
      (fillItd (s.itds i) (s.eds e).maxPackageSize.toUInt32 dataBuff tdLen startingFrame)) e)
  | _ => none

def queueITDs (e : Fin maxEd) (maxDataSize : UInt32) :
    ℕ → Host → UInt32 → UInt32 → UInt16 → Option (Host × HcdStatus)
  | 0, _, _, _, _ => none
  | fuel + 1, s, dataBuff, xferLen, frameIdx =>
    if xferLen = 0 then some (s, .ok)
    else do
      let tdLen := min xferLen (min maxDataSize (maxTDLen dataBuff))
      let (s, status) ← queueOneITD s e dataBuff tdLen frameIdx
      if status = .ok then
        queueITDs e maxDataSize fuel s (dataBuff + tdLen) (xferLen - tdLen) (frameIdx + 1)
      else return (s, status)

structure Request where
  address : UInt32
  bmRequestType : UInt8
  wLength : UInt16

def andThen (r : Option (Host × HcdStatus)) (f : Host → Option (Host × HcdStatus)) :
    Option (Host × HcdStatus) := do
  let (s, status) ← r
  if status = .ok then f s else return (s, status)

def toHost (r : Request) : Bool := r.bmRequestType &&& 0x80 ≠ 0

def queueStages (s : Host) (e : Fin maxEd) (r : Request) (buffer : UInt32) :
    Option (Host × HcdStatus) :=
  andThen (queueOneGTD s e r.address 8 0 2 false) fun s =>
    andThen
      (if r.wLength ≠ 0 then
        queueOneGTD s e buffer r.wLength.toUInt32 (if toHost r then 2 else 1) 3 false
      else some (s, .ok)) fun s =>
        queueOneGTD s e 0 0 (if toHost r then 1 else 2) 3 true

/-- `HcdControlTransfer` up to the wait for its completion. -/
def hcdControlTransfer (s : Host) (pipeHandle : UInt32) (r : Request) (buffer : UInt32) :
    Option (Host × HcdStatus) :=
  if r.address = 0 ∨ buffer = 0 then some (s, .parameterInvalid)
  else match pipehandleParse s pipeHandle with
    | none => some (s, .pipehandleInvalid)
    | some e =>
      andThen (queueStages s e r buffer) fun s =>
        some ({ s with controlListFilled := true }.setEd e
          { s.eds e with status := .transferQueued }, .ok)

/-- What the wait at the end of `HcdControlTransfer` returns, once it does. -/
def waitForTransferComplete (s : Host) (e : Fin maxEd) : Option HcdStatus :=
  if (s.eds e).status = .transferQueued then none else some (s.eds e).status

def hcdEndpointMaxpacketXferLen : UInt32 := 0xFFEEFFEE

def queueData (s : Host) (e : Fin maxEd) (buffer length : UInt32) : Option (Host × HcdStatus) :=
  if isIsoEndpoint s e then
    queueITDs e (8 * (s.eds e).maxPackageSize.toUInt32) (maxItd + 1) s buffer length
      (s.hccaFrameNumber + 1)
  else
    andThen (queueGTDs e 0 (maxGtd + 1) s buffer length) fun s =>
      some (if (s.eds e).listIndex = .bulk then { s with bulkListFilled := true } else s, .ok)

def hcdDataTransfer (s : Host) (pipeHandle buffer length : UInt32) (count : Option ℕ) :
    Option (Host × HcdStatus) :=
  if buffer = 0 ∨ length = 0 then some (s, .parameterInvalid)
  else match pipehandleParse s pipeHandle with
    | none => some (s, .pipehandleInvalid)
    | some e =>
      if (s.eds e).halted then some (s, .transfer .stall)
      else
        let expected := if length ≠ hcdEndpointMaxpacketXferLen then length
          else (s.eds e).maxPackageSize.toUInt32
        andThen (queueData s e buffer expected) fun s =>
          some (s.setEd e { s.eds e with
            status := .transferQueued, pActualTransferCount := count }, .ok)

def hcdGetPipeStatus (s : Host) (pipeHandle : UInt32) : HcdStatus :=
  match pipehandleParse s pipeHandle with
  | none => .pipehandleInvalid
  | some e => (s.eds e).status

def reverseDone : ℕ → Host → Option Td → Option Td → Option (Host × Option Td)
  | _, s, none, list => some (s, list)
  | 0, _, some _, _ => none
  | fuel + 1, s, some td, list => reverseDone fuel (s.setNextTD td list) (s.nextTD td) (some td)

/-- The bytes that were not transferred lie in one page or two. -/
def remaining (currentBufferPointer bufferEnd : UInt32) : UInt32 :=
  (if align4k (bufferEnd ^^^ currentBufferPointer) ≠ 0 then 0x1000 else 0) +
    offset4k bufferEnd - offset4k currentBufferPointer + 1

def countTransfer (s : Host) (i : Fin maxGtd) : Host :=
  let g := s.gtds i
  let g := if g.currentBufferPointer ≠ 0 then
    { g with transferCount :=
        g.transferCount - (remaining g.currentBufferPointer g.bufferEnd).toUInt16 } else g
  let s := s.setGtd i g
  match (s.eds g.edIdx).pActualTransferCount with
  | some location => { s with counts := Function.update s.counts location g.transferCount }
  | none => s

def countDone (s : Host) : Td → Host
  | .itd _ => s
  | .gtd i => countTransfer s i

def updateStatus (d : Ed) (delayInterrupt : UInt8) (code : ConditionCode) : Ed :=
  let d := if delayInterrupt ≠ tdNoInterruptOnComplete then { d with status := .transfer code }
    else d
  if code ≠ .ok then
    { d with status := if d.halted then .transfer .stall else .transfer code, halted := false }
  else d

def processTd (s : Host) (td : Td) : Host :=
  let e := s.edIdx td
  let s := countDone s td
  let s := s.setEd e (updateStatus (s.eds e) (s.delayInterrupt td) (s.conditionCode td))
  freeTd s e td

def processList : ℕ → Host → Option Td → Option Host
  | _, s, none => some s
  | 0, _, some _ => none
  | fuel + 1, s, some td => processList fuel (processTd s td) (s.nextTD td)

def processDoneQueue (s : Host) (donehead : Option Td) : Option Host :=
  match donehead with
  | none => some s
  | some _ => do
    let (s, list) ← reverseDone (maxGtd + maxItd) s donehead none
    processList (maxGtd + maxItd) s list

def hcdIrqHandler (s : Host) : Option Host :=
  if s.writebackDoneHead then
    (processDoneQueue s s.hccaDoneHead).map fun s => { s with writebackDoneHead := false }
  else some s

def hcdInitDriver (s : Host) : Host :=
  { s with
    eds := fun _ => zeroEd
    gtds := fun _ => zeroGtd
    itds := fun _ => zeroItd
    staticEDs := fun _ => none
    controlListFilled := false
    bulkListFilled := false
    hcDoneHead := none
    hccaDoneHead := none
    writebackDoneHead := false
    hccaFrameNumber := 0 }

end AoaBoard.Usb.Ohci
