import AoaBoard.Library.Bytes
import AoaBoard.Board.RxQueue

/-!
# The XBee driver

The frame encoder, the byte-at-a-time receiver and the frame dispatcher of
`xbee.c`. `rfBuf` is the memory that starts at the receive buffer: a store at
an offset of `XBEE_BUF_SZ` or more lands behind the buffer, and every store is
reported as an event with its offset. Clock readings are arguments. A `Callb`
says which pointers of the registered `xbee_callb_t` are not `NULL`. The data
callback receives a pointer into `rfBuf` and a length truncated to `uint8_t`.
-/

namespace AoaBoard.Xbee
open Library.Bytes Board Board.RxQueue

def bufSz : ℕ := 200

def startDel : UInt8 := 0x7E

def recvFrameTo : UInt32 := 2000

def apiIdTx64 : UInt8 := 0x00
def apiIdAtResp : UInt8 := 0x88
def apiIdTxStat : UInt8 := 0x89
def apiIdRx64 : UInt8 := 0x80
def apiIdRx16 : UInt8 := 0x81
def apiIdModStat : UInt8 := 0x8A

def modStatAssoc : UInt8 := 2
def modStatDiassoc : UInt8 := 3
def modStatCoordStart : UInt8 := 6

inductive RfState
  | frame
  | length
  | data
  deriving DecidableEq

inductive TxStatus
  | ok
  | noAck
  | cca
  | purged
  deriving DecidableEq

structure Callb where
  up : Bool
  node : Bool
  txStat : Bool
  data : Bool

structure XbeeState where
  cb : Callb
  rfState : RfState
  rfFrameLen : UInt32
  rfPos : UInt32
  rfBuf : ℕ → UInt8
  rfFrameId : UInt8
  rfFrameTimer : UInt32
  isCoordinator : Bool
  initialized : Bool

inductive Event
  | store (pos : ℕ)
  | frame (len : ℕ)
  | up (up : UInt8)
  | node (addrHi addrLo : UInt32) (rssi : UInt8)
  | txStat (frameId : UInt8) (status : TxStatus)
  | data (addrHi addrLo : UInt32) (rssi : UInt8) (buf : ℕ → UInt8) (len : UInt8)

def bufTo32bitInt (buf : ℕ → UInt8) : UInt32 :=
  (buf 0).toUInt32 <<< 24 ||| (buf 1).toUInt32 <<< 16 ||| (buf 2).toUInt32 <<< 8 |||
    (buf 3).toUInt32

def int32bitToBuf (v : UInt32) : List UInt8 :=
  [((v >>> 24) &&& 0xff).toUInt8, ((v >>> 16) &&& 0xff).toUInt8,
    ((v >>> 8) &&& 0xff).toUInt8, ((v >>> 0) &&& 0xff).toUInt8]

def getFrameId (x : XbeeState) : XbeeState :=
  let next := x.rfFrameId + 1
  { x with rfFrameId := if next = 0 then 1 else next }

def checksum (buf : ℕ → UInt8) (len : ℕ) : UInt8 := 0xFF - byteSum (slice buf len)

/-- What a transmit call leaves behind: its result, the driver, the caller's `*frameId`
(absent when the pointer is `NULL`) and the bytes given to `rf_uart_send`. -/
structure Sent where
  err : ErrorT
  xbee : XbeeState
  frameId : Option UInt8
  wire : List UInt8

def tx64Frame (frameId : UInt8) (addrHi addrLo : UInt32) (data : ℕ → UInt8) (len : UInt8) :
    List UInt8 :=
  [startDel, 0, 11 + len, apiIdTx64, frameId] ++ int32bitToBuf addrHi ++ int32bitToBuf addrLo ++
    [0] ++ slice data len.toNat

def apiTx64 (x : XbeeState) (addrHi addrLo : UInt32) (data : ℕ → UInt8) (len : UInt8)
    (frameId : Option UInt8) : Sent :=
  if 20 < len then ⟨.argument, x, frameId, []⟩
  else
    let x := getFrameId x
    let buf := tx64Frame x.rfFrameId addrHi addrLo data len
    let cs := checksum (shift (ofList buf) 3) (11 + len).toNat
    ⟨.ok, x, frameId.map fun _ => x.rfFrameId, buf ++ [cs]⟩

def xbeeSend (x : XbeeState) (addrHi addrLo : UInt32) (data : ℕ → UInt8) (len : UInt8)
    (frameId : Option UInt8) : Sent :=
  if x.initialized then apiTx64 x addrHi addrLo data len frameId
  else ⟨.notInit, x, frameId, []⟩

def handleTxStatus (x : XbeeState) (frameId status : UInt8) : List Event :=
  if x.cb.txStat then
    if status = 0 then [.txStat frameId .ok]
    else if status = 1 then [.txStat frameId .noAck]
    else if status = 2 then [.txStat frameId .cca]
    else if status = 3 then [.txStat frameId .purged]
    else []
  else []

def processData (x : XbeeState) (addrHi addrLo : UInt32) (rssi : UInt8) (buf : ℕ → UInt8)
    (len : ℕ) : List Event :=
  if x.cb.data then [.data addrHi addrLo rssi buf (UInt8.ofNat len)] else []

def handleDiscovery (x : XbeeState) (status : UInt8) (buf : ℕ → UInt8) (len : ℕ) : List Event :=
  if status = 0 ∧ 11 ≤ len ∧ x.cb.node then
    [.node (bufTo32bitInt (shift buf 2)) (bufTo32bitInt (shift buf 6)) (buf 10)]
  else []

def handleAtResponse (x : XbeeState) (atBuf : ℕ → UInt8) (status : UInt8) (valueBuf : ℕ → UInt8)
    (valueLen : ℕ) : List Event :=
  if atBuf 0 = 0x4E ∧ atBuf 1 = 0x44 then handleDiscovery x status valueBuf valueLen else []

def reportUp (x : XbeeState) (up : UInt8) : List Event := if x.cb.up then [.up up] else []

def handleModemStatus (x : XbeeState) (status : UInt8) : XbeeState × List Event :=
  if x.isCoordinator ∧ status = modStatCoordStart then
    ({ x with initialized := true }, reportUp x 1)
  else if ¬ x.isCoordinator ∧ status = modStatAssoc then
    ({ x with initialized := true }, reportUp x 1)
  else if ¬ x.isCoordinator ∧ status = modStatDiassoc then
    ({ x with initialized := false }, reportUp x 0)
  else (x, [])

def dispatch (x : XbeeState) (buf : ℕ → UInt8) (len : ℕ) : XbeeState × List Event :=
  if buf 0 = apiIdAtResp then
    if len < 5 then (x, [])
    else (x, handleAtResponse x (shift buf 2) (buf 4) (shift buf 5)
      (if 6 < len then len - 5 - 1 else 0))
  else if buf 0 = apiIdTxStat then (x, handleTxStatus x (buf 1) (buf 2))
  else if buf 0 = apiIdRx64 then
    if len < 12 then (x, [])
    else (x, processData x (bufTo32bitInt (shift buf 1)) (bufTo32bitInt (shift buf 5)) (buf 9)
      (shift buf 11) (len - 11 - 1))
  else if buf 0 = apiIdRx16 then (x, [])
  else if buf 0 = apiIdModStat then handleModemStatus x (buf 1)
  else (x, [])

def processFrame (x : XbeeState) (buf : ℕ → UInt8) (len : ℕ) : XbeeState × List Event :=
  if len < 2 then (x, [])
  else if checksum buf len ≠ 0 then (x, [])
  else dispatch x buf len

def joinLength (x : XbeeState) (data : UInt8) : UInt32 :=
  x.rfFrameLen ||| data.toUInt32 <<< (8 * (1 - x.rfPos))

def processByte (x : XbeeState) (data : UInt8) (now : UInt32) : XbeeState × List Event :=
  match x.rfState with
  | .frame =>
    if data = startDel then
      ({ x with rfPos := 0, rfFrameLen := 0, rfState := .length,
                rfFrameTimer := now + recvFrameTo }, [])
    else (x, [])
  | .length =>
    let frameLen := joinLength x data
    if x.rfPos + 1 = 2 then
      ({ x with rfPos := 0, rfState := .data,
                rfFrameLen := if UInt32.ofNat bufSz < frameLen then UInt32.ofNat bufSz
                  else frameLen }, [])
    else ({ x with rfPos := x.rfPos + 1, rfFrameLen := frameLen }, [])
  | .data =>
    let stored : XbeeState :=
      { x with rfBuf := Function.update x.rfBuf x.rfPos.toNat data, rfPos := x.rfPos + 1 }
    if stored.rfPos = stored.rfFrameLen + 1 then
      let r := processFrame { stored with rfState := .frame, rfFrameTimer := 0 } stored.rfBuf
        stored.rfPos.toNat
      (r.1, .store x.rfPos.toNat :: .frame stored.rfPos.toNat :: r.2)
    else (stored, [.store x.rfPos.toNat])

def expire (x : XbeeState) (now : UInt32) : XbeeState :=
  if 0 < x.rfFrameTimer ∧ x.rfFrameTimer < now then
    { x with rfState := .frame, rfFrameTimer := 0 }
  else x

/-- `now` is the clock read by the timer test, `now'` the one read by `processByte`. -/
def xbeeTask (x : XbeeState) (q : Rxq) (now now' : UInt32) : XbeeState × Rxq × List Event :=
  let x := expire x now
  if rxqIsEmpty q then (x, q, [])
  else
    match rfUartReceive q 1 with
    | ([], q) => (x, q, [])
    | (data :: _, q) =>
      let r := processByte x data now'
      (r.1, q, r.2)

def start (cb : Callb) (isCoordinator : Bool) : XbeeState where
  cb := cb
  rfState := .frame
  rfFrameLen := 0
  rfPos := 0
  rfBuf := fun _ => 0
  rfFrameId := 1
  rfFrameTimer := 0
  isCoordinator := isCoordinator
  initialized := false

theorem bufTo32bitInt_int32bitToBuf {buf : ℕ → UInt8} {v : UInt32}
    (h : slice buf 4 = int32bitToBuf v) : bufTo32bitInt buf = v := by
  have hbuf (i : ℕ) (b : UInt8) (hb : (int32bitToBuf v)[i]? = some b) : buf i = b :=
    apply_of_slice (l := int32bitToBuf v) h hb
  rw [bufTo32bitInt, hbuf 0 _ rfl, hbuf 1 _ rfl, hbuf 2 _ rfl, hbuf 3 _ rfl]
  exact word32_bytes v

theorem checksum_eq_zero_iff (buf : ℕ → UInt8) (len : ℕ) :
    checksum buf len = 0 ↔ byteSum (slice buf len) = 0xFF := by
  unfold checksum
  generalize byteSum (slice buf len) = s
  constructor
  · intro h
    grind
  · intro h
    rw [h]
    rfl

theorem checksum_closes (body : List UInt8) :
    byteSum (body ++ [checksum (ofList body) body.length]) = 0xFF := by
  rw [byteSum_append, byteSum_singleton, checksum, slice_ofList]
  generalize byteSum body = s
  grind

end AoaBoard.Xbee
