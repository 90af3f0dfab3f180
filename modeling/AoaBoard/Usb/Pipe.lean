import AoaBoard.Library.Bytes
import Mathlib.Data.UInt

/-!
# The pipes of the USB host library

The pipe functions act on the pipe that is selected in their core. A pipe keeps
the status of its endpoint descriptor: `HcdDataTransfer` queues a transfer and
the host controller completes it later. `Pipe_IsINReceived` hands the address
of `ByteTransfered` to the controller, `Pipe_ClearOUT` hands over no address, so
only the completion of an IN transfer writes the count.
-/

namespace AoaBoard.Usb
open Library.Bytes

inductive HcdStatus
  | ok
  | transferQueued
  | transferError
  deriving DecidableEq

inductive HostState
  | waitForDevice
  | unattached
  | powered
  | poweredWaitForDeviceSettle
  | poweredWaitForConnect
  | poweredDoReset
  | poweredConfigPipe
  | default
  | defaultPostReset
  | defaultPostAddressSet
  | addressed
  | configured
  deriving DecidableEq

inductive Token
  | setup
  | in
  | out
  deriving DecidableEq

def pipeMaxSize : ℕ := 512

/-- `buffer` is the memory at `Buffer`. -/
structure Pipe where
  buffer : ℕ → UInt8
  bufferSize : UInt16
  startIdx : UInt16
  byteTransfered : UInt16
  endpointAddress : UInt8
  status : HcdStatus

structure Core where
  hostState : HostState
  pipeselected : UInt8
  pipes : UInt8 → Pipe

def selected (c : Core) : Pipe := c.pipes c.pipeselected

def setSelected (c : Core) (p : Pipe) : Core :=
  { c with pipes := Function.update c.pipes c.pipeselected p }

def configuredPipe (buffer : ℕ → UInt8) (endpointAddress : UInt8) : Pipe :=
  ⟨buffer, UInt16.ofNat pipeMaxSize, 0, 0, endpointAddress, .ok⟩

def hcdDataTransfer (p : Pipe) (length : ℕ) : Pipe :=
  if length = 0 then p else { p with status := .transferQueued }

def pipeSelectPipe (c : Core) (number : UInt8) : Core := { c with pipeselected := number }

def pipeBytesInPipe (c : Core) : UInt16 := (selected c).byteTransfered - (selected c).startIdx

def pipeGetPipeToken (c : Core) : Token :=
  if (selected c).endpointAddress &&& 0x80 ≠ 0 then .in else .out

/-- `HCD_ENDPOINT_MAXPACKET_XFER_LEN` stands for the packet size of the endpoint. -/
def maxpacketXferLen : ℕ := 0xFFEEFFEE

def pipeIsINReceived (c : Core) : Core × Bool :=
  if (selected c).status ≠ .ok then (c, false)
  else if pipeBytesInPipe c ≠ 0 then (c, true)
  else (setSelected c (hcdDataTransfer (selected c) maxpacketXferLen), false)

def pipeIsOUTReady (c : Core) : Bool :=
  (selected c).status = .ok ∧ (selected c).byteTransfered < (selected c).bufferSize

def pipeIsReadWriteAllowed (c : Core) : Bool :=
  if pipeGetPipeToken c = .in then (selected c).status = .ok ∧ pipeBytesInPipe c ≠ 0
  else pipeIsOUTReady c

def pipeClearIN (c : Core) : Core :=
  setSelected c { selected c with startIdx := 0, byteTransfered := 0 }

/-- The second component is what is handed to the host controller. -/
def pipeClearOUT (c : Core) : Core × List UInt8 :=
  (setSelected c { hcdDataTransfer (selected c) (selected c).byteTransfered.toNat with
      startIdx := 0, byteTransfered := 0 },
    slice (selected c).buffer (selected c).byteTransfered.toNat)

def pipeRead8 (c : Core) : Core × UInt8 :=
  if (selected c).startIdx < (selected c).byteTransfered then
    (setSelected c { selected c with startIdx := (selected c).startIdx + 1 },
      (selected c).buffer (selected c).startIdx.toNat)
  else (c, 0)

def pipeWrite8 (c : Core) (data : UInt8) : Core :=
  if (selected c).byteTransfered < (selected c).bufferSize then
    setSelected c { selected c with
      buffer := Function.update (selected c).buffer (selected c).byteTransfered.toNat data
      byteTransfered := (selected c).byteTransfered + 1 }
  else c

def pipeWriteStreamLE (c : Core) (data : List UInt8) : Core := data.foldl pipeWrite8 c

def pipeReads : ℕ → Core → Core × List UInt8
  | 0, c => (c, [])
  | n + 1, c =>
    let (c, b) := pipeRead8 c
    let (c, bs) := pipeReads n c
    (c, b :: bs)

def receiveIN (p : Pipe) (packet : List UInt8) : Pipe :=
  { p with buffer := fun k => packet.getD k (p.buffer k)
           byteTransfered := UInt16.ofNat packet.length
           status := .ok }

structure OnlySelected (c c' : Core) : Prop where
  hostState : c'.hostState = c.hostState
  pipeselected : c'.pipeselected = c.pipeselected
  pipes : ∀ n, n ≠ c.pipeselected → c'.pipes n = c.pipes n

theorem OnlySelected.refl (c : Core) : OnlySelected c c := ⟨rfl, rfl, fun _ _ => rfl⟩

theorem OnlySelected.trans {c d e : Core} (h : OnlySelected c d) (h' : OnlySelected d e) :
    OnlySelected c e := by
  refine ⟨h'.hostState.trans h.hostState, h'.pipeselected.trans h.pipeselected, fun n hn => ?_⟩
  rw [h'.pipes n (h.pipeselected ▸ hn), h.pipes n hn]

theorem setSelected_only (c : Core) (p : Pipe) : OnlySelected c (setSelected c p) :=
  ⟨rfl, rfl, fun _ hn => Function.update_of_ne hn _ _⟩

@[simp] theorem selected_setSelected (c : Core) (p : Pipe) : selected (setSelected c p) = p := by
  simp [selected, setSelected]

theorem pipeIsINReceived_only (c : Core) : OnlySelected c (pipeIsINReceived c).1 := by
  simp only [pipeIsINReceived]
  split_ifs
  · exact .refl c
  · exact .refl c
  · exact setSelected_only c _

theorem pipeClearOUT_only (c : Core) : OnlySelected c (pipeClearOUT c).1 := setSelected_only c _

theorem pipeWrite8_only (c : Core) (data : UInt8) : OnlySelected c (pipeWrite8 c data) := by
  simp only [pipeWrite8]
  split_ifs
  · exact setSelected_only c _
  · exact .refl c

theorem pipeWriteStreamLE_only (c : Core) (data : List UInt8) :
    OnlySelected c (pipeWriteStreamLE c data) := by
  induction data generalizing c with
  | nil => exact .refl c
  | cons b data ih => exact (pipeWrite8_only c b).trans (ih (pipeWrite8 c b))

theorem pipeWriteStreamLE_pipe (c : Core) (data : List UInt8) : ∃ buffer byteTransfered,
    selected (pipeWriteStreamLE c data) =
      { selected c with buffer := buffer, byteTransfered := byteTransfered } := by
  induction data generalizing c with
  | nil => exact ⟨_, _, rfl⟩
  | cons b data ih =>
    obtain ⟨buffer, byteTransfered, heq⟩ := ih (pipeWrite8 c b)
    rw [pipeWriteStreamLE, List.foldl_cons, ← pipeWriteStreamLE, heq, pipeWrite8]
    split_ifs
    · exact ⟨buffer, byteTransfered, by rw [selected_setSelected]⟩
    · exact ⟨buffer, byteTransfered, rfl⟩

theorem pipeWriteStreamLE_written (c : Core) (data : List UInt8)
    (hroom : (selected c).byteTransfered.toNat + data.length ≤ (selected c).bufferSize.toNat) :
    (selected (pipeWriteStreamLE c data)).byteTransfered.toNat =
        (selected c).byteTransfered.toNat + data.length ∧
      slice (selected (pipeWriteStreamLE c data)).buffer
          (selected (pipeWriteStreamLE c data)).byteTransfered.toNat =
        slice (selected c).buffer (selected c).byteTransfered.toNat ++ data := by
  induction data generalizing c with
  | nil => exact ⟨rfl, (List.append_nil _).symm⟩
  | cons b data ih =>
    rw [List.length_cons] at hroom
    have hlt := (selected c).bufferSize.toNat_lt
    have hfits : (selected c).byteTransfered < (selected c).bufferSize := by
      rw [UInt16.lt_iff_toNat_lt]
      omega
    have hnext : ((selected c).byteTransfered + 1).toNat =
        (selected c).byteTransfered.toNat + 1 := by
      rw [UInt16.toNat_add, UInt16.toNat_one]
      omega
    have hwrite : selected (pipeWrite8 c b) = { selected c with
        buffer := Function.update (selected c).buffer (selected c).byteTransfered.toNat b
        byteTransfered := (selected c).byteTransfered + 1 } := by
      rw [pipeWrite8, if_pos hfits, selected_setSelected]
    have hrest := ih (pipeWrite8 c b) (by
      rw [hwrite]
      simp only [hnext]
      omega)
    rw [hwrite] at hrest
    simp only [hnext, slice_update, List.append_assoc, List.singleton_append] at hrest
    refine ⟨?_, hrest.2⟩
    rw [List.length_cons, ← Nat.add_assoc, Nat.add_right_comm]
    exact hrest.1

structure ReadFrom (c c' : Core) : Prop where
  only : OnlySelected c c'
  pipe : ∃ k, selected c' = { selected c with startIdx := k }

theorem ReadFrom.refl (c : Core) : ReadFrom c c := ⟨.refl c, (selected c).startIdx, rfl⟩

theorem ReadFrom.trans {c d e : Core} (h : ReadFrom c d) (h' : ReadFrom d e) : ReadFrom c e := by
  obtain ⟨k, hk⟩ := h.pipe
  obtain ⟨l, hl⟩ := h'.pipe
  exact ⟨h.only.trans h'.only, l, by rw [hl, hk]⟩

theorem pipeRead8_readFrom (c : Core) : ReadFrom c (pipeRead8 c).1 := by
  simp only [pipeRead8]
  split_ifs
  · exact ⟨setSelected_only c _, _, selected_setSelected c _⟩
  · exact .refl c

theorem pipeReads_readFrom (n : ℕ) (c : Core) : ReadFrom c (pipeReads n c).1 := by
  induction n generalizing c with
  | zero => exact .refl c
  | succ n ih => exact (pipeRead8_readFrom c).trans (ih (pipeRead8 c).1)

theorem pipeIsINReceived_empty {c : Core} (h : pipeBytesInPipe c = 0) :
    (pipeIsINReceived c).2 = false ∧
      ∃ status, selected (pipeIsINReceived c).1 = { selected c with status := status } := by
  by_cases hstatus : (selected c).status = .ok
  · simp only [pipeIsINReceived, h, hstatus, ne_eq, not_true_eq_false, if_false]
    refine ⟨trivial, .transferQueued, ?_⟩
    rw [selected_setSelected, hcdDataTransfer, if_neg (by decide)]
  · simp only [pipeIsINReceived, ne_eq, hstatus, not_false_iff, if_true]
    exact ⟨trivial, (selected c).status, rfl⟩

theorem pipeIsINReceived_pending {c : Core} (hstatus : (selected c).status = .ok)
    (h : pipeBytesInPipe c ≠ 0) : pipeIsINReceived c = (c, true) := by
  simp only [pipeIsINReceived, hstatus, ne_eq, not_true_eq_false, if_false, h, not_false_iff,
    if_true]

end AoaBoard.Usb
