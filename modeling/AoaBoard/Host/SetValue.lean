import AoaBoard.Host.Monitor
import AoaBoard.Host.Packets

/-!
# The packets that set a value

`androidHost_task` hands the four bytes behind `CMD_SET_VALUE` to `setNodeValue`
by four calls of `Pipe_Read_8` in one argument list, whose order is open, and it
compares a packet length that has been cut to eight bits.
-/

namespace AoaBoard.Host
open Library Library.Run Library.Bytes Can Usb

structure Waiting (h : State) (packet : List UInt8) : Prop where
  configured : (h.cores h.attachedCoreNum).hostState = .configured
  direction : (inPipe h).endpointAddress &&& 0x80 ≠ 0
  status : (inPipe h).status = .ok
  startIdx : (inPipe h).startIdx = 0
  length : (inPipe h).byteTransfered.toNat = packet.length
  bytes : slice (inPipe h).buffer packet.length = packet
  fits : packet.length ≤ pipeMaxSize

structure Arguments where
  nodeId : UInt8
  devId : UInt8
  d0 : UInt8
  d1 : UInt8
  deriving DecidableEq

def argumentsOf (r : Readings) (bytes : List UInt8) : Arguments :=
  let args := (List.finRange 4).map fun i => bytes.getD (r.order i).val 0
  ⟨args.getD 0 0, args.getD 1 0, args.getD 2 0, args.getD 3 0⟩

def inCore (h : State) : Core := pipeSelectPipe (h.cores h.attachedCoreNum) androidDataInPipe

/-- The call of `setNodeValue` that the task makes behind `monitor_task`, if it makes one. -/
def setValueCall (h : State) (r : Readings) : Option Arguments :=
  if waitingCommand h = some cmdSetValue ∧ (pipeBytesInPipe (inCore h)).toUInt8 - 1 = 4 then
    some (argumentsOf r (pipeReads 4 (pipeRead8 (inCore h)).1).2)
  else none

theorem selected_inCore (h : State) : selected (inCore h) = inPipe h := rfl

theorem waitingCommand_eq (h : State) : waitingCommand h =
    if (h.cores h.attachedCoreNum).hostState = .configured ∧
        (pipeIsINReceived (inCore h)).2 = true ∧ pipeIsReadWriteAllowed (inCore h) = true ∧
        0 < (pipeBytesInPipe (inCore h)).toUInt8 then
      some (pipeRead8 (inCore h)).2
    else none := rfl

def callSetNodeValue (c : Canpt) : Option Arguments → Canpt
  | none => c
  | some a => setNodeValue c a.nodeId a.devId a.d0 a.d1

theorem handleCommand_setValue (h : State) (corenum numBytes : UInt8) (r : Readings) :
    (handleCommand h corenum cmdSetValue numBytes r).1.canpt =
      if numBytes = 4 then
        callSetNodeValue h.canpt (some (argumentsOf r (pipeReads 4 (h.cores corenum)).2))
      else h.canpt := by
  rw [handleCommand, if_pos rfl]
  split_ifs
  · simp only [callSetNodeValue, argumentsOf]
  · rfl

theorem pipeRead8_of_lt {c : Core} (h : (selected c).startIdx < (selected c).byteTransfered) :
    pipeRead8 c = (setSelected c { selected c with startIdx := (selected c).startIdx + 1 },
      (selected c).buffer (selected c).startIdx.toNat) := if_pos h

theorem pipeReads_slice {n : ℕ} {c : Core}
    (h : (selected c).startIdx.toNat + n ≤ (selected c).byteTransfered.toNat) :
    (pipeReads n c).2 = slice (shift (selected c).buffer (selected c).startIdx.toNat) n := by
  induction n generalizing c with
  | zero => rfl
  | succ n ih =>
    have hlt : (selected c).startIdx < (selected c).byteTransfered := by
      rw [UInt16.lt_iff_toNat_lt]
      omega
    have hbound := (selected c).byteTransfered.toNat_lt
    have hnext : ((selected c).startIdx + 1).toNat = (selected c).startIdx.toNat + 1 := by
      rw [UInt16.toNat_add, UInt16.toNat_one]
      omega
    have hrest := @ih (setSelected c { selected c with startIdx := (selected c).startIdx + 1 })
    rw [selected_setSelected] at hrest
    simp only [hnext] at hrest
    have htail : (fun k => shift (selected c).buffer (selected c).startIdx.toNat (k + 1)) =
        shift (selected c).buffer ((selected c).startIdx.toNat + 1) := by
      funext k
      rw [shift, shift, Nat.add_assoc, Nat.add_comm 1 k]
    rw [pipeReads, pipeRead8_of_lt hlt, slice_cons, htail]
    simp only
    rw [hrest (by omega)]
    rfl

section
variable {h : State} {packet : List UInt8} (hw : Waiting h packet)
include hw

theorem Waiting.of_sends {r : State × List Out} (hs : Sends h r) : Waiting r.1 packet where
  configured := hs.quiet.configured.trans hw.configured
  direction := by
    rw [hs.quiet.inPipe_eq]
    exact hw.direction
  status := by
    rw [hs.quiet.inPipe_eq]
    exact hw.status
  startIdx := by
    rw [hs.quiet.inPipe_eq]
    exact hw.startIdx
  length := by
    rw [hs.quiet.inPipe_eq]
    exact hw.length
  bytes := by
    rw [hs.quiet.inPipe_eq]
    exact hw.bytes
  fits := hw.fits

theorem Waiting.bytesInPipe : (pipeBytesInPipe (inCore h)).toNat = packet.length := by
  rw [pipeBytesInPipe, selected_inCore, hw.startIdx, UInt16.sub_zero, hw.length]

theorem Waiting.numBytes :
    (pipeBytesInPipe (inCore h)).toUInt8.toNat = packet.length % 256 := by
  rw [UInt16.toNat_toUInt8, hw.bytesInPipe]

theorem Waiting.received (hpos : 0 < packet.length) :
    pipeIsINReceived (inCore h) = (inCore h, true) ∧
      pipeIsReadWriteAllowed (inCore h) = true := by
  have hbytes : pipeBytesInPipe (inCore h) ≠ 0 := by
    intro hzero
    have hlen := hw.bytesInPipe
    rw [hzero] at hlen
    exact hpos.ne hlen
  refine ⟨pipeIsINReceived_pending hw.status hbytes, ?_⟩
  have htoken : pipeGetPipeToken (inCore h) = .in := if_pos hw.direction
  rw [pipeIsReadWriteAllowed, if_pos htoken]
  exact decide_eq_true ⟨hw.status, hbytes⟩

theorem Waiting.read (hpos : 0 < packet.length) :
    pipeRead8 (inCore h) =
      (setSelected (inCore h)
        { inPipe h with startIdx := 1 }, packet.headD 0) := by
  have hlt : (inPipe h).startIdx < (inPipe h).byteTransfered := by
    rw [UInt16.lt_iff_toNat_lt, hw.length, hw.startIdx]
    exact hpos
  have hhead : (inPipe h).buffer 0 = packet.headD 0 := by
    conv_rhs => rw [← hw.bytes]
    obtain ⟨l, hl⟩ : ∃ l, packet.length = l + 1 := ⟨packet.length - 1, by omega⟩
    rw [hl, slice_cons]
    rfl
  rw [pipeRead8_of_lt (c := inCore h) hlt, selected_inCore, hw.startIdx, ← hhead]
  rfl

theorem Waiting.command : waitingCommand h =
    if packet.length % 256 = 0 then none else some (packet.headD 0) := by
  have hzero : 0 < (pipeBytesInPipe (inCore h)).toUInt8 ↔ ¬ packet.length % 256 = 0 := by
    rw [UInt8.lt_iff_toNat_lt, hw.numBytes, UInt8.toNat_zero, Nat.pos_iff_ne_zero]
  rw [waitingCommand_eq]
  by_cases hmod : packet.length % 256 = 0
  · rw [if_pos hmod]
    exact if_neg fun hall => hzero.mp hall.2.2.2 hmod
  · have hpos : 0 < packet.length := by omega
    obtain ⟨hin, hallowed⟩ := hw.received hpos
    rw [if_neg hmod, hw.read hpos]
    exact if_pos ⟨hw.configured, by rw [hin], hallowed, hzero.mpr hmod⟩

theorem Waiting.call (hhead : packet.headD 0 = cmdSetValue) (r : Readings) :
    setValueCall h r = if packet.length % 256 = 5 then
      some (argumentsOf r ((packet.drop 1).take 4)) else none := by
  have hfive : (pipeBytesInPipe (inCore h)).toUInt8 - 1 = 4 ↔ packet.length % 256 = 5 := by
    rw [← hw.numBytes]
    generalize (pipeBytesInPipe (inCore h)).toUInt8 = b
    constructor
    · intro hb
      rw [show b = 5 by grind]
      rfl
    · intro hb
      rw [show b = 5 from UInt8.toNat_inj.mp hb]
      rfl
  simp only [setValueCall, hw.command, hfive]
  by_cases hmod : packet.length % 256 = 5
  · have hpos : 0 < packet.length := by omega
    have hne : ¬ packet.length % 256 = 0 := by omega
    rw [if_neg hne, if_pos hmod, hhead, if_pos ⟨rfl, hmod⟩, hw.read hpos]
    have hreads := @pipeReads_slice 4 (setSelected (inCore h) { inPipe h with startIdx := 1 })
    rw [selected_setSelected] at hreads
    have hlen : (1 : UInt16).toNat + 4 ≤ (inPipe h).byteTransfered.toNat := by
      rw [hw.length]
      change 1 + 4 ≤ packet.length
      omega
    rw [hreads hlen]
    conv_rhs => rw [← hw.bytes]
    rw [drop_slice _ hpos, take_slice, min_eq_left (by omega)]
    rfl
  · rw [if_neg hmod]
    exact if_neg fun hall => hmod hall.2

end

theorem receive_setValue {h : State} (hcommand : waitingCommand h = some cmdSetValue)
    (r : Readings) : (receive h r).1.canpt = callSetNodeValue h.canpt (setValueCall h r) := by
  have hnum : ¬ (h.attachedCoreNum.toNat : ℤ) = -1 := by omega
  have hall := hcommand
  rw [waitingCommand_eq] at hall
  split_ifs at hall with hcond
  obtain ⟨hconf, hin, hallowed, hbytes⟩ := hcond
  have hbyte := Option.some.inj hall
  have hpacket : receive h r = receivePacket h h.attachedCoreNum r := by
    rw [receive, if_neg hnum, if_neg (not_not.mpr hconf)]
  rw [hpacket, receivePacket, ← inCore]
  simp only [hin, pipeIsINReceived_core hin, if_true]
  simp only [handlePacket, setCore_self, hallowed, hbytes, if_true, hbyte]
  have hset := handleCommand_setValue (setCore (setCore h h.attachedCoreNum (inCore h))
    h.attachedCoreNum (pipeRead8 (inCore h)).1) h.attachedCoreNum
    ((pipeBytesInPipe (inCore h)).toUInt8 - 1) r
  rw [setCore_self] at hset
  change (handleCommand _ _ _ _ _).1.canpt = _
  rw [hset, setValueCall]
  simp only [hcommand, true_and]
  split_ifs <;> rfl

def written (c : Canpt) (p d0 d1 : UInt8) : Canpt :=
  if p = msgDevRgb then
    { c with txMsg := { c.txMsg with
        dataA := fun k =>
          if k.val = 1 then msgSet ||| msgDevRgb
          else if k.val = 2 then d0
          else if k.val = 3 then (if d1 ≠ 0 then 1 else 0)
          else c.txMsg.dataA k } }
  else if p = msgDevLed then
    { c with txMsg := { c.txMsg with
        dataA := fun k =>
          if k.val = 1 then msgSet ||| msgDevLed
          else if k.val = 2 then d1
          else c.txMsg.dataA k } }
  else c

structure Unchanged (h h' : State) : Prop where
  canpt : h'.canpt = h.canpt
  subs : h'.subs = h.subs
  flags : SameFlags h h'

/-- A packet of five bytes makes `setNodeValue` act on its node and peripheral and writes the
message for it; one of any other length changes nothing. -/
def Translated (h : State) (r : Readings) (packet : List UInt8) : Prop :=
  let m := (monitorTask h r).1
  let s := (androidHostTask h r).1
  match packet with
  | [_, n, p, d0, d1] =>
    (∃ a, setValueCall m r = some a ∧ a.nodeId = n ∧ a.devId = p) ∧
      s.canpt = written m.canpt p d0 d1
  | _ => Unchanged m s

def Repeats (c : Canpt) (a : Arguments) : Prop := written c a.devId a.d0 a.d1 = c

/-- Each argument gets the byte that stands for it, as far as the peripheral uses it; a packet
of 261 bytes, whose length is cut to five, repeats what the message already says. -/
def Harmless (c : Canpt) (r : Readings) (packet : List UInt8) : Prop :=
  let a := argumentsOf r ((packet.drop 1).take 4)
  match packet with
  | [_, n, p, d0, d1] => a.nodeId = n ∧ a.devId = p ∧
    (p = msgDevRgb → a.d0 = d0 ∧ (a.d1 = 0 ↔ d1 = 0)) ∧ (p = msgDevLed → a.d1 = d1)
  | packet => packet.length = 261 → Repeats c a

theorem setNodeValue_eq_written (c : Canpt) (nodeId devId d0 d1 : UInt8) :
    setNodeValue c nodeId devId d0 d1 = written c devId d0 d1 := by
  have hcells (a : Fin 4 → UInt8) (x y : UInt8) :
      (fun k : Fin 4 => if k.val = 2 then y else if k.val = 1 then x else a k) =
        fun k => if k.val = 1 then x else if k.val = 2 then y else a k := by
    funext k
    split_ifs <;> first | rfl | omega
  have hcells' (a : Fin 4 → UInt8) (x y z : UInt8) :
      (fun k : Fin 4 =>
        if k.val = 3 then z else if k.val = 2 then y else if k.val = 1 then x else a k) =
        fun k =>
          if k.val = 1 then x else if k.val = 2 then y else if k.val = 3 then z else a k := by
    funext k
    split_ifs <;> first | rfl | omega
  simp only [setNodeValue, written]
  split_ifs with hrgb hon hled
  · simp only [canptSetRgb, setDataA, hcells']
  · simp only [canptSetRgb, setDataA, hcells']
  · simp only [canptSetLed, setDataA, hcells]
  · rfl

theorem written_inj_iff (c : Canpt) {p a0 a1 d0 d1 : UInt8} :
    written c p a0 a1 = written c p d0 d1 ↔
      (p = msgDevRgb → a0 = d0 ∧ (a1 = 0 ↔ d1 = 0)) ∧ (p = msgDevLed → a1 = d1) := by
  have hne : ¬ msgDevRgb = msgDevLed := by decide
  have hon (x y : UInt8) : ((if x ≠ 0 then 1 else 0 : UInt8) = if y ≠ 0 then 1 else 0) ↔
      (x = 0 ↔ y = 0) := by
    by_cases hx : x = 0 <;> by_cases hy : y = 0 <;> simp [hx, hy]
  by_cases hrgb : p = msgDevRgb
  · subst hrgb
    constructor
    · intro h
      rw [written, written, if_pos rfl, if_pos rfl] at h
      have hdata := congrArg (fun c : Canpt => c.txMsg.dataA) h
      exact ⟨fun _ => ⟨congrFun hdata 2, (hon a1 d1).mp (congrFun hdata 3)⟩,
        fun hled => absurd hled hne⟩
    · intro h
      obtain ⟨rfl, hzero⟩ := h.1 rfl
      rw [written, written, if_pos rfl, if_pos rfl, (hon a1 d1).mpr hzero]
  · by_cases hled : p = msgDevLed
    · subst hled
      constructor
      · intro h
        rw [written, written, if_neg hrgb, if_neg hrgb, if_pos rfl, if_pos rfl] at h
        have hdata := congrArg (fun c : Canpt => c.txMsg.dataA) h
        exact ⟨fun h => absurd h hrgb, fun _ => congrFun hdata 2⟩
      · intro h
        rw [written, written, if_neg hrgb, if_neg hrgb, if_pos rfl, if_pos rfl, h.2 rfl]
    · rw [written, written, if_neg hrgb, if_neg hled, if_neg hrgb, if_neg hled]
      exact iff_of_true rfl ⟨fun h => absurd h hrgb, fun h => absurd h hled⟩

theorem callSetNodeValue_eq_self_iff {c : Canpt} {a : Arguments} :
    callSetNodeValue c (some a) = c ↔ Repeats c a := by
  rw [callSetNodeValue, setNodeValue_eq_written, Repeats]

theorem receive_unread {h : State} (hnone : waitingCommand h = none) (r : Readings) :
    (receive h r).1.canpt = h.canpt := by
  rw [waitingCommand_eq] at hnone
  have hcond : ¬ ((h.cores h.attachedCoreNum).hostState = .configured ∧
      (pipeIsINReceived (inCore h)).2 = true ∧ pipeIsReadWriteAllowed (inCore h) = true ∧
      0 < (pipeBytesInPipe (inCore h)).toUInt8) := by
    intro hall
    rw [if_pos hall] at hnone
    exact absurd hnone (by simp)
  have hnum : ¬ (h.attachedCoreNum.toNat : ℤ) = -1 := by omega
  rw [receive, if_neg hnum]
  by_cases hconf : (h.cores h.attachedCoreNum).hostState = .configured
  swap
  · rw [if_pos hconf]
  rw [if_neg (not_not.mpr hconf), receivePacket, ← inCore]
  simp only
  split_ifs with hin
  · rw [pipeIsINReceived_core hin, handlePacket_none]
    · rfl
    · rw [setCore_self]
      exact fun hread => hcond ⟨hconf, hin, hread⟩
  · rfl

theorem receive_canpt {h : State} {packet : List UInt8} (hw : Waiting h packet)
    (hhead : packet.head? = some cmdSetValue) (r : Readings) :
    (receive h r).1.canpt = if packet.length % 256 = 5 then
      callSetNodeValue h.canpt (some (argumentsOf r ((packet.drop 1).take 4)))
    else h.canpt := by
  have hfirst : packet.headD 0 = cmdSetValue := by rw [List.headD_eq_head?_getD, hhead]; rfl
  have hcommand := hw.command
  by_cases hmod : packet.length % 256 = 0
  · rw [if_pos hmod] at hcommand
    rw [receive_unread hcommand, if_neg (by omega)]
  · rw [if_neg hmod, hfirst] at hcommand
    rw [receive_setValue hcommand, hw.call hfirst]
    split_ifs <;> rfl

theorem receive_keeps_setValue {h : State} {packet : List UInt8} (hw : Waiting h packet)
    (hhead : packet.head? = some cmdSetValue) (r : Readings) : Keeps h (receive h r) := by
  have hfirst : packet.headD 0 = cmdSetValue := by rw [List.headD_eq_head?_getD, hhead]; rfl
  have htaken : takenUp h = h := by
    rw [takenUp, hw.command, hfirst]
    split_ifs
    · rfl
    · rw [Option.map_some, Option.getD_some, commanded, if_neg (by decide), if_neg (by decide)]
  have hkeeps := (receive_spec h r).1
  rw [htaken] at hkeeps
  exact hkeeps

theorem length_cut {n : ℕ} (hfits : n ≤ pipeMaxSize) (hne : n ≠ 5) :
    n % 256 = 5 ↔ n = 261 := by
  have hbound : n ≤ 512 := hfits
  omega

theorem receive_five {h : State} {packet : List UInt8} {n p d0 d1 : UInt8}
    (hw : Waiting h packet) (hfive : packet = [cmdSetValue, n, p, d0, d1]) (r : Readings) :
    ((∃ a, setValueCall h r = some a ∧ a.nodeId = n ∧ a.devId = p) ∧
        (receive h r).1.canpt = written h.canpt p d0 d1) ↔
      Harmless h.canpt r [cmdSetValue, n, p, d0, d1] := by
  subst hfive
  have hcanpt := receive_canpt hw rfl r
  have hcall := hw.call rfl r
  have hmod : [cmdSetValue, n, p, d0, d1].length % 256 = 5 := rfl
  rw [if_pos hmod] at hcanpt hcall
  rw [hcanpt, hcall, callSetNodeValue, setNodeValue_eq_written, Harmless]
  simp only [Option.some.injEq, exists_eq_left']
  constructor
  · rintro ⟨⟨hnode, hdev⟩, hwritten⟩
    rw [hdev] at hwritten
    exact ⟨hnode, hdev, (written_inj_iff h.canpt).mp hwritten⟩
  · rintro ⟨hnode, hdev, hbytes⟩
    rw [hdev]
    exact ⟨⟨hnode, rfl⟩, (written_inj_iff h.canpt).mpr hbytes⟩

theorem receive_other {h : State} {packet : List UInt8} (hw : Waiting h packet)
    (hhead : packet.head? = some cmdSetValue) (hlength : packet.length ≠ 5) (r : Readings) :
    Unchanged h (receive h r).1 ↔
      (packet.length = 261 → Repeats h.canpt (argumentsOf r ((packet.drop 1).take 4))) := by
  have hkeeps := receive_keeps_setValue hw hhead r
  have hcanpt := receive_canpt hw hhead r
  simp only [length_cut hw.fits hlength] at hcanpt
  have hiff : Unchanged h (receive h r).1 ↔ (receive h r).1.canpt = h.canpt :=
    ⟨Unchanged.canpt, fun hc => ⟨hc, hkeeps.subs, hkeeps.flags⟩⟩
  rw [hiff, hcanpt]
  split_ifs with hlong
  · rw [callSetNodeValue_eq_self_iff]
    exact ⟨fun hrepeats _ => hrepeats, fun himp => himp hlong⟩
  · exact iff_of_true rfl fun h => absurd h hlong

theorem set_value_translated_iff {h : State} {packet : List UInt8} (r : Readings)
    (hw : Waiting h packet) (hhead : packet.head? = some cmdSetValue) :
    Translated h r packet ↔ Harmless (monitorTask h r).1.canpt r packet := by
  have hw' := hw.of_sends (monitorTask_sends h r)
  have htask := congrArg Prod.fst (androidHostTask_eq_receive h r)
  by_cases hfive : packet.length = 5
  · obtain ⟨c, n, p, d0, d1, rfl⟩ : ∃ c n p d0 d1, packet = [c, n, p, d0, d1] := by
      match packet, hfive with
      | [c, n, p, d0, d1], _ => exact ⟨c, n, p, d0, d1, rfl⟩
    obtain rfl := Option.some.inj hhead
    simp only [Translated, htask]
    exact receive_five hw' rfl r
  · have hother := receive_other hw' hhead hfive r
    unfold Translated Harmless
    split
    · exact absurd rfl hfive
    · rw [htask]
      exact hother

def arrived (packet : List UInt8) : State := after step (oneNode 0) [call, .received packet]

def readings (order : Equiv.Perm (Fin 4)) : Readings := ⟨0, .ok, fun _ => .ok, order⟩

def ledOn : List UInt8 := [cmdSetValue, 5, msgDevLed, 0, 1]

theorem arrived_waiting {packet : List UInt8} (hfits : packet.length ≤ pipeMaxSize) :
    Waiting (arrived packet) packet where
  configured := rfl
  direction := by
    have hendpoint : (inPipe (arrived packet)).endpointAddress = 0x81 := rfl
    rw [hendpoint]
    decide
  status := rfl
  startIdx := rfl
  length := by
    have hlength : (inPipe (arrived packet)).byteTransfered = UInt16.ofNat packet.length := rfl
    have hmax : pipeMaxSize = 512 := rfl
    rw [hlength, UInt16.toNat_ofNat']
    omega
  bytes := by
    have hbuffer : (inPipe (arrived packet)).buffer = ofList packet := rfl
    rw [hbuffer, slice_ofList]
  fits := hfits

theorem set_value_translated_in_order :
    Translated (arrived ledOn) (readings (Equiv.refl _)) ledOn :=
  (set_value_translated_iff (readings (Equiv.refl _)) (arrived_waiting (by decide)) rfl).mpr
    ⟨rfl, rfl, fun _ => ⟨rfl, Iff.rfl⟩, fun _ => rfl⟩

/-- When the arguments are evaluated from the last to the first, `setNodeValue` gets the bytes in
the reverse order; a packet of 261 bytes sets the LED in any order that keeps them. -/
theorem set_value_not_translated :
    (Waiting (arrived ledOn) ledOn ∧
      ¬ Translated (arrived ledOn) (readings Fin.revPerm) ledOn) ∧
    ∃ packet, packet.head? = some cmdSetValue ∧ packet.length = 261 ∧
      Waiting (arrived packet) packet ∧
      ¬ Translated (arrived packet) (readings (Equiv.refl _)) packet := by
  refine ⟨⟨arrived_waiting (by decide), ?_⟩, ledOn ++ List.replicate 256 0, rfl,
    by decide +kernel, arrived_waiting (by decide +kernel), ?_⟩
  · rintro ⟨-, hcanpt⟩
    have hled := congrArg (fun c : Canpt => c.txMsg.dataA 2) hcanpt
    exact absurd hled (by decide +kernel)
  · intro hunchanged
    have hled := congrArg (fun c : Canpt => c.txMsg.dataA 2) hunchanged.canpt
    exact absurd hled (by decide +kernel)

end AoaBoard.Host
