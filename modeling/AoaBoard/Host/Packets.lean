import AoaBoard.Host.Commands

/-!
# The packets of the Android device

A run is traced with the packets received, the command bytes switched on and
whether the last packet still waits for a call of the task. The packets are
decoded when the commands are the first bytes of the packets handled so far and
the IN pipe is clear again. `sendCommand` selects the OUT pipe, so a packet that
makes the task announce a node leaves the IN pipe as it is: `Pipe_ClearIN` then
clears the OUT pipe.
-/

namespace AoaBoard.Host
open Library Library.Run Can Usb

structure Traced where
  host : State
  received : List (List UInt8)
  switched : List UInt8
  waiting : Bool

def traced (h : State) : Traced := ⟨h, [], [], false⟩

def arrival (h : State) : Event → List (List UInt8)
  | .received packet => if (inPipe h).status = .transferQueued then [packet] else []
  | _ => []

def waits (t : Traced) : Event → Bool
  | .task _ => false
  | e => t.waiting || arrival t.host e ≠ []

def tracedStep (t : Traced) (e : Event) : Traced × List Out :=
  let r := step t.host e
  (⟨r.1, t.received ++ arrival t.host e, t.switched ++ r.2.filterMap command, waits t e⟩, r.2)

def handled (t : Traced) : List (List UInt8) :=
  if t.waiting then t.received.dropLast else t.received

def isClear (pipe : Pipe) : Prop := pipe.startIdx = 0 ∧ pipe.byteTransfered = 0

structure Decoded (t : Traced) : Prop where
  commands : t.switched.map some = (handled t).map List.head?
  clear : t.waiting = false → isClear (inPipe t.host)

/-- A call of the task that finds a packet of `256` or `512` bytes, or a connect command while
there is a node to announce. -/
def Mishandled (t : Traced) : Event → Prop
  | .task _ => t.waiting = true ∧ ∃ p ∈ t.received.getLast?,
      p.length % 256 = 0 ∨ (p.head? = some cmdConnect ∧ announces t.host.canpt = true)
  | _ => False

instance decidableMishandled (t : Traced) : ∀ e, Decidable (Mishandled t e)
  | .task _ => inferInstanceAs (Decidable (_ ∧ ∃ p ∈ t.received.getLast?, _))
  | .received _ | .sent _ | .registry _ | .nodeAttached _ _ | .nodeDetached _ _
  | .valueUpdate _ _ _ _ _ | .subStarted _ _ | .deviceAttached _ | .deviceUnattached _ =>
    inferInstanceAs (Decidable False)

/-- The events of one session: packets fit into the pipe, and no other core is attached. -/
def InSession : Event → Prop
  | .received packet => 0 < packet.length ∧ packet.length ≤ pipeMaxSize
  | .deviceAttached _ => False
  | _ => True

instance decidableInSession : ∀ e, Decidable (InSession e)
  | .received _ => inferInstanceAs (Decidable (_ ∧ _))
  | .deviceAttached _ => inferInstanceAs (Decidable False)
  | .sent _ | .registry _ | .nodeAttached _ _ | .nodeDetached _ _ | .valueUpdate _ _ _ _ _
  | .subStarted _ _ | .deviceUnattached _ | .task _ => inferInstanceAs (Decidable True)

structure Holds (pipe : Pipe) (packet : List UInt8) : Prop where
  status : pipe.status = .ok
  startIdx : pipe.startIdx = 0
  length : pipe.byteTransfered.toNat = packet.length
  nonempty : 0 < packet.length
  head : packet.head? = some (pipe.buffer 0)

structure Session (t : Traced) : Prop where
  configured : (t.host.cores t.host.attachedCoreNum).hostState = .configured
  direction : (inPipe t.host).endpointAddress &&& 0x80 ≠ 0
  pending : t.waiting = true → ∃ p, t.received.getLast? = some p ∧ Holds (inPipe t.host) p

@[simp] theorem setCore_self (h : State) (corenum : UInt8) (c : Core) :
    (setCore h corenum c).cores corenum = c := Function.update_self _ _ _

structure Progress (corenum : UInt8) (g s : State) : Prop where
  attached : s.attachedCoreNum = g.attachedCoreNum
  hostState : (s.cores corenum).hostState = (g.cores corenum).hostState
  pipe : ∃ k, (s.cores corenum).pipes androidDataInPipe =
    { (g.cores corenum).pipes androidDataInPipe with startIdx := k }

theorem Progress.trans {corenum : UInt8} {g s u : State} (h : Progress corenum g s)
    (h' : Progress corenum s u) : Progress corenum g u := by
  obtain ⟨k, hk⟩ := h.pipe
  obtain ⟨l, hl⟩ := h'.pipe
  exact ⟨h'.attached.trans h.attached, h'.hostState.trans h.hostState, l, by rw [hl, hk]⟩

theorem Quiet.progress {g s : State} (h : Quiet g s) (corenum : UInt8) : Progress corenum g s :=
  ⟨h.attached, h.hostState corenum, _, h.pipe corenum⟩

theorem readFrom_progress {g : State} {corenum : UInt8} {c : Core}
    (hsel : (g.cores corenum).pipeselected = androidDataInPipe)
    (h : ReadFrom (g.cores corenum) c) : Progress corenum g (setCore g corenum c) := by
  obtain ⟨k, hk⟩ := h.pipe
  simp only [selected, h.only.pipeselected, hsel] at hk
  refine ⟨rfl, ?_, k, ?_⟩
  · rw [setCore_self]
    exact h.only.hostState
  · rw [setCore_self]
    exact hk

theorem handleCommand_progress {g : State} {corenum : UInt8}
    (hconf : (g.cores corenum).hostState = .configured)
    (hsel : (g.cores corenum).pipeselected = androidDataInPipe) (c numBytes : UInt8)
    (r : Readings) :
    Progress corenum g (handleCommand g corenum c numBytes r).1 ∧
    (handleCommand g corenum c numBytes r).2.filterMap command = [] ∧
    ((handleCommand g corenum c numBytes r).1.cores corenum).pipeselected =
      if c = cmdConnect ∧ announces g.canpt = true then androidDataOutPipe
      else androidDataInPipe := by
  have hreads (n : ℕ) : Progress corenum g (setCore g corenum (pipeReads n (g.cores corenum)).1) ∧
      ((pipeReads n (g.cores corenum)).1).pipeselected = androidDataInPipe := by
    have hread := pipeReads_readFrom n (g.cores corenum)
    exact ⟨readFrom_progress hsel hread, hread.only.pipeselected.trans hsel⟩
  have hstay : Progress corenum g g := (Quiet.refl g).progress corenum
  simp only [handleCommand]
  by_cases hset : c = cmdSetValue
  · have hne : ¬ (c = cmdConnect ∧ announces g.canpt = true) := by
      rw [hset]
      exact fun h => absurd h.1 (by decide)
    rw [if_pos hset, if_neg hne]
    split_ifs
    · obtain ⟨hprogress, hkept⟩ := hreads 4
      exact ⟨⟨hprogress.attached, hprogress.hostState, hprogress.pipe⟩, rfl, by simpa using hkept⟩
    · exact ⟨hstay, rfl, hsel⟩
  rw [if_neg hset]
  by_cases hconnect : c = cmdConnect
  · rw [if_pos hconnect]
    have hsends := handleDeviceConnected_sends corenum r { g with connected := true }
    have hselects := handleDeviceConnected_selects corenum r (h := { g with connected := true })
      hconf
    refine ⟨⟨hsends.quiet.attached, hsends.quiet.hostState corenum, _, hsends.quiet.pipe corenum⟩,
      hsends.silent, ?_⟩
    rw [hselects]
    simp only [hconnect, true_and, hsel]
  · have hne : ¬ (c = cmdConnect ∧ announces g.canpt = true) := fun h => hconnect h.1
    rw [if_neg hconnect, if_neg hne]
    split_ifs
    · exact ⟨⟨rfl, rfl, hstay.pipe⟩, rfl, hsel⟩
    · obtain ⟨hprogress, hkept⟩ := hreads numBytes.toNat
      exact ⟨hprogress, rfl, by simpa using hkept⟩

theorem Holds.bytes {c : Core} {p : List UInt8} (h : Holds (selected c) p) :
    (pipeBytesInPipe c).toNat = p.length := by
  rw [pipeBytesInPipe, h.startIdx, UInt16.sub_zero]
  exact h.length

theorem Holds.bytes_ne_zero {c : Core} {p : List UInt8} (h : Holds (selected c) p) :
    pipeBytesInPipe c ≠ 0 := by
  intro hzero
  have hbytes := h.bytes
  rw [hzero] at hbytes
  exact absurd hbytes h.nonempty.ne

theorem Holds.read8 {c : Core} {p : List UInt8} (h : Holds (selected c) p) :
    (pipeRead8 c).2 = (selected c).buffer 0 := by
  have hlt : (selected c).startIdx < (selected c).byteTransfered := by
    rw [UInt16.lt_iff_toNat_lt, h.startIdx, h.length]
    exact h.nonempty
  rw [pipeRead8, if_pos hlt, h.startIdx]
  rfl

theorem handlePacket_progress (g : State) (corenum : UInt8) {p : List UInt8}
    (hconf : (g.cores corenum).hostState = .configured)
    (hsel : (g.cores corenum).pipeselected = androidDataInPipe)
    (hdir : ((g.cores corenum).pipes androidDataInPipe).endpointAddress &&& 0x80 ≠ 0)
    (hholds : Holds ((g.cores corenum).pipes androidDataInPipe) p) (r : Readings) :
    Progress corenum g (handlePacket g corenum r).1 ∧
    (handlePacket g corenum r).2.filterMap command =
      (if p.length % 256 = 0 then []
      else [((g.cores corenum).pipes androidDataInPipe).buffer 0]) ∧
    ((handlePacket g corenum r).1.cores corenum).pipeselected =
      if p.length % 256 ≠ 0 ∧ p.head? = some cmdConnect ∧ announces g.canpt = true then
        androidDataOutPipe
      else androidDataInPipe := by
  have hselected : selected (g.cores corenum) = (g.cores corenum).pipes androidDataInPipe := by
    rw [selected, hsel]
  rw [← hselected] at hdir hholds ⊢
  have hallowed : pipeIsReadWriteAllowed (g.cores corenum) = true := by
    simp only [pipeIsReadWriteAllowed, pipeGetPipeToken, if_pos hdir, if_true, hholds.status,
      hholds.bytes_ne_zero, ne_eq, not_false_iff, and_self, decide_true]
  have hpositive : 0 < (pipeBytesInPipe (g.cores corenum)).toUInt8 ↔ p.length % 256 ≠ 0 := by
    rw [UInt8.lt_iff_toNat_lt, UInt16.toNat_toUInt8, hholds.bytes]
    exact Nat.pos_iff_ne_zero
  simp only [handlePacket, if_pos hallowed, hholds.read8]
  by_cases hlen : p.length % 256 = 0
  · rw [if_neg (by rw [hpositive]; exact fun h => h hlen), if_pos hlen,
      if_neg (fun h => h.1 hlen)]
    exact ⟨(Quiet.refl g).progress corenum, rfl, hsel⟩
  · rw [if_pos (hpositive.mpr hlen), if_neg hlen]
    have hread := pipeRead8_readFrom (g.cores corenum)
    have hfirst := readFrom_progress hsel hread
    have hcommand := handleCommand_progress (g := setCore g corenum (pipeRead8 (g.cores corenum)).1)
      (hfirst.hostState.trans hconf)
      (by rw [setCore_self]; exact hread.only.pipeselected.trans hsel)
      ((selected (g.cores corenum)).buffer 0)
      ((pipeBytesInPipe (g.cores corenum)).toUInt8 - 1) r
    obtain ⟨hprogress, hsilent, hout⟩ := hcommand
    refine ⟨hfirst.trans hprogress, ?_, ?_⟩
    · simp only [List.filterMap_cons, command, hsilent]
    · rw [hout, hholds.head]
      simp only [hlen, ne_eq, not_false_iff, true_and, Option.some.injEq]
      rfl

theorem pipeClearIN_in {c : Core} (hsel : c.pipeselected = androidDataInPipe) :
    (pipeClearIN c).pipes androidDataInPipe =
      { c.pipes androidDataInPipe with startIdx := 0, byteTransfered := 0 } := by
  simp only [pipeClearIN, setSelected, selected, hsel, Function.update_self]

theorem pipeClearIN_out {c : Core} (hsel : c.pipeselected = androidDataOutPipe) :
    (pipeClearIN c).pipes androidDataInPipe = c.pipes androidDataInPipe := by
  simp only [pipeClearIN, setSelected, hsel, Function.update_of_ne inPipe_ne_outPipe]

structure Continues (h s : State) : Prop where
  attached : s.attachedCoreNum = h.attachedCoreNum
  hostState : (s.cores s.attachedCoreNum).hostState = (h.cores h.attachedCoreNum).hostState
  address : (inPipe s).endpointAddress = (inPipe h).endpointAddress

theorem Continues.trans {h i j : State} (hi : Continues h i) (hj : Continues i j) :
    Continues h j :=
  ⟨hj.attached.trans hi.attached, hj.hostState.trans hi.hostState, hj.address.trans hi.address⟩

theorem Quiet.continues {h s : State} (hq : Quiet h s) : Continues h s :=
  ⟨hq.attached, hq.configured, by rw [hq.inPipe_eq]⟩

theorem receivePacket_idle {h : State} (hclear : isClear (inPipe h)) (r : Readings) :
    Continues h (receivePacket h h.attachedCoreNum r).1 ∧
    (receivePacket h h.attachedCoreNum r).2 = [] ∧
    isClear (inPipe (receivePacket h h.attachedCoreNum r).1) := by
  have hbytes : pipeBytesInPipe
      (pipeSelectPipe (h.cores h.attachedCoreNum) androidDataInPipe) = 0 := by
    have hpipe : selected (pipeSelectPipe (h.cores h.attachedCoreNum) androidDataInPipe) =
        inPipe h := rfl
    rw [pipeBytesInPipe, hpipe, hclear.1, hclear.2]
    rfl
  obtain ⟨hnone, status, hstatus⟩ := pipeIsINReceived_empty hbytes
  have honly := pipeIsINReceived_only
    (pipeSelectPipe (h.cores h.attachedCoreNum) androidDataInPipe)
  simp only [receivePacket, hnone, Bool.false_eq_true, if_false]
  generalize pipeIsINReceived
    (pipeSelectPipe (h.cores h.attachedCoreNum) androidDataInPipe) = i at honly hstatus
  have hpipe : inPipe (setCore h h.attachedCoreNum i.1) = { inPipe h with status := status } := by
    have hin : i.1.pipes androidDataInPipe = selected i.1 := by
      rw [selected, honly.pipeselected]
      rfl
    rw [inPipe]
    simp only [setCore, Function.update_self]
    rw [hin, hstatus]
    rfl
  refine ⟨⟨rfl, ?_, by rw [hpipe]⟩, trivial, ?_⟩
  · simp only [setCore, Function.update_self]
    exact honly.hostState
  · rw [hpipe]
    exact hclear

def selectIN (h : State) : State :=
  setCore h h.attachedCoreNum (pipeSelectPipe (h.cores h.attachedCoreNum) androidDataInPipe)

def clearIN (h : State) (corenum : UInt8) : State :=
  setCore h corenum (pipeClearIN (h.cores corenum))

@[simp] theorem selectIN_core (h : State) : (selectIN h).cores h.attachedCoreNum =
    pipeSelectPipe (h.cores h.attachedCoreNum) androidDataInPipe := setCore_self _ _ _

@[simp] theorem selectIN_canpt (h : State) : (selectIN h).canpt = h.canpt := rfl

theorem receivePacket_received {h : State} {p : List UInt8} (hholds : Holds (inPipe h) p)
    (r : Readings) : receivePacket h h.attachedCoreNum r =
      (clearIN (handlePacket (selectIN h) h.attachedCoreNum r).1 h.attachedCoreNum,
        (handlePacket (selectIN h) h.attachedCoreNum r).2) := by
  have hselected : Holds (selected
      (pipeSelectPipe (h.cores h.attachedCoreNum) androidDataInPipe)) p := hholds
  simp only [receivePacket]
  rw [pipeIsINReceived_pending hselected.status hselected.bytes_ne_zero]
  rfl

theorem clearIN_continues {h g s : State} (hprogress : Progress h.attachedCoreNum g s)
    (hattached : g.attachedCoreNum = h.attachedCoreNum)
    (hcore : g.cores h.attachedCoreNum =
      pipeSelectPipe (h.cores h.attachedCoreNum) androidDataInPipe)
    (hsel : (s.cores h.attachedCoreNum).pipeselected = androidDataInPipe ∨
      (s.cores h.attachedCoreNum).pipeselected = androidDataOutPipe) :
    Continues h (clearIN s h.attachedCoreNum) := by
  have hnum : s.attachedCoreNum = h.attachedCoreNum := hprogress.attached.trans hattached
  obtain ⟨k, hpipe⟩ := hprogress.pipe
  have hstate := hprogress.hostState
  rw [hcore] at hpipe hstate
  refine ⟨hnum, ?_, ?_⟩
  · simp only [clearIN, setCore, hnum, Function.update_self]
    exact hstate
  · simp only [inPipe, clearIN, setCore, hnum, Function.update_self]
    rcases hsel with hsel | hsel
    · rw [pipeClearIN_in hsel, hpipe]
      rfl
    · rw [pipeClearIN_out hsel, hpipe]
      rfl

theorem receivePacket_pending {h : State} {p : List UInt8}
    (hconf : (h.cores h.attachedCoreNum).hostState = .configured)
    (hdir : (inPipe h).endpointAddress &&& 0x80 ≠ 0) (hholds : Holds (inPipe h) p)
    (r : Readings) :
    Continues h (receivePacket h h.attachedCoreNum r).1 ∧
    (receivePacket h h.attachedCoreNum r).2.filterMap command =
      (if p.length % 256 = 0 then [] else [(inPipe h).buffer 0]) ∧
    (isClear (inPipe (receivePacket h h.attachedCoreNum r).1) ↔
      ¬ (p.length % 256 ≠ 0 ∧ p.head? = some cmdConnect ∧ announces h.canpt = true)) := by
  have hpacket := handlePacket_progress (selectIN h) h.attachedCoreNum (p := p)
    (by rw [selectIN_core]; exact hconf) (by rw [selectIN_core]; rfl)
    (by rw [selectIN_core]; exact hdir) (by rw [selectIN_core]; exact hholds) r
  rw [receivePacket_received hholds]
  generalize handlePacket (selectIN h) h.attachedCoreNum r = s at hpacket ⊢
  obtain ⟨hprogress, hcommand, hsel⟩ := hpacket
  have hnum : s.1.attachedCoreNum = h.attachedCoreNum := hprogress.attached
  obtain ⟨k, hpipe⟩ := hprogress.pipe
  rw [selectIN_core] at hcommand hpipe
  rw [selectIN_canpt] at hsel
  have hclear : inPipe (clearIN s.1 h.attachedCoreNum) =
      (pipeClearIN (s.1.cores h.attachedCoreNum)).pipes androidDataInPipe := by
    simp only [inPipe, clearIN, setCore, hnum, Function.update_self]
  by_cases hannounced : p.length % 256 ≠ 0 ∧ p.head? = some cmdConnect ∧ announces h.canpt = true
  · rw [if_pos hannounced] at hsel
    refine ⟨clearIN_continues hprogress rfl (selectIN_core h) (Or.inr hsel), hcommand, ?_⟩
    refine iff_of_false (fun hzero => ?_) fun h => h hannounced
    rw [hclear, pipeClearIN_out hsel, hpipe] at hzero
    have hlength := hholds.length
    have hnone : (inPipe h).byteTransfered = 0 := hzero.2
    rw [hnone] at hlength
    exact absurd hlength hholds.nonempty.ne
  · rw [if_neg hannounced] at hsel
    refine ⟨clearIN_continues hprogress rfl (selectIN_core h) (Or.inl hsel), hcommand, ?_⟩
    refine iff_of_true ?_ hannounced
    rw [hclear, pipeClearIN_in hsel]
    exact ⟨rfl, rfl⟩

theorem androidHostTask_configured {h : State}
    (hconf : (h.cores h.attachedCoreNum).hostState = .configured) (r : Readings) :
    androidHostTask h r =
      ((receivePacket (monitorTask h r).1 (monitorTask h r).1.attachedCoreNum r).1,
        (monitorTask h r).2 ++
          (receivePacket (monitorTask h r).1 (monitorTask h r).1.attachedCoreNum r).2) := by
  have hstate := (monitorTask_sends h r).quiet.configured.trans hconf
  have hnonneg : ¬ ((monitorTask h r).1.attachedCoreNum.toNat : ℤ) = -1 := by omega
  simp only [androidHostTask, if_neg hnonneg, hstate, ne_eq, not_true_eq_false, if_false]

theorem androidHostTask_idle {h : State}
    (hconf : (h.cores h.attachedCoreNum).hostState = .configured) (hclear : isClear (inPipe h))
    (r : Readings) :
    Continues h (androidHostTask h r).1 ∧ (androidHostTask h r).2.filterMap command = [] ∧
      isClear (inPipe (androidHostTask h r).1) := by
  have hsends := monitorTask_sends h r
  have hidle := receivePacket_idle (hsends.quiet.inPipe_eq ▸ hclear) r
  rw [androidHostTask_configured hconf]
  refine ⟨hsends.quiet.continues.trans hidle.1, ?_, hidle.2.2⟩
  rw [List.filterMap_append, hsends.silent, hidle.2.1]
  rfl

theorem androidHostTask_pending {h : State} {p : List UInt8}
    (hconf : (h.cores h.attachedCoreNum).hostState = .configured)
    (hdir : (inPipe h).endpointAddress &&& 0x80 ≠ 0) (hholds : Holds (inPipe h) p)
    (r : Readings) :
    Continues h (androidHostTask h r).1 ∧
    (androidHostTask h r).2.filterMap command =
      (if p.length % 256 = 0 then [] else [(inPipe h).buffer 0]) ∧
    (isClear (inPipe (androidHostTask h r).1) ↔
      ¬ (p.length % 256 ≠ 0 ∧ p.head? = some cmdConnect ∧ announces h.canpt = true)) := by
  have hsends := monitorTask_sends h r
  have hpipe := hsends.quiet.inPipe_eq
  have hpending := receivePacket_pending (hsends.quiet.configured.trans hconf)
    (by rw [hpipe]; exact hdir) (by rw [hpipe]; exact hholds) r
  rw [androidHostTask_configured hconf]
  obtain ⟨hcontinues, hcommands, hclear⟩ := hpending
  refine ⟨hsends.quiet.continues.trans hcontinues, ?_, ?_⟩
  · rw [List.filterMap_append, hsends.silent, hcommands, hpipe]
    rfl
  · rw [hclear, announces_congr hsends.nodes]

theorem tracedStep_task (t : Traced) (r : Readings) : (tracedStep t (.task r)).1 =
    ⟨(androidHostTask t.host r).1, t.received,
      t.switched ++ (androidHostTask t.host r).2.filterMap command, false⟩ := by
  simp only [tracedStep, arrival, waits, step, List.append_nil]

theorem Session.task {t : Traced} (hs : Session t) {r : Readings}
    (h : Continues t.host (androidHostTask t.host r).1) : Session (tracedStep t (.task r)).1 := by
  rw [tracedStep_task]
  refine ⟨h.hostState.trans hs.configured, ?_, fun hwait => absurd hwait Bool.false_ne_true⟩
  rw [h.address]
  exact hs.direction

theorem task_idle {t : Traced} (hs : Session t) (hd : Decoded t) (hwait : t.waiting = false)
    (r : Readings) :
    Session (tracedStep t (.task r)).1 ∧ Decoded (tracedStep t (.task r)).1 := by
  obtain ⟨hcontinues, hsilent, hclear⟩ := androidHostTask_idle hs.configured (hd.clear hwait) r
  refine ⟨hs.task hcontinues, ?_⟩
  rw [tracedStep_task]
  refine ⟨?_, fun _ => hclear⟩
  have hcommands := hd.commands
  simp only [handled, hwait, Bool.false_eq_true, if_false] at hcommands ⊢
  rw [hsilent, List.append_nil, hcommands]

theorem task_pending {t : Traced} (hs : Session t) (hd : Decoded t) (hwait : t.waiting = true)
    (r : Readings) :
    Session (tracedStep t (.task r)).1 ∧
      (Decoded (tracedStep t (.task r)).1 ↔ ¬ Mishandled t (.task r)) := by
  obtain ⟨p, hlast, hholds⟩ := hs.pending hwait
  obtain ⟨hcontinues, hswitched, hclear⟩ :=
    androidHostTask_pending hs.configured hs.direction hholds r
  refine ⟨hs.task hcontinues, ?_⟩
  have hmis : Mishandled t (.task r) ↔
      p.length % 256 = 0 ∨ (p.head? = some cmdConnect ∧ announces t.host.canpt = true) := by
    simp only [Mishandled, hwait, true_and, hlast, Option.mem_some_iff, exists_eq_left']
  have hreceived : t.received.map List.head? =
      t.switched.map some ++ [some ((inPipe t.host).buffer 0)] := by
    have hcommands := hd.commands
    simp only [handled, hwait, if_true] at hcommands
    obtain ⟨earlier, hearlier⟩ := List.getLast?_eq_some_iff.mp hlast
    rw [hcommands, hearlier, List.dropLast_concat, List.map_append, ← hholds.head]
    rfl
  rw [tracedStep_task, hmis]
  by_cases hlen : p.length % 256 = 0
  · refine iff_of_false (fun h => ?_) fun h => h (Or.inl hlen)
    have hcommands := h.commands
    simp only [handled, Bool.false_eq_true, if_false, hswitched, if_pos hlen, List.append_nil,
      hreceived] at hcommands
    simp at hcommands
  · rw [if_neg hlen] at hswitched
    have hcommands : (t.switched ++ (androidHostTask t.host r).2.filterMap command).map some =
        t.received.map List.head? := by
      rw [hswitched, hreceived, List.map_append]
      rfl
    simp only [hlen, ne_eq, not_false_iff, true_and, false_or] at hclear ⊢
    rw [← hclear]
    exact ⟨fun h => h.clear rfl, fun h => ⟨hcommands, fun _ => h⟩⟩

theorem quiet_kept {t : Traced} (hs : Session t) (hd : Decoded t) {s : State}
    (hq : Quiet t.host s) :
    Session ⟨s, t.received, t.switched, t.waiting⟩ ∧
      Decoded ⟨s, t.received, t.switched, t.waiting⟩ := by
  have hpipe := hq.inPipe_eq
  refine ⟨⟨hq.configured.trans hs.configured, ?_, fun hwait => ?_⟩,
    ⟨hd.commands, fun hwait => ?_⟩⟩
  · rw [hpipe]
    exact hs.direction
  · rw [hpipe]
    exact hs.pending hwait
  · rw [hpipe]
    exact hd.clear hwait

theorem background_kept {t : Traced} (hs : Session t) (hd : Decoded t) {e : Event}
    (he : Background e) : Session (tracedStep t e).1 ∧ Decoded (tracedStep t e).1 := by
  obtain ⟨hq, hsilent⟩ := background_quiet t.host he
  have hstep : (tracedStep t e).1 = ⟨(step t.host e).1, t.received, t.switched, t.waiting⟩ := by
    have hnone : arrival t.host e = [] ∧ waits t e = t.waiting := by
      cases e <;> first | exact he.elim | exact ⟨rfl, by simp [waits, arrival]⟩
    simp only [tracedStep, hsilent, hnone.1, hnone.2, List.append_nil]
  rw [hstep]
  exact quiet_kept hs hd hq

theorem receiveIN_holds {pipe : Pipe} {packet : List UInt8} (hstart : pipe.startIdx = 0)
    (hlen : 0 < packet.length ∧ packet.length ≤ pipeMaxSize) :
    Holds (receiveIN pipe packet) packet := by
  have hmax : pipeMaxSize = 512 := rfl
  refine ⟨rfl, hstart, ?_, hlen.1, ?_⟩
  · simp only [receiveIN, UInt16.toNat_ofNat']
    omega
  · cases packet with
    | nil => exact absurd hlen.1 (Nat.lt_irrefl 0)
    | cons b rest => rfl

theorem receive_kept {t : Traced} (hs : Session t) (hd : Decoded t) {packet : List UInt8}
    (hlen : 0 < packet.length ∧ packet.length ≤ pipeMaxSize) :
    Session (tracedStep t (.received packet)).1 ∧ Decoded (tracedStep t (.received packet)).1 := by
  by_cases hqueued : (inPipe t.host).status = .transferQueued
  · have hidle : t.waiting = false := by
      cases hwait : t.waiting with
      | false => rfl
      | true =>
        obtain ⟨p, -, hholds⟩ := hs.pending hwait
        exact absurd (hholds.status.symm.trans hqueued) (by decide)
    have hstep : (tracedStep t (.received packet)).1 =
        ⟨(step t.host (.received packet)).1, t.received ++ [packet], t.switched, true⟩ := by
      simp [tracedStep, arrival, waits, hqueued, step]
    have hpipe : inPipe (step t.host (.received packet)).1 =
        receiveIN (inPipe t.host) packet := by
      rw [inPipe] at hqueued
      simp only [inPipe, step, completeIN, hqueued, if_true, setCore, Function.update_self]
    rw [hstep]
    refine ⟨⟨?_, ?_, fun _ => ⟨packet, by simp, ?_⟩⟩, ⟨?_, fun hwait => ?_⟩⟩
    · rw [inPipe] at hqueued
      simp only [step, completeIN, hqueued, if_true, setCore, Function.update_self]
      exact hs.configured
    · rw [hpipe]
      exact hs.direction
    · rw [hpipe]
      exact receiveIN_holds (hd.clear hidle).1 hlen
    · have hcommands := hd.commands
      simp only [handled, hidle, Bool.false_eq_true, if_false] at hcommands
      simp only [handled, if_true, List.dropLast_concat, hcommands]
    · exact absurd hwait.symm Bool.false_ne_true
  · have hstep : (tracedStep t (.received packet)).1 =
        ⟨(step t.host (.received packet)).1, t.received, t.switched, t.waiting⟩ := by
      simp [tracedStep, arrival, waits, hqueued, step]
    rw [hstep]
    rw [inPipe] at hqueued
    refine quiet_kept hs hd ?_
    simp only [step, completeIN, if_neg hqueued]
    exact setCore_quiet rfl rfl

theorem step_kept {t : Traced} (hs : Session t) (hd : Decoded t) {e : Event}
    (he : InSession e) : Session (tracedStep t e).1 ∧
      (Decoded (tracedStep t e).1 ↔ ¬ Mishandled t e) := by
  have hother (hkept : Session (tracedStep t e).1 ∧ Decoded (tracedStep t e).1)
      (hnot : ¬ Mishandled t e) :
      Session (tracedStep t e).1 ∧ (Decoded (tracedStep t e).1 ↔ ¬ Mishandled t e) :=
    ⟨hkept.1, iff_of_true hkept.2 hnot⟩
  cases e with
  | received packet => exact hother (receive_kept hs hd he) fun h => h
  | deviceAttached corenum => exact he.elim
  | task r =>
    cases hwait : t.waiting with
    | true => exact task_pending hs hd hwait r
    | false =>
      exact hother (task_idle hs hd hwait r) fun h => Bool.false_ne_true (hwait.symm.trans h.1)
  | _ => exact hother (background_kept hs hd trivial) fun h => h

/-- In a session every packet is decoded from its own first byte, in every state of the run, if
and only if no call of the task finds a packet whose length is a multiple of `256`, or a connect
command while there is a node to announce. -/
theorem packets_decoded_iff (h : State)
    (hconf : (h.cores h.attachedCoreNum).hostState = .configured)
    (hdir : (inPipe h).endpointAddress &&& 0x80 ≠ 0) (hclear : isClear (inPipe h))
    (es : List Event) (hes : ∀ e ∈ es, InSession e) :
    (∀ pre, pre <+: es → Decoded (after tracedStep (traced h) pre)) ↔
      Along tracedStep (fun t e => ¬ Mishandled t e) (traced h) es := by
  have hsession : Session (traced h) :=
    ⟨hconf, hdir, fun hwait => absurd hwait Bool.false_ne_true⟩
  exact reached_iff_along (I := Session) (P := Decoded) (c := InSession)
    (fun t e hs hd he _ => (step_kept hs hd he).1) (fun t e hs hd he => (step_kept hs hd he).2)
    hsession ⟨rfl, fun _ => hclear⟩ hes

def oneNode (caps : UInt8) : State where
  cores := fun _ =>
    ⟨.configured, 0, fun n =>
      configuredPipe (fun _ => 0) (if n = androidDataInPipe then 0x81 else 0x02)⟩
  attachedCoreNum := 0
  connected := false
  doDisconnect := false
  scheduleDisconnect := 0
  subs := fun _ => ⟨0, 0⟩
  canpt := ⟨fun i => ⟨if i.val = 0 then 5 else 0, fun k => if k.val = 0 then caps else 0⟩,
    Queue.blank⟩

def call : Event := .task ⟨0, .ok, fun _ => .ok, Equiv.refl _⟩

def connectAndLeave : List Event :=
  [call, .received [cmdConnect], call, call, .received [cmdDisconnect], call]

theorem packets_decoded_connect :
    let start := traced (oneNode 0)
    Along tracedStep (fun t e => ¬ Mishandled t e) start connectAndLeave ∧
      Decoded (after tracedStep start connectAndLeave) := by
  intro start
  have hclear : Along tracedStep (fun t e => ¬ Mishandled t e) start connectAndLeave := by
    decide +kernel
  have hdecoded :=
    packets_decoded_iff (oneNode 0) rfl (by decide) ⟨rfl, rfl⟩ connectAndLeave (by decide)
  exact ⟨hclear, hdecoded.mpr hclear connectAndLeave (List.prefix_refl _)⟩

theorem connect_leaves_packet :
    ¬ Decoded (after tracedStep (traced (oneNode msgDevBtn))
      [call, .received [cmdConnect], call]) := by
  intro h
  have hclear := h.clear (by decide +kernel)
  exact absurd hclear.2 (by decide +kernel)

end AoaBoard.Host
