import AoaBoard.Host.Commands

/-!
# The flags of a session

`connected`, `doDisconnect` and `scheduleDisconnect` decide when a session
begins and ends. `monitor_task` is the clean-up after a removal followed by
`endSession`, and the rest of `androidHost_task` is `receive`, which changes the
flags only through the command byte of a waiting packet. Everything that only
sends commands leaves the flags and the subscriptions alone.
-/

namespace AoaBoard.Host
open Library Library.Run Can Usb

def cancelled : Out → Option (UInt8 × UInt8)
  | .unsubscribed reqId subId => some (reqId, subId)
  | _ => none

structure SameFlags (h h' : State) : Prop where
  connected : h'.connected = h.connected
  doDisconnect : h'.doDisconnect = h.doDisconnect
  scheduleDisconnect : h'.scheduleDisconnect = h.scheduleDisconnect

theorem SameFlags.refl (h : State) : SameFlags h h := ⟨rfl, rfl, rfl⟩

theorem SameFlags.trans {h i j : State} (hi : SameFlags h i) (hj : SameFlags i j) :
    SameFlags h j :=
  ⟨hj.connected.trans hi.connected, hj.doDisconnect.trans hi.doDisconnect,
    hj.scheduleDisconnect.trans hi.scheduleDisconnect⟩

structure Keeps (h : State) (r : State × List Out) : Prop where
  flags : SameFlags h r.1
  subs : r.1.subs = h.subs
  outs : r.2.filterMap cancelled = []

theorem Keeps.refl (h : State) : Keeps h (h, []) := ⟨.refl h, rfl, rfl⟩

theorem Keeps.trans {h : State} {r q : State × List Out} (hr : Keeps h r) (hq : Keeps r.1 q) :
    Keeps h (q.1, r.2 ++ q.2) := by
  refine ⟨hr.flags.trans hq.flags, hq.subs.trans hr.subs, ?_⟩
  rw [List.filterMap_append, hr.outs, hq.outs]
  rfl

theorem sendCommand_keeps (h : State) (corenum cmd : UInt8) (data : List UInt8)
    (done : HcdStatus) : Keeps h (sendCommand h corenum cmd data done) := by
  simp only [sendCommand]
  split_ifs
  · exact .refl h
  · exact ⟨⟨rfl, rfl, rfl⟩, rfl, rfl⟩
  · exact ⟨⟨rfl, rfl, rfl⟩, rfl, rfl⟩

theorem handleNodeAttached_keeps (h : State) (corenum reqId : UInt8) (done : HcdStatus) :
    Keeps h (handleNodeAttached h corenum reqId done) := by
  cases hcaps : hasCaps h.canpt reqId with
  | false =>
    rw [handleNodeAttached_of_none hcaps]
    exact .refl h
  | true =>
    obtain ⟨caps, -, heq⟩ := handleNodeAttached_of_caps hcaps corenum done
    rw [heq, sendNodeAttached]
    have hsend := sendCommand_keeps { h with canpt := caps.foldl (startSubscription reqId) h.canpt }
      corenum cmdNodeAdd (reqId :: UInt8.ofNat (caps.take 12).length :: caps.take 12) done
    exact ⟨⟨hsend.flags.connected, hsend.flags.doDisconnect, hsend.flags.scheduleDisconnect⟩,
      hsend.subs, hsend.outs⟩

theorem keeps_run {ε : Type*} {step : State → ε → State × List Out}
    (hstep : ∀ h e, Keeps h (step h e)) (h : State) (es : List ε) :
    Keeps h (after step h es, outputs step h es) :=
  run_composes .refl (fun _ _ _ => .trans) hstep h es

theorem handleDeviceConnected_keeps (h : State) (corenum : UInt8) (r : Readings) :
    Keeps h (handleDeviceConnected h corenum r) := by
  obtain ⟨ids, hids⟩ := canptGetNodes_ok h.canpt (show (10 : UInt8) ≠ 0 by decide)
  simp only [handleDeviceConnected, hids]
  split_ifs
  · exact keeps_run (fun h n => handleNodeAttached_keeps h corenum n.1 (r.nodeDone n.2)) h
      ids.zipIdx
  · exact .refl h

def commanded (h : State) (c : UInt8) : State :=
  if c = cmdConnect then { h with connected := true }
  else if c = cmdDisconnect then { h with doDisconnect := true }
  else h

theorem commanded_setCore (h : State) (corenum : UInt8) (core : Core) (c : UInt8) :
    commanded (setCore h corenum core) c = setCore (commanded h c) corenum core := by
  simp only [commanded]
  split_ifs <;> rfl

theorem handleCommand_keeps (h : State) (corenum c numBytes : UInt8) (r : Readings) :
    Keeps (commanded h c) (handleCommand h corenum c numBytes r) := by
  simp only [handleCommand]
  by_cases hset : c = cmdSetValue
  · have hnone : commanded h c = h := by
      rw [commanded, hset, if_neg (by decide), if_neg (by decide)]
    rw [if_pos hset, hnone]
    split_ifs
    · exact ⟨⟨rfl, rfl, rfl⟩, rfl, rfl⟩
    · exact .refl h
  rw [if_neg hset, commanded]
  split_ifs
  · exact handleDeviceConnected_keeps { h with connected := true } corenum r
  · exact .refl _
  · exact ⟨⟨rfl, rfl, rfl⟩, rfl, rfl⟩

theorem handleCommand_silent (h : State) (corenum c numBytes : UInt8) (r : Readings) :
    (handleCommand h corenum c numBytes r).2.filterMap command = [] := by
  simp only [handleCommand]
  split_ifs
  · rfl
  · rfl
  · exact (handleDeviceConnected_sends corenum r { h with connected := true }).silent
  · rfl
  · rfl

/-- `androidHost_task` behind the call of `monitor_task`. -/
def receive (h : State) (r : Readings) : State × List Out :=
  if (h.attachedCoreNum.toNat : ℤ) = -1 then (h, [])
  else if (h.cores h.attachedCoreNum).hostState ≠ .configured then (h, [])
  else receivePacket h h.attachedCoreNum r

theorem androidHostTask_eq_receive (h : State) (r : Readings) :
    androidHostTask h r = ((receive (monitorTask h r).1 r).1,
      (monitorTask h r).2 ++ (receive (monitorTask h r).1 r).2) := by
  simp only [androidHostTask, receive]
  split_ifs <;> simp

def waitingCommand (h : State) : Option UInt8 :=
  let c := pipeSelectPipe (h.cores h.attachedCoreNum) androidDataInPipe
  if (h.cores h.attachedCoreNum).hostState = .configured ∧ (pipeIsINReceived c).2 = true ∧
      pipeIsReadWriteAllowed c = true ∧ 0 < (pipeBytesInPipe c).toUInt8 then
    some (pipeRead8 c).2
  else none

def takenUp (h : State) : State := ((waitingCommand h).map (commanded h)).getD h

theorem takenUp_other (h : State) : (takenUp h).subs = h.subs ∧
    (takenUp h).scheduleDisconnect = h.scheduleDisconnect := by
  rw [takenUp]
  cases waitingCommand h with
  | none => exact ⟨rfl, rfl⟩
  | some c =>
    simp only [Option.map_some, Option.getD_some, commanded]
    split_ifs <;> exact ⟨rfl, rfl⟩

theorem handlePacket_taken (h : State) (corenum : UInt8)
    (hallowed : pipeIsReadWriteAllowed (h.cores corenum) = true)
    (hbytes : 0 < (pipeBytesInPipe (h.cores corenum)).toUInt8) (r : Readings) :
    Keeps (commanded h (pipeRead8 (h.cores corenum)).2) (handlePacket h corenum r) ∧
      (handlePacket h corenum r).2.filterMap command = [(pipeRead8 (h.cores corenum)).2] := by
  simp only [handlePacket, if_pos hallowed, if_pos hbytes]
  have hkeeps := handleCommand_keeps (setCore h corenum (pipeRead8 (h.cores corenum)).1) corenum
    (pipeRead8 (h.cores corenum)).2 ((pipeBytesInPipe (h.cores corenum)).toUInt8 - 1) r
  rw [commanded_setCore] at hkeeps
  have hflags := hkeeps.flags
  refine ⟨⟨⟨hflags.connected, hflags.doDisconnect, hflags.scheduleDisconnect⟩, hkeeps.subs,
    hkeeps.outs⟩, ?_⟩
  simp only [List.filterMap_cons, command, handleCommand_silent]

theorem handlePacket_none {h : State} {corenum : UInt8}
    (hnone : ¬ (pipeIsReadWriteAllowed (h.cores corenum) = true ∧
      0 < (pipeBytesInPipe (h.cores corenum)).toUInt8)) (r : Readings) :
    handlePacket h corenum r = (h, []) := by
  simp only [handlePacket]
  split_ifs with hallowed hbytes
  · exact absurd ⟨hallowed, hbytes⟩ hnone
  · rfl
  · rfl

theorem pipeIsINReceived_core {c : Core} (h : (pipeIsINReceived c).2 = true) :
    (pipeIsINReceived c).1 = c := by
  simp only [pipeIsINReceived] at h ⊢
  split_ifs at h ⊢
  rfl

theorem receive_spec (h : State) (r : Readings) :
    Keeps (takenUp h) (receive h r) ∧
      (receive h r).2.filterMap command = (waitingCommand h).toList := by
  have hnum : ¬ (h.attachedCoreNum.toNat : ℤ) = -1 := by omega
  simp only [takenUp, waitingCommand, receive, if_neg hnum]
  by_cases hconf : (h.cores h.attachedCoreNum).hostState = .configured
  · simp only [hconf, ne_eq, not_true_eq_false, if_false, true_and]
    simp only [receivePacket]
    generalize hc : pipeSelectPipe (h.cores h.attachedCoreNum) androidDataInPipe = c
    by_cases hin : (pipeIsINReceived c).2 = true
    · have hcore : (setCore h h.attachedCoreNum c).cores h.attachedCoreNum = c := by simp [setCore]
      simp only [hin, pipeIsINReceived_core hin, if_true, true_and]
      by_cases hread : pipeIsReadWriteAllowed c = true ∧ 0 < (pipeBytesInPipe c).toUInt8
      · obtain ⟨hkeeps, hcommands⟩ := handlePacket_taken (setCore h h.attachedCoreNum c)
          h.attachedCoreNum (by rw [hcore]; exact hread.1) (by rw [hcore]; exact hread.2) r
        rw [hcore] at hkeeps hcommands
        rw [commanded_setCore] at hkeeps
        rw [if_pos hread]
        have hflags := hkeeps.flags
        exact ⟨⟨⟨hflags.connected, hflags.doDisconnect, hflags.scheduleDisconnect⟩, hkeeps.subs,
          hkeeps.outs⟩, hcommands⟩
      · rw [if_neg hread, handlePacket_none (by rw [hcore]; exact hread) r]
        exact ⟨⟨⟨rfl, rfl, rfl⟩, rfl, rfl⟩, rfl⟩
    · simp only [hin, if_false, false_and, Bool.false_eq_true]
      exact ⟨⟨⟨rfl, rfl, rfl⟩, rfl, rfl⟩, rfl⟩
  · simp only [hconf, ne_eq, not_false_iff, if_true, false_and, if_false]
    exact ⟨.refl h, rfl⟩

def Expired (h : State) (r : Readings) : Prop :=
  0 < h.scheduleDisconnect ∧ h.scheduleDisconnect < r.msTicks

instance decidableExpired (h : State) (r : Readings) : Decidable (Expired h r) :=
  inferInstanceAs (Decidable (_ ∧ _))

def cleanUp (h : State) : State × List Out :=
  handleDeviceDisconnected { h with scheduleDisconnect := 0 }

/-- `monitor_task` behind the clean-up. -/
def endSession (h : State) (r : Readings) : State × List Out :=
  if h.connected = false then (h, [])
  else if h.doDisconnect then
    let s := sendCommand { h with doDisconnect := false } h.attachedCoreNum cmdDisconnect []
      r.monitorDone
    ({ s.1 with connected := false }, s.2)
  else (h, [])

theorem monitorTask_eq (h : State) (r : Readings) :
    monitorTask h r =
      let d := if Expired h r then cleanUp h else (h, [])
      ((endSession d.1 r).1, d.2 ++ (endSession d.1 r).2) := by
  have hdelayed : (if 0 < h.scheduleDisconnect ∧ h.scheduleDisconnect < r.msTicks then
      handleDeviceDisconnected { h with scheduleDisconnect := 0 } else (h, [])) =
      if Expired h r then cleanUp h else (h, []) := rfl
  simp only [monitorTask, hdelayed, endSession]
  generalize (if Expired h r then cleanUp h else (h, [])) = d
  split_ifs
  · rw [List.append_nil]
  · rfl
  · rw [List.append_nil]

theorem endSession_idle {h : State} (hidle : ¬ (h.connected = true ∧ h.doDisconnect = true))
    (r : Readings) : endSession h r = (h, []) := by
  simp only [endSession]
  split_ifs with hconn hreq
  · rfl
  · exact absurd ⟨by simpa using hconn, hreq⟩ hidle
  · rfl

theorem endSession_ends {h : State} (hconn : h.connected = true) (hreq : h.doDisconnect = true)
    (r : Readings) :
    (endSession h r).1.connected = false ∧ (endSession h r).1.doDisconnect = false ∧
      (endSession h r).1.scheduleDisconnect = h.scheduleDisconnect ∧
      (endSession h r).1.subs = h.subs ∧ (endSession h r).2.filterMap cancelled = [] := by
  have hkeeps := sendCommand_keeps { h with doDisconnect := false } h.attachedCoreNum cmdDisconnect
    [] r.monitorDone
  have hopen : ¬ h.connected = false := by simp [hconn]
  simp only [endSession, if_neg hopen, if_pos hreq]
  exact ⟨trivial, hkeeps.flags.doDisconnect, hkeeps.flags.scheduleDisconnect, hkeeps.subs,
    hkeeps.outs⟩

theorem endSession_subs (h : State) (r : Readings) : (endSession h r).1.subs = h.subs := by
  by_cases hends : h.connected = true ∧ h.doDisconnect = true
  · exact (endSession_ends hends.1 hends.2 r).2.2.2.1
  · rw [endSession_idle hends]

theorem cancelSubscription_flags (h : State) (i : Fin maxNumSubscriptions) :
    SameFlags h (cancelSubscription h i).1 := by
  simp only [cancelSubscription]
  split_ifs
  · exact ⟨rfl, rfl, rfl⟩
  · exact .refl h

theorem cleanUp_flags (h : State) :
    SameFlags { h with scheduleDisconnect := 0 } (cleanUp h).1 := by
  simp only [cleanUp, handleDeviceDisconnected]
  generalize List.finRange maxNumSubscriptions = is
  exact after_related .refl (fun _ _ _ => .trans) cancelSubscription_flags
    { h with scheduleDisconnect := 0 } is

end AoaBoard.Host
