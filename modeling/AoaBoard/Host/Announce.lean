import AoaBoard.Host.Sessions

/-!
# The announcement of the nodes

A connect command makes the host announce each registered node to the device.
Each announcement is a transfer of the OUT pipe, and `sendCommand` drops it when
the transfer before it has not completed. The OUT pipe is idle between two
commands: nothing has been written to it.
-/

namespace AoaBoard.Host.Announce
open Library Library.Run Library.Registry Library.Slots Library.Bytes Can Usb Sessions

structure Idle (p : Pipe) : Prop where
  direction : p.endpointAddress &&& 0x80 = 0
  size : p.bufferSize = UInt16.ofNat pipeMaxSize
  empty : p.byteTransfered = 0

def IdleCore (c : Core) : Prop := Idle (c.pipes androidDataOutPipe)

def AllIdle (h : State) : Prop := ∀ n, IdleCore (h.cores n)

/-- The status of the OUT pipe when `sendCommand` looks at it. -/
def statusSeen (p : Pipe) (done : HcdStatus) : HcdStatus :=
  if p.status = .transferQueued then done else p.status

theorem Idle.of_status {p : Pipe} (hp : Idle p) (status : HcdStatus) :
    Idle { p with status := status } := ⟨hp.direction, hp.size, hp.empty⟩

theorem AllIdle.of_cores {h h' : State} (hh : AllIdle h) (hcores : h'.cores = h.cores) :
    AllIdle h' := fun n => hcores ▸ hh n

theorem setCore_idle {h : State} (hh : AllIdle h) (corenum : UInt8) {c : Core} (hc : IdleCore c) :
    AllIdle (setCore h corenum c) := by
  intro n
  by_cases hn : n = corenum
  · subst hn
    simpa [setCore] using hc
  · simpa [setCore, hn] using hh n

theorem idle_setSelected {c : Core} (hc : IdleCore c) {p : Pipe} (hp : Idle (selected c) → Idle p) :
    IdleCore (setSelected c p) := by
  simp only [IdleCore, setSelected]
  by_cases hsel : androidDataOutPipe = c.pipeselected
  · rw [hsel, Function.update_self]
    refine hp ?_
    rw [selected, ← hsel]
    exact hc
  · rw [Function.update_of_ne hsel]
    exact hc

theorem completeOUT_pipe (c : Core) (done : HcdStatus) :
    (completeOUT c done).pipes androidDataOutPipe = { c.pipes androidDataOutPipe with
      status := statusSeen (c.pipes androidDataOutPipe) done } := by
  simp only [completeOUT, statusSeen]
  split_ifs
  · simp only [Function.update_self]
  · rfl

theorem completeOUT_idle {c : Core} (hc : IdleCore c) (done : HcdStatus) :
    IdleCore (completeOUT c done) := by
  rw [IdleCore, completeOUT_pipe]
  exact hc.of_status _

section Send
variable {h : State} {corenum : UInt8} (cmd : UInt8) (data : List UInt8) (done : HcdStatus)

theorem pipeClearOUT_idle {c : Core} (hc : Idle (selected c))
    (hsel : c.pipeselected = androidDataOutPipe) :
    IdleCore (pipeClearOUT (pipeWriteStreamLE (pipeWrite8 c cmd) data)).1 := by
  have hstream : pipeWriteStreamLE (pipeWrite8 c cmd) data =
      pipeWriteStreamLE c (cmd :: data) := rfl
  obtain ⟨buffer, byteTransfered, hpipe⟩ := pipeWriteStreamLE_pipe c (cmd :: data)
  have honly := pipeWriteStreamLE_only c (cmd :: data)
  rw [hstream]
  generalize pipeWriteStreamLE c (cmd :: data) = d at *
  have hout : androidDataOutPipe = d.pipeselected := (honly.pipeselected.trans hsel).symm
  simp only [IdleCore, pipeClearOUT, setSelected, hout, Function.update_self, hcdDataTransfer,
    hpipe]
  split_ifs
  · exact ⟨hc.direction, hc.size, rfl⟩
  · exact ⟨hc.direction, hc.size, rfl⟩

theorem sendCommand_idle (hh : AllIdle h) : AllIdle (sendCommand h corenum cmd data done).1 := by
  have hcore : IdleCore (completeOUT (pipeSelectPipe (h.cores corenum) androidDataOutPipe) done) :=
    completeOUT_idle (c := pipeSelectPipe (h.cores corenum) androidDataOutPipe) (hh corenum) done
  have hsel := (completeOUT_facts (pipeSelectPipe (h.cores corenum) androidDataOutPipe) done).2.1
  simp only [sendCommand]
  generalize completeOUT (pipeSelectPipe (h.cores corenum) androidDataOutPipe) done = c at *
  split_ifs
  · exact hh
  · refine setCore_idle hh corenum (pipeClearOUT_idle cmd data ?_ hsel)
    rw [selected, hsel]
    exact hcore
  · exact setCore_idle hh corenum hcore

end Send

theorem handleNodeAttached_idle {h : State} (hh : AllIdle h) (corenum reqId : UInt8)
    (done : HcdStatus) : AllIdle (handleNodeAttached h corenum reqId done).1 := by
  cases hcaps : hasCaps h.canpt reqId with
  | false =>
    rw [handleNodeAttached_of_none hcaps]
    exact hh
  | true =>
    obtain ⟨caps, -, heq⟩ := handleNodeAttached_of_caps hcaps corenum done
    rw [heq, sendNodeAttached]
    exact sendCommand_idle _ _ done (hh.of_cores rfl)

theorem handleDeviceConnected_idle {h : State} (hh : AllIdle h) (corenum : UInt8) (r : Readings) :
    AllIdle (handleDeviceConnected h corenum r).1 := by
  obtain ⟨ids, hids⟩ := canptGetNodes_ok h.canpt (show (10 : UInt8) ≠ 0 by decide)
  simp only [handleDeviceConnected, hids]
  split_ifs
  · exact after_invariant (C := fun _ _ => True) (P := AllIdle)
      (fun h n hh _ => handleNodeAttached_idle hh corenum n.1 (r.nodeDone n.2)) hh
      (along_trivial h ids.zipIdx)
  · exact hh

theorem readFrom_idle {c c' : Core} (hread : ReadFrom c c') (hc : IdleCore c) : IdleCore c' := by
  obtain ⟨k, hk⟩ := hread.pipe
  by_cases hsel : androidDataOutPipe = c.pipeselected
  · have hpipe : c'.pipes androidDataOutPipe = selected c' := by
      rw [selected, hread.only.pipeselected, hsel]
    have hbefore : Idle (selected c) := by
      rw [selected, ← hsel]
      exact hc
    rw [IdleCore, hpipe, hk]
    exact ⟨hbefore.direction, hbefore.size, hbefore.empty⟩
  · rw [IdleCore, hread.only.pipes _ hsel]
    exact hc

theorem handleCommand_idle {h : State} (hh : AllIdle h) (corenum c numBytes : UInt8)
    (r : Readings) : AllIdle (handleCommand h corenum c numBytes r).1 := by
  simp only [handleCommand]
  split_ifs
  · have hread := readFrom_idle (pipeReads_readFrom 4 (h.cores corenum)) (hh corenum)
    exact (setCore_idle hh corenum hread).of_cores rfl
  · exact hh
  · exact handleDeviceConnected_idle (h := { h with connected := true }) (hh.of_cores rfl) corenum r
  · exact hh.of_cores rfl
  · have hread := readFrom_idle (pipeReads_readFrom numBytes.toNat (h.cores corenum)) (hh corenum)
    exact setCore_idle hh corenum hread

theorem receive_idle {h : State} (hh : AllIdle h) (r : Readings) : AllIdle (receive h r).1 := by
  have hclear {d : State} (hd : AllIdle d) (corenum : UInt8) :
      AllIdle (setCore d corenum (pipeClearIN (d.cores corenum))) :=
    setCore_idle hd corenum (idle_setSelected (hd corenum) fun hp => ⟨hp.direction, hp.size, rfl⟩)
  have hselect : IdleCore (pipeSelectPipe (h.cores h.attachedCoreNum) androidDataInPipe) :=
    hh h.attachedCoreNum
  have hin : IdleCore
      (pipeIsINReceived (pipeSelectPipe (h.cores h.attachedCoreNum) androidDataInPipe)).1 := by
    have honly := pipeIsINReceived_only
      (pipeSelectPipe (h.cores h.attachedCoreNum) androidDataInPipe)
    rw [IdleCore, honly.pipes _ (Ne.symm inPipe_ne_outPipe)]
    exact hselect
  have hstart := setCore_idle hh h.attachedCoreNum hin
  have hnum : ¬ (h.attachedCoreNum.toNat : ℤ) = -1 := by omega
  simp only [receive, if_neg hnum, receivePacket]
  split_ifs
  · exact hh
  · refine hclear ?_ h.attachedCoreNum
    simp only [handlePacket]
    split_ifs
    · have hread := readFrom_idle (pipeRead8_readFrom _) (hstart h.attachedCoreNum)
      exact handleCommand_idle (setCore_idle hstart h.attachedCoreNum hread) _ _ _ r
    · exact hstart
    · exact hstart
  · exact hstart

theorem cancelSubscription_cores (h : State) (i : Fin maxNumSubscriptions) :
    (cancelSubscription h i).1.cores = h.cores := by
  simp only [cancelSubscription]
  split_ifs <;> rfl

theorem cleanUp_cores (h : State) : (cleanUp h).1.cores = h.cores := by
  simp only [cleanUp, handleDeviceDisconnected]
  generalize List.finRange maxNumSubscriptions = is
  have htrans (s t u : State) (hst : t.cores = s.cores) (htu : u.cores = t.cores) :
      u.cores = s.cores := htu.trans hst
  exact after_related (R := fun h h' : State => h'.cores = h.cores) (fun _ => rfl) htrans
    cancelSubscription_cores { h with scheduleDisconnect := 0 } is

theorem endSession_idle {h : State} (hh : AllIdle h) (r : Readings) :
    AllIdle (endSession h r).1 := by
  simp only [endSession]
  split_ifs
  · exact hh
  · exact (sendCommand_idle cmdDisconnect [] r.monitorDone (h := { h with doDisconnect := false })
      (hh.of_cores rfl)).of_cores rfl
  · exact hh

theorem event_idle {h : State} (hh : AllIdle h) {pc : Pc} {e : Event} (he : enabled pc e = true) :
    AllIdle (step h e).1 := by
  cases e with
  | received packet =>
    refine setCore_idle hh h.attachedCoreNum ?_
    simp only [completeIN]
    split_ifs
    · simp only [IdleCore, Function.update_of_ne (Ne.symm inPipe_ne_outPipe)]
      exact hh h.attachedCoreNum
    · exact hh h.attachedCoreNum
  | sent done => exact setCore_idle hh h.attachedCoreNum (completeOUT_idle (hh _) done)
  | registry nodes => exact hh.of_cores rfl
  | nodeAttached reqId done =>
    simp only [step, nodeAttached]
    split_ifs
    · exact handleNodeAttached_idle hh h.attachedCoreNum reqId done
    · exact hh
  | nodeDetached reqId done =>
    simp only [step, nodeDetached, handleNodeDetached, sendNodeDetached]
    split_ifs
    · exact sendCommand_idle _ _ done (hh.of_cores rfl)
    · exact hh
  | valueUpdate reqId periphId buf len done =>
    simp only [step, valueUpdate]
    split_ifs
    · exact sendCommand_idle _ _ done hh
    · exact sendCommand_idle _ _ done hh
    · exact hh
  | subStarted reqId subId =>
    simp only [step, subStarted]
    split
    · exact hh.of_cores rfl
    · exact hh
  | deviceAttached corenum => exact hh.of_cores rfl
  | deviceUnattached msTicks => exact hh.of_cores rfl
  | task r => exact absurd he Bool.false_ne_true

def Configures : Action → Prop
  | .core _ c => IdleCore c
  | _ => True

theorem act_idle {b : Board} (hb : AllIdle b.host) {a : Action} (ha : Configures a) :
    AllIdle (act b a).1.host := by
  cases a with
  | task r =>
    cases hpc : b.pc with
    | outside => simpa only [act, proceed, hpc] using hb
    | due =>
      simp only [act, proceed, hpc]
      exact hb.of_cores (cleanUp_cores b.host)
    | cleaned =>
      simp only [act, proceed, hpc]
      exact endSession_idle hb r
    | monitored =>
      simp only [act, proceed, hpc]
      exact receive_idle hb r
  | host e =>
    simp only [act]
    split_ifs with he
    · exact event_idle hb he
    · exact hb
  | core corenum c => exact setCore_idle hb corenum ha

theorem sendCommand_hands {h : State} {corenum : UInt8} (hh : AllIdle h)
    (hconf : (h.cores corenum).hostState = .configured) (cmd : UInt8) {data : List UInt8}
    (hlen : data.length < pipeMaxSize) (done : HcdStatus) :
    (statusSeen ((h.cores corenum).pipes androidDataOutPipe) done = .ok →
      (sendCommand h corenum cmd data done).2 = [.packet (cmd :: data)] ∧
        (((sendCommand h corenum cmd data done).1.cores corenum).pipes androidDataOutPipe).status =
          .transferQueued) ∧
    (statusSeen ((h.cores corenum).pipes androidDataOutPipe) done ≠ .ok →
      (sendCommand h corenum cmd data done).2 = []) := by
  have hpipe := completeOUT_pipe (pipeSelectPipe (h.cores corenum) androidDataOutPipe) done
  have hsel := (completeOUT_facts (pipeSelectPipe (h.cores corenum) androidDataOutPipe) done).2.1
  have hidle := hh corenum
  simp only [sendCommand, ne_eq, hconf, not_true_eq_false, if_false]
  generalize completeOUT (pipeSelectPipe (h.cores corenum) androidDataOutPipe) done = c at *
  have hselected : selected c = { (h.cores corenum).pipes androidDataOutPipe with
      status := statusSeen ((h.cores corenum).pipes androidDataOutPipe) done } := by
    rw [selected, hsel]
    exact hpipe
  have hallowed : pipeIsReadWriteAllowed c =
      decide (statusSeen ((h.cores corenum).pipes androidDataOutPipe) done = .ok) := by
    have hroom : (0 : UInt16) < UInt16.ofNat pipeMaxSize := by decide
    simp [pipeIsReadWriteAllowed, pipeGetPipeToken, pipeIsOUTReady, hselected, hidle.direction,
      hidle.size, hidle.empty, hroom]
  constructor
  · intro hready
    rw [if_pos (by rw [hallowed, hready]; rfl)]
    have hzero : (selected c).byteTransfered = 0 := by
      rw [hselected]
      exact hidle.empty
    have hsize : (selected c).bufferSize.toNat = pipeMaxSize := by
      rw [hselected]
      exact (congrArg UInt16.toNat hidle.size).trans rfl
    obtain ⟨hcount, hwritten⟩ := pipeWriteStreamLE_written c (cmd :: data) (by
      rw [hzero, hsize, List.length_cons, UInt16.toNat_zero]
      omega)
    have honly := (pipeWriteStreamLE_only c (cmd :: data)).pipeselected.trans hsel
    rw [hzero, UInt16.toNat_zero, Nat.zero_add, List.length_cons] at hcount
    rw [hzero, UInt16.toNat_zero, slice_zero, List.nil_append] at hwritten
    have hstream : pipeWriteStreamLE (pipeWrite8 c cmd) data = pipeWriteStreamLE c (cmd :: data) :=
      rfl
    rw [hstream]
    generalize pipeWriteStreamLE c (cmd :: data) = d at *
    have hout : androidDataOutPipe = d.pipeselected := honly.symm
    refine ⟨by rw [pipeClearOUT, hwritten], ?_⟩
    simp only [pipeClearOUT, setCore, Function.update_self, setSelected, hout, hcdDataTransfer]
    rw [if_neg (by omega)]
  · intro hbusy
    rw [if_neg (by rw [hallowed]; simpa using hbusy)]

def added : Out → Option (List UInt8)
  | .packet data => if data.head? = some cmdNodeAdd then some data else none
  | _ => none

def announcement (id : UInt8) (caps : List UInt8) : List UInt8 :=
  cmdNodeAdd :: id :: UInt8.ofNat caps.length :: caps

def capsOf (c : Canpt) (id : UInt8) : List UInt8 := (canptGetNodeCaps c false id 12).2.getD []

theorem capsOf_congr {c c' : Canpt} (h : c'.nodes = c.nodes) (id : UInt8) :
    capsOf c' id = capsOf c id := by
  rw [capsOf, canptGetNodeCaps_congr h, capsOf]

section Nodes
variable {corenum : UInt8} (r : Readings)

theorem announceNode_length (h : State) (n : UInt8 × ℕ) :
    (announceNode corenum r h n).2.length ≤ 1 := by
  have hsend (d : State) (cmd : UInt8) (data : List UInt8) (done : HcdStatus) :
      (sendCommand d corenum cmd data done).2.length ≤ 1 := by
    simp only [sendCommand]
    split_ifs <;> simp
  rw [announceNode]
  cases hcaps : hasCaps h.canpt n.1 with
  | false =>
    rw [handleNodeAttached_of_none hcaps]
    exact Nat.zero_le 1
  | true =>
    obtain ⟨caps, -, heq⟩ := handleNodeAttached_of_caps hcaps corenum (r.nodeDone n.2)
    rw [heq, sendNodeAttached]
    exact hsend _ _ _ _

theorem announceNode_hands {h : State} (hh : AllIdle h)
    (hconf : (h.cores corenum).hostState = .configured) {id : UInt8}
    (hcaps : hasCaps h.canpt id = true) (k : ℕ) :
    (statusSeen ((h.cores corenum).pipes androidDataOutPipe) (r.nodeDone k) = .ok →
      (announceNode corenum r h (id, k)).2 = [.packet (announcement id (capsOf h.canpt id))] ∧
        (((announceNode corenum r h (id, k)).1.cores corenum).pipes androidDataOutPipe).status =
          .transferQueued) ∧
    (statusSeen ((h.cores corenum).pipes androidDataOutPipe) (r.nodeDone k) ≠ .ok →
      (announceNode corenum r h (id, k)).2 = []) := by
  obtain ⟨caps, hget, heq⟩ := handleNodeAttached_of_caps hcaps corenum (r.nodeDone k)
  have hlen := canptGetNodeCaps_length hget
  have hof : capsOf h.canpt id = caps := by rw [capsOf, hget, Option.getD_some]
  have htake : caps.take 12 = caps := List.take_of_length_le hlen
  have hmax : nodeMaxCaps = 12 ∧ pipeMaxSize = 512 := ⟨rfl, rfl⟩
  rw [announceNode, heq, sendNodeAttached, hof, htake]
  have hbytes : (id :: UInt8.ofNat caps.length :: caps).length < pipeMaxSize := by
    rw [List.length_cons, List.length_cons]
    omega
  exact sendCommand_hands
    (h := { h with canpt := caps.foldl (startSubscription id) h.canpt }) (hh.of_cores rfl) hconf
    cmdNodeAdd hbytes (r.nodeDone k)

/-- The transfers complete in time: the one before the first command, with index `k`, and the
one of each command before the next of the `n` commands. -/
def Timely (p : Pipe) (k n : ℕ) : Prop :=
  (0 < n → statusSeen p (r.nodeDone k) = .ok) ∧ ∀ j, k < j → j < k + n → r.nodeDone j = .ok

theorem timely_none (p : Pipe) (k : ℕ) : Timely r p k 0 :=
  ⟨fun hlt => absurd hlt (Nat.lt_irrefl 0), fun j hk hj => by omega⟩

theorem announceNodes_iff (ids : List UInt8) (k : ℕ) {h : State} (hh : AllIdle h)
    (hconf : (h.cores corenum).hostState = .configured)
    (hcaps : ∀ id ∈ ids, hasCaps h.canpt id = true) :
    (outputs (announceNode corenum r) h (ids.zipIdx k)).filterMap added =
        ids.map (fun id => announcement id (capsOf h.canpt id)) ↔
      Timely r ((h.cores corenum).pipes androidDataOutPipe) k ids.length := by
  induction ids generalizing k h with
  | nil => exact iff_of_true rfl (timely_none r _ k)
  | cons id ids ih =>
    obtain ⟨hready, hbusy⟩ := announceNode_hands r hh hconf (hcaps id List.mem_cons_self) k
    rw [List.zipIdx_cons, outputs_cons, List.filterMap_append, List.map_cons, List.length_cons]
    by_cases hseen : statusSeen ((h.cores corenum).pipes androidDataOutPipe) (r.nodeDone k) = .ok
    · obtain ⟨houts, hqueued⟩ := hready hseen
      have hidle : AllIdle (announceNode corenum r h (id, k)).1 :=
        handleNodeAttached_idle hh corenum id (r.nodeDone k)
      have hsends := announceNode_sends corenum r h (id, k)
      have hrest := ih (k + 1) hidle ((hsends.quiet.hostState corenum).trans hconf) fun id' hid =>
        (hasCaps_congr hsends.nodes id').trans (hcaps id' (List.mem_cons_of_mem id hid))
      have hfirst : [Out.packet (announcement id (capsOf h.canpt id))].filterMap added =
          [announcement id (capsOf h.canpt id)] := rfl
      simp only [capsOf_congr hsends.nodes] at hrest
      rw [houts, hfirst, List.singleton_append, List.cons.injEq, eq_self_iff_true, true_and, hrest]
      simp only [Timely, hseen]
      rw [statusSeen, if_pos hqueued]
      constructor
      · rintro ⟨hnext, hlater⟩
        refine ⟨fun _ => trivial, fun j hk hj => ?_⟩
        rcases Nat.lt_or_ge (k + 1) j with hlt | hge
        · exact hlater j hlt (by omega)
        · rw [show j = k + 1 by omega]
          exact hnext (by omega)
      · rintro ⟨-, hlater⟩
        exact ⟨fun hpos => hlater (k + 1) (by omega) (by omega),
          fun j hk hj => hlater j (by omega) (by omega)⟩
    · -- the announcement is dropped, and each of the others is one packet at most
      refine iff_of_false (fun heq => ?_) fun htimely => hseen (htimely.1 (Nat.succ_pos _))
      rw [hbusy hseen, List.filterMap_nil, List.nil_append] at heq
      have hlen := congrArg List.length heq
      have hfew := List.length_filterMap_le added (outputs (announceNode corenum r)
        (announceNode corenum r h (id, k)).1 (ids.zipIdx (k + 1)))
      have hmost : (outputs (announceNode corenum r) (announceNode corenum r h (id, k)).1
          (ids.zipIdx (k + 1))).length ≤ 1 * (ids.zipIdx (k + 1)).length :=
        outputs_length_le (announceNode_length r) _ _
      rw [List.length_cons, List.length_map] at hlen
      rw [List.length_zipIdx] at hmost
      omega

end Nodes

theorem receive_connect {h : State} (hwait : waitingCommand h = some cmdConnect) (r : Readings) :
    ∃ d, (receive h r).2 = .switched cmdConnect :: (handleDeviceConnected d h.attachedCoreNum r).2 ∧
      d.canpt = h.canpt ∧ (d.cores h.attachedCoreNum).hostState = .configured ∧
      ∀ n, (d.cores n).pipes androidDataOutPipe = (h.cores n).pipes androidDataOutPipe := by
  have hnum : ¬ (h.attachedCoreNum.toNat : ℤ) = -1 := by omega
  simp only [waitingCommand] at hwait
  split_ifs at hwait with hcond
  obtain ⟨hconf, hin, hallowed, hbytes⟩ := hcond
  generalize hc : pipeSelectPipe (h.cores h.attachedCoreNum) androidDataInPipe = c at *
  have hread := pipeRead8_readFrom c
  have hsel : androidDataOutPipe ≠ c.pipeselected := hc ▸ Ne.symm inPipe_ne_outPipe
  refine ⟨{ setCore h h.attachedCoreNum (pipeRead8 c).1 with connected := true }, ?_, rfl, ?_, ?_⟩
  · have hconn : ¬ cmdConnect = cmdSetValue := by decide
    simp only [receive, if_neg hnum, hconf, ne_eq, not_true_eq_false, if_false, receivePacket, hc,
      hin, if_true, pipeIsINReceived_core hin, handlePacket]
    simp only [setCore, Function.update_self, hallowed, hbytes, if_true, Option.some.inj hwait,
      handleCommand, if_neg hconn, Function.update_idem]
  · have hstate : (pipeRead8 c).1.hostState = .configured := by
      rw [hread.only.hostState, ← hc]
      exact hconf
    simpa [setCore] using hstate
  · intro n
    by_cases hn : n = h.attachedCoreNum
    · subst hn
      simp only [setCore, Function.update_self]
      rw [hread.only.pipes _ hsel, ← hc]
      rfl
    · simp [setCore, hn]

def announced (n : Node) : Option (List UInt8) :=
  if n.reqId ≠ 0 then some (announcement n.reqId (capList n)) else none

def announcements (c : Canpt) : List (List UInt8) := entries fun i => announced (c.nodes i)

theorem handleDeviceConnected_iff {h : State} {corenum : UInt8} (hh : AllIdle h)
    (hconf : (h.cores corenum).hostState = .configured) (hdistinct : Distinct (registered h.canpt))
    (hcaps : ∀ i, (h.canpt.nodes i).reqId ≠ 0 → capList (h.canpt.nodes i) ≠ []) (r : Readings) :
    (handleDeviceConnected h corenum r).2.filterMap added = announcements h.canpt ↔
      Timely r ((h.cores corenum).pipes androidDataOutPipe) 0 (announcements h.canpt).length := by
  have hget {i : Fin nodeMaxNum} (hid : (h.canpt.nodes i).reqId ≠ 0) :
      canptGetNodeCaps h.canpt false (h.canpt.nodes i).reqId 12 =
        (.ok, some (capList (h.canpt.nodes i))) :=
    canptGetNodeCaps_lists hdistinct hid (le_refl 12)
  have hlist : announcements h.canpt =
      (entries (registered h.canpt)).map fun id => announcement id (capsOf h.canpt id) := by
    rw [entries_map, announcements]
    congr 1
    funext i
    by_cases hid : (h.canpt.nodes i).reqId = 0
    · simp [announced, registered, hid]
    · simp [announced, registered, hid, capsOf, hget hid]
  have hall : ∀ id ∈ entries (registered h.canpt), hasCaps h.canpt id = true := by
    intro id hmem
    obtain ⟨i, hi⟩ := mem_entries.mp hmem
    have hid : (h.canpt.nodes i).reqId ≠ 0 := fun hzero => by
      rw [(registered_eq_none_iff _ i).mpr hzero] at hi
      cases hi
    rw [registered_eq_some hid] at hi
    rw [← Option.some.inj hi, hasCaps, hget hid]
    simpa using hcaps i hid
  have hten : nodeMaxNum ≤ (10 : UInt8).toNat := le_refl 10
  simp only [handleDeviceConnected, canptGetNodes_lists h.canpt hten]
  rw [hlist, List.length_map]
  split_ifs with hlen
  · exact announceNodes_iff r (entries (registered h.canpt)) 0 hh hconf hall
  · have hnil : entries (registered h.canpt) = [] := List.eq_nil_of_length_eq_zero (by omega)
    rw [hnil]
    exact iff_of_true rfl (timely_none r _ 0)

def Reached (b : Board) : Prop :=
  ∃ cores canpt run, (∀ n, IdleCore (cores n)) ∧ (∀ a ∈ run, Configures a) ∧
    b = after act (start cores canpt) run

structure AtConnect (b : Board) : Prop where
  pc : b.pc = .monitored
  waits : waitingCommand b.host = some cmdConnect
  distinct : Distinct (registered b.host.canpt)
  caps : ∀ i, (b.host.canpt.nodes i).reqId ≠ 0 → capList (b.host.canpt.nodes i) ≠ []

theorem Reached.idle {b : Board} (hb : Reached b) : AllIdle b.host := by
  obtain ⟨cores, canpt, run, hcores, hrun, rfl⟩ := hb
  have hstart : AllIdle (start cores canpt).host := hcores
  exact after_invariant (P := fun b : Board => AllIdle b.host)
    (fun _ _ hb ha => act_idle hb ha) hstart (along_of_forall_mem _ run hrun)

/-- A connect command announces every registered node, once and in the order of the table, if
and only if each transfer of the OUT pipe has completed when the next announcement is made. -/
theorem nodes_announced_iff {b : Board} (hb : Reached b) (hconnect : AtConnect b) (r : Readings) :
    (proceed b r).2.filterMap added = announcements b.host.canpt ↔
      Timely r ((b.host.cores b.host.attachedCoreNum).pipes androidDataOutPipe) 0
        (announcements b.host.canpt).length := by
  obtain ⟨d, houts, hcanpt, hconf, hpipes⟩ := receive_connect hconnect.waits r
  have hidle : AllIdle d := fun n => by
    rw [IdleCore, hpipes]
    exact hb.idle n
  have hiff := handleDeviceConnected_iff hidle hconf (hcanpt ▸ hconnect.distinct)
    (hcanpt ▸ hconnect.caps) r
  rw [hcanpt, hpipes] at hiff
  simp only [proceed, hconnect.pc, houts]
  exact hiff

section Samples

def twoNodes (i : Fin nodeMaxNum) : Node :=
  ⟨if i.val = 0 then 5 else if i.val = 1 then 6 else 0, fun k => if k.val = 0 then msgDevBtn else 0⟩

def connecting : List Action :=
  plugIn ++ .host (.registry twoNodes) :: callAt 0 ++ .host (.received [cmdConnect]) ::
    (callAt 0).take 2

theorem connecting_reached : Reached (after act bare connecting) := by
  refine ⟨_, _, connecting, fun n => ⟨by decide, rfl, rfl⟩, fun a ha => ?_, rfl⟩
  simp only [connecting, plugIn, callAt, List.replicate, List.take, List.cons_append,
    List.nil_append, List.mem_cons, List.not_mem_nil, or_false] at ha
  rcases ha with rfl | rfl | rfl | rfl | rfl | rfl | rfl | rfl | rfl <;>
    first | trivial | exact ⟨by decide, rfl, rfl⟩

theorem connecting_atConnect : AtConnect (after act bare connecting) :=
  ⟨by decide +kernel, by decide +kernel, (distinct_registered_iff _).mpr (by decide +kernel),
    by decide +kernel⟩

def inTime : Readings := ⟨0, .ok, fun _ => .ok, Equiv.refl _⟩

def tooLate : Readings := ⟨0, .ok, fun k => if k = 1 then .transferQueued else .ok, Equiv.refl _⟩

end Samples

theorem nodes_announced_two :
    (proceed (after act bare connecting) inTime).2.filterMap added =
      [announcement 5 [msgDevBtn], announcement 6 [msgDevBtn]] := by
  have hall := (nodes_announced_iff connecting_reached connecting_atConnect inTime).mpr
    ⟨by decide +kernel, fun _ _ _ => rfl⟩
  rw [hall]
  decide +kernel

theorem busy_pipe_drops_node :
    Reached (after act bare connecting) ∧ AtConnect (after act bare connecting) ∧
      (proceed (after act bare connecting) tooLate).2.filterMap added ≠
        announcements (after act bare connecting).host.canpt :=
  ⟨connecting_reached, connecting_atConnect, by decide +kernel⟩

end AoaBoard.Host.Announce
