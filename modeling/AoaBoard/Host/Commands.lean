import AoaBoard.Host.Task

/-!
# What commands to the device leave alone

`sendCommand` works on the OUT pipe of its core and leaves that pipe selected;
the IN pipes, the host states and the registry stay as they are, and no command
byte is switched on. The same holds of everything that only sends commands.
-/

namespace AoaBoard.Host
open Library Library.Run Can Usb

def inPipe (h : State) : Pipe := (h.cores h.attachedCoreNum).pipes androidDataInPipe

def command : Out → Option UInt8
  | .switched c => some c
  | _ => none

/-- `canpt_getNodeCaps` reports a capability of the node. -/
def hasCaps (c : Canpt) (id : UInt8) : Bool :=
  match canptGetNodeCaps c false id 12 with
  | (.ok, some caps) => caps ≠ []
  | _ => false

def announces (c : Canpt) : Bool :=
  match canptGetNodes c false 10 with
  | (.ok, some ids) => ids.any (hasCaps c)
  | _ => false

structure Quiet (h h' : State) : Prop where
  attached : h'.attachedCoreNum = h.attachedCoreNum
  hostState : ∀ n, (h'.cores n).hostState = (h.cores n).hostState
  pipe : ∀ n, (h'.cores n).pipes androidDataInPipe = (h.cores n).pipes androidDataInPipe

structure Sends (h : State) (r : State × List Out) : Prop where
  quiet : Quiet h r.1
  nodes : r.1.canpt.nodes = h.canpt.nodes
  silent : r.2.filterMap command = []

theorem Quiet.refl (h : State) : Quiet h h := ⟨rfl, fun _ => rfl, fun _ => rfl⟩

theorem Quiet.trans {h i j : State} (hi : Quiet h i) (hj : Quiet i j) : Quiet h j :=
  ⟨hj.attached.trans hi.attached, fun n => (hj.hostState n).trans (hi.hostState n),
    fun n => (hj.pipe n).trans (hi.pipe n)⟩

theorem Quiet.inPipe_eq {h h' : State} (hq : Quiet h h') : inPipe h' = inPipe h := by
  rw [inPipe, hq.attached, hq.pipe, inPipe]

theorem Quiet.configured {h h' : State} (hq : Quiet h h') :
    (h'.cores h'.attachedCoreNum).hostState = (h.cores h.attachedCoreNum).hostState := by
  rw [hq.attached, hq.hostState]

theorem setCore_quiet {h : State} {corenum : UInt8} {c : Core}
    (hstate : c.hostState = (h.cores corenum).hostState)
    (hpipe : c.pipes androidDataInPipe = (h.cores corenum).pipes androidDataInPipe) :
    Quiet h (setCore h corenum c) := by
  refine ⟨rfl, fun n => ?_, fun n => ?_⟩
  · by_cases hn : n = corenum
    · subst hn
      simpa [setCore] using hstate
    · simp [setCore, hn]
  · by_cases hn : n = corenum
    · subst hn
      simpa [setCore] using hpipe
    · simp [setCore, hn]

theorem Sends.trans {h : State} {r q : State × List Out} (hr : Sends h r) (hq : Sends r.1 q) :
    Sends h (q.1, r.2 ++ q.2) := by
  refine ⟨hr.quiet.trans hq.quiet, hq.nodes.trans hr.nodes, ?_⟩
  rw [List.filterMap_append, hr.silent, hq.silent]
  rfl

theorem Sends.refl (h : State) : Sends h (h, []) := ⟨.refl h, rfl, rfl⟩

theorem Sends.of_start {h i : State} {r : State × List Out} (hr : Sends i r)
    (hcores : i.cores = h.cores) (hattached : i.attachedCoreNum = h.attachedCoreNum)
    (hnodes : i.canpt.nodes = h.canpt.nodes) : Sends h r := by
  have hquiet : Quiet h i := ⟨hattached, fun n => by rw [hcores], fun n => by rw [hcores]⟩
  exact ⟨hquiet.trans hr.quiet, hr.nodes.trans hnodes, hr.silent⟩

theorem sends_run {ε : Type*} {step : State → ε → State × List Out}
    (hstep : ∀ h e, Sends h (step h e)) (h : State) (es : List ε) :
    Sends h (after step h es, outputs step h es) :=
  run_composes .refl (fun _ _ _ => .trans) hstep h es

theorem inPipe_ne_outPipe : androidDataInPipe ≠ androidDataOutPipe := by decide

theorem completeOUT_facts (c : Core) (done : HcdStatus) :
    (completeOUT c done).hostState = c.hostState ∧
      (completeOUT c done).pipeselected = c.pipeselected ∧
      (completeOUT c done).pipes androidDataInPipe = c.pipes androidDataInPipe := by
  simp only [completeOUT]
  split_ifs
  · exact ⟨rfl, rfl, by simp only [Function.update_of_ne inPipe_ne_outPipe]⟩
  · exact ⟨rfl, rfl, rfl⟩

theorem sendCommand_cases (h : State) (corenum cmd : UInt8) (data : List UInt8)
    (done : HcdStatus) :
    sendCommand h corenum cmd data done = (h, []) ∧ (h.cores corenum).hostState ≠ .configured ∨
    ∃ c outs, sendCommand h corenum cmd data done = (setCore h corenum c, outs) ∧
      c.hostState = (h.cores corenum).hostState ∧ c.pipeselected = androidDataOutPipe ∧
      c.pipes androidDataInPipe = (h.cores corenum).pipes androidDataInPipe ∧
      outs.filterMap command = [] := by
  simp only [sendCommand]
  obtain ⟨hstate, hsel, hpipe⟩ :=
    completeOUT_facts (pipeSelectPipe (h.cores corenum) androidDataOutPipe) done
  generalize completeOUT (pipeSelectPipe (h.cores corenum) androidDataOutPipe) done = c at *
  have hin : androidDataInPipe ≠ c.pipeselected := hsel ▸ inPipe_ne_outPipe
  split_ifs with hconf hallowed
  · exact Or.inl ⟨rfl, hconf⟩
  · have hwritten := ((pipeWrite8_only c cmd).trans (pipeWriteStreamLE_only _ data)).trans
      (pipeClearOUT_only _)
    exact Or.inr ⟨_, _, rfl, hwritten.hostState.trans hstate, hwritten.pipeselected.trans hsel,
      (hwritten.pipes _ hin).trans hpipe, rfl⟩
  · exact Or.inr ⟨c, [], rfl, hstate, hsel, hpipe, rfl⟩

theorem sendCommand_sends (h : State) (corenum cmd : UInt8) (data : List UInt8)
    (done : HcdStatus) : Sends h (sendCommand h corenum cmd data done) := by
  rcases sendCommand_cases h corenum cmd data done with
    ⟨heq, -⟩ | ⟨c, outs, heq, hstate, -, hpipe, hsilent⟩
  · rw [heq]
    exact .refl h
  · rw [heq]
    exact ⟨setCore_quiet hstate hpipe, rfl, hsilent⟩

theorem sendCommand_selects {h : State} {corenum : UInt8}
    (hconf : (h.cores corenum).hostState = .configured) (cmd : UInt8) (data : List UInt8)
    (done : HcdStatus) :
    ((sendCommand h corenum cmd data done).1.cores corenum).pipeselected = androidDataOutPipe := by
  rcases sendCommand_cases h corenum cmd data done with ⟨-, hne⟩ | ⟨c, outs, heq, -, hsel, -⟩
  · exact absurd hconf hne
  · rw [heq]
    simpa [setCore] using hsel

theorem startSubscription_nodes (reqId : UInt8) (c : Canpt) (cap : UInt8) :
    (startSubscription reqId c cap).nodes = c.nodes := by
  simp only [startSubscription, canptGetTemperature, canptGetLight, canptGetButton]
  split_ifs <;> simp only [canptSubscribe_nodes, canptGetValue_nodes]

theorem startSubscriptions_nodes (reqId : UInt8) (c : Canpt) (caps : List UInt8) :
    (caps.foldl (startSubscription reqId) c).nodes = c.nodes := by
  induction caps generalizing c with
  | nil => rfl
  | cons cap caps ih => rw [List.foldl_cons, ih, startSubscription_nodes]

theorem handleNodeAttached_of_caps {h : State} {reqId : UInt8}
    (hcaps : hasCaps h.canpt reqId = true) (corenum : UInt8) (done : HcdStatus) : ∃ caps,
      canptGetNodeCaps h.canpt false reqId 12 = (.ok, some caps) ∧
      handleNodeAttached h corenum reqId done =
        sendNodeAttached { h with canpt := caps.foldl (startSubscription reqId) h.canpt } corenum
          reqId caps done := by
  simp only [hasCaps] at hcaps
  split at hcaps
  · rename_i caps hget
    have hlen : 0 < caps.length ∧ caps.length ≤ 12 :=
      ⟨List.length_pos_iff.mpr (by simpa using hcaps), canptGetNodeCaps_length hget⟩
    exact ⟨caps, hget, by simp only [handleNodeAttached, hget, if_pos hlen]⟩
  · simp at hcaps

theorem handleNodeAttached_of_none {h : State} {reqId : UInt8}
    (hcaps : hasCaps h.canpt reqId = false) (corenum : UInt8) (done : HcdStatus) :
    handleNodeAttached h corenum reqId done = (h, []) := by
  simp only [hasCaps] at hcaps
  simp only [handleNodeAttached]
  generalize canptGetNodeCaps h.canpt false reqId 12 = res at hcaps ⊢
  obtain ⟨err, caps⟩ := res
  cases caps with
  | none => cases err <;> rfl
  | some caps =>
    cases err with
    | ok =>
      have hnil : caps = [] := by simpa using hcaps
      subst hnil
      rfl
    | _ => rfl

theorem handleNodeAttached_sends (h : State) (corenum reqId : UInt8) (done : HcdStatus) :
    Sends h (handleNodeAttached h corenum reqId done) := by
  cases hcaps : hasCaps h.canpt reqId with
  | false =>
    rw [handleNodeAttached_of_none hcaps]
    exact .refl h
  | true =>
    obtain ⟨caps, -, heq⟩ := handleNodeAttached_of_caps hcaps corenum done
    rw [heq, sendNodeAttached]
    exact (sendCommand_sends _ corenum _ _ done).of_start rfl rfl
      (startSubscriptions_nodes reqId h.canpt caps)

theorem handleNodeAttached_selects {h : State} {corenum : UInt8}
    (hconf : (h.cores corenum).hostState = .configured) {reqId : UInt8}
    (hor : hasCaps h.canpt reqId = true ∨ (h.cores corenum).pipeselected = androidDataOutPipe)
    (done : HcdStatus) :
    ((handleNodeAttached h corenum reqId done).1.cores corenum).pipeselected =
      androidDataOutPipe := by
  cases hcaps : hasCaps h.canpt reqId with
  | false =>
    rw [handleNodeAttached_of_none hcaps]
    exact hor.resolve_left (by simp [hcaps])
  | true =>
    obtain ⟨caps, -, heq⟩ := handleNodeAttached_of_caps hcaps corenum done
    rw [heq, sendNodeAttached]
    apply sendCommand_selects
    exact hconf

theorem hasCaps_congr {c c' : Canpt} (h : c'.nodes = c.nodes) (id : UInt8) :
    hasCaps c' id = hasCaps c id := by
  simp only [hasCaps, canptGetNodeCaps_congr h]

theorem announces_congr {c c' : Canpt} (h : c'.nodes = c.nodes) : announces c' = announces c := by
  have hcaps : hasCaps c' = hasCaps c := funext (hasCaps_congr h)
  simp only [announces, canptGetNodes_congr h, hcaps]

section Connect
variable (corenum : UInt8) (r : Readings)

theorem announceNode_sends (h : State) (n : UInt8 × ℕ) : Sends h (announceNode corenum r h n) :=
  handleNodeAttached_sends h corenum n.1 (r.nodeDone n.2)

theorem announceNodes_selects {h : State} (hconf : (h.cores corenum).hostState = .configured)
    {ns : List (UInt8 × ℕ)}
    (hor : (∃ n ∈ ns, hasCaps h.canpt n.1 = true) ∨
      (h.cores corenum).pipeselected = androidDataOutPipe) :
    ((after (announceNode corenum r) h ns).cores corenum).pipeselected = androidDataOutPipe := by
  induction ns generalizing h with
  | nil => exact hor.resolve_left (by simp)
  | cons n ns ih =>
    have hsends := announceNode_sends corenum r h n
    apply ih ((hsends.quiet.hostState corenum).trans hconf)
    rcases hor with ⟨m, hm, hcaps⟩ | hsel
    · rcases List.mem_cons.mp hm with rfl | hm
      · exact Or.inr (handleNodeAttached_selects hconf (Or.inl hcaps) _)
      · exact Or.inl ⟨m, hm, (hasCaps_congr hsends.nodes m.1).trans hcaps⟩
    · exact Or.inr (handleNodeAttached_selects hconf (Or.inr hsel) _)

theorem announceNodes_none {h : State} {ns : List (UInt8 × ℕ)}
    (hnone : ∀ n ∈ ns, hasCaps h.canpt n.1 = false) :
    after (announceNode corenum r) h ns = h := by
  induction ns with
  | nil => rfl
  | cons n ns ih =>
    have hfirst : announceNode corenum r h n = (h, []) :=
      handleNodeAttached_of_none (hnone n List.mem_cons_self) corenum (r.nodeDone n.2)
    rw [after_cons, hfirst]
    exact ih fun m hm => hnone m (List.mem_cons_of_mem n hm)

theorem handleDeviceConnected_sends (h : State) : Sends h (handleDeviceConnected h corenum r) := by
  obtain ⟨ids, hids⟩ := canptGetNodes_ok h.canpt (show (10 : UInt8) ≠ 0 by decide)
  simp only [handleDeviceConnected, hids]
  split_ifs
  · exact sends_run (announceNode_sends corenum r) h _
  · exact .refl h

theorem handleDeviceConnected_selects {h : State}
    (hconf : (h.cores corenum).hostState = .configured) :
    ((handleDeviceConnected h corenum r).1.cores corenum).pipeselected =
      if announces h.canpt then androidDataOutPipe else (h.cores corenum).pipeselected := by
  obtain ⟨ids, hids⟩ := canptGetNodes_ok h.canpt (show (10 : UInt8) ≠ 0 by decide)
  have hann : announces h.canpt = ids.any (hasCaps h.canpt) := by simp only [announces, hids]
  simp only [handleDeviceConnected, hids]
  rw [hann]
  cases hany : ids.any (hasCaps h.canpt) with
  | true =>
    obtain ⟨id, hid, hcaps⟩ := List.any_eq_true.mp hany
    obtain ⟨k, hk⟩ := List.mem_iff_getElem?.mp hid
    rw [if_pos (List.length_pos_of_mem hid), if_pos rfl]
    exact announceNodes_selects corenum r hconf
      (Or.inl ⟨(id, k), List.mk_mem_zipIdx_iff_getElem?.mpr hk, hcaps⟩)
  | false =>
    have hnone : ∀ n ∈ ids.zipIdx, hasCaps h.canpt n.1 = false := fun n hn => by
      simpa using List.any_eq_false.mp hany n.1 (List.fst_mem_of_mem_zipIdx hn)
    rw [announceNodes_none corenum r hnone, if_neg Bool.false_ne_true]
    split_ifs <;> rfl

end Connect

theorem cancelSubscription_sends (h : State) (i : Fin maxNumSubscriptions) :
    Sends h (cancelSubscription h i) := by
  simp only [cancelSubscription]
  split
  · exact ⟨⟨rfl, fun _ => rfl, fun _ => rfl⟩, rfl, rfl⟩
  · exact .refl h

theorem handleDeviceDisconnected_sends (h : State) : Sends h (handleDeviceDisconnected h) := by
  simp only [handleDeviceDisconnected]
  exact sends_run cancelSubscription_sends h _

theorem monitorTask_sends (h : State) (r : Readings) : Sends h (monitorTask h r) := by
  have hdelayed : Sends h (if 0 < h.scheduleDisconnect ∧ h.scheduleDisconnect < r.msTicks then
      handleDeviceDisconnected { h with scheduleDisconnect := 0 } else (h, [])) := by
    split_ifs
    · exact (handleDeviceDisconnected_sends { h with scheduleDisconnect := 0 }).of_start rfl rfl rfl
    · exact .refl h
  simp only [monitorTask]
  generalize (if 0 < h.scheduleDisconnect ∧ h.scheduleDisconnect < r.msTicks then
      handleDeviceDisconnected { h with scheduleDisconnect := 0 } else (h, [])) = d at hdelayed
  split_ifs
  · exact hdelayed
  · have hs := sendCommand_sends { d.1 with doDisconnect := false } d.1.attachedCoreNum
      cmdDisconnect [] r.monitorDone
    generalize sendCommand { d.1 with doDisconnect := false } d.1.attachedCoreNum cmdDisconnect []
      r.monitorDone = s at hs ⊢
    have hstart : Sends d.1 s := hs.of_start rfl rfl rfl
    have hclosed : Sends d.1 ({ s.1 with connected := false }, s.2) :=
      ⟨hstart.quiet.trans ⟨rfl, fun _ => rfl, fun _ => rfl⟩, hstart.nodes, hstart.silent⟩
    exact hdelayed.trans hclosed
  · exact hdelayed

theorem nodeAttached_sends (h : State) (reqId : UInt8) (done : HcdStatus) :
    Sends h (nodeAttached h reqId done) := by
  simp only [nodeAttached]
  split_ifs
  · exact handleNodeAttached_sends h h.attachedCoreNum reqId done
  · exact .refl h

theorem nodeDetached_sends (h : State) (reqId : UInt8) (done : HcdStatus) :
    Sends h (nodeDetached h reqId done) := by
  simp only [nodeDetached, handleNodeDetached, sendNodeDetached]
  split_ifs
  · exact (sendCommand_sends _ h.attachedCoreNum cmdNodeRemove [reqId] done).of_start rfl rfl rfl
  · exact .refl h

theorem valueUpdate_sends (h : State) (reqId periphId : UInt8) (buf : ℕ → UInt8) (len : UInt8)
    (done : HcdStatus) : Sends h (valueUpdate h reqId periphId buf len done) := by
  simp only [valueUpdate]
  split_ifs
  · exact sendCommand_sends h _ _ _ done
  · exact sendCommand_sends h _ _ _ done
  · exact .refl h

theorem subStarted_sends (h : State) (reqId subId : UInt8) :
    Sends h (subStarted h reqId subId, []) := by
  simp only [subStarted]
  split
  · exact ⟨⟨rfl, fun _ => rfl, fun _ => rfl⟩, rfl, rfl⟩
  · exact .refl h

def Background : Event → Prop
  | .received _ | .deviceAttached _ | .task _ => False
  | _ => True

theorem background_quiet (h : State) {e : Event} (he : Background e) :
    Quiet h (step h e).1 ∧ (step h e).2.filterMap command = [] := by
  cases e with
  | received packet => exact he.elim
  | sent done =>
    obtain ⟨hstate, -, hpipe⟩ := completeOUT_facts (h.cores h.attachedCoreNum) done
    exact ⟨setCore_quiet hstate hpipe, rfl⟩
  | registry nodes => exact ⟨⟨rfl, fun _ => rfl, fun _ => rfl⟩, rfl⟩
  | nodeAttached reqId done =>
    exact ⟨(nodeAttached_sends h reqId done).quiet, (nodeAttached_sends h reqId done).silent⟩
  | nodeDetached reqId done =>
    exact ⟨(nodeDetached_sends h reqId done).quiet, (nodeDetached_sends h reqId done).silent⟩
  | valueUpdate reqId periphId buf len done =>
    have hs := valueUpdate_sends h reqId periphId buf len done
    exact ⟨hs.quiet, hs.silent⟩
  | subStarted reqId subId => exact ⟨(subStarted_sends h reqId subId).quiet, rfl⟩
  | deviceAttached corenum => exact he.elim
  | deviceUnattached msTicks => exact ⟨⟨rfl, fun _ => rfl, fun _ => rfl⟩, rfl⟩
  | task r => exact he.elim

end AoaBoard.Host
