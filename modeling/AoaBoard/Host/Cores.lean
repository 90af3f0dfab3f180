import AoaBoard.Host.Commands

/-!
# The core numbers that the host indexes with

Next to each function of the host stands the list of the core numbers with which
it indexes the arrays of the USB library, under the same tests and in the same
states. Every function of the pipes indexes `PipeInfo` and `pipeselected` with
its own core number. Between two events the USB library may change the cores in
any way.
-/

namespace AoaBoard.Host.Cores
open Library Library.Run Can Usb

/-- `MAX_USB_CORE` of this microcontroller. -/
def maxUsbCore : ℕ := 1

inductive CoreArray
  | usbHostState
  | pipeselected
  | pipeInfo
  deriving DecidableEq

structure Index where
  array : CoreArray
  corenum : UInt8
  deriving DecidableEq

def InBounds (i : Index) : Prop := i.corenum.toNat < maxUsbCore

instance decidableInBounds (i : Index) : Decidable (InBounds i) := Nat.decLt _ _

def ofSelected (corenum : UInt8) : List Index :=
  [⟨.pipeselected, corenum⟩, ⟨.pipeInfo, corenum⟩]

def ofCalls (n : ℕ) (corenum : UInt8) : List Index :=
  (List.replicate n (ofSelected corenum)).flatten

def sendCommand (h : State) (corenum : UInt8) (data : List UInt8) (done : HcdStatus) :
    List Index :=
  ⟨.usbHostState, corenum⟩ ::
    if (h.cores corenum).hostState ≠ .configured then []
    else
      let c := completeOUT (pipeSelectPipe (h.cores corenum) androidDataOutPipe) done
      ⟨.pipeselected, corenum⟩ :: ofSelected corenum ++
        -- `Pipe_Write_8`, `Pipe_Write_Stream_LE` and `Pipe_ClearOUT`
        if pipeIsReadWriteAllowed c then ofCalls (1 + data.length + 1) corenum else []

def handleNodeAttached (h : State) (corenum reqId : UInt8) (done : HcdStatus) : List Index :=
  match canptGetNodeCaps h.canpt false reqId 12 with
  | (.ok, some caps) =>
    if 0 < caps.length ∧ caps.length ≤ 12 then
      sendCommand { h with canpt := caps.foldl (startSubscription reqId) h.canpt } corenum
        (reqId :: UInt8.ofNat (caps.take 12).length :: caps.take 12) done
    else []
  | _ => []

def handleNodeDetached (h : State) (corenum reqId : UInt8) (done : HcdStatus) : List Index :=
  sendCommand h corenum [reqId] done

def nodeAttached (h : State) (reqId : UInt8) (done : HcdStatus) : List Index :=
  if h.connected then handleNodeAttached h h.attachedCoreNum reqId done else []

def nodeDetached (h : State) (reqId : UInt8) (done : HcdStatus) : List Index :=
  if h.connected then handleNodeDetached h h.attachedCoreNum reqId done else []

def valueUpdate (h : State) (reqId periphId : UInt8) (buf : ℕ → UInt8) (len : UInt8)
    (done : HcdStatus) : List Index :=
  if h.connected then
    sendCommand h h.attachedCoreNum
      (if len < 2 then [reqId, periphId, 0, buf 0] else [reqId, periphId, buf 0, buf 1]) done
  else []

def announceNode (corenum : UInt8) (r : Readings) (h : State) (n : UInt8 × ℕ) :
    State × List Index :=
  ((Host.announceNode corenum r h n).1, handleNodeAttached h corenum n.1 (r.nodeDone n.2))

def handleDeviceConnected (h : State) (corenum : UInt8) (r : Readings) : List Index :=
  match canptGetNodes h.canpt false 10 with
  | (.ok, some nodeIds) =>
    if 0 < nodeIds.length then outputs (announceNode corenum r) h nodeIds.zipIdx else []
  | _ => []

def monitorTask (h : State) (r : Readings) : List Index :=
  let d :=
    if 0 < h.scheduleDisconnect ∧ h.scheduleDisconnect < r.msTicks then
      handleDeviceDisconnected { h with scheduleDisconnect := 0 }
    else (h, [])
  if d.1.connected = false then []
  else if d.1.doDisconnect then
    sendCommand { d.1 with doDisconnect := false } d.1.attachedCoreNum [] r.monitorDone
  else []

def handleCommand (h : State) (corenum c numBytes : UInt8) (r : Readings) : List Index :=
  if c = cmdSetValue then if numBytes = 4 then ofCalls 4 corenum else []
  else if c = cmdConnect then handleDeviceConnected { h with connected := true } corenum r
  else if c = cmdDisconnect then []
  else ofCalls numBytes.toNat corenum

def handlePacket (h : State) (corenum : UInt8) (r : Readings) : List Index :=
  ofSelected corenum ++
    if pipeIsReadWriteAllowed (h.cores corenum) then
      let numBytes := (pipeBytesInPipe (h.cores corenum)).toUInt8
      ofSelected corenum ++
        if 0 < numBytes then
          let read := pipeRead8 (h.cores corenum)
          ofSelected corenum ++
            handleCommand (setCore h corenum read.1) corenum read.2 (numBytes - 1) r
        else []
    else []

def receivePacket (h : State) (corenum : UInt8) (r : Readings) : List Index :=
  let i := pipeIsINReceived (pipeSelectPipe (h.cores corenum) androidDataInPipe)
  ⟨.pipeselected, corenum⟩ :: ofSelected corenum ++
    if i.2 then handlePacket (setCore h corenum i.1) corenum r ++ ofSelected corenum else []

def androidHostTask (h : State) (r : Readings) : List Index :=
  let m := Host.monitorTask h r
  let corenum := m.1.attachedCoreNum
  monitorTask h r ++
    if (corenum.toNat : ℤ) = -1 then []
    else
      ⟨.usbHostState, corenum⟩ ::
        if (m.1.cores corenum).hostState ≠ .configured then []
        else receivePacket m.1 corenum r

/-- The library's own handling of transfers is not among the functions of the host. -/
def uses (h : State) : Event → List Index
  | .nodeAttached reqId done => nodeAttached h reqId done
  | .nodeDetached reqId done => nodeDetached h reqId done
  | .valueUpdate reqId periphId buf len done => valueUpdate h reqId periphId buf len done
  | .task r => androidHostTask h r
  | .received _ | .sent _ | .registry _ | .subStarted _ _ | .deviceAttached _
  | .deviceUnattached _ => []

inductive Activity
  | init
  | event (e : Event)
  | library (cores : UInt8 → Core)

def activity (h : State) : Activity → State × List Index
  | .init => (androidHostInit h, [])
  | .event e => ((step h e).1, uses h e)
  | .library cores => ({ h with cores := cores }, [])

/-- A device is attached before the first call of the task. -/
def AttachedFirst (es : List Activity) : Prop :=
  ∀ pre r post, es = pre ++ .event (.task r) :: post →
    ∃ corenum, .event (.deviceAttached corenum) ∈ pre

/-- The core numbers of attached devices exist. -/
def CoresExist (es : List Activity) : Prop :=
  ∀ corenum, .event (.deviceAttached corenum) ∈ es → corenum.toNat < maxUsbCore

section Own
variable (corenum : UInt8)

def Own (is : List Index) : Prop := ∀ i ∈ is, i.corenum = corenum

variable {corenum}

theorem own_nil : Own corenum [] := fun _ h => absurd h List.not_mem_nil

theorem Own.append {is js : List Index} (hi : Own corenum is) (hj : Own corenum js) :
    Own corenum (is ++ js) := List.forall_mem_append.mpr ⟨hi, hj⟩

theorem Own.cons {is : List Index} (a : CoreArray) (hi : Own corenum is) :
    Own corenum (⟨a, corenum⟩ :: is) := List.forall_mem_cons.mpr ⟨rfl, hi⟩

theorem ofSelected_own : Own corenum (ofSelected corenum) := (own_nil.cons _).cons _

theorem ofCalls_own (n : ℕ) : Own corenum (ofCalls n corenum) := by
  induction n with
  | zero => exact own_nil
  | succ n ih =>
    rw [ofCalls, List.replicate_succ, List.flatten_cons]
    exact ofSelected_own.append ih

theorem sendCommand_own (h : State) (data : List UInt8) (done : HcdStatus) :
    Own corenum (sendCommand h corenum data done) := by
  rw [sendCommand]
  refine .cons _ ?_
  split_ifs
  · exact own_nil
  · refine .append (.cons _ ofSelected_own) ?_
    split_ifs
    · exact ofCalls_own _
    · exact own_nil

theorem handleNodeAttached_own (h : State) (reqId : UInt8) (done : HcdStatus) :
    Own corenum (handleNodeAttached h corenum reqId done) := by
  unfold handleNodeAttached
  split
  · split_ifs
    · exact sendCommand_own _ _ _
    · exact own_nil
  · exact own_nil

theorem handleDeviceConnected_own (h : State) (r : Readings) :
    Own corenum (handleDeviceConnected h corenum r) := by
  unfold handleDeviceConnected
  split
  · split_ifs
    · have hround (g : State) (n : UInt8 × ℕ) : Own corenum (announceNode corenum r g n).2 :=
        handleNodeAttached_own g n.1 (r.nodeDone n.2)
      exact outputs_forall hround h _
    · exact own_nil
  · exact own_nil

theorem handleCommand_own (h : State) (c numBytes : UInt8) (r : Readings) :
    Own corenum (handleCommand h corenum c numBytes r) := by
  rw [handleCommand]
  split_ifs
  · exact ofCalls_own 4
  · exact own_nil
  · exact handleDeviceConnected_own _ r
  · exact own_nil
  · exact ofCalls_own _

theorem handlePacket_own (h : State) (r : Readings) : Own corenum (handlePacket h corenum r) := by
  rw [handlePacket]
  refine ofSelected_own.append ?_
  split_ifs
  · refine ofSelected_own.append ?_
    split_ifs
    · exact ofSelected_own.append (handleCommand_own _ _ _ r)
    · exact own_nil
  · exact own_nil

theorem receivePacket_own (h : State) (r : Readings) :
    Own corenum (receivePacket h corenum r) := by
  rw [receivePacket]
  refine .append (.cons _ ofSelected_own) ?_
  split_ifs
  · exact (handlePacket_own _ r).append ofSelected_own
  · exact own_nil

end Own

theorem monitorTask_attached (h : State) (r : Readings) :
    (Host.monitorTask h r).1.attachedCoreNum = h.attachedCoreNum :=
  (monitorTask_sends h r).quiet.attached

theorem monitorTask_own (h : State) (r : Readings) : Own h.attachedCoreNum (monitorTask h r) := by
  have hattached : (if 0 < h.scheduleDisconnect ∧ h.scheduleDisconnect < r.msTicks then
      handleDeviceDisconnected { h with scheduleDisconnect := 0 }
      else (h, [])).1.attachedCoreNum = h.attachedCoreNum := by
    split_ifs
    · exact (handleDeviceDisconnected_sends { h with scheduleDisconnect := 0 }).quiet.attached
    · rfl
  rw [monitorTask]
  simp only [hattached]
  split_ifs
  · exact own_nil
  · exact sendCommand_own _ _ _
  · exact own_nil
  · exact own_nil
  · exact sendCommand_own _ _ _
  · exact own_nil

theorem androidHostTask_own (h : State) (r : Readings) :
    Own h.attachedCoreNum (androidHostTask h r) := by
  have hnum : ¬ (h.attachedCoreNum.toNat : ℤ) = -1 := by omega
  rw [androidHostTask]
  simp only [monitorTask_attached, if_neg hnum]
  refine (monitorTask_own h r).append ?_
  split_ifs
  · exact own_nil.cons _
  · exact (receivePacket_own _ r).cons _

/-- The comparison with `-1` never stops the task. -/
theorem androidHostTask_uses (h : State) (r : Readings) :
    ⟨.usbHostState, h.attachedCoreNum⟩ ∈ androidHostTask h r := by
  have hnum : ¬ (h.attachedCoreNum.toNat : ℤ) = -1 := by omega
  rw [androidHostTask]
  simp only [monitorTask_attached, if_neg hnum]
  exact List.mem_append_right _ List.mem_cons_self

theorem uses_own (h : State) (e : Event) : Own h.attachedCoreNum (uses h e) := by
  cases e with
  | nodeAttached reqId done =>
    rw [uses, nodeAttached]
    split_ifs
    · exact handleNodeAttached_own h reqId done
    · exact own_nil
  | nodeDetached reqId done =>
    rw [uses, nodeDetached]
    split_ifs
    · exact sendCommand_own h _ done
    · exact own_nil
  | valueUpdate reqId periphId buf len done =>
    rw [uses, valueUpdate]
    split_ifs
    · exact sendCommand_own h _ done
    · exact sendCommand_own h _ done
    · exact own_nil
  | task r => exact androidHostTask_own h r
  | _ => exact own_nil

theorem uses_idle {h : State} (hidle : h.connected = false) {e : Event}
    (htask : ∀ r, e ≠ .task r) : uses h e = [] := by
  cases e with
  | task r => exact absurd rfl (htask r)
  | nodeAttached reqId done => rw [uses, nodeAttached, hidle, if_neg Bool.false_ne_true]
  | nodeDetached reqId done => rw [uses, nodeDetached, hidle, if_neg Bool.false_ne_true]
  | valueUpdate reqId periphId buf len done =>
    rw [uses, valueUpdate, hidle, if_neg Bool.false_ne_true]
  | _ => rfl

theorem handleCommand_attached (h : State) (corenum c numBytes : UInt8) (r : Readings) :
    (Host.handleCommand h corenum c numBytes r).1.attachedCoreNum = h.attachedCoreNum := by
  rw [Host.handleCommand]
  split_ifs
  · rfl
  · rfl
  · exact (handleDeviceConnected_sends corenum r { h with connected := true }).quiet.attached
  · rfl
  · rfl

theorem receivePacket_attached (h : State) (corenum : UInt8) (r : Readings) :
    (Host.receivePacket h corenum r).1.attachedCoreNum = h.attachedCoreNum := by
  simp only [Host.receivePacket, Host.handlePacket]
  split_ifs
  · exact handleCommand_attached _ _ _ _ r
  · rfl
  · rfl
  · rfl

theorem androidHostTask_attached (h : State) (r : Readings) :
    (Host.androidHostTask h r).1.attachedCoreNum = h.attachedCoreNum := by
  have hnum : ¬ ((Host.monitorTask h r).1.attachedCoreNum.toNat : ℤ) = -1 := by omega
  simp only [Host.androidHostTask, if_neg hnum]
  split_ifs
  · exact monitorTask_attached h r
  · exact (receivePacket_attached _ _ r).trans (monitorTask_attached h r)

theorem step_attached (h : State) {e : Event} (he : ∀ corenum, e ≠ .deviceAttached corenum) :
    (step h e).1.attachedCoreNum = h.attachedCoreNum := by
  cases e with
  | deviceAttached corenum => exact absurd rfl (he corenum)
  | received packet => rfl
  | task r => exact androidHostTask_attached h r
  | _ =>
    refine (background_quiet h ?_).1.attached
    trivial

theorem step_idle {h : State} (hidle : h.connected = false) {e : Event}
    (htask : ∀ r, e ≠ .task r) : (step h e).1.connected = false := by
  cases e with
  | task r => exact absurd rfl (htask r)
  | nodeAttached reqId done =>
    rw [step, Host.nodeAttached, hidle, if_neg Bool.false_ne_true]
    exact hidle
  | nodeDetached reqId done =>
    rw [step, Host.nodeDetached, hidle, if_neg Bool.false_ne_true]
    exact hidle
  | valueUpdate reqId periphId buf len done =>
    rw [step, Host.valueUpdate, hidle, if_neg Bool.false_ne_true]
    exact hidle
  | subStarted reqId subId =>
    rw [step, subStarted]
    split <;> exact hidle
  | deviceUnattached msTicks => rfl
  | _ => exact hidle

section Runs
variable {h : State} {es : List Activity}

theorem outputs_of_attached (hes : CoresExist es) (hnum : h.attachedCoreNum.toNat < maxUsbCore) :
    ∀ i ∈ outputs activity h es, InBounds i := by
  induction es generalizing h with
  | nil => exact fun i hi => absurd hi List.not_mem_nil
  | cons a es ih =>
    have hrest : CoresExist es := fun corenum hc => hes corenum (List.mem_cons_of_mem a hc)
    rw [outputs_cons, List.forall_mem_append]
    cases a with
    | init => exact ⟨fun i hi => absurd hi List.not_mem_nil, ih hrest hnum⟩
    | library cores => exact ⟨fun i hi => absurd hi List.not_mem_nil, ih hrest hnum⟩
    | event e =>
      refine ⟨fun i hi => ?_, ih hrest ?_⟩
      · rw [InBounds, uses_own h e i hi]
        exact hnum
      · by_cases he : ∃ corenum, e = .deviceAttached corenum
        · obtain ⟨corenum, rfl⟩ := he
          exact hes corenum List.mem_cons_self
        · rw [activity, step_attached h (not_exists.mp he)]
          exact hnum

theorem attachedFirst_cons {a : Activity} (htask : ∀ r, a ≠ .event (.task r))
    (hattach : ∀ corenum, a ≠ .event (.deviceAttached corenum)) :
    AttachedFirst (a :: es) ↔ AttachedFirst es := by
  constructor
  · rintro h pre r post rfl
    obtain ⟨corenum, hmem⟩ := h (a :: pre) r post rfl
    refine ⟨corenum, (List.mem_cons.mp hmem).resolve_left fun heq => hattach corenum heq.symm⟩
  · intro h pre r post heq
    cases pre with
    | nil => exact absurd (List.cons.inj heq).1 (htask r)
    | cons b pre =>
      obtain ⟨corenum, hmem⟩ := h pre r post (List.cons.inj heq).2
      exact ⟨corenum, List.mem_cons_of_mem b hmem⟩

theorem attachedFirst_of_attach (corenum : UInt8) :
    AttachedFirst (.event (.deviceAttached corenum) :: es) := by
  intro pre r post heq
  cases pre with
  | nil => exact absurd (List.cons.inj heq).1 (by simp)
  | cons b pre => exact ⟨corenum, (List.cons.inj heq).1 ▸ List.mem_cons_self⟩

theorem outputs_of_unattached (hes : CoresExist es) (hidle : h.connected = false)
    (hnum : h.attachedCoreNum = 255) :
    (∀ i ∈ outputs activity h es, InBounds i) ↔ AttachedFirst es := by
  induction es generalizing h with
  | nil =>
    refine iff_of_true (fun i hi => absurd hi List.not_mem_nil) fun pre r post heq => ?_
    exact absurd heq.symm (by simp)
  | cons a es ih =>
    have hrest : CoresExist es := fun corenum hc => hes corenum (List.mem_cons_of_mem a hc)
    rw [outputs_cons, List.forall_mem_append]
    cases a with
    | init =>
      rw [attachedFirst_cons (by simp) (by simp), ← ih (h := androidHostInit h) hrest hidle hnum]
      exact and_iff_right fun i hi => absurd hi List.not_mem_nil
    | library cores =>
      rw [attachedFirst_cons (by simp) (by simp),
        ← ih (h := { h with cores := cores }) hrest hidle hnum]
      exact and_iff_right fun i hi => absurd hi List.not_mem_nil
    | event e =>
      by_cases htask : ∃ r, e = .task r
      · obtain ⟨r, rfl⟩ := htask
        refine iff_of_false (fun hall => ?_) fun hfirst => ?_
        · have hused := hall.1 _ (androidHostTask_uses h r)
          rw [InBounds, hnum] at hused
          exact absurd hused (by decide)
        · obtain ⟨corenum, hmem⟩ := hfirst [] r es rfl
          exact absurd hmem List.not_mem_nil
      · have hquiet := uses_idle hidle (not_exists.mp htask)
        have hnone : ∀ i ∈ (activity h (.event e)).2, InBounds i := by
          rw [activity, hquiet]
          exact fun i hi => absurd hi List.not_mem_nil
        rw [and_iff_right hnone]
        by_cases hattach : ∃ corenum, e = .deviceAttached corenum
        · obtain ⟨corenum, rfl⟩ := hattach
          exact iff_of_true (outputs_of_attached hrest (hes corenum List.mem_cons_self))
            (attachedFirst_of_attach corenum)
        · rw [attachedFirst_cons (by simpa using htask) (by simpa using hattach)]
          refine ih hrest (step_idle hidle (not_exists.mp htask)) ?_
          rw [activity, step_attached h (not_exists.mp hattach)]
          exact hnum

end Runs

/-- From power-up on, the core numbers that the host indexes with exist, in every run, if and
only if a device is attached before the first call of the task. -/
theorem cores_in_bounds_iff (cores : UInt8 → Core) (canpt : Canpt) {es : List Activity}
    (hes : CoresExist es) :
    (∀ i ∈ outputs activity (powerUp cores canpt) es, InBounds i) ↔ AttachedFirst es :=
  outputs_of_unattached hes rfl rfl

def noDevice (_ : UInt8) : Core := ⟨.unattached, 0, fun _ => configuredPipe (fun _ => 0) 0⟩

def noNodes : Canpt := ⟨fun _ => ⟨0, fun _ => 0⟩, Queue.blank⟩

def taskCall : Activity := .event (.task ⟨0, .ok, fun _ => .ok, Equiv.refl _⟩)

def attachedRun : List Activity := [.init, .event (.deviceAttached 0), taskCall]

theorem cores_in_bounds_attached :
    AttachedFirst attachedRun ∧
      ∀ i ∈ outputs activity (powerUp noDevice noNodes) attachedRun, InBounds i := by
  have hfirst : AttachedFirst attachedRun :=
    (attachedFirst_cons (by simp) (by simp)).mpr (attachedFirst_of_attach 0)
  have hes : CoresExist attachedRun := by
    intro corenum hmem
    have hzero : corenum = 0 := by simpa [attachedRun, taskCall] using hmem
    rw [hzero]
    decide
  exact ⟨hfirst, (cores_in_bounds_iff noDevice noNodes hes).mpr hfirst⟩

theorem task_indexes_with_minus_one :
    outputs activity (powerUp noDevice noNodes) [.init, taskCall] = [⟨.usbHostState, 255⟩] ∧
      ¬ InBounds ⟨.usbHostState, 255⟩ := by
  decide +kernel

end AoaBoard.Host.Cores
