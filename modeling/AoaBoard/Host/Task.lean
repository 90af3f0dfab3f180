import AoaBoard.Library.Run
import AoaBoard.Can.Nodes
import AoaBoard.Usb.Pipe
import Mathlib.Logic.Equiv.Defs

/-!
# The accessory host

`androidHost_task` reads the packets of the Android device from the IN pipe,
and `sendCommand` writes commands to the OUT pipe of the same core. The events
are the completions of transfers, the callbacks and the changes of the registry
between two calls of the task, the USB attach and unattach events and the calls
themselves. The outputs are the packets handed to the host controller, the
command bytes that the task switches on and the calls of `canpt_unsubscribe`.
A transfer of the IN pipe that completes during a call counts as completed
after it, since the call does not look at that pipe again once it has queued
the transfer or found it incomplete.
-/

namespace AoaBoard.Host
open Library Library.Run Can Usb

def cmdNodeAdd : UInt8 := 0
def cmdNodeRemove : UInt8 := 1
def cmdNodeValue : UInt8 := 2
def cmdSetValue : UInt8 := 10
def cmdConnect : UInt8 := 98
def cmdDisconnect : UInt8 := 99

def maxNumSubscriptions : ℕ := 50

def androidDataInPipe : UInt8 := 1
def androidDataOutPipe : UInt8 := 2

structure Subscription where
  reqId : UInt8
  subId : UInt8

structure State where
  cores : UInt8 → Core
  attachedCoreNum : UInt8
  connected : Bool
  doDisconnect : Bool
  scheduleDisconnect : UInt32
  subs : Fin maxNumSubscriptions → Subscription
  canpt : Canpt

inductive Out
  | packet (data : List UInt8)
  | switched (command : UInt8)
  | unsubscribed (reqId subId : UInt8)

def setCore (h : State) (corenum : UInt8) (c : Core) : State :=
  { h with cores := Function.update h.cores corenum c }

def completeOUT (c : Core) (done : HcdStatus) : Core :=
  if (c.pipes androidDataOutPipe).status = .transferQueued then
    let p := { c.pipes androidDataOutPipe with status := done }
    { c with pipes := Function.update c.pipes androidDataOutPipe p }
  else c

/-- `done` is the status of a queued OUT transfer when `sendCommand` reads it. -/
def sendCommand (h : State) (corenum cmd : UInt8) (data : List UInt8) (done : HcdStatus) :
    State × List Out :=
  if (h.cores corenum).hostState ≠ .configured then (h, [])
  else
    let c := completeOUT (pipeSelectPipe (h.cores corenum) androidDataOutPipe) done
    if pipeIsReadWriteAllowed c then
      let r := pipeClearOUT (pipeWriteStreamLE (pipeWrite8 c cmd) data)
      (setCore h corenum r.1, [.packet r.2])
    else (setCore h corenum c, [])

def setNodeValue (c : Canpt) (nodeId devId d0 d1 : UInt8) : Canpt :=
  if devId = msgDevRgb then
    if d1 ≠ 0 then canptSetRgb c nodeId d0 1 else canptSetRgb c nodeId d0 0
  else if devId = msgDevLed then canptSetLed c nodeId d1
  else c

def sendNodeAttached (h : State) (corenum reqId : UInt8) (caps : List UInt8) (done : HcdStatus) :
    State × List Out :=
  let caps := caps.take 12
  sendCommand h corenum cmdNodeAdd (reqId :: UInt8.ofNat caps.length :: caps) done

def sendNodeDetached (h : State) (corenum reqId : UInt8) (done : HcdStatus) : State × List Out :=
  sendCommand h corenum cmdNodeRemove [reqId] done

def startSubscription (reqId : UInt8) (c : Canpt) (cap : UInt8) : Canpt :=
  if cap = msgDevTemp then
    canptSubscribe (canptGetTemperature c reqId) reqId cap msgSubDif [0, 50]
  else if cap = msgDevLight then
    canptSubscribe (canptGetLight c reqId) reqId cap msgSubDif [0, 10]
  else if cap = msgDevBtn then canptSubscribe (canptGetButton c reqId) reqId cap msgSubDif [0]
  else c

def handleNodeAttached (h : State) (corenum reqId : UInt8) (done : HcdStatus) : State × List Out :=
  match canptGetNodeCaps h.canpt false reqId 12 with
  | (.ok, some caps) =>
    if 0 < caps.length ∧ caps.length ≤ 12 then
      sendNodeAttached { h with canpt := caps.foldl (startSubscription reqId) h.canpt } corenum
        reqId caps done
    else (h, [])
  | _ => (h, [])

def handleNodeDetached (h : State) (corenum reqId : UInt8) (done : HcdStatus) : State × List Out :=
  sendNodeDetached { h with subs := fun i => if (h.subs i).reqId ≠ 0 then ⟨0, 0⟩ else h.subs i }
    corenum reqId done

def nodeAttached (h : State) (reqId : UInt8) (done : HcdStatus) : State × List Out :=
  if h.connected then handleNodeAttached h h.attachedCoreNum reqId done else (h, [])

def nodeDetached (h : State) (reqId : UInt8) (done : HcdStatus) : State × List Out :=
  if h.connected then handleNodeDetached h h.attachedCoreNum reqId done else (h, [])

def valueUpdate (h : State) (reqId periphId : UInt8) (buf : ℕ → UInt8) (len : UInt8)
    (done : HcdStatus) : State × List Out :=
  if h.connected then
    sendCommand h h.attachedCoreNum cmdNodeValue
      (if len < 2 then [reqId, periphId, 0, buf 0] else [reqId, periphId, buf 0, buf 1]) done
  else (h, [])

def subStarted (h : State) (reqId subId : UInt8) : State :=
  match (List.finRange maxNumSubscriptions).find? fun i => (h.subs i).reqId = 0 with
  | some i => { h with subs := Function.update h.subs i ⟨reqId, subId⟩ }
  | none => h

/-- What a call of `androidHost_task` reads: the clock, the status of a queued OUT transfer at
the command of `monitor_task` and at the command for each node, and the place of each argument
of `setNodeValue` in the order of their evaluation. -/
structure Readings where
  msTicks : UInt32
  monitorDone : HcdStatus
  nodeDone : ℕ → HcdStatus
  order : Equiv.Perm (Fin 4)

def announceNode (corenum : UInt8) (r : Readings) (h : State) (n : UInt8 × ℕ) : State × List Out :=
  handleNodeAttached h corenum n.1 (r.nodeDone n.2)

def handleDeviceConnected (h : State) (corenum : UInt8) (r : Readings) : State × List Out :=
  match canptGetNodes h.canpt false 10 with
  | (.ok, some nodeIds) =>
    if 0 < nodeIds.length then
      (after (announceNode corenum r) h nodeIds.zipIdx,
        outputs (announceNode corenum r) h nodeIds.zipIdx)
    else (h, [])
  | _ => (h, [])

def cancelSubscription (h : State) (i : Fin maxNumSubscriptions) : State × List Out :=
  if (h.subs i).reqId ≠ 0 then
    ({ h with canpt := canptUnsubscribe h.canpt (h.subs i).reqId (h.subs i).subId
              subs := Function.update h.subs i ⟨0, 0⟩ },
      [.unsubscribed (h.subs i).reqId (h.subs i).subId])
  else (h, [])

def handleDeviceDisconnected (h : State) : State × List Out :=
  (after cancelSubscription h (List.finRange maxNumSubscriptions),
    outputs cancelSubscription h (List.finRange maxNumSubscriptions))

def monitorTask (h : State) (r : Readings) : State × List Out :=
  let d :=
    if 0 < h.scheduleDisconnect ∧ h.scheduleDisconnect < r.msTicks then
      handleDeviceDisconnected { h with scheduleDisconnect := 0 }
    else (h, [])
  if d.1.connected = false then d
  else if d.1.doDisconnect then
    let s := sendCommand { d.1 with doDisconnect := false } d.1.attachedCoreNum cmdDisconnect []
      r.monitorDone
    ({ s.1 with connected := false }, d.2 ++ s.2)
  else d

/-- The `switch` of `androidHost_task` on the command byte `c`, with `numBytes` bytes after it. -/
def handleCommand (h : State) (corenum c numBytes : UInt8) (r : Readings) : State × List Out :=
  if c = cmdSetValue then
    if numBytes = 4 then
      let reads := pipeReads 4 (h.cores corenum)
      let args := (List.finRange 4).map fun i => reads.2.getD (r.order i).val 0
      ({ setCore h corenum reads.1 with
          canpt := setNodeValue h.canpt (args.getD 0 0) (args.getD 1 0) (args.getD 2 0)
            (args.getD 3 0) }, [])
    else (h, [])
  else if c = cmdConnect then handleDeviceConnected { h with connected := true } corenum r
  else if c = cmdDisconnect then ({ h with doDisconnect := true }, [])
  else (setCore h corenum (pipeReads numBytes.toNat (h.cores corenum)).1, [])

def handlePacket (h : State) (corenum : UInt8) (r : Readings) : State × List Out :=
  if pipeIsReadWriteAllowed (h.cores corenum) then
    let numBytes := (pipeBytesInPipe (h.cores corenum)).toUInt8
    if 0 < numBytes then
      let read := pipeRead8 (h.cores corenum)
      let s := handleCommand (setCore h corenum read.1) corenum read.2 (numBytes - 1) r
      (s.1, .switched read.2 :: s.2)
    else (h, [])
  else (h, [])

/-- `androidHost_task` from the selection of the IN pipe on. -/
def receivePacket (h : State) (corenum : UInt8) (r : Readings) : State × List Out :=
  let i := pipeIsINReceived (pipeSelectPipe (h.cores corenum) androidDataInPipe)
  let h := setCore h corenum i.1
  if i.2 then
    let s := handlePacket h corenum r
    (setCore s.1 corenum (pipeClearIN (s.1.cores corenum)), s.2)
  else (h, [])

/-- The comparison of `attachedCoreNum` with `-1` is one of `int`. -/
def androidHostTask (h : State) (r : Readings) : State × List Out :=
  let m := monitorTask h r
  let corenum := m.1.attachedCoreNum
  if (corenum.toNat : ℤ) = -1 then m
  else if (m.1.cores corenum).hostState ≠ .configured then m
  else
    let s := receivePacket m.1 corenum r
    (s.1, m.2 ++ s.2)

/-- The variables as they are initialised; `cores` and `canpt` belong to other modules. -/
def powerUp (cores : UInt8 → Core) (canpt : Canpt) : State where
  cores := cores
  attachedCoreNum := 255
  connected := false
  doDisconnect := false
  scheduleDisconnect := 0
  subs := fun _ => ⟨0, 0⟩
  canpt := canpt

def androidHostInit (h : State) : State :=
  { h with canpt := canptInit h.canpt
           subs := fun i => { h.subs i with reqId := 0 } }

def deviceAttached (h : State) (corenum : UInt8) : State := { h with attachedCoreNum := corenum }

def deviceUnattached (h : State) (msTicks : UInt32) : State :=
  { h with connected := false, scheduleDisconnect := msTicks + 1000 }

def completeIN (c : Core) (packet : List UInt8) : Core :=
  if (c.pipes androidDataInPipe).status = .transferQueued then
    let p := receiveIN (c.pipes androidDataInPipe) packet
    { c with pipes := Function.update c.pipes androidDataInPipe p }
  else c

inductive Event
  | received (packet : List UInt8)
  | sent (done : HcdStatus)
  | registry (nodes : Fin nodeMaxNum → Node)
  | nodeAttached (reqId : UInt8) (done : HcdStatus)
  | nodeDetached (reqId : UInt8) (done : HcdStatus)
  | valueUpdate (reqId periphId : UInt8) (buf : ℕ → UInt8) (len : UInt8) (done : HcdStatus)
  | subStarted (reqId subId : UInt8)
  | deviceAttached (corenum : UInt8)
  | deviceUnattached (msTicks : UInt32)
  | task (r : Readings)

def step (h : State) : Event → State × List Out
  | .received packet =>
    (setCore h h.attachedCoreNum (completeIN (h.cores h.attachedCoreNum) packet), [])
  | .sent done => (setCore h h.attachedCoreNum (completeOUT (h.cores h.attachedCoreNum) done), [])
  | .registry nodes => ({ h with canpt := { h.canpt with nodes := nodes } }, [])
  | .nodeAttached reqId done => nodeAttached h reqId done
  | .nodeDetached reqId done => nodeDetached h reqId done
  | .valueUpdate reqId periphId buf len done => valueUpdate h reqId periphId buf len done
  | .subStarted reqId subId => (subStarted h reqId subId, [])
  | .deviceAttached corenum => (deviceAttached h corenum, [])
  | .deviceUnattached msTicks => (deviceUnattached h msTicks, [])
  | .task r => androidHostTask h r

end AoaBoard.Host
