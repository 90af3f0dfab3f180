import AoaBoard.Library.Run
import AoaBoard.Board.RxQueue
import Mathlib.Data.UInt
import Mathlib.Data.List.FinRange
import Mathlib.Data.Fin.Basic

/-!
# The RF protocol

The node table of a coordinator, the subscription table of an end device and
the handlers of `rfpt.c`. A table entry is free when its address is `0:0`. The
callbacks and the calls of `xbee_send` and `rgb_setLeds` are outputs; two more
outputs mark that the body of the loop in `checkIfNodesAlive` ran for a node
and that the body of the loop in `rf_task` ran for a subscription. Clock
readings, potentiometer samples and port values are inputs, one for each place
that reads them. `buf` is the memory at the pointer that `xbeeData` receives.
-/

namespace AoaBoard.Rf
open Library Library.Run Board

def maxNodes : ℕ := 10
def nodeMaxCaps : ℕ := 12
def maxSubs : ℕ := 20
def nodePollTime : UInt32 := 1000
def nodeAliveTime : UInt32 := 3000
def discoverTimeMs : UInt32 := 6000

def msgGet : UInt8 := 0x01
def msgSet : UInt8 := 0x02
def msgSub : UInt8 := 0x03
def msgUnsub : UInt8 := 0x04
def msgVal : UInt8 := 0x05
def msgPoll : UInt8 := 0x06
def msgPublish : UInt8 := 0x07
def msgDiscover : UInt8 := 0x08
def msgPollResp : UInt8 := 0x80
def msgSubGte : UInt8 := 0x10
def msgSubLte : UInt8 := 0x20
def msgSubDif : UInt8 := 0x30
def msgSubResp : UInt8 := 0xF0
def msgDevMask : UInt8 := 0xF0
def msgDevTemp : UInt8 := 0x10
def msgDevLight : UInt8 := 0x20
def msgDevBtn : UInt8 := 0x30
def msgDevRgb : UInt8 := 0x40
def msgDevLed : UInt8 := 0x50

structure Addr where
  hi : UInt32
  lo : UInt32
  deriving DecidableEq

def noAddr : Addr := ⟨0, 0⟩

def broadcast : Addr := ⟨0, 0x0000FFFF⟩

structure Node where
  addr : Addr
  aliveTime : UInt32
  lastPoll : UInt32
  caps : Fin nodeMaxCaps → UInt8
  numCaps : UInt8

structure Sub where
  addr : Addr
  periphId : UInt8
  act : UInt8
  value : UInt32
  last : UInt32

structure Callb where
  nodeAttached : Bool
  nodeDetached : Bool
  value : Bool
  subStarted : Bool

structure RfState where
  cb : Callb
  lastDiscover : UInt32
  isCoordinator : Bool
  nodes : Fin maxNodes → Node
  subNumRegistered : UInt8
  subscribers : Fin maxSubs → Sub

inductive Led
  | led6
  | led7

inductive Out
  | nodeAttached (nodeId : UInt8)
  | nodeDetached (nodeId : UInt8)
  | value (nodeId periphId : UInt8) (valbuf : ℕ → UInt8) (len : UInt8)
  | subStarted (nodeId subId : UInt8)
  | send (dst : Addr) (data : List UInt8)
  | setLeds (led : Led) (on off : UInt8)
  | examined (nodeId : UInt8)
  | evaluated (subId : UInt8)

def nodeId (i : Fin maxNodes) : UInt8 := UInt8.ofNat (i + 1)

def subId (i : Fin maxSubs) : UInt8 := UInt8.ofNat (i + 1)

def call (registered : Bool) (o : Out) : List Out := if registered then [o] else []

def btnSw2 : UInt8 := 0x01
def btnSw3 : UInt8 := 0x02

def btnGet (port : UInt32) : UInt8 :=
  (if port &&& 0x800 = 0 then btnSw2 else 0) ||| (if port &&& 0x1000 = 0 then btnSw3 else 0)

def sendPublish (dst : Addr) : Out :=
  .send dst [msgPublish, msgDevBtn, msgDevRgb, msgDevTemp, msgDevLed]

def sendPoll (dst : Addr) : Out := .send dst [msgPoll]

def sendPollResponse (dst : Addr) : Out := .send dst [msgPoll ||| msgPollResp]

def sendTemperature (dst : Addr) (v : UInt16) : Out :=
  .send dst [msgVal ||| msgDevTemp, ((v >>> 8) &&& 0xff).toUInt8, (v &&& 0xff).toUInt8]

def sendBtn (dst : Addr) (port : UInt32) : Out :=
  .send dst [msgVal ||| msgDevBtn, btnGet port &&& btnSw2]

def sendSubResponse (dst : Addr) (id : UInt8) : Out := .send dst [msgSub ||| msgSubResp, id]

/-- The loop of `handlePublish`: the free slot found so far, and whether it met the address. -/
def publishScan (nodes : Fin maxNodes → Node) (src : Addr) :
    List (Fin maxNodes) → Option (Fin maxNodes) → Option (Fin maxNodes) × Bool
  | [], free => (free, false)
  | i :: is, free =>
    let free := if free = none ∧ (nodes i).addr = noAddr then some i else free
    if (nodes i).addr = src then (free, true) else publishScan nodes src is free

def attachNode (n : Node) (src : Addr) (buf : ℕ → UInt8) (len : UInt8) (now : UInt32) : Node :=
  { n with addr := src
           aliveTime := now
           caps := fun c => if c.val < len.toNat then buf c else n.caps c
           numCaps := if nodeMaxCaps < len.toNat then UInt8.ofNat nodeMaxCaps else len }

def handlePublish (s : RfState) (src : Addr) (buf : ℕ → UInt8) (len : UInt8) (now : UInt32) :
    RfState × List Out :=
  match publishScan s.nodes src (List.finRange maxNodes) none with
  | (some i, false) =>
    ({ s with nodes := Function.update s.nodes i (attachNode (s.nodes i) src buf len now) },
      call s.cb.nodeAttached (.nodeAttached (nodeId i)))
  | _ => (s, [])

def findNode (nodes : Fin maxNodes → Node) (src : Addr) : Option (Fin maxNodes) :=
  (List.finRange maxNodes).find? fun i => (nodes i).addr = src

def handlePollResponse (s : RfState) (src : Addr) (now : UInt32) : RfState :=
  match findNode s.nodes src with
  | some i => { s with nodes := Function.update s.nodes i { s.nodes i with aliveTime := now } }
  | none => s

def handleValueUpdate (s : RfState) (src : Addr) (periphId : UInt8) (buf : ℕ → UInt8) (len : ℕ) :
    List Out :=
  match findNode s.nodes src with
  | some i => call s.cb.value (.value (nodeId i) periphId buf (UInt8.ofNat len))
  | none => []

def subscriptionExists (subs : Fin maxSubs → Sub) (src : Addr) (action pId : UInt8)
    (value : UInt32) : Option (Fin maxSubs) :=
  (List.finRange maxSubs).find? fun i =>
    (subs i).addr = src ∧ (subs i).periphId = pId ∧ (subs i).act = action ∧ (subs i).value = value

def freeSub (subs : Fin maxSubs → Sub) : Option (Fin maxSubs) :=
  (List.finRange maxSubs).find? fun i => (subs i).addr = noAddr

def threshold (hi lo : UInt8) : UInt32 :=
  (hi.toUInt16 <<< 8 ||| lo.toUInt16).toInt16.toInt32.toUInt32

structure Request where
  pId : UInt8
  value : UInt32
  cval : UInt32

def subRequest (buf : ℕ → UInt8) (trimpot : UInt16) (port : UInt32) : Option Request :=
  if buf 0 = msgDevTemp then
    some ⟨msgDevTemp, threshold (buf 1) (buf 2), trimpot.toUInt32⟩
  else if buf 0 = msgDevLight then none
  else if buf 0 = msgDevBtn then
    if buf 1 = 0 ∨ buf 1 = 1 then some ⟨msgDevBtn, (buf 1).toUInt32, (btnGet port).toUInt32⟩
    else none
  else none

def handleSubscribe (s : RfState) (src : Addr) (action : UInt8) (buf : ℕ → UInt8) (len : ℕ)
    (trimpot : UInt16) (port : UInt32) : RfState × List Out :=
  if len < 2 then (s, [])
  else
    match subRequest buf trimpot port with
    | none => (s, [])
    | some r =>
      match subscriptionExists s.subscribers src action r.pId r.value with
      | some i => (s, [sendSubResponse src (subId i)])
      | none =>
        match freeSub s.subscribers with
        | some i =>
          ({ s with
              subscribers :=
                Function.update s.subscribers i ⟨src, r.pId, action, r.value, r.cval⟩
              subNumRegistered := s.subNumRegistered + 1 },
            [sendSubResponse src (subId i)])
        | none => (s, [])

def handleUnsubscribe (s : RfState) (src : Addr) (id : UInt8) : RfState :=
  if id = 0 then s
  else if h : (id - 1).toNat < maxSubs then
    let sub := s.subscribers ⟨(id - 1).toNat, h⟩
    if sub.addr = src then
      { s with subNumRegistered := s.subNumRegistered - 1
               subscribers := Function.update s.subscribers ⟨(id - 1).toNat, h⟩
                 { sub with addr := noAddr } }
    else s
  else s

def handleSubscribeResponse (s : RfState) (src : Addr) (id : UInt8) : List Out :=
  match findNode s.nodes src with
  | some i => call s.cb.subStarted (.subStarted (nodeId i) id)
  | none => []

def getValue (src : Addr) (periphId : UInt8) (trimpot : UInt16) (port : UInt32) : List Out :=
  if periphId = msgDevTemp then [sendTemperature src trimpot]
  else if periphId = msgDevBtn then [sendBtn src port]
  else []

def rgbRed : UInt8 := 0x01

def setValue (periphId : UInt8) (buf : ℕ → UInt8) (len : ℕ) : List Out :=
  if periphId = msgDevRgb then
    if len < 2 then []
    else if 0 < buf 1 then [.setLeds .led6 (buf 0) 0]
    else [.setLeds .led6 0 (buf 0)]
  else if periphId = msgDevLed then
    if len < 1 then []
    else if buf 0 = 1 then [.setLeds .led7 rgbRed 0]
    else [.setLeds .led7 0 rgbRed]
  else []

def checkNode (now : Fin maxNodes → UInt32) (s : RfState) (i : Fin maxNodes) :
    RfState × List Out :=
  let n := s.nodes i
  if n.addr.hi ≠ 0 ∧ n.addr.lo ≠ 0 then
    if 0 < n.aliveTime ∧ n.aliveTime + nodeAliveTime < now i then
      ({ s with nodes := Function.update s.nodes i { n with addr := noAddr, numCaps := 0 } },
        .examined (nodeId i) :: call s.cb.nodeDetached (.nodeDetached (nodeId i)))
    else if n.lastPoll + nodePollTime < now i then
      ({ s with nodes := Function.update s.nodes i { n with lastPoll := now i } },
        [.examined (nodeId i), sendPoll n.addr])
    else (s, [.examined (nodeId i)])
  else (s, [])

def checkIfNodesAlive (s : RfState) (now : Fin maxNodes → UInt32) : RfState × List Out :=
  (after (checkNode now) s (List.finRange maxNodes),
    outputs (checkNode now) s (List.finRange maxNodes))

def xbeeData (s : RfState) (src : Addr) (buf : ℕ → UInt8) (len : UInt8) (now : UInt32)
    (trimpot : UInt16) (port : UInt32) : RfState × List Out :=
  let rest := fun k => buf (k + 1)
  let dev := buf 0 &&& msgDevMask
  let kind := buf 0 &&& 0x0F
  if len < 1 then (s, [])
  else if kind = msgGet then (s, if s.isCoordinator then [] else getValue src dev trimpot port)
  else if kind = msgSet then (s, if s.isCoordinator then [] else setValue dev rest (len.toNat - 1))
  else if kind = msgSub then
    if buf 0 &&& 0xF0 = msgSubResp then (s, handleSubscribeResponse s src (buf 1))
    else if s.isCoordinator then (s, [])
    else handleSubscribe s src dev rest (len.toNat - 1) trimpot port
  else if kind = msgUnsub then
    (if s.isCoordinator then s else handleUnsubscribe s src (buf 1), [])
  else if kind = msgVal then (s, handleValueUpdate s src dev rest (len.toNat - 1))
  else if kind = msgPoll then
    if buf 0 &&& msgPollResp ≠ 0 then (handlePollResponse s src now, [])
    else (s, [sendPollResponse src])
  else if kind = msgPublish then
    if s.isCoordinator then handlePublish s src rest (len - 1) now else (s, [])
  else if kind = msgDiscover then (s, if s.isCoordinator then [] else [sendPublish src])
  else (s, [])

/-- What an `rf_task` call reads: `sample` and `port` when the trigger of a subscription is
decided, `sent` and `sentPort` when its value is sent. -/
structure Readings where
  discover : UInt32
  discovered : UInt32
  alive : Fin maxNodes → UInt32
  sample : Fin maxSubs → UInt16
  port : Fin maxSubs → UInt32
  sent : Fin maxSubs → UInt16
  sentPort : Fin maxSubs → UInt32

def trigger (act : UInt8) (last value read : UInt32) : Bool × UInt32 :=
  if act = msgSubGte then (last < value ∧ value ≤ read, read)
  else if act = msgSubLte then (value < last ∧ read ≤ value, read)
  else if act = msgSubDif then
    if (read < last ∧ value < last - read) ∨ (last < read ∧ value < read - last) then (true, read)
    else (false, last)
  else (false, last)

def notify (r : Readings) (i : Fin maxSubs) (sub : Sub) : List Out :=
  if sub.periphId = msgDevTemp then [sendTemperature sub.addr (r.sent i)]
  else if sub.periphId = msgDevBtn then [sendBtn sub.addr (r.sentPort i)]
  else []

/-- The variable `read` keeps its old value where no peripheral is read. -/
def readPeripheral (r : Readings) (i : Fin maxSubs) (sub : Sub) (read : UInt32) : UInt32 :=
  if sub.periphId = msgDevTemp then (r.sample i).toUInt32
  else if sub.periphId = msgDevBtn then (btnGet (r.port i)).toUInt32
  else read

def evalSub (r : Readings) (st : RfState × UInt32) (i : Fin maxSubs) :
    (RfState × UInt32) × List Out :=
  let sub := st.1.subscribers i
  if sub.addr.hi ≠ 0 ∧ sub.addr.lo ≠ 0 then
    let read := readPeripheral r i sub st.2
    let update := trigger sub.act sub.last sub.value read
    (({ st.1 with subscribers := Function.update st.1.subscribers i { sub with last := update.2 } },
        read), .evaluated (subId i) :: if update.1 then notify r i sub else [])
  else (st, [])

def discover (s : RfState) (r : Readings) : RfState × List Out :=
  if s.lastDiscover + discoverTimeMs < r.discover then
    ({ s with lastDiscover := r.discovered }, [.send broadcast [msgDiscover]])
  else (s, [])

def rfTask (s : RfState) (r : Readings) : RfState × List Out :=
  if s.isCoordinator then
    let d := discover s r
    let c := checkIfNodesAlive d.1 r.alive
    (c.1, d.2 ++ c.2)
  else if s.subNumRegistered ≠ 0 then
    ((after (evalSub r) (s, 0) (List.finRange maxSubs)).1,
      outputs (evalSub r) (s, 0) (List.finRange maxSubs))
  else (s, [])

/-- `null` says that one of the two pointers is `NULL`; the second component is what is
written through them, if anything. -/
def rfGetNodes (s : RfState) (null : Bool) (len : UInt8) : ErrorT × Option (List UInt8) :=
  if null ∨ len = 0 then (.argument, none)
  else
    (.ok, some ((List.finRange maxNodes).foldl (fun ids i =>
      if (s.nodes i).addr.hi ≠ 0 ∧ (s.nodes i).addr.lo ≠ 0 ∧ ids.length < len.toNat then
        ids ++ [nodeId i]
      else ids) []))

def getNode (s : RfState) (id : UInt8) : Option Node :=
  if h : 0 < id.toNat ∧ id.toNat ≤ maxNodes then
    let n := s.nodes ⟨id.toNat - 1, by omega⟩
    if n.addr.hi ≠ 0 ∧ n.addr.lo ≠ 0 then some n else none
  else none

def rfGetNodeCaps (s : RfState) (null : Bool) (id len : UInt8) : ErrorT × Option (List UInt8) :=
  if null ∨ len = 0 then (.argument, none)
  else
    match getNode s id with
    | none => (.argument, some [])
    | some n =>
      (.ok, some (((List.finRange nodeMaxCaps).takeWhile fun i =>
        i.val < len.toNat ∧ i.val < n.numCaps.toNat).map n.caps))

def subInit (s : RfState) : RfState :=
  { s with subNumRegistered := 0
           subscribers := fun i => { s.subscribers i with addr := noAddr } }

/-- `s` is the state before the call: only the addresses of the tables are reset. -/
def rfInit (s : RfState) (coordinator : Bool) (cb : Callb) : RfState :=
  subInit { s with cb := cb, isCoordinator := coordinator
                   nodes := fun i => { s.nodes i with addr := noAddr } }

inductive Input
  | frame (src : Addr) (buf : ℕ → UInt8) (len : UInt8) (now : UInt32) (trimpot : UInt16)
      (port : UInt32)
  | task (r : Readings)

def step (s : RfState) : Input → RfState × List Out
  | .frame src buf len now trimpot port => xbeeData s src buf len now trimpot port
  | .task r => rfTask s r

def source : Input → Option Addr
  | .frame src _ _ _ _ _ => some src
  | .task _ => none

def allCallb : Callb := ⟨true, true, true, true⟩

def powerUp : RfState where
  cb := allCallb
  lastDiscover := 0
  isCoordinator := false
  nodes := fun _ => ⟨noAddr, 0, 0, fun _ => 0, 0⟩
  subNumRegistered := 0
  subscribers := fun _ => ⟨noAddr, 0, 0, 0, 0⟩

def frameFrom (src : Addr) (data : List UInt8) (now : UInt32) : Input :=
  .frame src (fun k => data.getD k 0) (UInt8.ofNat data.length) now 0 0

def taskAt (now : UInt32) : Input :=
  .task ⟨now, now, fun _ => now, fun _ => 0, fun _ => 0, fun _ => 0, fun _ => 0⟩

def kind (buf : ℕ → UInt8) : UInt8 := buf 0 &&& 0x0F

def device (buf : ℕ → UInt8) : UInt8 := buf 0 &&& msgDevMask

def payload (buf : ℕ → UInt8) : ℕ → UInt8 := fun k => buf (k + 1)

def Lookup (buf : ℕ → UInt8) (len : UInt8) : Prop :=
  ¬ len < 1 ∧ (kind buf = msgVal ∨ (kind buf = msgSub ∧ buf 0 &&& 0xF0 = msgSubResp) ∨
    (kind buf = msgPoll ∧ buf 0 &&& msgPollResp ≠ 0))

instance decidableLookup (buf : ℕ → UInt8) (len : UInt8) : Decidable (Lookup buf len) :=
  inferInstanceAs (Decidable (_ ∧ _))

def Publishes (s : RfState) (buf : ℕ → UInt8) (len : UInt8) : Prop :=
  ¬ len < 1 ∧ kind buf = msgPublish ∧ s.isCoordinator = true

def Subscribes (s : RfState) (buf : ℕ → UInt8) (len : UInt8) : Prop :=
  ¬ len < 1 ∧ kind buf = msgSub ∧ buf 0 &&& 0xF0 ≠ msgSubResp ∧ s.isCoordinator = false

instance decidablePublishes (s : RfState) (buf : ℕ → UInt8) (len : UInt8) :
    Decidable (Publishes s buf len) :=
  inferInstanceAs (Decidable (_ ∧ _))

instance decidableSubscribes (s : RfState) (buf : ℕ → UInt8) (len : UInt8) :
    Decidable (Subscribes s buf len) :=
  inferInstanceAs (Decidable (_ ∧ _))

def Plain : Out → Prop
  | .send _ data => data.head? ≠ some (msgSub ||| msgSubResp)
  | .setLeds _ _ _ => True
  | _ => False

/-- Everything that `xbeeData` can do with a frame. -/
inductive Handled (s : RfState) (src : Addr) (buf : ℕ → UInt8) (len : UInt8) (now : UInt32)
    (trimpot : UInt16) (port : UInt32) : RfState × List Out → Prop
  | quiet {outs : List Out} (houts : ∀ o ∈ outs, Plain o) : Handled s src buf len now trimpot port
      (s, outs)
  | subResponse (hk : Lookup buf len) (hsub : kind buf = msgSub) :
      Handled s src buf len now trimpot port
      (s, handleSubscribeResponse s src (buf 1))
  | subscribe (hk : Subscribes s buf len) :
      Handled s src buf len now trimpot port
        (handleSubscribe s src (device buf) (payload buf) (len.toNat - 1) trimpot port)
  | unsubscribe (hdev : s.isCoordinator = false) : Handled s src buf len now trimpot port
      (handleUnsubscribe s src (buf 1), [])
  | value (hk : Lookup buf len) (hval : kind buf = msgVal) : Handled s src buf len now trimpot port
      (s, handleValueUpdate s src (device buf) (payload buf) (len.toNat - 1))
  | pollResponse (hk : Lookup buf len) : Handled s src buf len now trimpot port
      (handlePollResponse s src now, [])
  | publish (hk : Publishes s buf len) :
      Handled s src buf len now trimpot port (handlePublish s src (payload buf) (len - 1) now)

theorem getValue_plain (src : Addr) (periphId : UInt8) (trimpot : UInt16) (port : UInt32) :
    ∀ o ∈ getValue src periphId trimpot port, Plain o := by
  simp only [getValue]
  split_ifs <;> simp [sendTemperature, sendBtn, Plain] <;> decide

theorem setValue_plain (periphId : UInt8) (buf : ℕ → UInt8) (len : ℕ) :
    ∀ o ∈ setValue periphId buf len, Plain o := by
  simp only [setValue]
  split_ifs <;> simp [Plain]

theorem xbeeData_handled (s : RfState) (src : Addr) (buf : ℕ → UInt8) (len : UInt8) (now : UInt32)
    (trimpot : UInt16) (port : UInt32) :
    Handled s src buf len now trimpot port (xbeeData s src buf len now trimpot port) := by
  have hquiet (outs : List Out) (houts : ∀ o ∈ outs, Plain o) :
      Handled s src buf len now trimpot port (s, outs) := .quiet houts
  simp only [xbeeData]
  by_cases hlen : len < 1
  · rw [if_pos hlen]
    exact hquiet _ (by simp)
  rw [if_neg hlen]
  by_cases hget : buf 0 &&& 0x0F = msgGet
  · rw [if_pos hget]
    cases s.isCoordinator
    · simp only [Bool.false_eq_true, if_false]
      exact hquiet _ (getValue_plain _ _ _ _)
    · exact hquiet _ (by simp)
  rw [if_neg hget]
  by_cases hset : buf 0 &&& 0x0F = msgSet
  · rw [if_pos hset]
    cases s.isCoordinator
    · simp only [Bool.false_eq_true, if_false]
      exact hquiet _ (setValue_plain _ _ _)
    · exact hquiet _ (by simp)
  rw [if_neg hset]
  by_cases hsub : buf 0 &&& 0x0F = msgSub
  · rw [if_pos hsub]
    by_cases hresp : buf 0 &&& 0xF0 = msgSubResp
    · rw [if_pos hresp]
      exact .subResponse ⟨hlen, Or.inr (Or.inl ⟨hsub, hresp⟩)⟩ hsub
    · rw [if_neg hresp]
      cases hcoord : s.isCoordinator
      · exact .subscribe ⟨hlen, hsub, hresp, hcoord⟩
      · exact hquiet _ (by simp)
  rw [if_neg hsub]
  by_cases hunsub : buf 0 &&& 0x0F = msgUnsub
  · rw [if_pos hunsub]
    cases hcoord : s.isCoordinator
    · exact .unsubscribe hcoord
    · exact hquiet _ (by simp)
  rw [if_neg hunsub]
  by_cases hval : buf 0 &&& 0x0F = msgVal
  · rw [if_pos hval]
    exact .value ⟨hlen, Or.inl hval⟩ hval
  rw [if_neg hval]
  by_cases hpoll : buf 0 &&& 0x0F = msgPoll
  · rw [if_pos hpoll]
    by_cases hresp : buf 0 &&& msgPollResp ≠ 0
    · rw [if_pos hresp]
      exact .pollResponse ⟨hlen, Or.inr (Or.inr ⟨hpoll, hresp⟩)⟩
    · rw [if_neg hresp]
      refine hquiet _ ?_
      simp only [List.mem_singleton, forall_eq, sendPollResponse, Plain]
      decide
  rw [if_neg hpoll]
  by_cases hpublish : buf 0 &&& 0x0F = msgPublish
  · rw [if_pos hpublish]
    cases hcoord : s.isCoordinator
    · exact hquiet _ (by simp)
    · exact .publish ⟨hlen, hpublish, hcoord⟩
  rw [if_neg hpublish]
  by_cases hdiscover : buf 0 &&& 0x0F = msgDiscover
  · rw [if_pos hdiscover]
    cases s.isCoordinator
    · refine hquiet _ ?_
      simp only [Bool.false_eq_true, if_false, List.mem_singleton, forall_eq, sendPublish, Plain]
      decide
    · exact hquiet _ (by simp)
  rw [if_neg hdiscover]
  exact hquiet _ (by simp)

theorem xbeeData_of_publishes {s : RfState} {buf : ℕ → UInt8} {len : UInt8}
    (h : Publishes s buf len) (src : Addr) (now : UInt32) (trimpot : UInt16) (port : UInt32) :
    xbeeData s src buf len now trimpot port =
      handlePublish s src (payload buf) (len - 1) now := by
  obtain ⟨hlen, hk, hcoord⟩ := h
  rw [kind] at hk
  simp only [xbeeData, if_neg hlen, hk, hcoord]
  rfl

theorem xbeeData_of_subscribes {s : RfState} {buf : ℕ → UInt8} {len : UInt8}
    (h : Subscribes s buf len) (src : Addr) (now : UInt32) (trimpot : UInt16) (port : UInt32) :
    xbeeData s src buf len now trimpot port =
      handleSubscribe s src (device buf) (payload buf) (len.toNat - 1) trimpot port := by
  obtain ⟨hlen, hk, hreq, hdev⟩ := h
  rw [kind] at hk
  simp only [xbeeData, if_neg hlen, hk, if_neg hreq, hdev]
  rfl

theorem mem_call {registered : Bool} {o p : Out} (h : p ∈ call registered o) : p = o := by
  simp only [call] at h
  split_ifs at h
  · exact List.mem_singleton.mp h
  · simp at h

theorem handleValueUpdate_outputs (s : RfState) (src : Addr) (periphId : UInt8) (buf : ℕ → UInt8)
    (len : ℕ) : ∀ o ∈ handleValueUpdate s src periphId buf len, ∃ i,
      findNode s.nodes src = some i ∧ o = .value (nodeId i) periphId buf (UInt8.ofNat len) := by
  intro o ho
  simp only [handleValueUpdate] at ho
  split at ho
  · rename_i i hi
    exact ⟨i, hi, mem_call ho⟩
  · simp at ho

theorem handleSubscribeResponse_outputs (s : RfState) (src : Addr) (id : UInt8) :
    ∀ o ∈ handleSubscribeResponse s src id, ∃ i,
      findNode s.nodes src = some i ∧ o = .subStarted (nodeId i) id := by
  intro o ho
  simp only [handleSubscribeResponse] at ho
  split at ho
  · rename_i i hi
    exact ⟨i, hi, mem_call ho⟩
  · simp at ho

theorem handlePublish_outputs (s : RfState) (src : Addr) (buf : ℕ → UInt8) (len : UInt8)
    (now : UInt32) :
    ∀ o ∈ (handlePublish s src buf len now).2, ∃ i, o = .nodeAttached (nodeId i) := by
  intro o ho
  simp only [handlePublish] at ho
  split at ho
  · rename_i i hi
    exact ⟨i, mem_call ho⟩
  · simp at ho

def isCallback : Out → Bool
  | .nodeAttached _ | .nodeDetached _ | .value _ _ _ _ | .subStarted _ _ => true
  | _ => false

theorem Plain.not_callback {o : Out} (h : Plain o) : isCallback o = false := by
  cases o <;> first | rfl | exact h.elim

structure SameNodes (s s' : RfState) : Prop where
  nodes : s'.nodes = s.nodes
  cb : s'.cb = s.cb
  isCoordinator : s'.isCoordinator = s.isCoordinator

theorem handleSubscribe_sameNodes (s : RfState) (src : Addr) (action : UInt8) (buf : ℕ → UInt8)
    (len : ℕ) (trimpot : UInt16) (port : UInt32) :
    SameNodes s (handleSubscribe s src action buf len trimpot port).1 ∧
      ∀ o ∈ (handleSubscribe s src action buf len trimpot port).2, isCallback o = false := by
  simp only [handleSubscribe]
  split_ifs
  · exact ⟨⟨rfl, rfl, rfl⟩, by simp⟩
  · split
    · exact ⟨⟨rfl, rfl, rfl⟩, by simp⟩
    · split
      · exact ⟨⟨rfl, rfl, rfl⟩, by simp [sendSubResponse, isCallback]⟩
      · split
        · exact ⟨⟨rfl, rfl, rfl⟩, by simp [sendSubResponse, isCallback]⟩
        · exact ⟨⟨rfl, rfl, rfl⟩, by simp⟩

theorem handleUnsubscribe_sameNodes (s : RfState) (src : Addr) (id : UInt8) :
    SameNodes s (handleUnsubscribe s src id) := by
  simp only [handleUnsubscribe]
  split_ifs <;> exact ⟨rfl, rfl, rfl⟩

theorem notify_not_callback (r : Readings) (i : Fin maxSubs) (sub : Sub) :
    ∀ o ∈ notify r i sub, isCallback o = false := by
  simp only [notify]
  split_ifs <;> simp [sendTemperature, sendBtn, isCallback]

theorem evalSub_sameNodes (r : Readings) (st : RfState × UInt32) (i : Fin maxSubs) :
    SameNodes st.1 (evalSub r st i).1.1 ∧ ∀ o ∈ (evalSub r st i).2, isCallback o = false := by
  by_cases htaken : (st.1.subscribers i).addr.hi ≠ 0 ∧ (st.1.subscribers i).addr.lo ≠ 0
  · simp only [evalSub, if_pos htaken]
    refine ⟨⟨rfl, rfl, rfl⟩, List.forall_mem_cons.mpr ⟨rfl, fun o ho => ?_⟩⟩
    split at ho
    · exact notify_not_callback r i _ o ho
    · simp at ho
  · simp only [evalSub, if_neg htaken]
    exact ⟨⟨rfl, rfl, rfl⟩, by simp⟩

theorem SameNodes.refl (s : RfState) : SameNodes s s := ⟨rfl, rfl, rfl⟩

theorem SameNodes.trans {s t u : RfState} (h : SameNodes s t) (h' : SameNodes t u) :
    SameNodes s u :=
  ⟨h'.nodes.trans h.nodes, h'.cb.trans h.cb, h'.isCoordinator.trans h.isCoordinator⟩

theorem evalSub_run_related {R : RfState → RfState → Prop} (hrefl : ∀ s, R s s)
    (htrans : ∀ s t u, R s t → R t u → R s u) {r : Readings}
    (heval : ∀ st i, R st.1 (evalSub r st i).1.1) (st : RfState × UInt32)
    (is : List (Fin maxSubs)) : R st.1 (after (evalSub r) st is).1 :=
  after_related (R := fun u v : RfState × UInt32 => R u.1 v.1) (fun u => hrefl u.1)
    (fun u v w => htrans u.1 v.1 w.1) heval st is

theorem evalSub_run_sameNodes (r : Readings) (st : RfState × UInt32) (is : List (Fin maxSubs)) :
    SameNodes st.1 (after (evalSub r) st is).1 :=
  evalSub_run_related .refl (fun _ _ _ => .trans) (fun u i => (evalSub_sameNodes r u i).1) st is

theorem discover_cases (s : RfState) (r : Readings) :
    discover s r = (s, []) ∨ discover s r =
      ({ s with lastDiscover := r.discovered }, [.send broadcast [msgDiscover]]) := by
  simp only [discover]
  split_ifs
  · exact Or.inr rfl
  · exact Or.inl rfl

theorem rfTask_related {R : RfState → RfState → Prop} (hrefl : ∀ s, R s s)
    (htrans : ∀ s t u, R s t → R t u → R s u)
    (hdiscover : ∀ s now, R s { s with lastDiscover := now })
    (hcheck : ∀ now s i, R s (checkNode now s i).1)
    (heval : ∀ r st i, R st.1 (evalSub r st i).1.1) (s : RfState) (r : Readings) :
    R s (rfTask s r).1 := by
  simp only [rfTask]
  split_ifs
  · have hfirst : R s (discover s r).1 := by
      rcases discover_cases s r with h | h
      · rw [h]
        exact hrefl s
      · rw [h]
        exact hdiscover s r.discovered
    simp only [checkIfNodesAlive]
    exact htrans _ _ _ hfirst (after_related hrefl htrans (hcheck r.alive) (discover s r).1 _)
  · generalize List.finRange maxSubs = is
    exact evalSub_run_related hrefl htrans (heval r) (s, 0) is
  · exact hrefl s

theorem rfTask_outputs {Q : Out → Prop} (hdiscover : Q (.send broadcast [msgDiscover]))
    (hcheck : ∀ now s i, ∀ o ∈ (checkNode now s i).2, Q o)
    (heval : ∀ r st i, ∀ o ∈ (evalSub r st i).2, Q o) (s : RfState) (r : Readings) :
    ∀ o ∈ (rfTask s r).2, Q o := by
  simp only [rfTask]
  split_ifs
  · refine List.forall_mem_append.mpr ⟨?_, outputs_forall (hcheck r.alive) _ _⟩
    rcases discover_cases s r with h | h
    · simp [h]
    · simpa [h] using hdiscover
  · exact outputs_forall (heval r) _ _
  · simp

end AoaBoard.Rf
