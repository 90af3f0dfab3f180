import AoaBoard.Library.Run
import AoaBoard.Can.Nodes

/-!
# The discovery of the CAN nodes

Publish messages register nodes, poll responses keep them alive and
`checkIfNodesAlive` removes those that have been silent for too long. The two
fields `aliveTime` and `lastPoll` of a node are kept beside the table.
`handlePublish` stores two capabilities for each byte, so that more than six
bytes are written past the end of `caps`: what the state is after that is left
open, and an event names it.
-/

namespace AoaBoard.Can.Discovery
open Library Library.Run Library.Registry Library.Slots

def nodePollTime : UInt32 := 2500
def nodeAliveTime : UInt32 := 500

def msgCmnMask : UInt32 := 0x7F0
def msgCmnIdDisc : UInt8 := 0x01
def msgTypeMask : UInt8 := 0x0F
def msgVal : UInt8 := 0x05
def msgPoll : UInt8 := 0x06
def msgPublish : UInt8 := 0x07
def msgPollResp : UInt8 := 0x80
def msgSubResp : UInt8 := 0xF0
def msgDevMask : UInt8 := 0xF0

structure Callbacks where
  nodeAttached : Bool
  nodeDetached : Bool
  value : Bool
  subStarted : Bool

structure State extends Canpt where
  aliveTime : Fin nodeMaxNum → UInt32
  lastPoll : Fin nodeMaxNum → UInt32
  numNodes : UInt8
  cb : Callbacks

inductive Out
  | nodeAttached (reqId : UInt8)
  | nodeDetached (reqId : UInt8)
  | value (reqId periphId : UInt8) (buf : ℕ → UInt8) (len : UInt8)
  | subStarted (reqId subId : UInt8)

def call (isSet : Bool) (o : Out) : List Out := if isSet then [o] else []

/-- The data bytes of a message: `dataA` and `dataB` lie next to each other. -/
def dataByte (msg : CanMsg) (k : ℕ) : UInt8 :=
  ((List.finRange 4).map msg.dataA ++ (List.finRange 4).map msg.dataB).getD k 0

def setCap (caps : Fin nodeMaxCaps → UInt8) (k : ℕ) (b : UInt8) : Fin nodeMaxCaps → UInt8 :=
  fun i => if i.val = k then b else caps i

def storeCaps (buf : ℕ → UInt8) (caps : Fin nodeMaxCaps → UInt8) (j : ℕ) :
    Fin nodeMaxCaps → UInt8 :=
  if nodeMaxCaps ≤ j then caps
  else
    let caps := setCap caps (j * 2) (buf j &&& 0xF0)
    if nodeMaxCaps ≤ j + 1 then caps else setCap caps (j * 2 + 1) ((buf j &&& 0x0F) <<< 4)

def newSlot (nodes : Fin nodeMaxNum → Node) (reqId : UInt8) : Option (Fin nodeMaxNum) :=
  match (List.finRange nodeMaxNum).find? fun i => (nodes i).reqId = reqId with
  | some _ => none
  | none => (List.finRange nodeMaxNum).find? fun i => (nodes i).reqId = 0

def register (s : State) (i : Fin nodeMaxNum) (reqId : UInt8) (buf : ℕ → UInt8) (len : UInt8)
    (now : UInt32) : State :=
  { s with nodes := Function.update s.nodes i
             ⟨reqId, (List.range len.toNat).foldl (storeCaps buf) (s.nodes i).caps⟩
           aliveTime := Function.update s.aliveTime i now
           numNodes := s.numNodes + 1 }

def maxPayload : ℕ := 6

def handlePublish (s : State) (reqId : UInt8) (buf : ℕ → UInt8) (len : UInt8) (now : UInt32)
    (wild : State) : State × List Out :=
  match newSlot s.nodes reqId with
  | some i =>
    (if len.toNat ≤ maxPayload then register s i reqId buf len now else wild,
      call s.cb.nodeAttached (.nodeAttached reqId))
  | none => (s, [])

def handleValue (s : State) (reqId periphId : UInt8) (buf : ℕ → UInt8) (len : UInt8) : List Out :=
  call s.cb.value (.value reqId periphId buf len)

def handlePollResponse (s : State) (reqId : UInt8) (now : UInt32) : State :=
  match (List.finRange nodeMaxNum).find? fun i => (s.nodes i).reqId = reqId with
  | some i => { s with aliveTime := Function.update s.aliveTime i now }
  | none => s

def handleSubscribeResponse (s : State) (reqId subId : UInt8) : List Out :=
  call s.cb.subStarted (.subStarted reqId subId)

def canptPoll (c : Canpt) (_reqId : UInt8) : Canpt := setDataA c 1 msgPoll

def processCmnMessage (s : State) (msg : CanMsg) (now : UInt32) (wild : State) :
    State × List Out :=
  if (msg.id &&& ~~~msgCmnMask).toUInt8 = msgCmnIdDisc then
    if 2 < msg.len ∧ dataByte msg 1 = msgPublish then
      handlePublish s (dataByte msg 0) (fun j => dataByte msg (2 + j)) (msg.len - 2) now wild
    else (s, [])
  else (s, [])

def processMessage (s : State) (msg : CanMsg) (now : UInt32) (wild : State) : State × List Out :=
  let reqId := dataByte msg 0
  let type := dataByte msg 1 &&& msgTypeMask
  let buf := fun j => dataByte msg (2 + j)
  if type = msgVal then (s, handleValue s reqId (dataByte msg 1 &&& msgDevMask) buf (msg.len - 2))
  else if type = msgPublish then handlePublish s reqId buf (msg.len - 2) now wild
  else if type = msgPoll then
    if dataByte msg 1 &&& msgPollResp ≠ 0 then (handlePollResponse s reqId now, []) else (s, [])
  else if type = msgSub then
    if dataByte msg 1 &&& msgSubResp ≠ 0 then (s, handleSubscribeResponse s reqId (dataByte msg 2))
    else (s, [])
  else (s, [])

def Silent (s : State) (now : Fin nodeMaxNum → UInt32) (i : Fin nodeMaxNum) : Prop :=
  (s.nodes i).reqId ≠ 0 ∧ s.aliveTime i + nodeAliveTime + nodePollTime < now i

instance decidableSilent (s : State) (now : Fin nodeMaxNum → UInt32) (i : Fin nodeMaxNum) :
    Decidable (Silent s now i) := inferInstanceAs (Decidable (_ ∧ _))

def checkNode (now : Fin nodeMaxNum → UInt32) (s : State) (i : Fin nodeMaxNum) :
    State × List Out :=
  if (s.nodes i).reqId ≠ 0 then
    if s.aliveTime i + nodeAliveTime + nodePollTime < now i then
      ({ s with nodes := Function.update s.nodes i { s.nodes i with reqId := 0 } },
        call s.cb.nodeDetached (.nodeDetached (s.nodes i).reqId))
    else if s.lastPoll i + nodePollTime < now i then
      ({ s with toCanpt := canptPoll s.toCanpt (s.nodes i).reqId
                lastPoll := Function.update s.lastPoll i (now i) }, [])
    else (s, [])
  else (s, [])

/-- `now i` is the clock value that is read for entry `i`. -/
def checkIfNodesAlive (s : State) (now : Fin nodeMaxNum → UInt32) : State × List Out :=
  (after (checkNode now) s (List.finRange nodeMaxNum),
    outputs (checkNode now) s (List.finRange nodeMaxNum))

inductive Event
  | common (msg : CanMsg) (now : UInt32) (wild : State)
  | direct (msg : CanMsg) (now : UInt32) (wild : State)
  | check (now : Fin nodeMaxNum → UInt32)

def step (s : State) : Event → State × List Out
  | .common msg now wild => processCmnMessage s msg now wild
  | .direct msg now wild => processMessage s msg now wild
  | .check now => checkIfNodesAlive s now

def powerUp (cb : Callbacks) : State where
  nodes := fun _ => ⟨0, fun _ => 0⟩
  txMsg := Queue.blank
  aliveTime := fun _ => 0
  lastPoll := fun _ => 0
  numNodes := 0
  cb := cb

structure Publish where
  reqId : UInt8
  buf : ℕ → UInt8
  len : UInt8
  now : UInt32
  wild : State

def publishOf : Event → Option Publish
  | .common msg now wild =>
    if (msg.id &&& ~~~msgCmnMask).toUInt8 = msgCmnIdDisc ∧ 2 < msg.len ∧
        dataByte msg 1 = msgPublish then
      some ⟨dataByte msg 0, fun j => dataByte msg (2 + j), msg.len - 2, now, wild⟩
    else none
  | .direct msg now wild =>
    if dataByte msg 1 &&& msgTypeMask = msgPublish then
      some ⟨dataByte msg 0, fun j => dataByte msg (2 + j), msg.len - 2, now, wild⟩
    else none
  | .check _ => none

theorem message_cases (s : State) (e : Event) :
    (∃ p, publishOf e = some p ∧ step s e = handlePublish s p.reqId p.buf p.len p.now p.wild) ∨
    publishOf e = none ∧ ((∃ now, e = .check now) ∨ (∀ now, e ≠ .check now) ∧
      (step s e).1.nodes = s.nodes ∧ (step s e).1.numNodes = s.numNodes) := by
  cases e with
  | common msg now wild =>
    by_cases hpub : (msg.id &&& ~~~msgCmnMask).toUInt8 = msgCmnIdDisc ∧ 2 < msg.len ∧
        dataByte msg 1 = msgPublish
    · exact Or.inl ⟨_, if_pos hpub,
        by simp only [step, processCmnMessage, if_pos hpub.1, if_pos hpub.2]⟩
    · refine Or.inr ⟨if_neg hpub, Or.inr ⟨fun _ h => (by cases h), ?_⟩⟩
      simp only [step, processCmnMessage]
      split_ifs with hid hlen
      · exact absurd ⟨hid, hlen⟩ hpub
      · exact ⟨rfl, rfl⟩
      · exact ⟨rfl, rfl⟩
  | direct msg now wild =>
    by_cases hpub : dataByte msg 1 &&& msgTypeMask = msgPublish
    · have hval : ¬ msgPublish = msgVal := by decide
      exact Or.inl ⟨_, if_pos hpub, by
        simp only [step, processMessage, hpub, if_neg hval, if_true]⟩
    · refine Or.inr ⟨if_neg hpub, Or.inr ⟨fun _ h => (by cases h), ?_⟩⟩
      simp only [step, processMessage, if_neg hpub, handlePollResponse]
      split_ifs
      · exact ⟨rfl, rfl⟩
      · split <;> exact ⟨rfl, rfl⟩
      · exact ⟨rfl, rfl⟩
      · exact ⟨rfl, rfl⟩
      · exact ⟨rfl, rfl⟩
      · exact ⟨rfl, rfl⟩
  | check now => exact Or.inr ⟨rfl, Or.inl ⟨now, rfl⟩⟩

theorem newSlot_some {nodes : Fin nodeMaxNum → Node} {reqId : UInt8} {i : Fin nodeMaxNum}
    (h : newSlot nodes reqId = some i) :
    (nodes i).reqId = 0 ∧ reqId ≠ 0 ∧ ∀ j, (nodes j).reqId ≠ reqId := by
  simp only [newSlot] at h
  split at h
  · cases h
  · rename_i hnone
    have hnew : ∀ j, (nodes j).reqId ≠ reqId := fun j => by
      simpa using List.find?_eq_none.mp hnone j (List.mem_finRange j)
    have hfree : (nodes i).reqId = 0 := by simpa using List.find?_some h
    exact ⟨hfree, fun hzero => hnew i (hfree.trans hzero.symm), hnew⟩

theorem registered_update (c : Canpt) (i : Fin nodeMaxNum) (n : Node) :
    registered { c with nodes := Function.update c.nodes i n } =
      Function.update (registered c) i (if n.reqId ≠ 0 then some n.reqId else none) := by
  funext j
  by_cases hj : j = i
  · subst hj
    simp [registered]
  · simp [registered, hj]

theorem registered_register {s : State} {i : Fin nodeMaxNum} {reqId : UInt8} (hid : reqId ≠ 0)
    (buf : ℕ → UInt8) (len : UInt8) (now : UInt32) :
    registered (register s i reqId buf len now).toCanpt =
      Function.update (registered s.toCanpt) i (some reqId) := by
  have hupdate := registered_update s.toCanpt i
    ⟨reqId, (List.range len.toNat).foldl (storeCaps buf) (s.nodes i).caps⟩
  rw [if_pos hid] at hupdate
  exact hupdate

theorem distinct_fill {s : State} (hd : Distinct (registered s.toCanpt)) {i : Fin nodeMaxNum}
    {reqId : UInt8} (hnew : ∀ j, (s.nodes j).reqId ≠ reqId) :
    Distinct (Function.update (registered s.toCanpt) i (some reqId)) := by
  have hnot (j : Fin nodeMaxNum) : registered s.toCanpt j ≠ some reqId := fun h => by
    simp only [registered] at h
    split_ifs at h
    exact hnew j (Option.some.inj h)
  intro j k a hj hk
  by_cases hji : j = i <;> by_cases hki : k = i
  · rw [hji, hki]
  · rw [hji, Function.update_self] at hj
    rw [Function.update_of_ne hki, ← hj] at hk
    exact absurd hk (hnot k)
  · rw [hki, Function.update_self] at hk
    rw [Function.update_of_ne hji, ← hk] at hj
    exact absurd hj (hnot j)
  · rw [Function.update_of_ne hji] at hj
    rw [Function.update_of_ne hki] at hk
    exact hd j k a hj hk

theorem checkNode_registered (now : Fin nodeMaxNum → UInt32) (s : State) (i : Fin nodeMaxNum) :
    registered (checkNode now s i).1.toCanpt =
      if Silent s now i then Function.update (registered s.toCanpt) i none
      else registered s.toCanpt := by
  by_cases hid : (s.nodes i).reqId = 0
  · have hnot : ¬ Silent s now i := fun h => h.1 hid
    rw [if_neg hnot]
    simp [checkNode, hid]
  · by_cases hlate : s.aliveTime i + nodeAliveTime + nodePollTime < now i
    · rw [if_pos ⟨hid, hlate⟩]
      have hupdate := registered_update s.toCanpt i { s.nodes i with reqId := 0 }
      simp only [checkNode, ne_eq, hid, not_false_iff, if_true, hlate]
      simpa using hupdate
    · have hnot : ¬ Silent s now i := fun h => hlate h.2
      rw [if_neg hnot]
      simp only [checkNode, ne_eq, hid, not_false_iff, if_true, hlate, if_false]
      split_ifs <;> rfl

theorem checkNode_other (now : Fin nodeMaxNum → UInt32) (s : State) (i : Fin nodeMaxNum) :
    (checkNode now s i).1.aliveTime = s.aliveTime ∧
      (checkNode now s i).1.numNodes = s.numNodes ∧
      ∀ j, j ≠ i → (checkNode now s i).1.nodes j = s.nodes j := by
  simp only [checkNode]
  split_ifs
  · exact ⟨rfl, rfl, fun j hj => Function.update_of_ne hj _ _⟩
  · exact ⟨rfl, rfl, fun _ _ => rfl⟩
  · exact ⟨rfl, rfl, fun _ _ => rfl⟩
  · exact ⟨rfl, rfl, fun _ _ => rfl⟩

theorem checkNodes_registered (now : Fin nodeMaxNum → UInt32) {is : List (Fin nodeMaxNum)}
    (hnodup : is.Nodup) (s : State) :
    (after (checkNode now) s is).numNodes = s.numNodes ∧
      ∀ i, registered (after (checkNode now) s is).toCanpt i =
        if i ∈ is ∧ Silent s now i then none else registered s.toCanpt i := by
  induction is generalizing s with
  | nil => exact ⟨rfl, fun i => by simp⟩
  | cons k is ih =>
    obtain ⟨hk, hrest⟩ := List.nodup_cons.mp hnodup
    obtain ⟨halive, hnum, hother⟩ := checkNode_other now s k
    obtain ⟨hcount, hafter⟩ := ih hrest (checkNode now s k).1
    refine ⟨hcount.trans hnum, fun i => ?_⟩
    rw [after_cons, hafter, checkNode_registered]
    by_cases hik : i = k
    · subst hik
      simp only [hk, false_and, if_false, List.mem_cons, true_or, true_and]
      split_ifs
      · exact Function.update_self ..
      · rfl
    · have hsilent : Silent (checkNode now s k).1 now i ↔ Silent s now i := by
        rw [Silent, Silent, halive, hother i hik]
      simp only [hsilent, List.mem_cons, hik, false_or]
      split_ifs <;> first | rfl | exact Function.update_of_ne hik ..

theorem check_registered (s : State) (now : Fin nodeMaxNum → UInt32) :
    (checkIfNodesAlive s now).1.numNodes = s.numNodes ∧
      registered (checkIfNodesAlive s now).1.toCanpt =
        fun i => if Silent s now i then none else registered s.toCanpt i := by
  obtain ⟨hnum, hreg⟩ := checkNodes_registered now (List.nodup_finRange nodeMaxNum) s
  refine ⟨hnum, funext fun i => ?_⟩
  rw [checkIfNodesAlive, hreg i]
  simp

theorem check_nodes (s : State) (now : Fin nodeMaxNum → UInt32) (j : Fin nodeMaxNum) :
    (checkIfNodesAlive s now).1.nodes j = s.nodes j ∨
      ((checkIfNodesAlive s now).1.nodes j).reqId = 0 := by
  have hstep (s : State) (i : Fin nodeMaxNum) : (checkNode now s i).1.nodes j = s.nodes j ∨
      ((checkNode now s i).1.nodes j).reqId = 0 := by
    simp only [checkNode]
    split_ifs
    · by_cases hj : j = i
      · exact Or.inr (by simp [hj])
      · exact Or.inl (Function.update_of_ne hj ..)
    · exact Or.inl rfl
    · exact Or.inl rfl
    · exact Or.inl rfl
  have htrans (s t u : State) (hst : t.nodes j = s.nodes j ∨ (t.nodes j).reqId = 0)
      (htu : u.nodes j = t.nodes j ∨ (u.nodes j).reqId = 0) :
      u.nodes j = s.nodes j ∨ (u.nodes j).reqId = 0 := by
    rcases htu with htu | htu
    · rw [htu]
      exact hst
    · exact Or.inr htu
  simp only [checkIfNodesAlive]
  generalize List.finRange nodeMaxNum = is
  exact after_related (R := fun s t : State => t.nodes j = s.nodes j ∨ (t.nodes j).reqId = 0)
    (fun _ => Or.inl rfl) htrans hstep s is

def InBounds (s : State) (e : Event) : Prop :=
  ∀ p ∈ publishOf e, newSlot s.nodes p.reqId ≠ none → p.len.toNat ≤ maxPayload

instance decidableInBounds (s : State) (e : Event) : Decidable (InBounds s e) :=
  inferInstanceAs (Decidable (∀ p ∈ publishOf e,
    newSlot s.nodes p.reqId ≠ none → p.len.toNat ≤ maxPayload))

theorem step_registered {s : State} {e : Event} (he : InBounds s e) :
    (registered (step s e).1.toCanpt = registered s.toCanpt ∧
      (step s e).1.numNodes = s.numNodes ∧ ∀ now, e ≠ .check now) ∨
    (∃ i reqId, registered s.toCanpt i = none ∧ reqId ≠ 0 ∧ (∀ j, (s.nodes j).reqId ≠ reqId) ∧
      registered (step s e).1.toCanpt = Function.update (registered s.toCanpt) i (some reqId) ∧
      (step s e).1.numNodes = s.numNodes + 1 ∧ ∀ now, e ≠ .check now) ∨
    ∃ now, e = .check now := by
  rcases message_cases s e with ⟨p, hp, heq⟩ | ⟨-, ⟨now, hnow⟩ | ⟨hcheck, hnodes, hnum⟩⟩
  · have hcheck : ∀ now, e ≠ .check now := fun now h => by
      rw [h] at hp
      cases hp
    rw [heq, handlePublish]
    cases hslot : newSlot s.nodes p.reqId with
    | none => exact Or.inl ⟨rfl, rfl, hcheck⟩
    | some i =>
      obtain ⟨hfree, hid, hnew⟩ := newSlot_some hslot
      have hlen : p.len.toNat ≤ maxPayload := he p hp (by rw [hslot]; exact Option.some_ne_none i)
      simp only [if_pos hlen]
      exact Or.inr (Or.inl ⟨i, p.reqId, (registered_eq_none_iff _ i).mpr hfree, hid, hnew,
        registered_register hid p.buf p.len p.now, rfl, hcheck⟩)
  · exact Or.inr (Or.inr ⟨now, hnow⟩)
  · refine Or.inl ⟨funext fun i => ?_, hnum, hcheck⟩
    simp only [registered, hnodes]

theorem step_distinct {s : State} (hd : Distinct (registered s.toCanpt)) {e : Event}
    (he : InBounds s e) : Distinct (registered (step s e).1.toCanpt) := by
  rcases step_registered he with ⟨hsame, -⟩ | ⟨i, reqId, -, -, hnew, hfill, -⟩ | ⟨now, rfl⟩
  · rw [hsame]
    exact hd
  · rw [hfill]
    exact distinct_fill hd hnew
  · simp only [step, (check_registered s now).2]
    intro i j a hi hj
    simp only at hi hj
    split_ifs at hi hj
    exact hd i j a hi hj

theorem powerUp_registered (cb : Callbacks) (i : Fin nodeMaxNum) :
    registered (powerUp cb).toCanpt i = none := rfl

/-- The ids are distinct, `numNodes` counts them, and `canpt_getNodes` lists each of them once
and reports that number. -/
structure Consistent (s : State) : Prop where
  distinct : Distinct (registered s.toCanpt)
  count : s.numNodes.toNat = (entries (registered s.toCanpt)).length
  listed : ∀ len : UInt8, nodeMaxNum ≤ len.toNat → ∃ ids,
    canptGetNodes s.toCanpt false len = (.ok, some ids) ∧ ids.length = s.numNodes.toNat ∧
      ids.Nodup ∧ ∀ id, id ∈ ids ↔ ∃ i, registered s.toCanpt i = some id

theorem consistent_iff {s : State} (hd : Distinct (registered s.toCanpt)) :
    Consistent s ↔ s.numNodes.toNat = (entries (registered s.toCanpt)).length :=
  ⟨fun h => h.count, fun h => ⟨hd, h, fun _ hlen =>
    ⟨_, canptGetNodes_lists s.toCanpt hlen, h.symm, entries_nodup hd, fun _ => mem_entries⟩⟩⟩

def Removes (s : State) : Event → Prop
  | .check now => ∃ i, Silent s now i
  | _ => False

theorem step_consistent_iff {s : State} (hs : Consistent s) {e : Event} (he : InBounds s e) :
    Consistent (step s e).1 ↔ ¬ Removes s e := by
  have hd := step_distinct hs.distinct he
  rw [consistent_iff hd]
  have hremoves (hcheck : ∀ now, e ≠ .check now) : ¬ Removes s e := by
    cases e with
    | check now => exact absurd rfl (hcheck now)
    | _ => exact fun h => h
  rcases step_registered he with ⟨hsame, hnum, hcheck⟩ |
    ⟨i, reqId, hfree, -, -, hfill, hnum, hcheck⟩ | ⟨now, rfl⟩
  · rw [hsame, hnum]
    exact iff_of_true hs.count (hremoves hcheck)
  · refine iff_of_true ?_ (hremoves hcheck)
    have hlen := (entries_fill hfree reqId).length_eq
    have hlt := entries_length_lt hfree reqId
    have hmax : nodeMaxNum = 10 := rfl
    rw [hfill, hnum, hlen, List.length_cons, UInt8.toNat_add, hs.count, UInt8.toNat_one]
    omega
  · obtain ⟨hnum, hreg⟩ := check_registered s now
    simp only [step, hnum, hreg, hs.count]
    by_cases hsilent : ∃ i, Silent s now i
    · obtain ⟨i, hi⟩ := hsilent
      have hlt := entries_mask_length_lt (p := Silent s now) hi (registered_eq_some hi.1)
      exact iff_of_false (fun h => by omega) fun h => h ⟨i, hi⟩
    · have hkept : (fun i => if Silent s now i then none else registered s.toCanpt i) =
          registered s.toCanpt := funext fun i => if_neg fun h => hsilent ⟨i, h⟩
      rw [hkept]
      exact iff_of_true rfl hsilent

theorem powerUp_consistent (cb : Callbacks) : Consistent (powerUp cb) := by
  have hd : Distinct (registered (powerUp cb).toCanpt) := fun i _ _ hi => by
    rw [powerUp_registered] at hi
    cases hi
  rw [consistent_iff hd, entries_of_empty (powerUp_registered cb)]
  rfl

/-- In every run in which no publish that registers a node is longer than `caps` allows and no
node is removed, the registry is consistent in every state. The removal of a node always leaves
`numNodes` too large. -/
theorem registry_consistent (cb : Callbacks) :
    (∀ es : List Event,
      Along step (fun s e => InBounds s e ∧ ¬ Removes s e) (powerUp cb) es →
        ∀ pre, pre <+: es → Consistent (after step (powerUp cb) pre)) ∧
    ∀ (s : State) (e : Event), Consistent s → Removes s e → ¬ Consistent (step s e).1 := by
  constructor
  · intro es hes pre hpre
    obtain ⟨rest, rfl⟩ := hpre
    exact after_invariant (P := Consistent)
      (fun s e hs he => (step_consistent_iff hs he.1).mpr he.2) (powerUp_consistent cb)
      ((along_append _ _ _).mp hes).1
  · intro s e hs hremoves hnext
    have hbounds : InBounds s e := by
      cases e with
      | check now => exact fun p hp => by cases hp
      | _ => exact hremoves.elim
    exact (step_consistent_iff hs hbounds).mp hnext hremoves

section Samples

def publishOfNode (reqId : UInt8) (payload : List UInt8) : CanMsg :=
  ⟨msgCmnIdDisc.toUInt32, fun k => [reqId, msgPublish, payload.getD 0 0, payload.getD 1 0].getD k 0,
    fun k => payload.getD (2 + k) 0, 2 + UInt8.ofNat payload.length, 0, 0⟩

def registration : Event :=
  .common (publishOfNode 5 [msgDevBtn]) 0 (powerUp ⟨true, true, true, true⟩)

end Samples

theorem registry_consistent_publish :
    Consistent (after step (powerUp ⟨true, true, true, true⟩) [registration]) := by
  have hrun : Along step (fun s e => InBounds s e ∧ ¬ Removes s e)
      (powerUp ⟨true, true, true, true⟩) [registration] := by
    exact ⟨⟨by decide +kernel, fun h => h⟩, trivial⟩
  exact (registry_consistent _).1 _ hrun _ (List.prefix_refl _)

theorem removed_node_still_counted :
    ¬ Consistent (after step (powerUp ⟨true, true, true, true⟩)
      [registration, .check fun _ => 4000]) := by
  intro h
  exact absurd h.count (by decide +kernel)

end AoaBoard.Can.Discovery
