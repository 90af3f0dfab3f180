import AoaBoard.Can.Driver

/-!
# The gateway between the two CAN controllers

`CAN_IRQHandler` runs whole and puts received frames into the queue;
`canpt_task` takes one frame per call and hands it to `CAN_SendMsg`. A `tick`
is the next step of the main loop, in which `canpt_task` is called again and
again; every access of `canpt_task` and `CAN_SendMsg` to the queue or to the
message they work on is a step of its own. The outputs of a run are the frames
handed to `CAN_SendMsg`, each with `true` for `SUCCESS` and `false` for
`ERROR`. A frame sent with `SUCCESS` is read back from the transmit registers.
-/

namespace AoaBoard.Can.Gateway
open Library Library.Run

inductive SendPc
  | status (b : Fin 3)
  | len (b : Fin 3)
  | type (b : Fin 3)
  | format (b : Fin 3)
  | id (b : Fin 3)
  | dataA (b : Fin 3) (n : Fin 4) (data : UInt32)
  | dataB (b : Fin 3) (n : Fin 4) (data : UInt32)
  | request (b : Fin 3)
  deriving DecidableEq

inductive TaskPc
  | out
  | checking
  | checked
  | getting
  | deadline (m : UInt8)
  | send (m : UInt8) (due : UInt32) (pc : SendPc)
  | poll (due : UInt32)
  | pollClock (due : UInt32)
  | expired (due : UInt32)
  | fault
  deriving DecidableEq

structure State where
  traced : Queue.Traced
  rxMsg : CanMsg
  can2 : Fin 3 → TxRegs
  pc : TaskPc

/-- A tick carries the values that its step reads from `LPC_CAN2->SR`, `LPC_CAN2->GSR` and
the clock. -/
inductive Event
  | irq (icr1 icr2 : UInt32) (can1 can2 : RxRegs)
  | tick (sr gsr now : UInt32)

def receive (g : State) (can : RxRegs) : State :=
  let msg := (canReceiveMsg can g.rxMsg).msg
  { g with rxMsg := msg, traced := (Queue.step g.traced (.put msg)).1 }

def canIrqHandler (g : State) (icr1 icr2 : UInt32) (can1 can2 : RxRegs) : State :=
  if icr1 &&& 0x01 ≠ 0 then receive g can1
  else if icr2 &&& 0x01 ≠ 0 then receive g can2
  else g

def statusShift : Fin 3 → UInt32
  | 0 => 2
  | 1 => 10
  | 2 => 18

def message (g : State) (m : UInt8) : CanMsg := g.traced.queue.rxMsgs m.toNat

def writeTx (g : State) (b : Fin 3) (f : TxRegs → TxRegs) (pc : TaskPc) : State :=
  { g with can2 := Function.update g.can2 b (f (g.can2 b)), pc := pc }

def canSendMsg (g : State) (m : UInt8) (due sr : UInt32) : SendPc → State × List (CanMsg × Bool)
  | .status b =>
    if (sr &&& 0x00000004) >>> statusShift b ≠ 0 then ({ g with pc := .send m due (.len b) }, [])
    else
      match b with
      | 0 => ({ g with pc := .send m due (.status 1) }, [])
      | 1 => ({ g with pc := .send m due (.status 2) }, [])
      | 2 => ({ g with pc := .out }, [(message g m, false)])
  | .len b =>
    (writeTx g b (fun r => { r with tfi := setLen r.tfi (message g m).len })
      (.send m due (.type b)), [])
  | .type b =>
    (writeTx g b (fun r => { r with tfi := setType r.tfi (message g m).type })
      (.send m due (.format b)), [])
  | .format b =>
    (writeTx g b (fun r => { r with tfi := setFormat r.tfi (message g m).format })
      (.send m due (.id b)), [])
  | .id b =>
    (writeTx g b (fun r => { r with tid := (message g m).id }) (.send m due (.dataA b 0 0)), [])
  | .dataA b n data =>
    let data := joinByte data n ((message g m).dataA n)
    if n = 3 then
      (writeTx g b (fun r => { r with tda := data }) (.send m due (.dataB b 0 0)), [])
    else ({ g with pc := .send m due (.dataA b (n + 1) data) }, [])
  | .dataB b n data =>
    let data := joinByte data n ((message g m).dataB n)
    if n = 3 then (writeTx g b (fun r => { r with tdb := data }) (.send m due (.request b)), [])
    else ({ g with pc := .send m due (.dataB b (n + 1) data) }, [])
  | .request b => ({ g with pc := .poll due }, [(transmitted (g.can2 b), true)])

def gsrTcs : UInt32 := 0x8

def canptTask (g : State) (sr gsr now : UInt32) : State × List (CanMsg × Bool) :=
  match g.pc with
  | .out => ({ g with traced := (Queue.step g.traced .isEmpty).1, pc := .checking }, [])
  | .checking =>
    match Queue.step g.traced .tick with
    | (t, [.empty true]) => ({ g with traced := t, pc := .out }, [])
    | (t, [.empty false]) => ({ g with traced := t, pc := .checked }, [])
    | (t, _) => ({ g with traced := t }, [])
  | .checked => ({ g with traced := (Queue.step g.traced .get).1, pc := .getting }, [])
  | .getting =>
    match Queue.step g.traced .tick with
    | (t, [.msg m]) => ({ g with traced := t, pc := .deadline m }, [])
    | (t, [.null]) => ({ g with traced := t, pc := .fault }, [])
    | (t, _) => ({ g with traced := t }, [])
  | .deadline m => ({ g with pc := .send m (now + 500) (.status 0) }, [])
  | .send m due pc => canSendMsg g m due sr pc
  | .poll due => ({ g with pc := if gsr &&& gsrTcs = 0 then .pollClock due else .expired due }, [])
  | .pollClock due => ({ g with pc := if now < due then .poll due else .expired due }, [])
  | .expired _ => ({ g with pc := .out }, [])
  | .fault => (g, [])

def step (g : State) : Event → State × List (CanMsg × Bool)
  | .irq icr1 icr2 can1 can2 => (canIrqHandler g icr1 icr2 can1 can2, [])
  | .tick sr gsr now => canptTask g sr gsr now

def powerUp (can2 : Fin 3 → TxRegs) : State := ⟨Queue.start, Queue.blank, can2, .out⟩

def inHand (g : State) : List CanMsg :=
  match g.pc with
  | .deadline m | .send m _ _ => [message g m]
  | _ => []

def sent (handed : List (CanMsg × Bool)) : List CanMsg :=
  (handed.filter Prod.snd).map Prod.fst

structure Header (r : TxRegs) (msg : CanMsg) : Prop where
  len : frameLen r.tfi = msg.len
  type : frameType r.tfi = msg.type
  format : frameFormat r.tfi = msg.format

def SendFacts (can2 : Fin 3 → TxRegs) (msg : CanMsg) : SendPc → Prop
  | .status _ | .len _ => True
  | .type b => frameLen (can2 b).tfi = msg.len
  | .format b => frameLen (can2 b).tfi = msg.len ∧ frameType (can2 b).tfi = msg.type
  | .id b => Header (can2 b) msg
  | .dataA b n data => Header (can2 b) msg ∧ (can2 b).tid = msg.id ∧ data = gather msg.dataA n
  | .dataB b n data =>
    Header (can2 b) msg ∧ (can2 b).tid = msg.id ∧ dataBytes (can2 b).tda = msg.dataA ∧
      data = gather msg.dataB n
  | .request b => transmitted (can2 b) = msg

structure Holding (done : List CanMsg) (g : State) (m : UInt8) : Prop where
  idle : g.traced.pc = .idle
  hand : g.traced.hand = some m
  returned : g.traced.returned = done ++ [message g m]

def Getting (t : Queue.Traced) : Prop :=
  match t.pc with
  | .getRead _ => t.sampled ≠ 0
  | .getSlot | .getLoad _ | .getStore _ _ => True
  | _ => False

def TaskFacts (done : List CanMsg) (g : State) : Prop :=
  match g.pc with
  | .out | .poll _ | .pollClock _ | .expired _ => g.traced.pc = .idle ∧ g.traced.returned = done
  | .checking => (∃ i, g.traced.pc = .isEmptyRead i) ∧ g.traced.returned = done
  | .checked => g.traced.pc = .idle ∧ Queue.content g.traced.queue ≠ [] ∧ g.traced.returned = done
  | .getting => Getting g.traced ∧ g.traced.returned = done
  | .deadline m => Holding done g m
  | .send m _ pc => Holding done g m ∧ SendFacts g.can2 (message g m) pc
  | .fault => False

structure Inv (handed : List (CanMsg × Bool)) (g : State) : Prop where
  queue : Queue.Inv g.traced
  rxMsg : Encodable g.rxMsg
  accepted : ∀ d ∈ g.traced.accepted, Encodable d
  task : TaskFacts (handed.map Prod.fst) g

theorem blank_encodable : Encodable Queue.blank := ⟨by decide, by decide, by decide⟩

theorem inv_powerUp (can2 : Fin 3 → TxRegs) : Inv [] (powerUp can2) :=
  ⟨Queue.inv_start, blank_encodable, nofun, rfl, rfl⟩

theorem Inv.message_encodable {handed : List (CanMsg × Bool)} {g : State} (h : Inv handed g)
    {m : UInt8} {done : List CanMsg} (hm : Holding done g m) : Encodable (message g m) := by
  apply h.accepted
  rw [← h.queue.linked, hm.returned]
  simp

theorem content_put_ne_nil {t : Queue.Traced} (h : Queue.Inv t) (d : CanMsg)
    (hne : Queue.content t.queue ≠ []) : Queue.content (Queue.put t d).queue ≠ [] := by
  by_cases hfull : Queue.Full t.queue
  · rwa [Queue.put_full hfull]
  · rw [Queue.content_put h hfull]
    simp

theorem receive_message {g : State} (h : Queue.Inv g.traced) (can : RxRegs) {m : UInt8}
    (hm : g.traced.hand = some m) : message (receive g can) m = message g m :=
  Queue.put_hand h _ hm

theorem receive_holding {done : List CanMsg} {g : State} (h : Queue.Inv g.traced) (can : RxRegs)
    {m : UInt8} (hm : Holding done g m) : Holding done (receive g can) m :=
  ⟨hm.idle, hm.hand, by rw [receive_message h can hm.hand]; exact hm.returned⟩

theorem receive_taskFacts {done : List CanMsg} {g : State} (h : Queue.Inv g.traced)
    (hg : TaskFacts done g) (can : RxRegs) : TaskFacts done (receive g can) := by
  have hpc : (receive g can).pc = g.pc := rfl
  simp only [TaskFacts, hpc] at hg ⊢
  cases hp : g.pc <;> simp only [hp] at hg ⊢
  case checked => exact ⟨hg.1, content_put_ne_nil h _ hg.2.1, hg.2.2⟩
  case deadline m => exact receive_holding h can hg
  case send m due pc =>
    rw [receive_message h can hg.1.hand]
    exact ⟨receive_holding h can hg.1, hg.2⟩
  all_goals exact hg

theorem put_accepted (t : Queue.Traced) (d : CanMsg) :
    ∀ e ∈ (Queue.put t d).accepted, e ∈ t.accepted ∨ e = d := by
  intro e he
  simp only [Queue.put] at he
  split_ifs at he
  · exact Or.inl he
  · simpa using he

theorem receive_inv {handed : List (CanMsg × Bool)} {g : State} (h : Inv handed g)
    (can : RxRegs) : Inv handed (receive g can) := by
  have hmsg := canReceiveMsg_encodable h.rxMsg can
  refine ⟨Queue.step_inv h.queue _, hmsg, fun d hd => ?_, receive_taskFacts h.queue h.task can⟩
  rcases put_accepted _ _ d hd with hd | rfl
  · exact h.accepted d hd
  · exact hmsg

theorem canIrqHandler_inv {handed : List (CanMsg × Bool)} {g : State} (h : Inv handed g)
    (icr1 icr2 : UInt32) (can1 can2 : RxRegs) :
    Inv handed (canIrqHandler g icr1 icr2 can1 can2) := by
  simp only [canIrqHandler]
  split_ifs
  · exact receive_inv h can1
  · exact receive_inv h can2
  · exact h

theorem Inv.move {handed out : List (CanMsg × Bool)} {g g' : State} (h : Inv handed g)
    (hq : Queue.Inv g'.traced) (hrx : g'.rxMsg = g.rxMsg)
    (ha : g'.traced.accepted = g.traced.accepted)
    (ht : TaskFacts ((handed ++ out).map Prod.fst) g') : Inv (handed ++ out) g' :=
  ⟨hq, hrx ▸ h.rxMsg, ha ▸ h.accepted, ht⟩

theorem Holding.writeTx {done : List CanMsg} {g : State} {m : UInt8} (h : Holding done g m)
    (b : Fin 3) (f : TxRegs → TxRegs) (pc : TaskPc) : Holding done (writeTx g b f pc) m :=
  ⟨h.idle, h.hand, h.returned⟩

theorem writeTx_can2 (g : State) (b : Fin 3) (f : TxRegs → TxRegs) (pc : TaskPc) :
    (writeTx g b f pc).can2 b = f (g.can2 b) := Function.update_self _ _ _

theorem writeTx_message (g : State) (b : Fin 3) (f : TxRegs → TxRegs) (pc : TaskPc) (m : UInt8) :
    message (writeTx g b f pc) m = message g m := rfl

theorem gather_succ (bytes : Fin 4 → UInt8) (n : Fin 4) :
    joinByte (gather bytes n) n (bytes n) = gather bytes (n + 1) := by
  simp only [gather, n.isLt, dif_pos, Fin.eta]

theorem next_val {n : Fin 4} (hn : n ≠ 3) : ((n + 1 : Fin 4) : ℕ) = n + 1 := by
  revert n
  decide

theorem sending {done : List CanMsg} {g : State} {m : UInt8} {due : UInt32} {pc : SendPc}
    (hpc : g.pc = .send m due pc) (h : Holding done g m)
    (hf : SendFacts g.can2 (message g m) pc) : TaskFacts (done ++ []) g := by
  simp only [TaskFacts, hpc, List.append_nil]
  exact ⟨h, hf⟩

theorem canSendMsg_taskFacts {done : List CanMsg} {g : State} {m : UInt8} (due sr : UInt32)
    {pc : SendPc} (h : Holding done g m) (hmsg : Encodable (message g m))
    (hf : SendFacts g.can2 (message g m) pc) :
    TaskFacts (done ++ (canSendMsg g m due sr pc).2.map Prod.fst) (canSendMsg g m due sr pc).1 := by
  have hstay (pc : TaskPc) : Holding done { g with pc := pc } m := ⟨h.idle, h.hand, h.returned⟩
  cases pc with
  | status b =>
    simp only [canSendMsg]
    split_ifs
    · exact sending rfl (hstay _) trivial
    · match b with
      | 0 => exact sending rfl (hstay _) trivial
      | 1 => exact sending rfl (hstay _) trivial
      | 2 => exact ⟨h.idle, h.returned⟩
  | len b =>
    simp only [canSendMsg, List.map_nil]
    refine sending rfl (h.writeTx b _ _) ?_
    simp only [SendFacts, writeTx_message, writeTx_can2]
    exact frameLen_setLen _ hmsg.len
  | type b =>
    simp only [canSendMsg, List.map_nil]
    refine sending rfl (h.writeTx b _ _) ?_
    simp only [SendFacts, writeTx_message, writeTx_can2]
    exact ⟨(frameLen_setType _ _).trans hf, frameType_setType _ hmsg.type⟩
  | format b =>
    simp only [canSendMsg, List.map_nil]
    refine sending rfl (h.writeTx b _ _) ?_
    simp only [SendFacts, writeTx_message, writeTx_can2]
    exact ⟨(frameLen_setFormat _ _).trans hf.1, (frameType_setFormat _ _).trans hf.2,
      frameFormat_setFormat _ hmsg.format⟩
  | id b =>
    simp only [canSendMsg, List.map_nil]
    refine sending rfl (h.writeTx b _ _) ?_
    simp only [SendFacts, writeTx_message, writeTx_can2]
    exact ⟨⟨hf.len, hf.type, hf.format⟩, trivial, rfl⟩
  | dataA b n data =>
    obtain ⟨hhead, hid, rfl⟩ := hf
    by_cases hn : n = 3
    · simp only [canSendMsg, gather_succ, if_pos hn, List.map_nil]
      refine sending rfl (h.writeTx b _ _) ?_
      simp only [SendFacts, writeTx_message, writeTx_can2, hn]
      exact ⟨⟨hhead.len, hhead.type, hhead.format⟩, hid, dataBytes_gather _, rfl⟩
    · simp only [canSendMsg, gather_succ, if_neg hn, List.map_nil]
      refine sending rfl (hstay _) ?_
      simp only [SendFacts, next_val hn]
      exact ⟨hhead, hid, rfl⟩
  | dataB b n data =>
    obtain ⟨hhead, hid, hdataA, rfl⟩ := hf
    by_cases hn : n = 3
    · simp only [canSendMsg, gather_succ, if_pos hn, List.map_nil]
      refine sending rfl (h.writeTx b _ _) ?_
      simp only [SendFacts, writeTx_message, writeTx_can2, hn, transmitted, hhead.len, hhead.type,
        hhead.format, hid, hdataA]
      rw [show ((3 : Fin 4) : ℕ) + 1 = 4 from rfl, dataBytes_gather]
    · simp only [canSendMsg, gather_succ, if_neg hn, List.map_nil]
      refine sending rfl (hstay _) ?_
      simp only [SendFacts, next_val hn]
      exact ⟨hhead, hid, hdataA, rfl⟩
  | request b =>
    have hsent : transmitted (g.can2 b) = message g m := hf
    simp only [canSendMsg, TaskFacts, List.map_cons, List.map_nil, hsent]
    exact ⟨h.idle, h.returned⟩

theorem canSendMsg_keeps (g : State) (m : UInt8) (due sr : UInt32) (pc : SendPc) :
    (canSendMsg g m due sr pc).1.traced = g.traced ∧
      (canSendMsg g m due sr pc).1.rxMsg = g.rxMsg := by
  cases pc with
  | status b =>
    simp only [canSendMsg]
    split_ifs
    · exact ⟨rfl, rfl⟩
    · match b with
      | 0 => exact ⟨rfl, rfl⟩
      | 1 => exact ⟨rfl, rfl⟩
      | 2 => exact ⟨rfl, rfl⟩
  | dataA b n data =>
    simp only [canSendMsg]
    split_ifs
    · exact ⟨rfl, rfl⟩
    · exact ⟨rfl, rfl⟩
  | dataB b n data =>
    simp only [canSendMsg]
    split_ifs
    · exact ⟨rfl, rfl⟩
    · exact ⟨rfl, rfl⟩
  | _ => exact ⟨rfl, rfl⟩

theorem checking_inv {handed : List (CanMsg × Bool)} {g : State} (h : Inv handed g)
    (hpc : g.pc = .checking) (sr gsr now : UInt32) :
    Inv (handed ++ (canptTask g sr gsr now).2) (canptTask g sr gsr now).1 := by
  have ht := h.task
  simp only [TaskFacts, hpc] at ht
  obtain ⟨⟨i, hi⟩, hdone⟩ := ht
  have hfacts := h.queue.facts
  simp only [Queue.PcFacts, hi] at hfacts
  have hstep : Queue.step g.traced .tick =
      ({ g.traced with pc := .idle }, [.empty (i = g.traced.queue.rxMsgOut)]) := by
    simp only [Queue.step, Queue.tick, hi]
  have hq := Queue.step_inv h.queue .tick
  rw [hstep] at hq
  by_cases he : i = g.traced.queue.rxMsgOut
  · simp only [canptTask, hpc, hstep, he, decide_true]
    refine h.move hq rfl rfl ?_
    simp only [TaskFacts, List.append_nil]
    exact ⟨trivial, hdone⟩
  · simp only [canptTask, hpc, hstep, he, decide_false]
    refine h.move hq rfl rfl ?_
    have hlen : (Queue.content g.traced.queue).length ≠ 0 := by
      have hpos : g.traced.sampled ≠ 0 := fun hz => he (hfacts.1.mpr hz)
      omega
    simp only [TaskFacts, List.append_nil]
    exact ⟨trivial, fun hnil => hlen (congrArg List.length hnil), hdone⟩

theorem checked_inv {handed : List (CanMsg × Bool)} {g : State} (h : Inv handed g)
    (hpc : g.pc = .checked) (sr gsr now : UInt32) :
    Inv (handed ++ (canptTask g sr gsr now).2) (canptTask g sr gsr now).1 := by
  have ht := h.task
  simp only [TaskFacts, hpc] at ht
  obtain ⟨hidle, hne, hdone⟩ := ht
  have hq := Queue.step_inv h.queue .get
  have hpending := h.queue.pending
  have hlen : (Queue.content g.traced.queue).length ≠ 0 := fun hz =>
    hne (List.length_eq_zero_iff.mp hz)
  simp only [Queue.step, Queue.call, if_pos hidle] at hq
  simp only [canptTask, hpc, Queue.step, Queue.call, if_pos hidle]
  refine h.move hq rfl rfl ?_
  simp only [TaskFacts, List.append_nil, Getting]
  exact ⟨by omega, hdone⟩

theorem getting_inv {handed : List (CanMsg × Bool)} {g : State} (h : Inv handed g)
    (hpc : g.pc = .getting) (sr gsr now : UInt32) :
    Inv (handed ++ (canptTask g sr gsr now).2) (canptTask g sr gsr now).1 := by
  have ht := h.task
  simp only [TaskFacts, hpc] at ht
  obtain ⟨hget, hdone⟩ := ht
  have hfacts := h.queue.facts
  have hq := Queue.step_inv h.queue .tick
  cases hp : g.traced.pc with
  | idle => simp only [Getting, hp] at hget
  | isEmptyRead i => simp only [Getting, hp] at hget
  | getRead i =>
    simp only [Getting, hp] at hget
    simp only [Queue.PcFacts, hp] at hfacts
    have hi : i ≠ g.traced.queue.rxMsgOut := fun he => hget (hfacts.1.mp he)
    simp only [Queue.step, Queue.tick, hp, if_neg hi] at hq
    simp only [canptTask, hpc, Queue.step, Queue.tick, hp, if_neg hi]
    refine h.move hq rfl rfl ?_
    simp only [TaskFacts, List.append_nil]
    exact ⟨trivial, hdone⟩
  | getSlot =>
    simp only [Queue.step, Queue.tick, hp] at hq
    simp only [canptTask, hpc, Queue.step, Queue.tick, hp]
    refine h.move hq rfl rfl ?_
    simp only [TaskFacts, List.append_nil]
    exact ⟨trivial, hdone⟩
  | getLoad m =>
    simp only [Queue.step, Queue.tick, hp] at hq
    simp only [canptTask, hpc, Queue.step, Queue.tick, hp]
    refine h.move hq rfl rfl ?_
    simp only [TaskFacts, List.append_nil]
    exact ⟨trivial, hdone⟩
  | getStore m o =>
    simp only [Queue.step, Queue.tick, hp] at hq
    simp only [canptTask, hpc, Queue.step, Queue.tick, hp]
    refine h.move hq rfl rfl ?_
    simp only [TaskFacts, List.append_nil]
    exact ⟨rfl, rfl, by rw [hdone]; rfl⟩

theorem canptTask_inv {handed : List (CanMsg × Bool)} {g : State} (h : Inv handed g)
    (sr gsr now : UInt32) :
    Inv (handed ++ (canptTask g sr gsr now).2) (canptTask g sr gsr now).1 := by
  have ht := h.task
  cases hpc : g.pc with
  | out =>
    simp only [TaskFacts, hpc] at ht
    have hq := Queue.step_inv h.queue .isEmpty
    simp only [Queue.step, Queue.call, if_pos ht.1] at hq
    simp only [canptTask, hpc, Queue.step, Queue.call, if_pos ht.1]
    refine h.move hq rfl rfl ?_
    simp only [TaskFacts, List.append_nil]
    exact ⟨⟨_, rfl⟩, ht.2⟩
  | checking => exact checking_inv h hpc sr gsr now
  | checked => exact checked_inv h hpc sr gsr now
  | getting => exact getting_inv h hpc sr gsr now
  | deadline m =>
    simp only [TaskFacts, hpc] at ht
    simp only [canptTask, hpc]
    refine h.move h.queue rfl rfl ?_
    simp only [TaskFacts, List.append_nil]
    exact ⟨⟨ht.idle, ht.hand, ht.returned⟩, trivial⟩
  | send m due pc =>
    simp only [TaskFacts, hpc] at ht
    have hs := canSendMsg_taskFacts due sr ht.1 (h.message_encodable ht.1) ht.2
    have hkeep : (canSendMsg g m due sr pc).1.traced = g.traced ∧
        (canSendMsg g m due sr pc).1.rxMsg = g.rxMsg := canSendMsg_keeps g m due sr pc
    simp only [canptTask, hpc]
    refine h.move (hkeep.1 ▸ h.queue) hkeep.2 (by rw [hkeep.1]) ?_
    rw [List.map_append]
    exact hs
  | poll due =>
    simp only [TaskFacts, hpc] at ht
    simp only [canptTask, hpc]
    refine h.move h.queue rfl rfl ?_
    simp only [TaskFacts, List.append_nil]
    split_ifs
    · exact ht
    · exact ht
  | pollClock due =>
    simp only [TaskFacts, hpc] at ht
    simp only [canptTask, hpc]
    refine h.move h.queue rfl rfl ?_
    simp only [TaskFacts, List.append_nil]
    split_ifs
    · exact ht
    · exact ht
  | expired due =>
    simp only [TaskFacts, hpc] at ht
    simp only [canptTask, hpc]
    refine h.move h.queue rfl rfl ?_
    simp only [TaskFacts, List.append_nil]
    exact ht
  | fault => simp only [TaskFacts, hpc] at ht

theorem step_inv {handed : List (CanMsg × Bool)} {g : State} (h : Inv handed g) (e : Event) :
    Inv (handed ++ (step g e).2) (step g e).1 := by
  cases e with
  | irq icr1 icr2 can1 can2 =>
    simp only [step, List.append_nil]
    exact canIrqHandler_inv h icr1 icr2 can1 can2
  | tick sr gsr now => exact canptTask_inv h sr gsr now

theorem run_inv (can2 : Fin 3 → TxRegs) (es : List Event) :
    Inv (outputs step (powerUp can2) es) (after step (powerUp can2) es) := by
  have hrun := history_invariant (P := Inv) (C := fun _ _ => True)
    (fun h g e hg _ => step_inv hg e) (inv_powerUp can2) (along_trivial (powerUp can2) es)
  rwa [List.nil_append] at hrun

theorem Inv.returned_eq {handed : List (CanMsg × Bool)} {g : State} (h : Inv handed g) :
    g.traced.returned = handed.map Prod.fst ++ inHand g := by
  have ht := h.task
  simp only [TaskFacts] at ht
  simp only [inHand]
  cases hpc : g.pc <;> simp only [hpc] at ht ⊢
  case checked => rw [ht.2.2, List.append_nil]
  case deadline m => exact ht.returned
  case send m due pc => exact ht.1.returned
  all_goals rw [ht.2, List.append_nil]

theorem sent_of_success {handed : List (CanMsg × Bool)} (h : ∀ r ∈ handed, r.2 = true) :
    sent handed = handed.map Prod.fst := by
  rw [sent, List.filter_eq_self.mpr h]

/-- Every accepted frame has been handed to `CAN_SendMsg`, is in the hand of `canpt_task` or
is still queued, in this order and with all its fields. -/
theorem gateway_accounts (can2 : Fin 3 → TxRegs) (es : List Event) :
    let g := after step (powerUp can2) es
    let handed := outputs step (powerUp can2) es
    handed.map Prod.fst ++ inHand g ++ Queue.content g.traced.queue = g.traced.accepted ∧
      (inHand g).length ≤ 1 ∧ (g.pc = .out → inHand g = []) ∧
      ((∀ r ∈ handed, r.2 = true) → inHand g = [] →
        sent handed ++ Queue.content g.traced.queue = g.traced.accepted) := by
  intro g handed
  have h : Inv handed g := run_inv can2 es
  have hall : handed.map Prod.fst ++ inHand g ++ Queue.content g.traced.queue =
      g.traced.accepted := by
    rw [← h.returned_eq]
    exact h.queue.linked
  refine ⟨hall, ?_, fun hout => by simp only [inHand, hout], fun hok hnone => ?_⟩
  · simp only [inHand]
    split <;> simp
  · rw [sent_of_success hok, ← hall, hnone, List.append_nil]

def busyRun : List Event :=
  .irq 1 0 ⟨1, 0x00020000, 0x123, 0xBBAA, 0⟩ ⟨0, 0, 0, 0, 0⟩ ::
    List.replicate 11 (.tick 0 0 0)

theorem gateway_busy_drops :
    ¬ sent (outputs step (powerUp fun _ => ⟨0, 0, 0, 0⟩) busyRun) ++
        Queue.content (after step (powerUp fun _ => ⟨0, 0, 0, 0⟩) busyRun).traced.queue =
      (after step (powerUp fun _ => ⟨0, 0, 0, 0⟩) busyRun).traced.accepted := by
  decide

end AoaBoard.Can.Gateway
