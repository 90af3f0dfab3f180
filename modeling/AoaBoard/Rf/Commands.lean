import AoaBoard.Library.Bytes
import AoaBoard.Rf.Protocol

/-!
# The commands of a coordinator and their handlers on an end device

`route` is the `switch` of `xbeeData`: the handler that a frame is handed to and
its arguments. The commands share the first byte between the kind of the message
and a peripheral or an action, which the receiver takes apart again.
-/

namespace AoaBoard.Rf
open Library Library.Bytes Board

theorem slot_lt {id : UInt8} (h : 0 < id.toNat ∧ id.toNat ≤ maxNodes) :
    id.toNat - 1 < maxNodes := by
  omega

def getAddress (s : RfState) (id : UInt8) : Addr :=
  if h : 0 < id.toNat ∧ id.toNat ≤ maxNodes then (s.nodes ⟨id.toNat - 1, slot_lt h⟩).addr
  else noAddr

def rfGetValue (s : RfState) (id periphId : UInt8) : Except ErrorT Out :=
  .ok (.send (getAddress s id) [msgGet ||| periphId])

def rfGetTemperature (s : RfState) (id : UInt8) : Except ErrorT Out := rfGetValue s id msgDevTemp

def rfGetButton (s : RfState) (id : UInt8) : Except ErrorT Out := rfGetValue s id msgDevBtn

def rfGetLight (s : RfState) (id : UInt8) : Except ErrorT Out := rfGetValue s id msgDevLight

def rfSetRGB (s : RfState) (id mask on : UInt8) : Except ErrorT Out :=
  .ok (.send (getAddress s id) [msgSet ||| msgDevRgb, mask, on])

def rfSetLed (s : RfState) (id on : UInt8) : Except ErrorT Out :=
  .ok (.send (getAddress s id) [msgSet ||| msgDevLed, on])

def rfSubscribe (s : RfState) (id periphId subAct : UInt8) (valBuf : ℕ → UInt8) (len : UInt8) :
    Except ErrorT Out :=
  if periphId < msgDevTemp ∨ msgDevLed < periphId then .error .argument
  else if subAct < msgSubGte ∨ msgSubDif < subAct then .error .argument
  else if 4 < len then .error .argument
  else .ok (.send (getAddress s id) ((msgSub ||| subAct) :: periphId :: slice valBuf len.toNat))

def rfUnsubscribe (s : RfState) (id subId : UInt8) : Except ErrorT Out :=
  .ok (.send (getAddress s id) [msgUnsub, subId])

inductive Command
  | getTemperature
  | getButton
  | getLight
  | setRGB (mask on : UInt8)
  | setLed (on : UInt8)
  | subscribe (periphId subAct : UInt8) (valBuf : ℕ → UInt8) (len : UInt8)
  | unsubscribe (subId : UInt8)

def issue (s : RfState) (id : UInt8) : Command → Except ErrorT Out
  | .getTemperature => rfGetTemperature s id
  | .getButton => rfGetButton s id
  | .getLight => rfGetLight s id
  | .setRGB mask on => rfSetRGB s id mask on
  | .setLed on => rfSetLed s id on
  | .subscribe periphId subAct valBuf len => rfSubscribe s id periphId subAct valBuf len
  | .unsubscribe subId => rfUnsubscribe s id subId

inductive Handler
  | getValue (periphId : UInt8)
  | setValue (periphId : UInt8) (buf : ℕ → UInt8) (len : ℕ)
  | subscribeResponse (id : UInt8)
  | subscribe (action : UInt8) (buf : ℕ → UInt8) (len : ℕ)
  | unsubscribe (id : UInt8)
  | valueUpdate (periphId : UInt8) (buf : ℕ → UInt8) (len : ℕ)
  | pollResponse
  | poll
  | publish (buf : ℕ → UInt8) (len : UInt8)
  | discover

def perform (s : RfState) (src : Addr) (now : UInt32) (trimpot : UInt16) (port : UInt32) :
    Handler → RfState × List Out
  | .getValue periphId => (s, getValue src periphId trimpot port)
  | .setValue periphId buf len => (s, setValue periphId buf len)
  | .subscribeResponse id => (s, handleSubscribeResponse s src id)
  | .subscribe action buf len => handleSubscribe s src action buf len trimpot port
  | .unsubscribe id => (handleUnsubscribe s src id, [])
  | .valueUpdate periphId buf len => (s, handleValueUpdate s src periphId buf len)
  | .pollResponse => (handlePollResponse s src now, [])
  | .poll => (s, [sendPollResponse src])
  | .publish buf len => handlePublish s src buf len now
  | .discover => (s, [sendPublish src])

def route (coordinator : Bool) (buf : ℕ → UInt8) (len : UInt8) : Option Handler :=
  if len < 1 then none
  else if kind buf = msgGet then if coordinator then none else some (.getValue (device buf))
  else if kind buf = msgSet then
    if coordinator then none else some (.setValue (device buf) (payload buf) (len.toNat - 1))
  else if kind buf = msgSub then
    if buf 0 &&& 0xF0 = msgSubResp then some (.subscribeResponse (buf 1))
    else if coordinator then none
    else some (.subscribe (device buf) (payload buf) (len.toNat - 1))
  else if kind buf = msgUnsub then if coordinator then none else some (.unsubscribe (buf 1))
  else if kind buf = msgVal then some (.valueUpdate (device buf) (payload buf) (len.toNat - 1))
  else if kind buf = msgPoll then
    if buf 0 &&& msgPollResp ≠ 0 then some .pollResponse else some .poll
  else if kind buf = msgPublish then
    if coordinator then some (.publish (payload buf) (len - 1)) else none
  else if kind buf = msgDiscover then if coordinator then none else some .discover
  else none

theorem xbeeData_route (s : RfState) (src : Addr) (buf : ℕ → UInt8) (len : UInt8) (now : UInt32)
    (trimpot : UInt16) (port : UInt32) :
    xbeeData s src buf len now trimpot port =
      ((route s.isCoordinator buf len).map (perform s src now trimpot port)).getD (s, []) := by
  by_cases hlen : len < 1
  · simp only [xbeeData, route, hlen, if_true]
    rfl
  by_cases hknown : kind buf ∈ [msgGet, msgSet, msgSub, msgUnsub, msgVal, msgPoll, msgPublish,
      msgDiscover]
  · simp only [List.mem_cons, List.not_mem_nil, or_false, kind] at hknown
    rcases hknown with hk | hk | hk | hk | hk | hk | hk | hk
    · simp only [xbeeData, route, kind, if_neg hlen, hk]
      cases s.isCoordinator <;> rfl
    · simp only [xbeeData, route, kind, if_neg hlen, hk]
      cases s.isCoordinator <;> rfl
    · simp only [xbeeData, route, kind, if_neg hlen, hk]
      by_cases hresp : buf 0 &&& 0xF0 = msgSubResp
      · simp only [hresp, if_true]
        rfl
      · simp only [hresp, if_false]
        cases s.isCoordinator <;> rfl
    · simp only [xbeeData, route, kind, if_neg hlen, hk]
      cases s.isCoordinator <;> rfl
    · simp only [xbeeData, route, kind, if_neg hlen, hk]
      rfl
    · simp only [xbeeData, route, kind, if_neg hlen, hk]
      by_cases hresp : buf 0 &&& msgPollResp = 0
      · simp only [hresp, ne_eq, not_true_eq_false, if_false]
        rfl
      · simp only [hresp, ne_eq, not_false_iff, if_true]
        rfl
    · simp only [xbeeData, route, kind, if_neg hlen, hk]
      cases s.isCoordinator <;> rfl
    · simp only [xbeeData, route, kind, if_neg hlen, hk]
      cases s.isCoordinator <;> rfl
  · simp only [List.mem_cons, List.not_mem_nil, or_false, not_or, kind] at hknown
    obtain ⟨hget, hset, hsub, hunsub, hval, hpoll, hpublish, hdiscover⟩ := hknown
    simp only [xbeeData, route, kind, if_neg hlen, hget, hset, hsub, hunsub, hval, hpoll, hpublish,
      hdiscover, if_false]
    rfl

def Serves : Command → Handler → Prop
  | .getTemperature, .getValue periphId => periphId = msgDevTemp
  | .getButton, .getValue periphId => periphId = msgDevBtn
  | .getLight, .getValue periphId => periphId = msgDevLight
  | .setRGB mask on, .setValue periphId buf len =>
    periphId = msgDevRgb ∧ slice buf len = [mask, on]
  | .setLed on, .setValue periphId buf len => periphId = msgDevLed ∧ slice buf len = [on]
  | .subscribe periphId subAct valBuf len, .subscribe action buf n =>
    action = subAct ∧ slice buf n = periphId :: slice valBuf len.toNat
  | .unsubscribe subId, .unsubscribe id => id = subId
  | _, _ => False

/-- On every end device the frame is handed to a handler that serves the command. -/
def Delivered (c : Command) (data : List UInt8) : Prop :=
  ∀ (s : RfState) (src : Addr) (buf : ℕ → UInt8) (now : UInt32) (trimpot : UInt16) (port : UInt32),
    s.isCoordinator = false → slice buf data.length = data → ∃ h,
      route s.isCoordinator buf (UInt8.ofNat data.length) = some h ∧ Serves c h ∧
      xbeeData s src buf (UInt8.ofNat data.length) now trimpot port =
        perform s src now trimpot port h

/-- The action of a subscription leaves the bits free that hold the kind of the message. -/
def PlainAction : Command → Prop
  | .subscribe _ subAct _ _ => subAct &&& 0x0F = 0
  | _ => True

theorem delivered_of_route {c : Command} {data : List UInt8}
    (h : ∀ buf : ℕ → UInt8, slice buf data.length = data → ∃ h,
      route false buf (UInt8.ofNat data.length) = some h ∧ Serves c h) : Delivered c data := by
  intro s src buf now trimpot port hdev hbuf
  obtain ⟨hd, hroute, hserves⟩ := h buf hbuf
  refine ⟨hd, hdev ▸ hroute, hserves, ?_⟩
  rw [xbeeData_route, hdev, hroute]
  rfl

theorem frame_bytes {buf : ℕ → UInt8} {b : UInt8} {rest : List UInt8}
    (h : slice buf (b :: rest).length = b :: rest) :
    buf 0 = b ∧ slice (payload buf) rest.length = rest := by
  rw [List.length_cons, slice_cons] at h
  exact ⟨(List.cons.inj h).1, (List.cons.inj h).2⟩

section Routes
variable {buf : ℕ → UInt8} {len : UInt8}

theorem route_get (hlen : ¬ len < 1) (hk : kind buf = msgGet) :
    route false buf len = some (.getValue (device buf)) := by
  simp only [route, if_neg hlen, hk]
  rfl

theorem route_set (hlen : ¬ len < 1) (hk : kind buf = msgSet) :
    route false buf len = some (.setValue (device buf) (payload buf) (len.toNat - 1)) := by
  simp only [route, if_neg hlen, hk]
  rfl

theorem route_sub (hlen : ¬ len < 1) (hk : kind buf = msgSub) (hreq : buf 0 &&& 0xF0 ≠ msgSubResp) :
    route false buf len = some (.subscribe (device buf) (payload buf) (len.toNat - 1)) := by
  simp only [route, if_neg hlen, hk, if_neg hreq]
  rfl

theorem route_unsub (hlen : ¬ len < 1) (hk : kind buf = msgUnsub) :
    route false buf len = some (.unsubscribe (buf 1)) := by
  simp only [route, if_neg hlen, hk]
  rfl

theorem action_of_route {action : UInt8} {b : ℕ → UInt8} {n : ℕ} {coordinator : Bool}
    (h : route coordinator buf len = some (.subscribe action b n)) : action = device buf := by
  rw [route] at h
  by_cases hlen : len < 1
  · rw [if_pos hlen] at h
    cases h
  rw [if_neg hlen] at h
  by_cases hget : kind buf = msgGet
  · rw [if_pos hget] at h
    cases coordinator <;> cases h
  rw [if_neg hget] at h
  by_cases hset : kind buf = msgSet
  · rw [if_pos hset] at h
    cases coordinator <;> cases h
  rw [if_neg hset] at h
  by_cases hsub : kind buf = msgSub
  · rw [if_pos hsub] at h
    by_cases hresp : buf 0 &&& 0xF0 = msgSubResp
    · rw [if_pos hresp] at h
      cases h
    · rw [if_neg hresp] at h
      cases coordinator <;> cases h
      rfl
  rw [if_neg hsub] at h
  by_cases hunsub : kind buf = msgUnsub
  · rw [if_pos hunsub] at h
    cases coordinator <;> cases h
  rw [if_neg hunsub] at h
  by_cases hval : kind buf = msgVal
  · rw [if_pos hval] at h
    cases h
  rw [if_neg hval] at h
  by_cases hpoll : kind buf = msgPoll
  · rw [if_pos hpoll] at h
    by_cases hresp : buf 0 &&& msgPollResp ≠ 0
    · rw [if_pos hresp] at h
      cases h
    · rw [if_neg hresp] at h
      cases h
  rw [if_neg hpoll] at h
  by_cases hpublish : kind buf = msgPublish
  · rw [if_pos hpublish] at h
    cases coordinator <;> cases h
  rw [if_neg hpublish] at h
  by_cases hdiscover : kind buf = msgDiscover
  · rw [if_pos hdiscover] at h
    cases coordinator <;> cases h
  · rw [if_neg hdiscover] at h
    cases h

end Routes

theorem get_delivered {c : Command} {dev : UInt8} (hkind : (msgGet ||| dev) &&& 0x0F = msgGet)
    (hdev : (msgGet ||| dev) &&& msgDevMask = dev) (hserves : Serves c (.getValue dev)) :
    Delivered c [msgGet ||| dev] := by
  refine delivered_of_route fun buf hbuf => ⟨.getValue (device buf), ?_, ?_⟩
  · refine route_get (show ¬ (1 : UInt8) < 1 by decide) ?_
    rw [kind, (frame_bytes hbuf).1, hkind]
  · rw [device, (frame_bytes hbuf).1, hdev]
    exact hserves

theorem set_delivered {c : Command} {dev : UInt8} {value : List UInt8}
    (hkind : (msgSet ||| dev) &&& 0x0F = msgSet) (hdev : (msgSet ||| dev) &&& msgDevMask = dev)
    (hlen : value.length < 255)
    (hserves : ∀ buf n, slice buf n = value → Serves c (.setValue dev buf n)) :
    Delivered c ((msgSet ||| dev) :: value) := by
  refine delivered_of_route fun buf hbuf => ?_
  obtain ⟨hfirst, hvalue⟩ := frame_bytes hbuf
  have hcount : (UInt8.ofNat ((msgSet ||| dev) :: value).length).toNat = value.length + 1 := by
    rw [List.length_cons, UInt8.toNat_ofNat']
    omega
  refine ⟨.setValue (device buf) (payload buf)
    ((UInt8.ofNat ((msgSet ||| dev) :: value).length).toNat - 1), route_set ?_ ?_, ?_⟩
  · rw [UInt8.lt_iff_toNat_lt, hcount]
    exact Nat.not_lt.mpr (Nat.le_add_left 1 _)
  · rw [kind, hfirst, hkind]
  · rw [device, hfirst, hdev, hcount, Nat.add_sub_cancel]
    exact hserves _ _ hvalue

theorem plain_action : ∀ subAct : UInt8, subAct ≤ msgSubDif → subAct &&& 0x0F = 0 →
    (msgSub ||| subAct) &&& 0x0F = msgSub ∧ (msgSub ||| subAct) &&& 0xF0 = subAct ∧
      (msgSub ||| subAct) &&& 0xF0 ≠ msgSubResp :=
  forall_byte (by decide +kernel)

theorem action_masked : ∀ b : UInt8, (b &&& msgDevMask) &&& 0x0F = 0 :=
  forall_byte (by decide +kernel)

theorem subscribe_delivered_iff {periphId subAct : UInt8} (valBuf : ℕ → UInt8) {len : UInt8}
    (hmax : subAct ≤ msgSubDif) (hlen : len ≤ 4) :
    Delivered (.subscribe periphId subAct valBuf len)
      ((msgSub ||| subAct) :: periphId :: slice valBuf len.toNat) ↔ subAct &&& 0x0F = 0 := by
  constructor
  · intro hdelivered
    obtain ⟨h, hroute, hserves, -⟩ :=
      hdelivered { powerUp with isCoordinator := false } noAddr _ 0 0 0 rfl (slice_ofList _)
    cases h with
    | subscribe action buf n =>
      rw [← hserves.1, action_of_route hroute]
      exact action_masked _
    | _ => exact hserves.elim
  · intro hplain
    obtain ⟨hkind, hact, hreq⟩ := plain_action subAct hmax hplain
    have hsmall : len.toNat ≤ 4 := by simpa [UInt8.le_iff_toNat_le] using hlen
    refine delivered_of_route fun buf hbuf => ?_
    obtain ⟨hfirst, hvalue⟩ := frame_bytes hbuf
    have hcount : (UInt8.ofNat ((msgSub ||| subAct) :: periphId ::
        slice valBuf len.toNat).length).toNat = len.toNat + 2 := by
      rw [List.length_cons, List.length_cons, slice_length, UInt8.toNat_ofNat']
      omega
    refine ⟨_, route_sub ?_ ?_ ?_, ?_, ?_⟩
    · rw [UInt8.lt_iff_toNat_lt, hcount]
      exact Nat.not_lt.mpr (Nat.le_add_left 1 _)
    · rw [kind, hfirst, hkind]
    · rw [hfirst]
      exact hreq
    · rw [device, hfirst]
      exact hact
    · rw [hcount]
      rw [List.length_cons, slice_length] at hvalue
      exact hvalue

/-- A command that is accepted reaches the handler of the same operation with the same
arguments, and no other, if and only if it is not a subscription whose action uses the bits
that hold the kind of the message. -/
theorem commands_delivered_iff (s : RfState) (id : UInt8) (c : Command) {dst : Addr}
    {data : List UInt8} (h : issue s id c = .ok (.send dst data)) :
    Delivered c data ↔ PlainAction c := by
  cases c with
  | getTemperature =>
    cases h
    exact iff_of_true (get_delivered (by decide) (by decide) rfl) trivial
  | getButton =>
    cases h
    exact iff_of_true (get_delivered (by decide) (by decide) rfl) trivial
  | getLight =>
    cases h
    exact iff_of_true (get_delivered (by decide) (by decide) rfl) trivial
  | setRGB mask on =>
    cases h
    refine iff_of_true (set_delivered (by decide) (by decide) ?_ fun _ _ hv => ⟨rfl, hv⟩) trivial
    exact (by decide : 2 < 255)
  | setLed on =>
    cases h
    refine iff_of_true (set_delivered (by decide) (by decide) ?_ fun _ _ hv => ⟨rfl, hv⟩) trivial
    exact (by decide : 1 < 255)
  | subscribe periphId subAct valBuf len =>
    simp only [issue, rfSubscribe] at h
    split_ifs at h with hperiph hact hlen
    cases h
    exact subscribe_delivered_iff valBuf (UInt8.not_lt.mp fun hlt => hact (Or.inr hlt))
      (UInt8.not_lt.mp hlen)
  | unsubscribe subId =>
    cases h
    refine iff_of_true (delivered_of_route fun buf hbuf => ?_) trivial
    obtain ⟨hfirst, hrest⟩ := frame_bytes hbuf
    refine ⟨.unsubscribe (buf 1), route_unsub (show ¬ (2 : UInt8) < 1 by decide) ?_, ?_⟩
    · rw [kind, hfirst]
      rfl
    · exact apply_of_slice hbuf rfl

theorem commands_delivered_subscribe :
    Delivered (.subscribe msgDevTemp msgSubDif (ofList [0, 50]) 2)
      [msgSub ||| msgSubDif, msgDevTemp, 0, 50] := by
  have hsent : issue powerUp 1 (.subscribe msgDevTemp msgSubDif (ofList [0, 50]) 2) =
      .ok (.send noAddr [msgSub ||| msgSubDif, msgDevTemp, 0, 50]) := rfl
  exact (commands_delivered_iff powerUp 1 _ hsent).mpr rfl

/-- The action `0x14` turns the subscription into a publish message, which the end device
ignores. -/
theorem mixed_action_lost :
    issue powerUp 1 (.subscribe msgDevTemp 0x14 (ofList [0, 50]) 2) =
        .ok (.send noAddr [0x17, msgDevTemp, 0, 50]) ∧
      ¬ Delivered (.subscribe msgDevTemp 0x14 (ofList [0, 50]) 2) [0x17, msgDevTemp, 0, 50] := by
  refine ⟨rfl, fun hdelivered => ?_⟩
  obtain ⟨h, hroute, -⟩ := hdelivered powerUp noAddr (ofList [0x17, msgDevTemp, 0, 50]) 0 0 0 rfl
    (slice_ofList _)
  have hnone : route false (ofList [0x17, msgDevTemp, 0, 50]) 4 = none := by rfl
  cases hnone.symm.trans hroute

end AoaBoard.Rf
