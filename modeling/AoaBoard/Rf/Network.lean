import AoaBoard.Library.Network
import AoaBoard.Rf.Addressing
import AoaBoard.Rf.Capabilities
import AoaBoard.Rf.Triggers

/-!
# A network of coordinators and end devices

Any number of boards run the RF protocol, each under an address of its own. A
frame reaches the board it is addressed to, or every board if it is broadcast,
at any time and any number of times or not at all. The application of a board
may call the functions of `rfpt.h`, and a board may be started again with any
memory. A log records every step. `Sound` boards and `Good` messages refer to
it: who is in a node table, who is in a subscription table and why, and what a
message says about its sender.
-/

namespace AoaBoard.Rf.Network
open Library Library.Run Library.Bytes Library.Network Board

variable {ι : Type*}

structure Message where
  src : Addr
  dst : Addr
  data : List UInt8

inductive Action
  | radio (e : Input)
  | command (id : UInt8) (c : Command)
  | restart (memory : RfState) (cb : Callb)

structure Boards (ι : Type*) where
  addr : ι → Addr
  coordinator : ι → Bool
  distinct : Function.Injective addr
  ne_noAddr : ∀ i, addr i ≠ noAddr
  ne_broadcast : ∀ i, addr i ≠ broadcast

variable (B : Boards ι)

def react (i : ι) (s : RfState) : Action → RfState × List Out
  | .radio e => step s e
  | .command id c =>
    match issue s id c with
    | .ok o => (s, [o])
    | .error _ => (s, [])
  | .restart memory cb => (rfInit memory (B.coordinator i) cb, [])

def sent (i : ι) : Out → Option Message
  | .send dst data => some ⟨B.addr i, dst, data⟩
  | _ => none

def Own (a : Action) : Prop :=
  match a with
  | .radio (.frame ..) => False
  | _ => True

/-- The frame in memory holds the message; what lies behind it is arbitrary. -/
def Brings (i : ι) (m : Message) (a : Action) : Prop :=
  match a with
  | .radio (.frame src buf len _ _ _) => src = m.src ∧ (m.dst = B.addr i ∨ m.dst = broadcast) ∧
      len = UInt8.ofNat m.data.length ∧ slice buf m.data.length = m.data
  | _ => False

def system : System ι RfState Action Message Out where
  react := react B
  sent := sent B
  own := fun _ => Own
  carries := Brings B

abbrev Log (ι : Type*) := List (Record ι RfState Action Out)

def start (m : ι → RfState) (cb : ι → Callb) : Net ι RfState Message where
  party := fun i => rfInit (m i) (B.coordinator i) (cb i)
  air := []

def capabilities : List UInt8 := [msgDevBtn, msgDevRgb, msgDevTemp, msgDevLed]

/-- The board was given the sample in an input that it has handled. -/
def Sampled (h : Log ι) (i : ι) (v : UInt16) : Prop :=
  ∃ r ∈ h, r.party = i ∧
    ((∃ rd k, r.input = .radio (.task rd) ∧ rd.sent k = v) ∨
      ∃ src buf len now port, r.input = .radio (.frame src buf len now v port))

def ReadPort (h : Log ι) (i : ι) (port : UInt32) : Prop :=
  ∃ r ∈ h, r.party = i ∧
    ((∃ rd k, r.input = .radio (.task rd) ∧ rd.sentPort k = port) ∨
      ∃ src buf len now v, r.input = .radio (.frame src buf len now v port))

def Issued (h : Log ι) (i : ι) (dst : Addr) (c : Command) : Prop :=
  ∃ r ∈ h, r.party = i ∧ ∃ id, r.input = .command id c ∧ getAddress r.before id = dst

/-- The entry carries what the subscription asks for; a threshold of a temperature takes two
bytes. -/
def Asked (sub : Sub) (periphId subAct : UInt8) (valBuf : ℕ → UInt8) (len : UInt8) : Prop :=
  sub.periphId = periphId ∧ sub.act = subAct &&& 0xF0 ∧
    (periphId = msgDevTemp → 2 ≤ len.toNat → sub.value = threshold (valBuf 0) (valBuf 1)) ∧
    (periphId = msgDevBtn → sub.value = (valBuf 0).toUInt32)

def Subscribed (h : Log ι) (d : ι) (sub : Sub) : Prop :=
  ∃ c periphId subAct valBuf len, sub.addr = B.addr c ∧
    Issued h c (B.addr d) (.subscribe periphId subAct valBuf len) ∧
      Asked sub periphId subAct valBuf len

def Registered (h : Log ι) (i : ι) (dst : Addr) (k : Fin maxSubs) : Prop :=
  ∃ r ∈ h, r.party = i ∧ (r.after.subscribers k).addr = dst ∧
    Subscribed B h i (r.after.subscribers k)

def commandData : Command → List UInt8
  | .getTemperature => [msgGet ||| msgDevTemp]
  | .getButton => [msgGet ||| msgDevBtn]
  | .getLight => [msgGet ||| msgDevLight]
  | .setRGB mask on => [msgSet ||| msgDevRgb, mask, on]
  | .setLed on => [msgSet ||| msgDevLed, on]
  | .subscribe periphId subAct valBuf len =>
    (msgSub ||| subAct) :: periphId :: slice valBuf len.toNat
  | .unsubscribe subId => [msgUnsub, subId]

/-- What the protocol and its application put into the air. A command goes to an end device,
or to `0:0` where no node is attached under the id. -/
inductive Honest (h : Log ι) (i : ι) (dst : Addr) : List UInt8 → Prop
  | publish (hdev : B.coordinator i = false) : Honest h i dst (msgPublish :: capabilities)
  | poll : Honest h i dst [msgPoll]
  | pollResponse : Honest h i dst [msgPoll ||| msgPollResp]
  | discover : Honest h i dst [msgDiscover]
  | temperature (v : UInt16) (hdev : B.coordinator i = false) (hv : Sampled h i v) :
      Honest h i dst [msgVal ||| msgDevTemp, ((v >>> 8) &&& 0xff).toUInt8, (v &&& 0xff).toUInt8]
  | button (port : UInt32) (hdev : B.coordinator i = false) (hport : ReadPort h i port) :
      Honest h i dst [msgVal ||| msgDevBtn, btnGet port &&& btnSw2]
  | subscribed (k : Fin maxSubs) (hdev : B.coordinator i = false) (hdst : ∃ c, dst = B.addr c)
      (hk : Registered B h i dst k) : Honest h i dst [msgSub ||| msgSubResp, subId k]
  | command (c : Command) (hc : Issued h i dst c) (hgood : ¬ BadArguments c)
      (hdst : dst = noAddr ∨ ∃ d, B.coordinator d = false ∧ dst = B.addr d) :
      Honest h i dst (commandData c)

def Good (h : Log ι) (m : Message) : Prop :=
  ∃ i, m.src = B.addr i ∧ Honest B h i m.dst m.data

def Member (n : Node) : Prop :=
  ∃ d, B.coordinator d = false ∧ n.addr = B.addr d ∧ Capabilities.Holds n capabilities

structure Sound (h : Log ι) (i : ι) (s : RfState) : Prop where
  role : s.isCoordinator = B.coordinator i
  nodes : ∀ k, (s.nodes k).addr ≠ noAddr → B.coordinator i = true ∧ Member B (s.nodes k)
  subs : ∀ k, (s.subscribers k).addr ≠ noAddr →
    B.coordinator i = false ∧ Subscribed B h i (s.subscribers k)

section Monotone
variable {B} {h h' : Log ι} {i d : ι} {dst : Addr}

theorem Sampled.mono (hsub : h ⊆ h') {v : UInt16} (hv : Sampled h i v) : Sampled h' i v := by
  obtain ⟨r, hr, hrest⟩ := hv
  exact ⟨r, hsub hr, hrest⟩

theorem ReadPort.mono (hsub : h ⊆ h') {port : UInt32} (hp : ReadPort h i port) :
    ReadPort h' i port := by
  obtain ⟨r, hr, hrest⟩ := hp
  exact ⟨r, hsub hr, hrest⟩

theorem Issued.mono (hsub : h ⊆ h') {c : Command} (hc : Issued h i dst c) :
    Issued h' i dst c := by
  obtain ⟨r, hr, hrest⟩ := hc
  exact ⟨r, hsub hr, hrest⟩

theorem Subscribed.mono (hsub : h ⊆ h') {sub : Sub} (hs : Subscribed B h d sub) :
    Subscribed B h' d sub := by
  obtain ⟨c, periphId, subAct, valBuf, len, haddr, hissued, hasked⟩ := hs
  exact ⟨c, periphId, subAct, valBuf, len, haddr, hissued.mono hsub, hasked⟩

theorem Registered.mono (hsub : h ⊆ h') {k : Fin maxSubs} (hk : Registered B h i dst k) :
    Registered B h' i dst k := by
  obtain ⟨r, hr, hparty, haddr, hs⟩ := hk
  exact ⟨r, hsub hr, hparty, haddr, hs.mono hsub⟩

theorem Honest.mono (hsub : h ⊆ h') {data : List UInt8} (hdata : Honest B h i dst data) :
    Honest B h' i dst data := by
  cases hdata with
  | publish hdev => exact .publish hdev
  | poll => exact .poll
  | pollResponse => exact .pollResponse
  | discover => exact .discover
  | temperature v hdev hv => exact .temperature v hdev (hv.mono hsub)
  | button port hdev hport => exact .button port hdev (hport.mono hsub)
  | subscribed k hdev hdst hk => exact .subscribed k hdev hdst (hk.mono hsub)
  | command c hc hgood hdst => exact .command c (hc.mono hsub) hgood hdst

theorem Sound.mono (hsub : h ⊆ h') {s : RfState} (hs : Sound B h i s) : Sound B h' i s where
  role := hs.role
  nodes := hs.nodes
  subs k hk := ⟨(hs.subs k hk).1, (hs.subs k hk).2.mono hsub⟩

end Monotone

theorem issue_eq {s : RfState} {id : UInt8} {c : Command} {o : Out} (h : issue s id c = .ok o) :
    ¬ BadArguments c ∧ o = .send (getAddress s id) (commandData c) := by
  rcases issue_cases s id c with ⟨-, herr⟩ | ⟨hgood, -⟩
  · rw [herr] at h
    cases h
  · refine ⟨hgood, ?_⟩
    cases c with
    | subscribe periphId subAct valBuf len =>
      simp only [BadArguments, not_or] at hgood
      obtain ⟨hperiph, hact, hlen⟩ := hgood
      simp only [issue, rfSubscribe, not_or.mpr hperiph, not_or.mpr hact, hlen, if_false] at h
      exact (Except.ok.inj h).symm
    | _ => exact (Except.ok.inj h).symm

inductive Answer (s' : RfState) (src : Addr) (trimpot : UInt16) (port : UInt32) :
    Bool → List UInt8 → Prop
  | publish : Answer s' src trimpot port false (msgPublish :: capabilities)
  | pollResponse (coordinator : Bool) :
      Answer s' src trimpot port coordinator [msgPoll ||| msgPollResp]
  | temperature : Answer s' src trimpot port false
      [msgVal ||| msgDevTemp, ((trimpot >>> 8) &&& 0xff).toUInt8, (trimpot &&& 0xff).toUInt8]
  | button : Answer s' src trimpot port false [msgVal ||| msgDevBtn, btnGet port &&& btnSw2]
  | subscribed (k : Fin maxSubs) (hk : (s'.subscribers k).addr = src) :
      Answer s' src trimpot port false [msgSub ||| msgSubResp, subId k]

section Frames
variable (s : RfState) (src : Addr) (buf : ℕ → UInt8) (len : UInt8) (now : UInt32)
  (trimpot : UInt16) (port : UInt32)

theorem getValue_answers {s' : RfState} {periphId : UInt8} {dst : Addr} {data : List UInt8}
    (h : .send dst data ∈ getValue src periphId trimpot port) :
    dst = src ∧ Answer s' src trimpot port false data := by
  simp only [getValue] at h
  split_ifs at h
  · obtain ⟨rfl, rfl⟩ := Out.send.inj (List.mem_singleton.mp h)
    exact ⟨rfl, .temperature⟩
  · obtain ⟨rfl, rfl⟩ := Out.send.inj (List.mem_singleton.mp h)
    exact ⟨rfl, .button⟩
  · simp at h

theorem setValue_silent {periphId : UInt8} {buf : ℕ → UInt8} {len : ℕ} {dst : Addr}
    {data : List UInt8} : .send dst data ∉ setValue periphId buf len := by
  simp only [setValue]
  split_ifs <;> simp

theorem handleSubscribe_answers_sent {action : UInt8} {buf : ℕ → UInt8} {len : ℕ} {dst : Addr}
    {data : List UInt8}
    (h : .send dst data ∈ (handleSubscribe s src action buf len trimpot port).2) :
    dst = src ∧ Answer (handleSubscribe s src action buf len trimpot port).1 src trimpot port false
      data := by
  rcases handleSubscribe_cases s src action buf len trimpot port with heq | ⟨q, -, hcases⟩
  · rw [heq] at h
    simp at h
  · rcases hcases with ⟨k, hcarries, heq⟩ | ⟨k, -, -, heq⟩
    · rw [heq] at h ⊢
      obtain ⟨rfl, rfl⟩ := Out.send.inj (List.mem_singleton.mp h)
      exact ⟨rfl, .subscribed k hcarries.1⟩
    · rw [heq] at h ⊢
      obtain ⟨rfl, rfl⟩ := Out.send.inj (List.mem_singleton.mp h)
      exact ⟨rfl, .subscribed k (by simp [added])⟩

theorem handleSubscribeResponse_silent {id : UInt8} {dst : Addr} {data : List UInt8} :
    .send dst data ∉ handleSubscribeResponse s src id := by
  intro h
  obtain ⟨i, -, heq⟩ := handleSubscribeResponse_outputs s src id _ h
  cases heq

theorem handleValueUpdate_silent {periphId : UInt8} {buf : ℕ → UInt8} {len : ℕ} {dst : Addr}
    {data : List UInt8} : .send dst data ∉ handleValueUpdate s src periphId buf len := by
  intro h
  obtain ⟨i, -, heq⟩ := handleValueUpdate_outputs s src periphId buf len _ h
  cases heq

theorem handlePublish_silent {buf : ℕ → UInt8} {len : UInt8} {dst : Addr} {data : List UInt8} :
    .send dst data ∉ (handlePublish s src buf len now).2 := by
  intro h
  obtain ⟨i, heq⟩ := handlePublish_outputs s src buf len now _ h
  cases heq

def OfDevice : Handler → Prop
  | .getValue _ | .setValue _ _ _ | .subscribe _ _ _ | .unsubscribe _ | .discover => True
  | _ => False

theorem route_coordinator {hd : Handler} (h : route true buf len = some hd) : ¬ OfDevice hd := by
  simp only [route] at h
  split_ifs at h <;> obtain rfl := Option.some.inj h <;> exact id

theorem xbeeData_answers {dst : Addr} {data : List UInt8}
    (h : .send dst data ∈ (xbeeData s src buf len now trimpot port).2) :
    dst = src ∧
      Answer (xbeeData s src buf len now trimpot port).1 src trimpot port s.isCoordinator data := by
  rw [xbeeData_route] at h ⊢
  cases hroute : route s.isCoordinator buf len with
  | none =>
    rw [hroute] at h
    simp at h
  | some hd =>
    have hdevice : OfDevice hd → s.isCoordinator = false := by
      intro hdev
      cases hrole : s.isCoordinator with
      | false => rfl
      | true => exact absurd hdev (route_coordinator buf len (hrole ▸ hroute))
    rw [hroute] at h
    simp only [Option.map_some, Option.getD_some] at h ⊢
    cases hd with
    | getValue periphId =>
      rw [hdevice trivial]
      exact getValue_answers src trimpot port h
    | setValue periphId b n => exact absurd h setValue_silent
    | subscribeResponse id => exact absurd h (handleSubscribeResponse_silent s src)
    | subscribe action b n =>
      rw [hdevice trivial]
      exact handleSubscribe_answers_sent s src trimpot port h
    | unsubscribe id => simp [perform] at h
    | valueUpdate periphId b n => exact absurd h (handleValueUpdate_silent s src)
    | pollResponse => simp [perform] at h
    | poll =>
      obtain ⟨rfl, rfl⟩ := Out.send.inj (List.mem_singleton.mp h)
      exact ⟨rfl, .pollResponse _⟩
    | publish b n => exact absurd h (handlePublish_silent s src now)
    | discover =>
      rw [hdevice trivial]
      obtain ⟨rfl, rfl⟩ := Out.send.inj (List.mem_singleton.mp h)
      exact ⟨rfl, .publish⟩

theorem frame_nodes (k : Fin maxNodes) :
    let n := (xbeeData s src buf len now trimpot port).1.nodes k
    (n.addr = (s.nodes k).addr ∧ n.caps = (s.nodes k).caps ∧ n.numCaps = (s.nodes k).numCaps) ∨
      Publishes s buf len ∧ n = attachNode (s.nodes k) src (payload buf) (len - 1) now := by
  intro n
  have hhandled := xbeeData_handled s src buf len now trimpot port
  simp only [n]
  generalize xbeeData s src buf len now trimpot port = res at hhandled
  cases hhandled with
  | quiet _ => exact Or.inl ⟨rfl, rfl, rfl⟩
  | subResponse _ => exact Or.inl ⟨rfl, rfl, rfl⟩
  | value _ => exact Or.inl ⟨rfl, rfl, rfl⟩
  | subscribe _ =>
    have hnodes := (handleSubscribe_sameNodes s src (device buf) (payload buf) (len.toNat - 1)
      trimpot port).1.nodes
    exact Or.inl (by rw [hnodes]; exact ⟨rfl, rfl, rfl⟩)
  | unsubscribe _ =>
    have hnodes := (handleUnsubscribe_sameNodes s src (buf 1)).nodes
    exact Or.inl (by rw [hnodes]; exact ⟨rfl, rfl, rfl⟩)
  | pollResponse _ =>
    left
    simp only [handlePollResponse]
    split
    · rename_i j hj
      by_cases hkj : k = j
      · subst hkj
        simp only [Function.update_self, and_self]
      · simp only [Function.update_of_ne hkj, and_self]
    · exact ⟨rfl, rfl, rfl⟩
  | publish hk =>
    rcases handlePublish_cases s src (payload buf) (len - 1) now with h | ⟨j, -, -, -, h⟩
    · rw [h]
      exact Or.inl ⟨rfl, rfl, rfl⟩
    · rw [h]
      by_cases hkj : k = j
      · subst hkj
        exact Or.inr ⟨hk, Function.update_self _ _ _⟩
      · simp only [Function.update_of_ne hkj, and_self, true_or]

theorem frame_subs (k : Fin maxSubs) :
    let sub := (xbeeData s src buf len now trimpot port).1.subscribers k
    sub = s.subscribers k ∨ sub.addr = noAddr ∨
      Subscribes s buf len ∧ 2 ≤ len.toNat - 1 ∧ ∃ q,
        subRequest (payload buf) trimpot port = some q ∧
          sub = ⟨src, q.pId, device buf, q.value, q.cval⟩ := by
  intro sub
  have hhandled := xbeeData_handled s src buf len now trimpot port
  simp only [sub]
  generalize xbeeData s src buf len now trimpot port = res at hhandled
  cases hhandled with
  | subscribe hk =>
    by_cases hshort : len.toNat - 1 < 2
    · rw [handleSubscribe, if_pos hshort]
      exact Or.inl rfl
    rcases handleSubscribe_cases s src (device buf) (payload buf) (len.toNat - 1) trimpot port with
      h | ⟨q, hq, ⟨j, -, h⟩ | ⟨j, -, -, h⟩⟩
    · rw [h]
      exact Or.inl rfl
    · rw [h]
      exact Or.inl rfl
    · rw [h]
      by_cases hkj : k = j
      · subst hkj
        exact Or.inr (Or.inr ⟨hk, not_lt.mp hshort, q, hq, Function.update_self _ _ _⟩)
      · exact Or.inl (Function.update_of_ne hkj _ _)
  | unsubscribe _ =>
    rcases handleUnsubscribe_cases s src (buf 1) with h | ⟨j, -, h⟩
    · rw [h]
      exact Or.inl rfl
    · rw [h]
      by_cases hkj : k = j
      · subst hkj
        simp only [removed, Function.update_self, true_or, or_true]
      · exact Or.inl (Function.update_of_ne hkj _ _)
  | pollResponse _ => exact Or.inl (by rw [(handlePollResponse_subs s src now).2])
  | publish _ => exact Or.inl (by rw [(handlePublish_subs s src (payload buf) (len - 1) now).2])
  | _ => exact Or.inl rfl

end Frames

section Messages
variable {B} {h : Log ι} {i j : ι} {s : RfState} {buf : ℕ → UInt8} {len : UInt8} {dst : Addr}
  {data : List UInt8}

theorem command_reaches (hdst : dst = noAddr ∨ ∃ d, B.coordinator d = false ∧ dst = B.addr d)
    (hheard : dst = B.addr i ∨ dst = broadcast) : B.coordinator i = false ∧ dst = B.addr i := by
  rcases hdst with rfl | ⟨d, hdev, rfl⟩
  · rcases hheard with heq | heq
    · exact absurd heq.symm (B.ne_noAddr i)
    · exact absurd heq (by decide)
  · rcases hheard with heq | heq
    · obtain rfl := B.distinct heq
      exact ⟨hdev, rfl⟩
    · exact absurd heq (B.ne_broadcast d)

theorem Honest.of_publishes (hdata : Honest B h j dst data) (hbuf : slice buf data.length = data)
    (hheard : dst = B.addr i ∨ dst = broadcast) (hrole : s.isCoordinator = B.coordinator i)
    (hk : Publishes s buf len) : B.coordinator j = false ∧ data = msgPublish :: capabilities := by
  obtain ⟨-, hkind, hcoord⟩ := hk
  rw [kind] at hkind
  cases hdata with
  | publish hdev => exact ⟨hdev, rfl⟩
  | command c _ _ hdst =>
    have hdev := (command_reaches hdst hheard).1
    rw [← hrole, hcoord] at hdev
    cases hdev
  | _ =>
    rw [(frame_bytes hbuf).1] at hkind
    exact absurd hkind (by decide)

theorem Honest.of_subscribes (hdata : Honest B h j dst data) (hbuf : slice buf data.length = data)
    (hheard : dst = B.addr i ∨ dst = broadcast) (hk : Subscribes s buf len) :
    dst = B.addr i ∧ ∃ periphId subAct valBuf n,
      Issued h j dst (.subscribe periphId subAct valBuf n) ∧
      n.toNat ≤ 4 ∧ data = (msgSub ||| subAct) :: periphId :: slice valBuf n.toNat := by
  obtain ⟨-, hkind, hreq, -⟩ := hk
  rw [kind] at hkind
  cases hdata with
  | subscribed k _ _ _ =>
    rw [(frame_bytes hbuf).1] at hreq
    exact absurd (by decide) hreq
  | command c hc hgood hdst =>
    have hdst := (command_reaches hdst hheard).2
    cases c with
    | subscribe periphId subAct valBuf n =>
      simp only [BadArguments, not_or] at hgood
      have hle : n.toNat ≤ 4 := by simpa [UInt8.lt_iff_toNat_lt] using hgood.2.2
      exact ⟨hdst, periphId, subAct, valBuf, n, hc, hle, rfl⟩
    | _ =>
      rw [(frame_bytes hbuf).1] at hkind
      exact absurd hkind (by decide)
  | _ =>
    rw [(frame_bytes hbuf).1] at hkind
    exact absurd hkind (by decide)

theorem payload_bytes {k n : ℕ} {f : ℕ → UInt8} (hbuf : slice buf n = slice f n) (hk : k < n) :
    buf k = f k := by
  have hget := congrArg (fun l : List UInt8 => l[k]?) hbuf
  simpa [slice, hk] using hget

theorem action_byte : ∀ subAct : UInt8, (msgSub ||| subAct) &&& msgDevMask = subAct &&& 0xF0 :=
  forall_byte (by decide +kernel)

theorem asked_of_request {periphId subAct : UInt8} {valBuf : ℕ → UInt8} {n : UInt8}
    {trimpot : UInt16} {port : UInt32} {q : Request} {src : Addr}
    (hdata : data = (msgSub ||| subAct) :: periphId :: slice valBuf n.toNat)
    (hbuf : slice buf data.length = data) (hn : n.toNat ≤ 4)
    (hlen : len = UInt8.ofNat data.length) (hlong : 2 ≤ len.toNat - 1)
    (hq : subRequest (payload buf) trimpot port = some q) :
    Asked ⟨src, q.pId, device buf, q.value, q.cval⟩ periphId subAct valBuf n := by
  subst hdata
  obtain ⟨hfirst, hrest⟩ := frame_bytes hbuf
  obtain ⟨hperiph, hval⟩ := frame_bytes hrest
  rw [slice_length] at hval
  have hbytes : ∀ k < n.toNat, payload (payload buf) k = valBuf k := fun k hk =>
    payload_bytes hval hk
  have hone : 1 ≤ n.toNat := by
    rw [hlen, UInt8.toNat_ofNat', List.length_cons, List.length_cons, slice_length] at hlong
    omega
  have hact : device buf = subAct &&& 0xF0 := by rw [device, hfirst, action_byte]
  have hzero : payload buf 1 = valBuf 0 := hbytes 0 hone
  simp only [subRequest, hperiph, hzero] at hq
  split_ifs at hq with htemp hlight hbtn hvalue
  · obtain rfl := Option.some.inj hq
    refine ⟨htemp.symm, hact, fun _ htwo => ?_, fun h => ?_⟩
    · have hnext : payload buf 2 = valBuf 1 := hbytes 1 htwo
      simp only [hnext]
    · rw [h] at htemp
      exact absurd htemp (by decide)
  · obtain rfl := Option.some.inj hq
    exact ⟨hbtn.symm, hact, fun h => absurd h htemp, fun _ => rfl⟩

theorem Sound.frame {src : Addr} {now : UInt32} {trimpot : UInt16} {port : UInt32} {m : Message}
    (hs : Sound B h i s) (hm : Good B h m)
    (hbrings : Brings B i m (.radio (.frame src buf len now trimpot port))) :
    Sound B h i (xbeeData s src buf len now trimpot port).1 := by
  obtain ⟨j, hsrc, hdata⟩ := hm
  obtain ⟨hfrom, hheard, hlen, hbuf⟩ := hbrings
  constructor
  · rw [← hs.role]
    exact step_isCoordinator s (.frame src buf len now trimpot port)
  · intro k hk
    rcases frame_nodes s src buf len now trimpot port k with ⟨haddr, hcaps, hnum⟩ | ⟨hpub, hnode⟩
    · rw [haddr] at hk
      obtain ⟨hcoord, d, hdev, hd, hholds⟩ := hs.nodes k hk
      refine ⟨hcoord, d, hdev, haddr.trans hd, ?_⟩
      rw [Capabilities.Holds, hcaps, hnum]
      exact hholds
    · obtain ⟨hdev, hlist⟩ := hdata.of_publishes hbuf hheard hs.role hpub
      rw [hlist] at hbuf
      obtain ⟨-, hcaps⟩ := frame_bytes hbuf
      refine ⟨hs.role ▸ hpub.2.2, j, hdev, ?_, ?_⟩
      · rw [hnode, ← hsrc, ← hfrom]
        rfl
      · have hholds := Capabilities.attachNode_holds (s.nodes k) src (payload buf) (len - 1) now
        have hcount : (len - 1).toNat = capabilities.length := by rw [hlen, hlist]; rfl
        rw [hcount, hcaps] at hholds
        rw [hnode]
        exact hholds
  · intro k hk
    rcases frame_subs s src buf len now trimpot port k with heq | hfree | ⟨hsub, hlong, q, hq, heq⟩
    · rw [heq] at hk ⊢
      exact hs.subs k hk
    · exact absurd hfree hk
    · obtain ⟨hdst, periphId, subAct, valBuf, n, hissued, hn, hlist⟩ :=
        hdata.of_subscribes hbuf hheard hsub
      refine ⟨hs.role ▸ hsub.2.2.2, j, periphId, subAct, valBuf, n, ?_, hdst ▸ hissued, ?_⟩
      · rw [heq, ← hsrc, ← hfrom]
      · rw [heq]
        exact asked_of_request hlist hbuf hn hlen hlong hq

inductive Spontaneous (r : Readings) : Bool → List UInt8 → Prop
  | discover : Spontaneous r true [msgDiscover]
  | poll : Spontaneous r true [msgPoll]
  | temperature (k : Fin maxSubs) : Spontaneous r false
      [msgVal ||| msgDevTemp, ((r.sent k >>> 8) &&& 0xff).toUInt8, (r.sent k &&& 0xff).toUInt8]
  | button (k : Fin maxSubs) :
      Spontaneous r false [msgVal ||| msgDevBtn, btnGet (r.sentPort k) &&& btnSw2]

def Sends (P : List UInt8 → Prop) (o : Out) : Prop := ∀ dst data, o = .send dst data → P data

theorem notify_sends (r : Readings) (k : Fin maxSubs) (sub : Sub) :
    ∀ o ∈ notify r k sub, Sends (Spontaneous r false) o := by
  intro o ho dst data heq
  subst heq
  simp only [notify] at ho
  split_ifs at ho
  · obtain ⟨-, rfl⟩ := Out.send.inj (List.mem_singleton.mp ho)
    exact .temperature k
  · obtain ⟨-, rfl⟩ := Out.send.inj (List.mem_singleton.mp ho)
    exact .button k
  · simp at ho

theorem evalSub_sends (r : Readings) (st : RfState × UInt32) (k : Fin maxSubs) :
    ∀ o ∈ (evalSub r st k).2, Sends (Spontaneous r false) o := by
  have hevaluated : Sends (Spontaneous r false) (.evaluated (subId k)) := by
    intro _ _ h
    cases h
  by_cases htaken : (st.1.subscribers k).addr.hi ≠ 0 ∧ (st.1.subscribers k).addr.lo ≠ 0
  · simp only [evalSub, if_pos htaken]
    refine List.forall_mem_cons.mpr ⟨hevaluated, ?_⟩
    split_ifs
    · exact notify_sends r k _
    · simp
  · simp only [evalSub, if_neg htaken]
    simp

theorem checkNode_sends (r : Readings) (now : Fin maxNodes → UInt32) (s : RfState)
    (k : Fin maxNodes) : ∀ o ∈ (checkNode now s k).2, Sends (Spontaneous r true) o := by
  have hexamined : Sends (Spontaneous r true) (.examined (nodeId k)) := by
    intro _ _ h
    cases h
  simp only [checkNode]
  split_ifs
  · refine List.forall_mem_cons.mpr ⟨hexamined, fun o ho => ?_⟩
    rw [mem_call ho]
    intro _ _ h
    cases h
  · refine List.forall_mem_cons.mpr ⟨hexamined, List.forall_mem_singleton.mpr fun dst data h => ?_⟩
    obtain ⟨-, rfl⟩ := Out.send.inj h
    exact .poll
  · exact List.forall_mem_singleton.mpr hexamined
  · simp

theorem rfTask_sends (s : RfState) (r : Readings) :
    ∀ o ∈ (rfTask s r).2, Sends (Spontaneous r s.isCoordinator) o := by
  simp only [rfTask]
  cases s.isCoordinator
  · simp only [Bool.false_eq_true, if_false]
    split_ifs
    · exact outputs_forall (evalSub_sends r) _ _
    · simp
  · simp only [if_true]
    refine List.forall_mem_append.mpr ⟨?_, outputs_forall (checkNode_sends r r.alive) _ _⟩
    rcases discover_cases s r with h | h
    · simp [h]
    · rw [h]
      refine List.forall_mem_singleton.mpr fun dst data h => ?_
      obtain ⟨-, rfl⟩ := Out.send.inj h
      exact .discover

theorem Sound.task (hs : Sound B h i s) (r : Readings) : Sound B h i (rfTask s r).1 := by
  constructor
  · rw [← hs.role]
    exact step_isCoordinator s (.task r)
  · intro k hk
    obtain ⟨haddr, hcaps, hnum⟩ := Capabilities.rfTask_keepsCaps s r k hk
    obtain ⟨hcoord, d, hdev, hd, hholds⟩ := hs.nodes k (haddr ▸ hk)
    refine ⟨hcoord, d, hdev, haddr.trans hd, ?_⟩
    rw [Capabilities.Holds, hcaps, hnum]
    exact hholds
  · intro k hk
    obtain ⟨last, heq⟩ := (rfTask_sameSubs s r).entry k
    rw [heq] at hk ⊢
    exact hs.subs k hk

theorem Sound.init (B : Boards ι) (h : Log ι) (i : ι) (s : RfState) (cb : Callb) :
    Sound B h i (rfInit s (B.coordinator i) cb) where
  role := rfl
  nodes _ hk := absurd rfl hk
  subs _ hk := absurd rfl hk

theorem Sound.getAddress (hs : Sound B h i s) (id : UInt8) :
    getAddress s id = noAddr ∨ ∃ d, B.coordinator d = false ∧ getAddress s id = B.addr d := by
  rw [Rf.getAddress]
  split_ifs with hid
  · by_cases hfree : (s.nodes ⟨id.toNat - 1, slot_lt hid⟩).addr = noAddr
    · exact Or.inl hfree
    · obtain ⟨-, d, hdev, hd, -⟩ := hs.nodes _ hfree
      exact Or.inr ⟨d, hdev, hd⟩
  · exact Or.inl rfl

/-- Every board keeps to the protocol as long as it hears boards that do. -/
theorem carried (B : Boards ι) : Carried (system B) (Sound B) (Good B) where
  sound_mono hsub hs := Sound.mono hsub hs
  good_mono hsub hm := by
    obtain ⟨j, hsrc, hdata⟩ := hm
    exact ⟨j, hsrc, hdata.mono hsub⟩
  sound_step {h i s a} hs hheard := by
    have hsub : h ⊆ h ++ [(system B).record i s a] := List.subset_append_left _ _
    refine Sound.mono hsub ?_
    cases a with
    | radio e =>
      cases e with
      | frame src buf len now trimpot port =>
        rcases hheard with hown | ⟨m, hm, hbrings⟩
        · exact absurd hown id
        · exact hs.frame hm hbrings
      | task r => exact hs.task r
    | command id c =>
      simp only [system, react]
      cases issue s id c <;> exact hs
    | restart memory cb => exact Sound.init B h i memory cb
  good_step {h i s a} hs hheard o ho m hsent := by
    have hrec : (system B).record i s a ∈ h ++ [(system B).record i s a] := by simp
    cases o with
    | send dst data =>
      obtain rfl := Option.some.inj hsent
      refine ⟨i, rfl, ?_⟩
      cases a with
      | radio e =>
        cases e with
        | frame src buf len now trimpot port =>
          obtain ⟨rfl, hanswer⟩ := xbeeData_answers s src buf len now trimpot port ho
          rw [hs.role] at hanswer
          generalize hrole : B.coordinator i = c at hanswer
          cases hanswer with
          | publish => exact .publish hrole
          | pollResponse => exact .pollResponse
          | temperature =>
            exact .temperature trimpot hrole
              ⟨_, hrec, rfl, Or.inr ⟨dst, buf, len, now, port, rfl⟩⟩
          | button =>
            exact .button port hrole ⟨_, hrec, rfl, Or.inr ⟨dst, buf, len, now, trimpot, rfl⟩⟩
          | subscribed k hk =>
            rcases hheard with hown | ⟨m, hm, hbrings⟩
            · exact absurd hown id
            · have hsrc : dst = m.src := hbrings.1
              obtain ⟨j, hj, -⟩ := id hm
              have hused : dst ≠ noAddr := (hsrc.trans hj).symm ▸ B.ne_noAddr j
              have hsubs := (hs.frame hm hbrings).subs k (hk.symm ▸ hused)
              refine .subscribed k hrole ⟨j, hsrc.trans hj⟩ ⟨_, hrec, rfl, hk, ?_⟩
              exact hsubs.2.mono (List.subset_append_left _ _)
        | task r =>
          have hspont := rfTask_sends s r _ ho dst data rfl
          rw [hs.role] at hspont
          generalize hrole : B.coordinator i = c at hspont
          cases hspont with
          | discover => exact .discover
          | poll => exact .poll
          | temperature k =>
            exact .temperature (r.sent k) hrole ⟨_, hrec, rfl, Or.inl ⟨r, k, rfl, rfl⟩⟩
          | button k =>
            exact .button (r.sentPort k) hrole ⟨_, hrec, rfl, Or.inl ⟨r, k, rfl, rfl⟩⟩
      | command id c =>
        simp only [system, react] at ho
        cases hissue : issue s id c with
        | error err =>
          rw [hissue] at ho
          simp at ho
        | ok o =>
          rw [hissue] at ho
          obtain ⟨hgood, heq⟩ := issue_eq hissue
          rw [← List.mem_singleton.mp ho] at heq
          obtain ⟨rfl, rfl⟩ := Out.send.inj heq
          exact .command c ⟨_, hrec, rfl, id, rfl, rfl⟩ hgood (hs.getAddress id)
      | restart memory cb => simp [system, react] at ho
    | _ => simp [system, sent] at hsent

end Messages

end AoaBoard.Rf.Network
