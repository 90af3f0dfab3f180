import AoaBoard.Rf.Attribution
import AoaBoard.Rf.Network

/-!
# Where the reports of a network come from

Along every run of a network of boards: the node tables hold end devices with
the capabilities they publish, the subscription tables hold what applications
asked for, reported values were sampled by the board that is named, a report of
a started subscription names an entry that the application asked for, an LED
changes as an application commands, and an entry of a subscription table goes
only on the command of its subscriber.
-/

namespace AoaBoard.Rf.Network
open Library Library.Run Library.Bytes Library.Network Board

def isReport : Out → Bool
  | .value _ _ _ _ | .subStarted _ _ | .setLeds _ _ _ => true
  | _ => false

section Frames
variable {s : RfState} {src : Addr} {buf : ℕ → UInt8} {len : UInt8} {now : UInt32}
  {trimpot : UInt16} {port : UInt32}

def Routed (buf : ℕ → UInt8) (len : UInt8) : Handler → Prop
  | .setValue p b n => kind buf = msgSet ∧ p = device buf ∧ b = payload buf ∧ n = len.toNat - 1
  | .subscribeResponse id => kind buf = msgSub ∧ buf 0 &&& 0xF0 = msgSubResp ∧ id = buf 1
  | .unsubscribe id => kind buf = msgUnsub ∧ id = buf 1
  | .valueUpdate p b n => kind buf = msgVal ∧ p = device buf ∧ b = payload buf ∧ n = len.toNat - 1
  | _ => True

theorem route_routed {coordinator : Bool} {hd : Handler}
    (h : route coordinator buf len = some hd) : Routed buf len hd := by
  simp only [route] at h
  split_ifs at h with _ _ _ hset _ hsub hresp _ hunsub _ hval <;>
    obtain rfl := Option.some.inj h
  · trivial
  · exact ⟨hset, rfl, rfl, rfl⟩
  · exact ⟨hsub, hresp, rfl⟩
  · trivial
  · exact ⟨hunsub, rfl⟩
  · exact ⟨hval, rfl, rfl, rfl⟩
  all_goals trivial

theorem getValue_not_report (src : Addr) (p : UInt8) (trimpot : UInt16) (port : UInt32) :
    ∀ o ∈ getValue src p trimpot port, isReport o = false := by
  simp only [getValue]
  split_ifs <;> simp [sendTemperature, sendBtn, isReport]

theorem handleSubscribe_not_report (s : RfState) (src : Addr) (action : UInt8) (b : ℕ → UInt8)
    (n : ℕ) (trimpot : UInt16) (port : UInt32) :
    ∀ o ∈ (handleSubscribe s src action b n trimpot port).2, isReport o = false := by
  rcases handleSubscribe_cases s src action b n trimpot port with
    h | ⟨q, -, ⟨k, -, h⟩ | ⟨k, -, -, h⟩⟩
  · simp [h]
  · simp [h, sendSubResponse, isReport]
  · simp [h, sendSubResponse, isReport]

theorem report_routed {o : Out} (ho : o ∈ (xbeeData s src buf len now trimpot port).2)
    (hreport : isReport o = true) :
    (∃ p b n, kind buf = msgSet ∧ p = device buf ∧ b = payload buf ∧ n = len.toNat - 1 ∧
        s.isCoordinator = false ∧ o ∈ setValue p b n) ∨
      (kind buf = msgSub ∧ buf 0 &&& 0xF0 = msgSubResp ∧
        o ∈ handleSubscribeResponse s src (buf 1)) ∨
      (kind buf = msgVal ∧
        o ∈ handleValueUpdate s src (device buf) (payload buf) (len.toNat - 1)) := by
  rw [xbeeData_route] at ho
  cases hroute : route s.isCoordinator buf len with
  | none =>
    rw [hroute] at ho
    simp at ho
  | some hd =>
    have hrouted := route_routed hroute
    rw [hroute] at ho
    simp only [Option.map_some, Option.getD_some] at ho
    cases hd with
    | setValue p b n =>
      obtain ⟨hkind, hp, hb, hn⟩ := hrouted
      have hrole : s.isCoordinator = false := by
        cases hrole : s.isCoordinator with
        | false => rfl
        | true =>
          have hdev : OfDevice (.setValue p b n) := trivial
          exact absurd hdev (route_coordinator buf len (hrole ▸ hroute))
      exact Or.inl ⟨p, b, n, hkind, hp, hb, hn, hrole, ho⟩
    | subscribeResponse id =>
      obtain ⟨hkind, hresp, rfl⟩ := hrouted
      exact Or.inr (Or.inl ⟨hkind, hresp, ho⟩)
    | valueUpdate p b n =>
      obtain ⟨hkind, rfl, rfl, rfl⟩ := hrouted
      exact Or.inr (Or.inr ⟨hkind, ho⟩)
    | getValue p =>
      rw [getValue_not_report src p trimpot port o ho] at hreport
      cases hreport
    | subscribe action b n =>
      rw [handleSubscribe_not_report s src action b n trimpot port o ho] at hreport
      cases hreport
    | unsubscribe id => simp [perform] at ho
    | pollResponse => simp [perform] at ho
    | poll =>
      rw [List.mem_singleton.mp ho] at hreport
      cases hreport
    | publish b n =>
      obtain ⟨k, rfl⟩ := handlePublish_outputs s src b n now o ho
      cases hreport
    | discover =>
      rw [List.mem_singleton.mp ho] at hreport
      cases hreport

theorem rfTask_not_report (s : RfState) (r : Readings) :
    ∀ o ∈ (rfTask s r).2, isReport o = false := by
  refine rfTask_outputs (Q := fun o => isReport o = false) rfl (fun now s k o ho => ?_)
    (fun r st k o ho => ?_) s r
  · simp only [checkNode] at ho
    split_ifs at ho
    · rcases List.mem_cons.mp ho with rfl | ho
      · rfl
      · rw [mem_call ho]
        rfl
    · rcases List.mem_cons.mp ho with rfl | ho
      · rfl
      · rw [List.mem_singleton.mp ho]
        rfl
    · rw [List.mem_singleton.mp ho]
      rfl
    · simp at ho
  · by_cases htaken : (st.1.subscribers k).addr.hi ≠ 0 ∧ (st.1.subscribers k).addr.lo ≠ 0
    · simp only [evalSub, if_pos htaken] at ho
      rcases List.mem_cons.mp ho with rfl | ho
      · rfl
      · split_ifs at ho
        · simp only [notify] at ho
          split_ifs at ho <;> simp at ho <;> rw [ho] <;> rfl
        · simp at ho
    · simp only [evalSub, if_neg htaken] at ho
      simp at ho

end Frames

section Senders
variable {ι : Type*} {B : Boards ι} {h : Log ι} {i j : ι} {buf : ℕ → UInt8} {dst : Addr}
  {data : List UInt8}

theorem subscribe_kind : ∀ subAct : UInt8, (msgSub ||| subAct) &&& 0x0F ≠ msgVal ∧
    (msgSub ||| subAct) &&& 0x0F ≠ msgSet ∧ (msgSub ||| subAct) &&& 0x0F ≠ msgUnsub :=
  forall_byte (by decide +kernel)

theorem subscribe_no_response : ∀ subAct : UInt8, ¬ msgSubDif < subAct →
    (msgSub ||| subAct) &&& 0xF0 ≠ msgSubResp :=
  forall_byte (by decide +kernel)

theorem Honest.of_value (hdata : Honest B h j dst data) (hbuf : slice buf data.length = data)
    (hkind : kind buf = msgVal) : B.coordinator j = false ∧
      ((∃ v, Sampled h j v ∧ data = [msgVal ||| msgDevTemp, ((v >>> 8) &&& 0xff).toUInt8,
          (v &&& 0xff).toUInt8]) ∨
        ∃ port, ReadPort h j port ∧ data = [msgVal ||| msgDevBtn, btnGet port &&& btnSw2]) := by
  rw [kind] at hkind
  cases hdata with
  | temperature v hdev hv => exact ⟨hdev, Or.inl ⟨v, hv, rfl⟩⟩
  | button port hdev hport => exact ⟨hdev, Or.inr ⟨port, hport, rfl⟩⟩
  | command c _ _ _ =>
    cases c with
    | subscribe periphId subAct valBuf n =>
      rw [(frame_bytes hbuf).1] at hkind
      exact absurd hkind (subscribe_kind subAct).1
    | _ =>
      rw [(frame_bytes hbuf).1] at hkind
      exact absurd hkind (by decide)
  | _ =>
    rw [(frame_bytes hbuf).1] at hkind
    exact absurd hkind (by decide)

theorem Honest.of_subResponse (hdata : Honest B h j dst data)
    (hbuf : slice buf data.length = data) (hkind : kind buf = msgSub)
    (hresp : buf 0 &&& 0xF0 = msgSubResp) : B.coordinator j = false ∧ (∃ c, dst = B.addr c) ∧
      ∃ k, Registered B h j dst k ∧ data = [msgSub ||| msgSubResp, subId k] := by
  rw [kind] at hkind
  cases hdata with
  | subscribed k hdev hdst hk => exact ⟨hdev, hdst, k, hk, rfl⟩
  | command c _ hgood _ =>
    cases c with
    | subscribe periphId subAct valBuf n =>
      simp only [BadArguments, not_or] at hgood
      rw [(frame_bytes hbuf).1] at hresp
      exact absurd hresp (subscribe_no_response subAct hgood.2.1.2)
    | _ =>
      rw [(frame_bytes hbuf).1] at hkind
      exact absurd hkind (by decide)
  | _ =>
    rw [(frame_bytes hbuf).1] at hkind
    exact absurd hkind (by decide)

theorem Honest.of_set (hdata : Honest B h j dst data) (hbuf : slice buf data.length = data)
    (hheard : dst = B.addr i ∨ dst = broadcast) (hkind : kind buf = msgSet) :
    (∃ mask on, Issued h j (B.addr i) (.setRGB mask on) ∧ data = [msgSet ||| msgDevRgb, mask, on]) ∨
      ∃ on, Issued h j (B.addr i) (.setLed on) ∧ data = [msgSet ||| msgDevLed, on] := by
  rw [kind] at hkind
  cases hdata with
  | command c hc _ hdst =>
    have hdst := (command_reaches hdst hheard).2
    rw [hdst] at hc
    cases c with
    | setRGB mask on => exact Or.inl ⟨mask, on, hc, rfl⟩
    | setLed on => exact Or.inr ⟨on, hc, rfl⟩
    | subscribe periphId subAct valBuf n =>
      rw [(frame_bytes hbuf).1] at hkind
      exact absurd hkind (subscribe_kind subAct).2.1
    | _ =>
      rw [(frame_bytes hbuf).1] at hkind
      exact absurd hkind (by decide)
  | _ =>
    rw [(frame_bytes hbuf).1] at hkind
    exact absurd hkind (by decide)

theorem Honest.of_unsubscribe (hdata : Honest B h j dst data)
    (hbuf : slice buf data.length = data) (hheard : dst = B.addr i ∨ dst = broadcast)
    (hkind : kind buf = msgUnsub) :
    ∃ id, Issued h j (B.addr i) (.unsubscribe id) ∧ data = [msgUnsub, id] := by
  rw [kind] at hkind
  cases hdata with
  | command c hc _ hdst =>
    have hdst := (command_reaches hdst hheard).2
    rw [hdst] at hc
    cases c with
    | unsubscribe id => exact ⟨id, hc, rfl⟩
    | subscribe periphId subAct valBuf n =>
      rw [(frame_bytes hbuf).1] at hkind
      exact absurd hkind (subscribe_kind subAct).2.2
    | _ =>
      rw [(frame_bytes hbuf).1] at hkind
      exact absurd hkind (by decide)
  | _ =>
    rw [(frame_bytes hbuf).1] at hkind
    exact absurd hkind (by decide)

end Senders

section Runs
variable {ι : Type*} [DecidableEq ι] (B : Boards ι) (m : ι → RfState) (cb : ι → Callb)

def reached (es : List (ι × Action)) : Net ι RfState Message :=
  after (system B).step (start B m cb) es

def log (es : List (ι × Action)) : Log ι := outputs (system B).step (start B m cb) es

/-- Every event is a board's own or brings it a frame that is in the air. -/
def Possible (es : List (ι × Action)) : Prop :=
  Along (system B).step (system B).Heard (start B m cb) es

instance decidableBrings (i : ι) (msg : Message) : ∀ a, Decidable (Brings B i msg a)
  | .radio (.frame src buf len _ _ _) =>
    inferInstanceAs (Decidable (src = msg.src ∧ (msg.dst = B.addr i ∨ msg.dst = broadcast) ∧
      len = UInt8.ofNat msg.data.length ∧ slice buf msg.data.length = msg.data))
  | .radio (.task _) => inferInstanceAs (Decidable False)
  | .command _ _ => inferInstanceAs (Decidable False)
  | .restart _ _ => inferInstanceAs (Decidable False)

instance decidableOwn : ∀ a, Decidable (Own a)
  | .radio (.frame _ _ _ _ _ _) => inferInstanceAs (Decidable False)
  | .radio (.task _) => inferInstanceAs (Decidable True)
  | .command _ _ => inferInstanceAs (Decidable True)
  | .restart _ _ => inferInstanceAs (Decidable True)

instance decidableHeard (n : Net ι RfState Message) (e : ι × Action) :
    Decidable ((system B).Heard n e) :=
  inferInstanceAs (Decidable (Own e.2 ∨ ∃ msg ∈ n.air, Brings B e.1 msg e.2))

instance decidablePossible (es : List (ι × Action)) : Decidable (Possible B m cb es) :=
  inferInstanceAs (Decidable (Along (system B).step (system B).Heard (start B m cb) es))

def pair : Boards Bool where
  addr b := if b then ⟨0x13A200, 1⟩ else ⟨0x13A200, 2⟩
  coordinator b := b
  distinct := by decide
  ne_noAddr := by decide
  ne_broadcast := by decide

def discovery : List (Bool × Action) :=
  [(true, .radio (taskAt 7000)),
    (false, .radio (frameFrom (pair.addr true) [msgDiscover] 7000)),
    (true, .radio (frameFrom (pair.addr false) (msgPublish :: capabilities) 7001))]

def warm : Command := .subscribe msgDevTemp msgSubGte (fun k => if k = 0 then 1 else 44) 2

def subscription : List (Bool × Action) :=
  discovery ++ [(true, .command 1 warm),
    (false, .radio (frameFrom (pair.addr true) (commandData warm) 7010))]

def request : List (Bool × Action) :=
  discovery ++ [(true, .command 1 .getTemperature),
    (false, .radio (.frame (pair.addr true) (fun k => (commandData .getTemperature).getD k 0) 1
      7010 300 0))]

def bytes (data : List UInt8) : ℕ → UInt8 := fun k => data.getD k 0

def begun (es : List (Bool × Action)) : Net Bool RfState Message :=
  reached pair (fun _ => powerUp) (fun _ => allCallb) es

variable {B m cb} {es : List (ι × Action)} {i : ι} {a : Action}

theorem reached_sound (hes : Possible B m cb es) :
    (∀ i, Sound B (log B m cb es) i ((reached B m cb es).party i)) ∧
      ∀ msg ∈ (reached B m cb es).air, Good B (log B m cb es) msg :=
  (carried B).run (fun i => Sound.init B [] i (m i) (cb i)) rfl hes

theorem report_frame (hes : Possible B m cb es) (ha : (system B).Heard (reached B m cb es) (i, a))
    {o : Out} (ho : o ∈ (react B i ((reached B m cb es).party i) a).2)
    (hreport : isReport o = true) : ∃ (j : ι) (msg : Message) (src : Addr) (buf : ℕ → UInt8)
      (len : UInt8) (now : UInt32) (trimpot : UInt16) (port : UInt32),
      a = .radio (.frame src buf len now trimpot port) ∧ src = B.addr j ∧
        Honest B (log B m cb es) j msg.dst msg.data ∧
          (msg.dst = B.addr i ∨ msg.dst = broadcast) ∧ len = UInt8.ofNat msg.data.length ∧
            slice buf msg.data.length = msg.data ∧
              o ∈ (xbeeData ((reached B m cb es).party i) src buf len now trimpot port).2 := by
  obtain ⟨-, hair⟩ := reached_sound hes
  cases a with
  | radio e =>
    cases e with
    | frame src buf len now trimpot port =>
      rcases ha with hown | ⟨msg, hmsg, hfrom, hheard, hlen, hbuf⟩
      · exact absurd hown id
      · obtain ⟨j, hsrc, hdata⟩ := hair msg hmsg
        exact ⟨j, msg, src, buf, len, now, trimpot, port, rfl, hfrom.trans hsrc, hdata, hheard,
          hlen, hbuf, ho⟩
    | task r =>
      rw [rfTask_not_report _ r o ho] at hreport
      cases hreport
  | command id c =>
    simp only [react] at ho
    cases hissue : issue ((reached B m cb es).party i) id c with
    | error err =>
      rw [hissue] at ho
      simp at ho
    | ok o' =>
      rw [hissue] at ho
      rw [List.mem_singleton.mp ho, (issue_eq hissue).2] at hreport
      cases hreport
  | restart memory cb => simp [react] at ho

/-- A node table names end devices of the network, and what `rf_getNodeCaps` gives for one is the
beginning of what it publishes; end devices have no nodes. -/
theorem node_tables (hes : Possible B m cb es) (i : ι) :
    (∀ k, (((reached B m cb es).party i).nodes k).addr ≠ noAddr → B.coordinator i = true ∧
        ∃ d, B.coordinator d = false ∧ (((reached B m cb es).party i).nodes k).addr = B.addr d) ∧
      ∀ null id len bytes, rfGetNodeCaps ((reached B m cb es).party i) null id len =
        (.ok, some bytes) → bytes = capabilities.take len.toNat := by
  obtain ⟨hsound, -⟩ := reached_sound hes
  refine ⟨fun k hk => ?_, fun null id len bytes hok => ?_⟩
  · obtain ⟨hcoord, d, hdev, hd, -⟩ := (hsound i).nodes k hk
    exact ⟨hcoord, d, hdev, hd⟩
  · obtain ⟨k, -, hk, rfl⟩ := Capabilities.rfGetNodeCaps_ok hok
    obtain ⟨-, d, -, -, hholds⟩ := (hsound i).nodes k hk
    rw [hholds, List.take_of_length_le (by decide : capabilities.length ≤ nodeMaxCaps)]

theorem node_tables_pair : ∃ k, (((begun discovery).party true).nodes k).addr ≠ noAddr ∧
    ∃ d, pair.coordinator d = false ∧
      (((begun discovery).party true).nodes k).addr = pair.addr d :=
  ⟨⟨0, by decide⟩, by decide +kernel,
    ((node_tables (by decide +kernel) true).1 ⟨0, by decide⟩ (by decide +kernel)).2⟩

/-- A subscription table holds only what the application of the subscriber asked for. -/
theorem subscription_tables (hes : Possible B m cb es) (i : ι) (k : Fin maxSubs)
    (hk : (((reached B m cb es).party i).subscribers k).addr ≠ noAddr) :
    B.coordinator i = false ∧
      Subscribed B (log B m cb es) i (((reached B m cb es).party i).subscribers k) :=
  ((reached_sound hes).1 i).subs k hk

theorem subscription_tables_pair : pair.coordinator false = false ∧
    Subscribed pair (log pair (fun _ => powerUp) (fun _ => allCallb) subscription) false
      (((begun subscription).party false).subscribers ⟨0, by decide⟩) :=
  subscription_tables (by decide +kernel) false ⟨0, by decide⟩ (by decide +kernel)

/-- A value that is reported was sampled by the board whose node it is reported for. -/
theorem value_origin (hes : Possible B m cb es)
    (ha : (system B).Heard (reached B m cb es) (i, a)) {id p n : UInt8} {b : ℕ → UInt8}
    (ho : .value id p b n ∈ (react B i ((reached B m cb es).party i) a).2) :
    ∃ d k, nodeId k = id ∧ (((reached B m cb es).party i).nodes k).addr = B.addr d ∧
      B.coordinator d = false ∧
        ((p = msgDevTemp ∧ ∃ v, Sampled (log B m cb es) d v ∧
            slice b n.toNat = [((v >>> 8) &&& 0xff).toUInt8, (v &&& 0xff).toUInt8]) ∨
          (p = msgDevBtn ∧ ∃ port, ReadPort (log B m cb es) d port ∧
            slice b n.toNat = [btnGet port &&& btnSw2])) := by
  obtain ⟨j, msg, src, buf, len, now, trimpot, port, rfl, hsrc, hdata, hheard, hlen, hbuf, ho⟩ :=
    report_frame hes ha ho rfl
  rcases report_routed ho rfl with ⟨p', b', n', -, -, -, -, -, hset⟩ | ⟨-, -, hresp⟩ | ⟨hkind, hval⟩
  · simp only [setValue] at hset
    split_ifs at hset <;> simp at hset
  · obtain ⟨k, -, heq⟩ := handleSubscribeResponse_outputs _ _ _ _ hresp
    cases heq
  · obtain ⟨k, hfind, heq⟩ := handleValueUpdate_outputs _ _ _ _ _ _ hval
    obtain ⟨rfl, rfl, rfl, rfl⟩ := Out.value.inj heq
    obtain ⟨hdev, hvalue⟩ := hdata.of_value hbuf hkind
    refine ⟨j, k, rfl, (findNode_addr hfind).trans hsrc, hdev, ?_⟩
    rcases hvalue with ⟨v, hv, hdata⟩ | ⟨w, hw, hdata⟩
    · rw [hdata] at hbuf hlen
      obtain ⟨hfirst, hrest⟩ := frame_bytes hbuf
      refine Or.inl ⟨by rw [device, hfirst]; decide, v, hv, ?_⟩
      rw [hlen]
      exact hrest
    · rw [hdata] at hbuf hlen
      obtain ⟨hfirst, hrest⟩ := frame_bytes hbuf
      refine Or.inr ⟨by rw [device, hfirst]; decide, w, hw, ?_⟩
      rw [hlen]
      exact hrest

theorem value_origin_pair : ∃ d k, nodeId k = 1 ∧
    (((begun request).party true).nodes k).addr = pair.addr d ∧ pair.coordinator d = false ∧
      ((msgDevTemp = msgDevTemp ∧
          ∃ v, Sampled (log pair (fun _ => powerUp) (fun _ => allCallb) request) d v ∧
            slice (payload (bytes [0x15, 1, 44])) (2 : UInt8).toNat =
              [((v >>> 8) &&& 0xff).toUInt8, (v &&& 0xff).toUInt8]) ∨
        (msgDevTemp = msgDevBtn ∧
          ∃ port, ReadPort (log pair (fun _ => powerUp) (fun _ => allCallb) request) d port ∧
            slice (payload (bytes [0x15, 1, 44])) (2 : UInt8).toNat = [btnGet port &&& btnSw2])) :=
  have ha : (system pair).Heard (begun request)
      (true, .radio (.frame (pair.addr false) (bytes [0x15, 1, 44]) 3 7020 0 0)) := by
    decide +kernel
  value_origin (by decide +kernel) ha (List.mem_singleton.mpr rfl)

/-- A report that a subscription has started names an entry that the board of the node made for
the application. -/
theorem started_origin (hes : Possible B m cb es)
    (ha : (system B).Heard (reached B m cb es) (i, a)) {id sid : UInt8}
    (ho : .subStarted id sid ∈ (react B i ((reached B m cb es).party i) a).2) :
    ∃ d n k, nodeId n = id ∧ (((reached B m cb es).party i).nodes n).addr = B.addr d ∧
      subId k = sid ∧ Registered B (log B m cb es) d (B.addr i) k := by
  obtain ⟨j, msg, src, buf, len, now, trimpot, port, rfl, hsrc, hdata, hheard, hlen, hbuf, ho⟩ :=
    report_frame hes ha ho rfl
  rcases report_routed ho rfl with
    ⟨p', b', n', -, -, -, -, -, hset⟩ | ⟨hkind, hresp, ho⟩ | ⟨-, hval⟩
  · simp only [setValue] at hset
    split_ifs at hset <;> simp at hset
  · obtain ⟨n, hfind, heq⟩ := handleSubscribeResponse_outputs _ _ _ _ ho
    obtain ⟨rfl, rfl⟩ := Out.subStarted.inj heq
    obtain ⟨-, ⟨c, hc⟩, k, hk, hdata⟩ := hdata.of_subResponse hbuf hkind hresp
    have hdst : msg.dst = B.addr i :=
      hheard.resolve_right fun hb => B.ne_broadcast c (hc.symm.trans hb)
    rw [hdata] at hbuf
    obtain ⟨-, hrest⟩ := frame_bytes hbuf
    have hbyte : buf 1 = subId k := (List.cons.inj hrest).1
    exact ⟨j, n, k, rfl, (findNode_addr hfind).trans hsrc, hbyte.symm, hdst ▸ hk⟩
  · obtain ⟨k, -, heq⟩ := handleValueUpdate_outputs _ _ _ _ _ _ hval
    cases heq

theorem started_origin_pair : ∃ d n k, nodeId n = 1 ∧
    (((begun subscription).party true).nodes n).addr = pair.addr d ∧ subId k = 1 ∧
      Registered pair (log pair (fun _ => powerUp) (fun _ => allCallb) subscription) d
        (pair.addr true) k :=
  have ha : (system pair).Heard (begun subscription)
      (true, .radio (.frame (pair.addr false) (bytes [0xF3, 1]) 2 7020 0 0)) := by
    decide +kernel
  started_origin (by decide +kernel) ha (List.mem_singleton.mpr rfl)

def Lights : Command → Out → Prop
  | .setRGB mask on, .setLeds led ledsOn ledsOff => led = .led6 ∧
      (0 < on ∧ ledsOn = mask ∧ ledsOff = 0 ∨ on = 0 ∧ ledsOn = 0 ∧ ledsOff = mask)
  | .setLed on, .setLeds led ledsOn ledsOff => led = .led7 ∧
      (on = 1 ∧ ledsOn = rgbRed ∧ ledsOff = 0 ∨ on ≠ 1 ∧ ledsOn = 0 ∧ ledsOff = rgbRed)
  | _, _ => False

/-- The LEDs of an end device change only as an application commanded this device. -/
theorem lights_origin (hes : Possible B m cb es)
    (ha : (system B).Heard (reached B m cb es) (i, a)) {led : Led} {on off : UInt8}
    (ho : .setLeds led on off ∈ (react B i ((reached B m cb es).party i) a).2) :
    B.coordinator i = false ∧
      ∃ j c, Issued (log B m cb es) j (B.addr i) c ∧ Lights c (.setLeds led on off) := by
  obtain ⟨j, msg, src, buf, len, now, trimpot, port, rfl, hsrc, hdata, hheard, hlen, hbuf, ho⟩ :=
    report_frame hes ha ho rfl
  have hrole := ((reached_sound hes).1 i).role
  rcases report_routed ho rfl with
    ⟨p, b, n, hkind, rfl, rfl, rfl, hdev, hset⟩ | ⟨-, -, hresp⟩ | ⟨-, hval⟩
  · refine ⟨hrole ▸ hdev, j, ?_⟩
    rcases hdata.of_set hbuf hheard hkind with ⟨mask, v, hc, hdata⟩ | ⟨v, hc, hdata⟩
    · rw [hdata] at hbuf
      obtain ⟨hfirst, hrest⟩ := frame_bytes hbuf
      obtain ⟨hmask, hrest⟩ := frame_bytes hrest
      have hv : payload buf 1 = v := (List.cons.inj hrest).1
      have hdevice : device buf = msgDevRgb := by rw [device, hfirst]; decide
      refine ⟨_, hc, ?_⟩
      simp only [setValue, hdevice, if_true, hmask, hv] at hset
      split_ifs at hset with hshort hon
      · simp at hset
      · obtain ⟨rfl, rfl, rfl⟩ := Out.setLeds.inj (List.mem_singleton.mp hset)
        exact ⟨rfl, Or.inl ⟨hon, rfl, rfl⟩⟩
      · obtain ⟨rfl, rfl, rfl⟩ := Out.setLeds.inj (List.mem_singleton.mp hset)
        exact ⟨rfl, Or.inr ⟨UInt8.le_zero_iff.mp (UInt8.not_lt.mp hon), rfl, rfl⟩⟩
    · rw [hdata] at hbuf
      obtain ⟨hfirst, hrest⟩ := frame_bytes hbuf
      have hv : payload buf 0 = v := (List.cons.inj hrest).1
      have hdevice : device buf = msgDevLed := by rw [device, hfirst]; decide
      refine ⟨_, hc, ?_⟩
      simp only [setValue, hdevice, if_neg (by decide : msgDevLed ≠ msgDevRgb), if_true, hv] at hset
      split_ifs at hset with hshort hon
      · simp at hset
      · obtain ⟨rfl, rfl, rfl⟩ := Out.setLeds.inj (List.mem_singleton.mp hset)
        exact ⟨rfl, Or.inl ⟨hon, rfl, rfl⟩⟩
      · obtain ⟨rfl, rfl, rfl⟩ := Out.setLeds.inj (List.mem_singleton.mp hset)
        exact ⟨rfl, Or.inr ⟨hon, rfl, rfl⟩⟩
  · obtain ⟨k, -, heq⟩ := handleSubscribeResponse_outputs _ _ _ _ hresp
    cases heq
  · obtain ⟨k, -, heq⟩ := handleValueUpdate_outputs _ _ _ _ _ _ hval
    cases heq

theorem lights_origin_pair : pair.coordinator false = false ∧ ∃ j c,
    Issued (log pair (fun _ => powerUp) (fun _ => allCallb)
        (discovery ++ [(true, .command 1 (.setLed 1))])) j (pair.addr false) c ∧
      Lights c (.setLeds .led7 rgbRed 0) :=
  have ha : (system pair).Heard (begun (discovery ++ [(true, .command 1 (.setLed 1))]))
      (false, .radio (.frame (pair.addr true) (bytes (commandData (.setLed 1))) 2 7020 0 0)) := by
    decide +kernel
  lights_origin (by decide +kernel) ha (List.mem_singleton.mpr rfl)

theorem subId_of_slot {id : UInt8} (hzero : id ≠ 0) (hlt : (id - 1).toNat < maxSubs) :
    subId ⟨(id - 1).toNat, hlt⟩ = id := by
  have hle : (1 : UInt8) ≤ id := by
    rw [UInt8.le_iff_toNat_le]
    exact Nat.pos_of_ne_zero fun h => hzero (UInt8.toNat_inj.mp h)
  have hone : (1 : UInt8).toNat = 1 := rfl
  have hsub := UInt8.toNat_sub_of_le _ _ hle
  have hid := id.toNat_lt
  rw [UInt8.le_iff_toNat_le] at hle
  apply UInt8.toNat_inj.mp
  rw [subId, UInt8.toNat_ofNat']
  simp only [hsub, hone] at hle ⊢
  omega

theorem frame_removes {s : RfState} {src : Addr} {buf : ℕ → UInt8} {len : UInt8} {now : UInt32}
    {trimpot : UInt16} {port : UInt32} {k : Fin maxSubs} (hk : (s.subscribers k).addr ≠ noAddr)
    (hgone : (xbeeData s src buf len now trimpot port).1.subscribers k ≠ s.subscribers k) :
    kind buf = msgUnsub ∧ buf 1 = subId k ∧ src = (s.subscribers k).addr := by
  rw [xbeeData_route] at hgone
  cases hroute : route s.isCoordinator buf len with
  | none =>
    rw [hroute] at hgone
    exact absurd rfl hgone
  | some hd =>
    have hrouted := route_routed hroute
    rw [hroute] at hgone
    simp only [Option.map_some, Option.getD_some] at hgone
    cases hd with
    | subscribe action b n =>
      refine absurd ?_ hgone
      rcases handleSubscribe_cases s src action b n trimpot port with
        h | ⟨q, -, ⟨j, -, h⟩ | ⟨j, hfree, -, h⟩⟩
      · rw [perform, h]
      · rw [perform, h]
      · have hkj : k ≠ j := by
          rintro rfl
          exact hk hfree
        rw [perform, h]
        exact Function.update_of_ne hkj _ _
    | unsubscribe id =>
      obtain ⟨hkind, rfl⟩ := hrouted
      simp only [perform, handleUnsubscribe] at hgone
      split_ifs at hgone with hzero hlt hsrc
      · exact absurd rfl hgone
      · by_cases hkj : k = ⟨(buf 1 - 1).toNat, hlt⟩
        · subst hkj
          exact ⟨hkind, (subId_of_slot hzero hlt).symm, hsrc.symm⟩
        · exact absurd (Function.update_of_ne hkj _ _) hgone
      · exact absurd rfl hgone
      · exact absurd rfl hgone
    | pollResponse =>
      rw [perform, (handlePollResponse_subs s src now).2] at hgone
      exact absurd rfl hgone
    | publish b n =>
      rw [perform, (handlePublish_subs s src b n now).2] at hgone
      exact absurd rfl hgone
    | _ => exact absurd rfl hgone

/-- An entry of a subscription table keeps its request until the application of the subscriber
asks for its removal or the board is started again. -/
theorem entry_removed (hes : Possible B m cb es)
    (ha : (system B).Heard (reached B m cb es) (i, a)) {k : Fin maxSubs}
    (hk : (((reached B m cb es).party i).subscribers k).addr ≠ noAddr)
    (hgone : ¬ SameRequest ((react B i ((reached B m cb es).party i) a).1.subscribers k)
      (((reached B m cb es).party i).subscribers k)) :
    (∃ memory cb', a = .restart memory cb') ∨
      ∃ c, (((reached B m cb es).party i).subscribers k).addr = B.addr c ∧
        Issued (log B m cb es) c (B.addr i) (.unsubscribe (subId k)) := by
  obtain ⟨-, hair⟩ := reached_sound hes
  generalize hs : (reached B m cb es).party i = s at hk hgone ⊢
  have hsame : (react B i s a).1.subscribers k ≠ s.subscribers k := by
    intro heq
    rw [heq] at hgone
    exact hgone ⟨rfl, rfl, rfl, rfl⟩
  cases a with
  | radio e =>
    cases e with
    | frame src buf len now trimpot port =>
      rcases ha with hown | ⟨msg, hmsg, hfrom, hheard, hlen, hbuf⟩
      · exact absurd hown id
      · obtain ⟨j, hsrc, hdata⟩ := hair msg hmsg
        obtain ⟨hkind, hid, howner⟩ := frame_removes hk hsame
        obtain ⟨id, hissued, hdata⟩ := hdata.of_unsubscribe hbuf hheard hkind
        rw [hdata] at hbuf
        have hbyte : buf 1 = id := (List.cons.inj (frame_bytes hbuf).2).1
        rw [← hbyte, hid] at hissued
        exact Or.inr ⟨j, howner.symm.trans (hfrom.trans hsrc), hissued⟩
    | task r =>
      obtain ⟨last, heq⟩ := (rfTask_sameSubs s r).entry k
      have hafter : (react B i s (.radio (.task r))).1.subscribers k =
          { s.subscribers k with last := last } := heq
      rw [hafter] at hgone
      exact absurd ⟨rfl, rfl, rfl, rfl⟩ hgone
  | command id c =>
    refine absurd ?_ hsame
    simp only [react]
    cases issue s id c <;> rfl
  | restart memory cb' => exact Or.inl ⟨memory, cb', rfl⟩

theorem entry_removed_pair :
    (∃ memory cb', Action.radio (.frame (pair.addr true) (bytes [msgUnsub, 1]) 2 7030 0 0) =
        .restart memory cb') ∨
      ∃ c, (((begun (subscription ++ [(true, .command 1 (.unsubscribe 1))])).party
            false).subscribers ⟨0, by decide⟩).addr = pair.addr c ∧
        Issued (log pair (fun _ => powerUp) (fun _ => allCallb)
          (subscription ++ [(true, .command 1 (.unsubscribe 1))])) c (pair.addr false)
            (.unsubscribe (subId ⟨0, by decide⟩)) :=
  have ha : (system pair).Heard (begun (subscription ++ [(true, .command 1 (.unsubscribe 1))]))
      (false, .radio (.frame (pair.addr true) (bytes [msgUnsub, 1]) 2 7030 0 0)) := by
    decide +kernel
  entry_removed (by decide +kernel) ha (by decide +kernel) (by
    simp only [SameRequest, Carries]
    decide +kernel)

end Runs

end AoaBoard.Rf.Network
