import AoaBoard.Rf.Lifecycle

/-!
# Callbacks are made for the node that sent the frame

`Traced` carries for every node id the address of the frame that attached it,
as the callbacks tell it: `nodeAttached` records the sender of the current
frame and `nodeDetached` clears the entry. The records agree with the node
table, so a lookup by sender finds the attached node, unless the sender is
`0:0` and the lookup stops at a free slot.
-/

namespace AoaBoard.Rf
open Library Library.Run Library.Registry

structure Traced where
  state : RfState
  owner : UInt8 → Option Addr

def note (src : Option Addr) (owner : UInt8 → Option Addr) : Out → UInt8 → Option Addr
  | .nodeAttached id => Function.update owner id src
  | .nodeDetached id => Function.update owner id none
  | _ => owner

def tracedStep (t : Traced) (e : Input) : Traced × List Out :=
  (⟨(step t.state e).1, (step t.state e).2.foldl (note (source e)) t.owner⟩, (step t.state e).2)

def named : Out → Option UInt8
  | .value id _ _ _ => some id
  | .subStarted id _ => some id
  | _ => none

/-- What a step may do: `value` and `subStarted` name the node that is attached with the
sender's address, and a poll response changes no other node's `aliveTime`. -/
structure Attributed (t : Traced) (e : Input) : Prop where
  callback : ∀ o ∈ (step t.state e).2, ∀ id, named o = some id →
    ∃ a, source e = some a ∧ t.owner id = some a
  pollResponse : ∀ src buf len now trimpot port, e = .frame src buf len now trimpot port →
    kind buf = msgPoll → buf 0 &&& msgPollResp ≠ 0 → ∀ i,
    ((step t.state e).1.nodes i).aliveTime ≠ (t.state.nodes i).aliveTime →
      t.owner (nodeId i) = some src

def Heeded (cb : Callb) (buf : ℕ → UInt8) : Prop :=
  (kind buf = msgVal → cb.value = true) ∧ (kind buf = msgSub → cb.subStarted = true)

instance decidableHeeded (cb : Callb) (buf : ℕ → UInt8) : Decidable (Heeded cb buf) :=
  inferInstanceAs (Decidable (_ ∧ _))

/-- No lookup that has an effect for the address `0:0` while a slot is free. -/
def NoStray (t : Traced) : Input → Prop
  | .frame src buf len _ _ _ => src = noAddr → Lookup buf len → Heeded t.state.cb buf →
    ∀ i, (t.state.nodes i).addr ≠ noAddr
  | .task _ => True

instance decidableNoStray (t : Traced) : ∀ e, Decidable (NoStray t e)
  | .frame _ buf len _ _ _ =>
    inferInstanceAs (Decidable (_ → Lookup buf len → Heeded t.state.cb buf → ∀ _, _ ≠ _))
  | .task _ => inferInstanceAs (Decidable True)

structure Owned (t : Traced) : Prop where
  reporting : Reporting t.state
  owner : ∀ i, t.owner (nodeId i) = table t.state i

theorem note_of_not_life {src : Option Addr} {owner : UInt8 → Option Addr} {o : Out}
    (h : isLife o = false) : note src owner o = owner := by
  cases o <;> first | rfl | cases h

theorem foldl_note_filter (src : Option Addr) (owner : UInt8 → Option Addr) (outs : List Out) :
    (outs.filter isLife).foldl (note src) owner = outs.foldl (note src) owner := by
  induction outs generalizing owner with
  | nil => rfl
  | cons o outs ih =>
    cases h : isLife o with
    | true =>
      rw [List.filter_cons_of_pos h, List.foldl_cons, List.foldl_cons, ih]
    | false =>
      rw [List.filter_cons_of_neg (by simp [h]), List.foldl_cons, note_of_not_life h, ih]

theorem note_report {src : Option Addr} {owner : UInt8 → Option Addr}
    {t : Fin maxNodes → Option Addr} (h : ∀ i, owner (nodeId i) = t i)
    {e : Act (Fin maxNodes) Addr} (he : ∀ i a, e = .attach i a → src = some a) :
    ∀ i, note src owner (report e) (nodeId i) = e.apply t i := by
  intro i
  cases e with
  | attach j a =>
    simp only [report, note, Act.apply, he j a rfl]
    by_cases hij : i = j
    · rw [hij, Function.update_self, Function.update_self]
    · rw [Function.update_of_ne hij, Function.update_of_ne (fun hid => hij (nodeId_inj.mp hid)), h]
  | detach j =>
    simp only [report, note, Act.apply]
    by_cases hij : i = j
    · rw [hij, Function.update_self, Function.update_self]
    · rw [Function.update_of_ne hij, Function.update_of_ne (fun hid => hij (nodeId_inj.mp hid)), h]

theorem owner_trace {src : Option Addr} {t u : Fin maxNodes → Option Addr}
    {acts : List (Act (Fin maxNodes) Addr)} (htrace : Trace t acts u)
    (hatt : ∀ i a, .attach i a ∈ acts → src = some a) {owner : UInt8 → Option Addr}
    (h : ∀ i, owner (nodeId i) = t i) :
    ∀ i, (acts.map report).foldl (note src) owner (nodeId i) = u i := by
  induction htrace generalizing owner with
  | nil => exact h
  | cons _ _ ih =>
    rw [List.map_cons, List.foldl_cons]
    exact ih (fun i a ha => hatt i a (List.mem_cons_of_mem _ ha))
      (note_report h fun i a he => hatt i a (he ▸ List.mem_cons_self))

theorem tracedStep_owned {t : Traced} (h : Owned t) (e : Input) : Owned (tracedStep t e).1 := by
  obtain ⟨hcb, acts, htrace, hatt, hrep⟩ := step_performs t.state e
  refine ⟨by rw [Reporting, tracedStep, hcb]; exact h.reporting, fun i => ?_⟩
  simp only [tracedStep]
  rw [← foldl_note_filter, hrep h.reporting]
  exact owner_trace htrace hatt h.owner i

theorem findNode_addr {nodes : Fin maxNodes → Node} {src : Addr} {i : Fin maxNodes}
    (h : findNode nodes src = some i) : (nodes i).addr = src := by
  simpa using List.find?_some h

theorem findNode_owner {t : Traced} (h : Owned t) {src : Addr} {i : Fin maxNodes}
    (hfind : findNode t.state.nodes src = some i)
    (hclear : src = noAddr → ∀ i, (t.state.nodes i).addr ≠ noAddr) :
    t.owner (nodeId i) = some src := by
  have haddr := findNode_addr hfind
  rw [h.owner i, table_eq_some_iff]
  exact ⟨haddr, fun hzero => hclear hzero i (haddr.trans hzero)⟩

theorem handlePollResponse_aliveTime {s : RfState} {src : Addr} {now : UInt32} {i : Fin maxNodes}
    (h : ((handlePollResponse s src now).nodes i).aliveTime ≠ (s.nodes i).aliveTime) :
    findNode s.nodes src = some i := by
  simp only [handlePollResponse] at h
  split at h
  · rename_i j hj
    by_cases hij : i = j
    · rw [hij]
      exact hj
    · exact absurd (by simp only [Function.update_of_ne hij]) h
  · exact absurd rfl h

theorem named_of_callback {o : Out} (h : isCallback o = false) : named o = none := by
  cases o <;> first | rfl | cases h

theorem checkNode_not_named (now : Fin maxNodes → UInt32) (s : RfState) (i : Fin maxNodes) :
    ∀ o ∈ (checkNode now s i).2, named o = none := by
  simp only [checkNode, call]
  split_ifs <;> simp [named, sendPoll]

theorem rfTask_not_named (s : RfState) (r : Readings) : ∀ o ∈ (rfTask s r).2, named o = none :=
  rfTask_outputs (Q := fun o => named o = none) rfl checkNode_not_named
    (fun r st i o ho => named_of_callback ((evalSub_sameNodes r st i).2 o ho)) s r

theorem mem_call_registered {registered : Bool} {o p : Out} (h : p ∈ call registered o) :
    registered = true := by
  cases registered with
  | true => rfl
  | false => simp [call] at h

theorem handleSubscribeResponse_registered {s : RfState} {src : Addr} {id : UInt8} {o : Out}
    (h : o ∈ handleSubscribeResponse s src id) : s.cb.subStarted = true := by
  simp only [handleSubscribeResponse] at h
  split at h
  · exact mem_call_registered h
  · simp at h

theorem handleValueUpdate_registered {s : RfState} {src : Addr} {periphId : UInt8}
    {buf : ℕ → UInt8} {len : ℕ} {o : Out} (h : o ∈ handleValueUpdate s src periphId buf len) :
    s.cb.value = true := by
  simp only [handleValueUpdate] at h
  split at h
  · exact mem_call_registered h
  · simp at h

theorem frame_named {t : Traced} (h : Owned t) {src : Addr} {buf : ℕ → UInt8} {len : UInt8}
    {now : UInt32} {trimpot : UInt16} {port : UInt32}
    (hclear : NoStray t (.frame src buf len now trimpot port)) :
    ∀ o ∈ (xbeeData t.state src buf len now trimpot port).2, ∀ id, named o = some id →
      t.owner id = some src := by
  have hhandled := xbeeData_handled t.state src buf len now trimpot port
  generalize xbeeData t.state src buf len now trimpot port = r at hhandled
  have hlookup (hk : Lookup buf len) (hcb : Heeded t.state.cb buf) {i : Fin maxNodes}
      (hi : findNode t.state.nodes src = some i) : t.owner (nodeId i) = some src :=
    findNode_owner h hi fun hzero => hclear hzero hk hcb
  intro o ho id hid
  cases hhandled with
  | quiet houts => simp [named_of_callback (houts o ho).not_callback] at hid
  | subResponse hk hsub =>
    have hcb : Heeded t.state.cb buf :=
      ⟨fun hval => absurd (hsub.symm.trans hval) (by decide),
        fun _ => handleSubscribeResponse_registered ho⟩
    obtain ⟨i, hi, rfl⟩ := handleSubscribeResponse_outputs _ _ _ o ho
    exact Option.some.inj hid ▸ hlookup hk hcb hi
  | subscribe _ =>
    have hno := (handleSubscribe_sameNodes t.state src (device buf) (payload buf) (len.toNat - 1)
      trimpot port).2 o ho
    simp [named_of_callback hno] at hid
  | unsubscribe _ => simp at ho
  | value hk hval =>
    have hcb : Heeded t.state.cb buf :=
      ⟨fun _ => handleValueUpdate_registered ho,
        fun hsub => absurd (hval.symm.trans hsub) (by decide)⟩
    obtain ⟨i, hi, rfl⟩ := handleValueUpdate_outputs _ _ _ _ _ o ho
    exact Option.some.inj hid ▸ hlookup hk hcb hi
  | pollResponse _ => simp at ho
  | publish _ =>
    obtain ⟨i, rfl⟩ := handlePublish_outputs _ _ _ _ _ o ho
    simp [named] at hid

theorem frame_aliveTime {t : Traced} (h : Owned t) {src : Addr} {buf : ℕ → UInt8} {len : UInt8}
    {now : UInt32} {trimpot : UInt16} {port : UInt32}
    (hclear : NoStray t (.frame src buf len now trimpot port)) (hk : kind buf = msgPoll)
    {i : Fin maxNodes}
    (hi : ((xbeeData t.state src buf len now trimpot port).1.nodes i).aliveTime ≠
      (t.state.nodes i).aliveTime) : t.owner (nodeId i) = some src := by
  have hhandled := xbeeData_handled t.state src buf len now trimpot port
  generalize xbeeData t.state src buf len now trimpot port = r at hhandled hi
  cases hhandled with
  | subscribe _ =>
    rw [(handleSubscribe_sameNodes t.state src (device buf) (payload buf) (len.toNat - 1)
      trimpot port).1.nodes] at hi
    exact absurd rfl hi
  | unsubscribe _ =>
    rw [(handleUnsubscribe_sameNodes t.state src (buf 1)).nodes] at hi
    exact absurd rfl hi
  | pollResponse hl =>
    have hcb : Heeded t.state.cb buf :=
      ⟨fun hval => absurd (hk.symm.trans hval) (by decide),
        fun hsub => absurd (hk.symm.trans hsub) (by decide)⟩
    exact findNode_owner h (handlePollResponse_aliveTime hi) fun hzero => hclear hzero hl hcb
  | publish hp => exact absurd (hk.symm.trans hp.2.1) (by decide)
  | _ => exact absurd rfl hi

theorem attributed_of_noStray {t : Traced} (h : Owned t) {e : Input} (he : NoStray t e) :
    Attributed t e := by
  cases e with
  | frame src buf len now trimpot port =>
    refine ⟨fun o ho id hid => ⟨src, rfl, frame_named h he o ho id hid⟩, ?_⟩
    rintro _ _ _ _ _ _ ⟨⟩ hk _ i hi
    exact frame_aliveTime h he hk hi
  | task r =>
    refine ⟨fun o ho id hid => ?_, nofun⟩
    simp [rfTask_not_named t.state r o ho] at hid

def traced (s : RfState) : Traced := ⟨s, fun _ => none⟩

theorem traced_owned (s : RfState) (coordinator : Bool) {cb : Callb}
    (hattached : cb.nodeAttached = true) (hdetached : cb.nodeDetached = true) :
    Owned (traced (rfInit s coordinator cb)) :=
  ⟨⟨hattached, hdetached⟩, fun i => by rw [traced, rfInit_free]⟩

theorem run_owned {t : Traced} (h : Owned t) (es : List Input) : Owned (after tracedStep t es) :=
  after_invariant (P := Owned) (fun _ e ht _ => tracedStep_owned ht e) h (along_trivial t es)

theorem run_cb (t : Traced) (es : List Input) :
    (after tracedStep t es).state.cb = t.state.cb :=
  after_related (R := fun t u : Traced => u.state.cb = t.state.cb) (fun _ => rfl)
    (fun _ _ _ h h' => h'.trans h) (fun u e => (step_performs u.state e).1) t es

theorem xbeeData_value {s : RfState} {src : Addr} {buf : ℕ → UInt8} {len : UInt8}
    (hlen : ¬ len < 1) (hk : kind buf = msgVal) (now : UInt32) (trimpot : UInt16) (port : UInt32) :
    xbeeData s src buf len now trimpot port =
      (s, handleValueUpdate s src (device buf) (payload buf) (len.toNat - 1)) := by
  simp only [kind] at hk
  simp only [xbeeData, if_neg hlen, hk]
  rfl

theorem findNode_free {nodes : Fin maxNodes → Node} (h : ∃ i, (nodes i).addr = noAddr) :
    ∃ i, findNode nodes noAddr = some i := by
  obtain ⟨i, hi⟩ := h
  cases hfind : findNode nodes noAddr with
  | some j => exact ⟨j, rfl⟩
  | none =>
    have hnone := List.find?_eq_none.mp hfind i (List.mem_finRange i)
    simp [hi] at hnone

theorem stray_value {t : Traced} (h : Owned t) (hcb : t.state.cb.value = true)
    {buf : ℕ → UInt8} {len : UInt8} (hlen : ¬ len < 1) (hk : kind buf = msgVal)
    (hfree : ∃ i, (t.state.nodes i).addr = noAddr) (now : UInt32) (trimpot : UInt16)
    (port : UInt32) : ¬ Attributed t (.frame noAddr buf len now trimpot port) := by
  intro hatt
  obtain ⟨i, hi⟩ := findNode_free hfree
  have hout : .value (nodeId i) (device buf) (payload buf) (UInt8.ofNat (len.toNat - 1)) ∈
      (step t.state (.frame noAddr buf len now trimpot port)).2 := by
    simp only [step, xbeeData_value hlen hk, handleValueUpdate, hi, call, hcb, if_true,
      List.mem_singleton]
  obtain ⟨a, -, hown⟩ := hatt.callback _ hout (nodeId i) rfl
  rw [h.owner i, (table_eq_none_iff t.state i).mpr (findNode_addr hi)] at hown
  cases hown

/-- In every run without a lookup for `0:0` at a free slot, callbacks go to the attached
sender of the frame; a value frame from `0:0` that does reach a free slot does not. -/
theorem callbacks_attributed (s : RfState) (coordinator : Bool) (cb : Callb)
    (hattached : cb.nodeAttached = true) (hdetached : cb.nodeDetached = true) :
    let start := traced (rfInit s coordinator cb)
    (∀ es, Along tracedStep NoStray start es → Along tracedStep Attributed start es) ∧
    ∀ es buf len now trimpot port, cb.value = true → ¬ len < 1 → kind buf = msgVal →
      (∃ i, ((after tracedStep start es).state.nodes i).addr = noAddr) →
      ¬ Attributed (after tracedStep start es) (.frame noAddr buf len now trimpot port) := by
  intro start
  have howned : Owned start := traced_owned s coordinator hattached hdetached
  refine ⟨fun es hes => ?_, fun es buf len now trimpot port hcb hlen hk hfree => ?_⟩
  · exact along_of_invariant (P := Owned) (fun t e ht _ => tracedStep_owned ht e)
      (fun t e ht he => attributed_of_noStray ht he) howned hes
  · exact stray_value (run_owned howned es) (by rw [run_cb]; exact hcb) hlen hk hfree now trimpot
      port

def publishAndValue : List Input :=
  [frameFrom ⟨0x13A200, 7⟩ [msgPublish, msgDevTemp] 1,
    frameFrom ⟨0x13A200, 7⟩ [msgVal ||| msgDevTemp, 1, 2] 2]

theorem callbacks_attributed_value :
    Along tracedStep NoStray (traced (rfInit powerUp true allCallb)) publishAndValue ∧
      Along tracedStep Attributed (traced (rfInit powerUp true allCallb)) publishAndValue :=
  ⟨by decide, (callbacks_attributed powerUp true allCallb rfl rfl).1 publishAndValue (by decide)⟩

theorem stray_value_attributed :
    ¬ Along tracedStep Attributed (traced (rfInit powerUp true allCallb))
      [frameFrom noAddr [msgVal ||| msgDevTemp, 1, 2] 2] := by
  intro h
  exact stray_value (traced_owned powerUp true rfl rfl) rfl (by decide) (by decide)
    ⟨⟨0, by decide⟩, rfl⟩ _ _ _
    h.1

end AoaBoard.Rf
