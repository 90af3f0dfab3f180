import AoaBoard.Rf.Protocol
import Mathlib.Data.Finset.Card
import Mathlib.Data.Fintype.Basic

/-!
# The subscription table of an end device

`SubInv` ties `subNumRegistered` to the number of taken entries and keeps the
requests of taken entries apart. It is kept by every input whose sender is not
`0:0`. A frame touches no entry of another address, and a subscription id is
only sent for an entry that carries the request it answers.
-/

namespace AoaBoard.Rf
open Library Library.Run

def taken (s : RfState) : Finset (Fin maxSubs) :=
  Finset.univ.filter fun i => (s.subscribers i).addr ≠ noAddr

def Carries (sub : Sub) (src : Addr) (action pId : UInt8) (value : UInt32) : Prop :=
  sub.addr = src ∧ sub.periphId = pId ∧ sub.act = action ∧ sub.value = value

def SameRequest (a b : Sub) : Prop := Carries a b.addr b.act b.periphId b.value

structure SubInv (s : RfState) : Prop where
  count : s.subNumRegistered.toNat = (taken s).card
  distinct : ∀ i j, (s.subscribers i).addr ≠ noAddr →
    SameRequest (s.subscribers i) (s.subscribers j) → i = j

theorem mem_taken {s : RfState} {i : Fin maxSubs} :
    i ∈ taken s ↔ (s.subscribers i).addr ≠ noAddr := by
  simp [taken]

theorem taken_card_le (s : RfState) : (taken s).card ≤ maxSubs := by
  have hle := Finset.card_le_univ (taken s)
  rwa [Fintype.card_fin] at hle

theorem subscriptionExists_some {subs : Fin maxSubs → Sub} {src : Addr} {action pId : UInt8}
    {value : UInt32} {i : Fin maxSubs}
    (h : subscriptionExists subs src action pId value = some i) :
    Carries (subs i) src action pId value := by
  simpa [Carries] using List.find?_some h

theorem subscriptionExists_none {subs : Fin maxSubs → Sub} {src : Addr} {action pId : UInt8}
    {value : UInt32} (h : subscriptionExists subs src action pId value = none) (i : Fin maxSubs) :
    ¬ Carries (subs i) src action pId value := by
  simpa [Carries] using List.find?_eq_none.mp h i (List.mem_finRange i)

theorem freeSub_some {subs : Fin maxSubs → Sub} {i : Fin maxSubs} (h : freeSub subs = some i) :
    (subs i).addr = noAddr := by
  simpa using List.find?_some h

def added (s : RfState) (i : Fin maxSubs) (src : Addr) (action : UInt8) (r : Request) : RfState :=
  { s with subscribers := Function.update s.subscribers i ⟨src, r.pId, action, r.value, r.cval⟩
           subNumRegistered := s.subNumRegistered + 1 }

theorem handleSubscribe_cases (s : RfState) (src : Addr) (action : UInt8) (buf : ℕ → UInt8)
    (len : ℕ) (trimpot : UInt16) (port : UInt32) :
    handleSubscribe s src action buf len trimpot port = (s, []) ∨
    ∃ r, subRequest buf trimpot port = some r ∧
      ((∃ i, Carries (s.subscribers i) src action r.pId r.value ∧
        handleSubscribe s src action buf len trimpot port = (s, [sendSubResponse src (subId i)])) ∨
      ∃ i, (s.subscribers i).addr = noAddr ∧
        (∀ j, ¬ Carries (s.subscribers j) src action r.pId r.value) ∧
        handleSubscribe s src action buf len trimpot port =
          (added s i src action r, [sendSubResponse src (subId i)])) := by
  simp only [handleSubscribe]
  split_ifs
  · exact Or.inl rfl
  · cases hr : subRequest buf trimpot port with
    | none => exact Or.inl rfl
    | some r =>
      cases hex : subscriptionExists s.subscribers src action r.pId r.value with
      | some i =>
        exact Or.inr ⟨r, rfl, Or.inl ⟨i, subscriptionExists_some hex, by simp only [hex]⟩⟩
      | none =>
        cases hfree : freeSub s.subscribers with
        | none => exact Or.inl (by simp only [hex])
        | some i =>
          exact Or.inr ⟨r, rfl, Or.inr ⟨i, freeSub_some hfree, subscriptionExists_none hex,
            by simp only [hex, added]⟩⟩

theorem taken_added {s : RfState} {i : Fin maxSubs} {src : Addr} (hsrc : src ≠ noAddr)
    (action : UInt8) (r : Request) : taken (added s i src action r) = insert i (taken s) := by
  ext j
  rw [Finset.mem_insert, mem_taken, mem_taken]
  by_cases hj : j = i
  · subst hj
    simp [added, hsrc]
  · simp [added, hj]

theorem added_inv {s : RfState} (h : SubInv s) {i : Fin maxSubs} {src : Addr} {action : UInt8}
    {r : Request} (hsrc : src ≠ noAddr) (hfree : (s.subscribers i).addr = noAddr)
    (hnew : ∀ j, ¬ Carries (s.subscribers j) src action r.pId r.value) :
    SubInv (added s i src action r) := by
  have hnot : i ∉ taken s := fun hmem => mem_taken.mp hmem hfree
  have hcard : (taken (added s i src action r)).card = (taken s).card + 1 := by
    rw [taken_added hsrc, Finset.card_insert_of_notMem hnot]
  have hle := taken_card_le (added s i src action r)
  constructor
  · have hmax : maxSubs = 20 := rfl
    have hone : (1 : UInt8).toNat = 1 := rfl
    rw [hcard]
    simp only [added, UInt8.toNat_add, h.count, hone]
    omega
  · intro j k hj hsame
    by_cases hji : j = i
    · by_cases hki : k = i
      · rw [hji, hki]
      · subst hji
        simp only [added, Function.update_self, Function.update_of_ne hki, SameRequest,
          Carries] at hsame
        exact absurd ⟨hsame.1.symm, hsame.2.1.symm, hsame.2.2.1.symm, hsame.2.2.2.symm⟩ (hnew k)
    · by_cases hki : k = i
      · subst hki
        simp only [added, Function.update_self, Function.update_of_ne hji, SameRequest] at hsame
        exact absurd hsame (hnew j)
      · simp only [added, Function.update_of_ne hji, Function.update_of_ne hki] at hj hsame
        exact h.distinct j k hj hsame

def removed (s : RfState) (i : Fin maxSubs) : RfState :=
  { s with subNumRegistered := s.subNumRegistered - 1
           subscribers := Function.update s.subscribers i
             { s.subscribers i with addr := noAddr } }

theorem handleUnsubscribe_cases (s : RfState) (src : Addr) (id : UInt8) :
    handleUnsubscribe s src id = s ∨
    ∃ i, (s.subscribers i).addr = src ∧ handleUnsubscribe s src id = removed s i := by
  simp only [handleUnsubscribe]
  split_ifs with hzero hlt hsrc
  · exact Or.inl rfl
  · exact Or.inr ⟨_, hsrc, rfl⟩
  · exact Or.inl rfl
  · exact Or.inl rfl

theorem taken_removed (s : RfState) (i : Fin maxSubs) :
    taken (removed s i) = (taken s).erase i := by
  ext j
  rw [Finset.mem_erase, mem_taken, mem_taken]
  by_cases hj : j = i
  · subst hj
    simp [removed]
  · simp [removed, hj]

theorem removed_inv {s : RfState} (h : SubInv s) {i : Fin maxSubs}
    (hi : (s.subscribers i).addr ≠ noAddr) : SubInv (removed s i) := by
  have hmem : i ∈ taken s := mem_taken.mpr hi
  have hcard : (taken (removed s i)).card + 1 = (taken s).card := by
    rw [taken_removed, Finset.card_erase_add_one hmem]
  constructor
  · have hle : (1 : UInt8) ≤ s.subNumRegistered := by
      rw [UInt8.le_iff_toNat_le, h.count]
      exact Finset.card_pos.mpr ⟨i, hmem⟩
    have hone : (1 : UInt8).toNat = 1 := rfl
    have hsub : (removed s i).subNumRegistered.toNat = s.subNumRegistered.toNat - 1 := by
      rw [← hone, ← UInt8.toNat_sub_of_le _ _ hle]
      rfl
    rw [hsub, h.count]
    omega
  · intro j k hj hsame
    by_cases hji : j = i
    · subst hji
      simp [removed] at hj
    · simp only [removed, Function.update_of_ne hji] at hj hsame
      by_cases hki : k = i
      · subst hki
        simp only [Function.update_self, SameRequest, Carries] at hsame
        exact absurd hsame.1 hj
      · simp only [Function.update_of_ne hki] at hsame
        exact h.distinct j k hj hsame

structure SameSubs (s s' : RfState) : Prop where
  count : s'.subNumRegistered = s.subNumRegistered
  entry : ∀ i, ∃ last, s'.subscribers i = { s.subscribers i with last := last }

theorem SameSubs.refl (s : RfState) : SameSubs s s := ⟨rfl, fun _ => ⟨_, rfl⟩⟩

theorem SameSubs.trans {s t u : RfState} (h : SameSubs s t) (h' : SameSubs t u) :
    SameSubs s u := by
  refine ⟨h'.count.trans h.count, fun i => ?_⟩
  obtain ⟨l, hl⟩ := h.entry i
  obtain ⟨l', hl'⟩ := h'.entry i
  exact ⟨l', by rw [hl', hl]⟩

theorem SameSubs.of_eq {s s' : RfState} (hcount : s'.subNumRegistered = s.subNumRegistered)
    (hsubs : s'.subscribers = s.subscribers) : SameSubs s s' :=
  ⟨hcount, fun i => ⟨(s.subscribers i).last, by rw [hsubs]⟩⟩

theorem SameSubs.inv {s s' : RfState} (hsame : SameSubs s s') (h : SubInv s) : SubInv s' := by
  have haddr (i : Fin maxSubs) : (s'.subscribers i).addr = (s.subscribers i).addr := by
    obtain ⟨l, hl⟩ := hsame.entry i
    rw [hl]
  constructor
  · rw [hsame.count, h.count]
    congr 1
    ext i
    rw [mem_taken, mem_taken, haddr]
  · intro i j hi hij
    obtain ⟨l, hl⟩ := hsame.entry i
    obtain ⟨l', hl'⟩ := hsame.entry j
    rw [haddr] at hi
    rw [hl, hl'] at hij
    exact h.distinct i j hi hij

theorem evalSub_sameSubs (r : Readings) (st : RfState × UInt32) (i : Fin maxSubs) :
    SameSubs st.1 (evalSub r st i).1.1 := by
  by_cases htaken : (st.1.subscribers i).addr.hi ≠ 0 ∧ (st.1.subscribers i).addr.lo ≠ 0
  · simp only [evalSub, if_pos htaken]
    refine ⟨rfl, fun j => ?_⟩
    by_cases hj : j = i
    · subst hj
      exact ⟨_, Function.update_self _ _ _⟩
    · exact ⟨_, Function.update_of_ne hj _ _⟩
  · simp only [evalSub, if_neg htaken]
    exact .refl _

theorem checkNode_sameSubs (now : Fin maxNodes → UInt32) (s : RfState) (i : Fin maxNodes) :
    SameSubs s (checkNode now s i).1 := by
  simp only [checkNode]
  split_ifs <;> exact .of_eq rfl rfl

theorem rfTask_sameSubs (s : RfState) (r : Readings) : SameSubs s (rfTask s r).1 :=
  rfTask_related .refl (fun _ _ _ => .trans) (fun _ _ => .of_eq rfl rfl) checkNode_sameSubs
    evalSub_sameSubs s r

theorem handlePublish_subs (s : RfState) (src : Addr) (buf : ℕ → UInt8) (len : UInt8)
    (now : UInt32) : (handlePublish s src buf len now).1.subNumRegistered = s.subNumRegistered ∧
      (handlePublish s src buf len now).1.subscribers = s.subscribers := by
  simp only [handlePublish]
  split <;> exact ⟨rfl, rfl⟩

theorem handlePollResponse_subs (s : RfState) (src : Addr) (now : UInt32) :
    (handlePollResponse s src now).subNumRegistered = s.subNumRegistered ∧
      (handlePollResponse s src now).subscribers = s.subscribers := by
  simp only [handlePollResponse]
  split <;> exact ⟨rfl, rfl⟩

/-- The table after a frame: unchanged, with one entry added for the sender, or with one
entry of the sender removed. -/
inductive Edited (s : RfState) (src : Addr) (s' : RfState) : Prop
  | same (hcount : s'.subNumRegistered = s.subNumRegistered)
      (hsubs : s'.subscribers = s.subscribers)
  | add (i : Fin maxSubs) (action : UInt8) (r : Request)
      (hfree : (s.subscribers i).addr = noAddr)
      (hnew : ∀ j, ¬ Carries (s.subscribers j) src action r.pId r.value)
      (heq : s' = added s i src action r)
  | remove (i : Fin maxSubs) (howner : (s.subscribers i).addr = src) (heq : s' = removed s i)

theorem xbeeData_edited (s : RfState) (src : Addr) (buf : ℕ → UInt8) (len : UInt8) (now : UInt32)
    (trimpot : UInt16) (port : UInt32) :
    Edited s src (xbeeData s src buf len now trimpot port).1 := by
  have hhandled := xbeeData_handled s src buf len now trimpot port
  generalize xbeeData s src buf len now trimpot port = r at hhandled
  cases hhandled with
  | subscribe _ =>
    rcases handleSubscribe_cases s src (device buf) (payload buf) (len.toNat - 1) trimpot port with
      h | ⟨q, -, ⟨i, -, h⟩ | ⟨i, hfree, hnew, h⟩⟩
    · rw [h]
      exact .same rfl rfl
    · rw [h]
      exact .same rfl rfl
    · rw [h]
      exact .add i _ q hfree hnew rfl
  | unsubscribe _ =>
    rcases handleUnsubscribe_cases s src (buf 1) with h | ⟨i, hi, h⟩
    · rw [h]
      exact .same rfl rfl
    · exact .remove i hi h
  | pollResponse _ =>
    obtain ⟨hcount, hsubs⟩ := handlePollResponse_subs s src now
    exact .same hcount hsubs
  | publish _ =>
    obtain ⟨hcount, hsubs⟩ := handlePublish_subs s src (payload buf) (len - 1) now
    exact .same hcount hsubs
  | _ => exact .same rfl rfl

theorem Edited.inv {s s' : RfState} {src : Addr} (h : Edited s src s') (hs : SubInv s)
    (hsrc : src ≠ noAddr) : SubInv s' := by
  cases h with
  | same hcount hsubs => exact (SameSubs.of_eq hcount hsubs).inv hs
  | add i action r hfree hnew heq => exact heq ▸ added_inv hs hsrc hfree hnew
  | remove i howner heq => exact heq ▸ removed_inv hs (howner ▸ hsrc)

theorem Edited.other {s s' : RfState} {src a : Addr} (h : Edited s src s') (ha : a ≠ src)
    (hzero : a ≠ noAddr) (i : Fin maxSubs)
    (hi : (s.subscribers i).addr = a ∨ (s'.subscribers i).addr = a) :
    s'.subscribers i = s.subscribers i := by
  cases h with
  | same _ hsubs => rw [hsubs]
  | add j action r hfree _ heq =>
    subst heq
    have hij : i ≠ j := by
      rintro rfl
      rcases hi with hi | hi
      · exact hzero (hi.symm.trans hfree)
      · simp only [added, Function.update_self] at hi
        exact ha hi.symm
    simp only [added, Function.update_of_ne hij]
  | remove j howner heq =>
    subst heq
    have hij : i ≠ j := by
      rintro rfl
      rcases hi with hi | hi
      · exact ha (hi.symm.trans howner)
      · simp only [removed, Function.update_self] at hi
        exact hzero hi.symm
    simp only [removed, Function.update_of_ne hij]

theorem step_subInv {s : RfState} (h : SubInv s) {e : Input}
    (he : source e ≠ some noAddr) : SubInv (step s e).1 := by
  cases e with
  | frame src buf len now trimpot port =>
    exact (xbeeData_edited s src buf len now trimpot port).inv h fun hz => he (congrArg some hz)
  | task r => exact (rfTask_sameSubs s r).inv h

theorem rfInit_subInv (s : RfState) (coordinator : Bool) (cb : Callb) :
    SubInv (rfInit s coordinator cb) := by
  have hfree (i : Fin maxSubs) : ((rfInit s coordinator cb).subscribers i).addr = noAddr := rfl
  constructor
  · have hnone : taken (rfInit s coordinator cb) = ∅ := by
      ext i
      simp [mem_taken, hfree]
    rw [hnone]
    rfl
  · intro i j hi
    exact absurd (hfree i) hi

/-- `id` answers the request of the frame `e`: in the table `subs` it names an entry of the
sender `dst` that carries the peripheral, the action and the threshold of the frame. -/
def Answers (subs : Fin maxSubs → Sub) (e : Input) (dst : Addr) (id : UInt8) : Prop :=
  ∃ buf len now trimpot port r i, e = .frame dst buf len now trimpot port ∧
    subRequest (payload buf) trimpot port = some r ∧ subId i = id ∧
    Carries (subs i) dst (device buf) r.pId r.value

def isResponse : Out → Bool
  | .send _ data => data.head? = some (msgSub ||| msgSubResp)
  | _ => false

theorem Plain.not_response {o : Out} (h : Plain o) : isResponse o = false := by
  cases o <;> simp_all [Plain, isResponse]

theorem isResponse_sendSubResponse (dst : Addr) (id : UInt8) :
    isResponse (sendSubResponse dst id) = true := by
  simp [isResponse, sendSubResponse]

theorem notify_not_response (r : Readings) (i : Fin maxSubs) (sub : Sub) :
    ∀ o ∈ notify r i sub, isResponse o = false := by
  simp only [notify]
  split_ifs <;> simp [sendTemperature, sendBtn, isResponse] <;> decide

theorem evalSub_not_response (r : Readings) (st : RfState × UInt32) (i : Fin maxSubs) :
    ∀ o ∈ (evalSub r st i).2, isResponse o = false := by
  simp only [evalSub]
  split_ifs
  · exact List.forall_mem_cons.mpr ⟨rfl, notify_not_response r i _⟩
  · simp [isResponse]
  · simp

theorem checkNode_not_response (now : Fin maxNodes → UInt32) (s : RfState) (i : Fin maxNodes) :
    ∀ o ∈ (checkNode now s i).2, isResponse o = false := by
  simp only [checkNode]
  split_ifs
  · exact List.forall_mem_cons.mpr ⟨rfl, fun o ho => mem_call ho ▸ rfl⟩
  · simp [sendPoll, isResponse]
    decide
  · simp [isResponse]
  · simp

theorem rfTask_not_response (s : RfState) (r : Readings) :
    ∀ o ∈ (rfTask s r).2, isResponse o = false :=
  rfTask_outputs (by decide) checkNode_not_response evalSub_not_response s r

theorem handleSubscribe_answers (s : RfState) (src : Addr) (action : UInt8) (buf : ℕ → UInt8)
    (len : ℕ) (trimpot : UInt16) (port : UInt32) {dst : Addr} {id : UInt8}
    (h : sendSubResponse dst id ∈ (handleSubscribe s src action buf len trimpot port).2) :
    dst = src ∧ ∃ r i, subRequest buf trimpot port = some r ∧ subId i = id ∧
      Carries ((handleSubscribe s src action buf len trimpot port).1.subscribers i) src action
        r.pId r.value := by
  rcases handleSubscribe_cases s src action buf len trimpot port with
    heq | ⟨r, hr, ⟨i, hi, heq⟩ | ⟨i, -, -, heq⟩⟩
  · simp [heq] at h
  · rw [heq] at h ⊢
    obtain ⟨rfl, rfl⟩ : dst = src ∧ id = subId i := by simpa [sendSubResponse] using h
    exact ⟨rfl, r, i, hr, rfl, hi⟩
  · rw [heq] at h ⊢
    obtain ⟨rfl, rfl⟩ : dst = src ∧ id = subId i := by simpa [sendSubResponse] using h
    refine ⟨rfl, r, i, hr, rfl, ?_⟩
    simp [added, Carries]

theorem step_answers (s : RfState) (e : Input) {dst : Addr} {id : UInt8}
    (h : sendSubResponse dst id ∈ (step s e).2) : Answers (step s e).1.subscribers e dst id := by
  cases e with
  | task r =>
    have hno := rfTask_not_response s r _ h
    simp [isResponse_sendSubResponse] at hno
  | frame src buf len now trimpot port =>
    simp only [step] at h ⊢
    have hhandled := xbeeData_handled s src buf len now trimpot port
    generalize xbeeData s src buf len now trimpot port = res at h hhandled
    have hno (hother : ∀ o ∈ res.2, isResponse o = false) :
        Answers res.1.subscribers (.frame src buf len now trimpot port) dst id := by
      have hfalse := hother _ h
      simp [isResponse_sendSubResponse] at hfalse
    cases hhandled with
    | quiet houts => exact hno fun o ho => (houts o ho).not_response
    | subscribe _ =>
      obtain ⟨rfl, r, i, hr, hid, hcarries⟩ := handleSubscribe_answers s src _ _ _ _ _ h
      exact ⟨buf, len, now, trimpot, port, r, i, rfl, hr, hid, hcarries⟩
    | subResponse _ =>
      refine hno fun o ho => ?_
      obtain ⟨i, -, rfl⟩ := handleSubscribeResponse_outputs s src _ o ho
      rfl
    | value _ =>
      refine hno fun o ho => ?_
      obtain ⟨i, -, rfl⟩ := handleValueUpdate_outputs s src _ _ _ o ho
      rfl
    | publish _ =>
      refine hno fun o ho => ?_
      obtain ⟨i, rfl⟩ := handlePublish_outputs s src _ _ _ o ho
      rfl
    | unsubscribe _ => exact hno (by simp)
    | pollResponse _ => exact hno (by simp)

theorem run_subInv {s : RfState} (hs : SubInv s) {es : List Input}
    (hes : ∀ e ∈ es, source e ≠ some noAddr) : SubInv (after step s es) :=
  after_invariant (P := SubInv) (fun _ _ h he => step_subInv h he) hs
    (along_of_forall_mem s es hes)

/-- On an end device that hears no frame from `0:0`, the counter is the number of taken
entries, their requests differ, every id sent in an answer names an entry with the request it
answers, and a frame leaves the entries of other addresses as they are. -/
theorem subscription_table (s : RfState) (cb : Callb) (es : List Input)
    (hes : ∀ e ∈ es, source e ≠ some noAddr) :
    let now := after step (rfInit s false cb) es
    now.subNumRegistered.toNat = (taken now).card ∧
    (∀ i j, (now.subscribers i).addr ≠ noAddr →
      SameRequest (now.subscribers i) (now.subscribers j) → i = j) ∧
    (∀ e dst id, sendSubResponse dst id ∈ (step now e).2 →
      Answers (step now e).1.subscribers e dst id) ∧
    ∀ src buf len clock trimpot port a i, a ≠ src → a ≠ noAddr →
      let next := (step now (.frame src buf len clock trimpot port)).1
      (now.subscribers i).addr = a ∨ (next.subscribers i).addr = a →
        next.subscribers i = now.subscribers i := by
  intro now
  have hinv : SubInv now := run_subInv (rfInit_subInv s false cb) hes
  refine ⟨hinv.count, hinv.distinct, fun e dst id h => step_answers now e h, ?_⟩
  intro src buf len clock trimpot port a i ha hzero next hi
  exact (xbeeData_edited now src buf len clock trimpot port).other ha hzero i hi

def subscribeAndLeave : List Input :=
  [frameFrom ⟨0x13A200, 7⟩ [msgSub ||| msgSubGte, msgDevBtn, 1] 1,
    frameFrom ⟨0x13A200, 8⟩ [msgSub ||| msgSubGte, msgDevBtn, 1] 2,
    frameFrom ⟨0x13A200, 7⟩ [msgSub ||| msgSubGte, msgDevBtn, 1] 3,
    frameFrom ⟨0x13A200, 7⟩ [msgUnsub, 1] 4]

theorem subscription_table_one_left :
    let now := after step (rfInit powerUp false allCallb) subscribeAndLeave
    now.subNumRegistered = 1 ∧ (taken now).card = 1 := by
  have h := (subscription_table powerUp allCallb subscribeAndLeave (by decide)).1
  exact ⟨by decide, h.symm.trans (by decide)⟩

end AoaBoard.Rf
