import AoaBoard.Rf.Commands
import AoaBoard.Rf.InUse

/-!
# What the handlers read of a frame

Two memories that agree on the bytes of a frame are told apart by `xbeeData` only
where a handler reads a byte behind the frame: the id of a subscription in a
frame of one byte, and the low byte of the threshold in a subscription of three
bytes. The pointer that the callback `value` receives is compared by the bytes
it is given for.
-/

namespace AoaBoard.Rf
open Library Library.Bytes

/-- The output as its receiver sees it. -/
def shown : Out → Out
  | .value id periphId buf len => .value id periphId (ofList (slice buf len.toNat)) len
  | o => o

def SameEffect (r r' : RfState × List Out) : Prop :=
  r'.1 = r.1 ∧ r'.2.map shown = r.2.map shown

theorem SameEffect.refl (r : RfState × List Out) : SameEffect r r := ⟨rfl, rfl⟩

theorem sameEffect_of_eq {r r' : RfState × List Out} (h : r' = r) : SameEffect r r' := by
  rw [h]
  exact .refl r

theorem threshold_low (hi lo : UInt8) : (threshold hi lo).toUInt8 = lo := by
  rw [threshold, toUInt8_signExtend, toUInt8_word16]

def register (s : RfState) (src : Addr) (action : UInt8) (r : Request) : RfState × List Out :=
  match subscriptionExists s.subscribers src action r.pId r.value with
  | some i => (s, [sendSubResponse src (subId i)])
  | none =>
    match freeSub s.subscribers with
    | some i => (added s i src action r, [sendSubResponse src (subId i)])
    | none => (s, [])

/-- The subscription request of a frame whose last byte is the high byte of the threshold: it
finds an entry or a free one. -/
def Answered (s : RfState) (src : Addr) (action hi : UInt8) : Prop :=
  freeSub s.subscribers ≠ none ∨
    ∃ lo, subscriptionExists s.subscribers src action msgDevTemp (threshold hi lo) ≠ none

/-- The frame makes a handler read, and use, the byte behind it. -/
def ReadsPast (s : RfState) (src : Addr) (buf : ℕ → UInt8) (len : UInt8) : Prop :=
  len = 1 ∧ kind buf = msgUnsub ∧ s.isCoordinator = false ∧
      (∃ i, (s.subscribers i).addr = src) ∨
  len = 1 ∧ kind buf = msgSub ∧ buf 0 &&& 0xF0 = msgSubResp ∧ s.cb.subStarted = true ∧
      findNode s.nodes src ≠ none ∨
  len = 3 ∧ Subscribes s buf len ∧ buf 1 = msgDevTemp ∧ Answered s src (device buf) (buf 2)

section Handlers
variable {buf buf' : ℕ → UInt8}

theorem setValue_agree {n : ℕ} (h : AgreeOn n buf buf') (periphId : UInt8) :
    setValue periphId buf' n = setValue periphId buf n := by
  simp only [setValue]
  by_cases hrgb : periphId = msgDevRgb
  · simp only [if_pos hrgb]
    by_cases hshort : n < 2
    · rw [if_pos hshort, if_pos hshort]
    · rw [if_neg hshort, if_neg hshort, h 0 (by omega), h 1 (by omega)]
  · simp only [if_neg hrgb]
    by_cases hled : periphId = msgDevLed
    · simp only [if_pos hled]
      by_cases hshort : n < 1
      · rw [if_pos hshort, if_pos hshort]
      · rw [if_neg hshort, if_neg hshort, h 0 (by omega)]
    · rw [if_neg hled, if_neg hled]

theorem handleValueUpdate_agree {n : ℕ} (hn : n < 256) (h : AgreeOn n buf buf') (s : RfState)
    (src : Addr) (periphId : UInt8) :
    (handleValueUpdate s src periphId buf' n).map shown =
      (handleValueUpdate s src periphId buf n).map shown := by
  have hlen : (UInt8.ofNat n).toNat = n := by
    rw [UInt8.toNat_ofNat']
    omega
  simp only [handleValueUpdate, call]
  split
  · split_ifs
    · simp only [List.map_cons, List.map_nil, shown, hlen, h.slice_eq]
    · rfl
  · rfl

theorem handlePublish_agree {len : UInt8} (h : AgreeOn len.toNat buf buf') (s : RfState)
    (src : Addr) (now : UInt32) :
    handlePublish s src buf' len now = handlePublish s src buf len now := by
  have hnode (n : Node) : attachNode n src buf' len now = attachNode n src buf len now := by
    have hcaps : (fun c : Fin nodeMaxCaps => if c.val < len.toNat then buf' c else n.caps c) =
        fun c : Fin nodeMaxCaps => if c.val < len.toNat then buf c else n.caps c := by
      funext c
      split_ifs with hc
      · exact h c hc
      · rfl
    simp only [attachNode, hcaps]
  simp only [handlePublish, hnode]

theorem subRequest_agree (h0 : buf' 0 = buf 0) (h1 : buf' 1 = buf 1)
    (h2 : buf 0 = msgDevTemp → buf' 2 = buf 2) (trimpot : UInt16) (port : UInt32) :
    subRequest buf' trimpot port = subRequest buf trimpot port := by
  by_cases htemp : buf 0 = msgDevTemp
  · simp only [subRequest, h0, h1, h2 htemp]
  · simp only [subRequest, h0, h1, if_neg htemp]

theorem handleSubscribe_agree {len : ℕ} (h0 : 2 ≤ len → buf' 0 = buf 0)
    (h1 : 2 ≤ len → buf' 1 = buf 1) (h2 : 2 ≤ len → buf 0 = msgDevTemp → buf' 2 = buf 2)
    (s : RfState) (src : Addr) (action : UInt8) (trimpot : UInt16) (port : UInt32) :
    handleSubscribe s src action buf' len trimpot port =
      handleSubscribe s src action buf len trimpot port := by
  by_cases hshort : len < 2
  · simp only [handleSubscribe, if_pos hshort]
  · have hlen : 2 ≤ len := by omega
    have hreq := subRequest_agree (h0 hlen) (h1 hlen) (h2 hlen) trimpot port
    simp only [handleSubscribe, hreq]

theorem handleSubscribe_temp (h0 : buf 0 = msgDevTemp) (s : RfState) (src : Addr)
    (action : UInt8) (trimpot : UInt16) (port : UInt32) :
    handleSubscribe s src action buf 2 trimpot port =
      register s src action ⟨msgDevTemp, threshold (buf 1) (buf 2), trimpot.toUInt32⟩ := by
  have hreq : subRequest buf trimpot port =
      some ⟨msgDevTemp, threshold (buf 1) (buf 2), trimpot.toUInt32⟩ := by
    simp only [subRequest, h0, if_true]
  simp only [handleSubscribe, hreq]
  rfl

theorem handleUnsubscribe_stranger {s : RfState} {src : Addr}
    (hnone : ∀ i, (s.subscribers i).addr ≠ src) (id : UInt8) : handleUnsubscribe s src id = s := by
  by_cases hzero : id = 0
  · rw [handleUnsubscribe, if_pos hzero]
  · by_cases hslot : (id - 1).toNat < maxSubs
    · simp only [handleUnsubscribe, if_neg hzero, dif_pos hslot, if_neg (hnone _)]
    · simp only [handleUnsubscribe, if_neg hzero, dif_neg hslot]

theorem handleSubscribeResponse_unheard {s : RfState} {src : Addr}
    (hunheard : ¬ (s.cb.subStarted = true ∧ findNode s.nodes src ≠ none)) (id : UInt8) :
    handleSubscribeResponse s src id = [] := by
  simp only [handleSubscribeResponse]
  cases hfind : findNode s.nodes src with
  | none => rfl
  | some i =>
    have hcb : s.cb.subStarted = false := by
      by_contra hcb
      exact hunheard ⟨Bool.eq_true_of_not_eq_false hcb, by simp [hfind]⟩
    simp only [hcb]
    rfl

theorem handleSubscribe_unanswered {s : RfState} {src : Addr} {action : UInt8}
    (h0 : buf 0 = msgDevTemp) (hun : ¬ Answered s src action (buf 1)) (trimpot : UInt16)
    (port : UInt32) : handleSubscribe s src action buf 2 trimpot port = (s, []) := by
  simp only [Answered, not_or, not_not, not_exists] at hun
  simp only [handleSubscribe_temp h0, register, hun.1, hun.2]

theorem handleSubscribe_payload_agree {s : RfState} {src : Addr} {action : UInt8} {len : UInt8}
    (h : AgreeOn (len.toNat - 1) (payload buf) (payload buf'))
    (hun : len = 3 → buf 1 = msgDevTemp → ¬ Answered s src action (buf 2)) (trimpot : UInt16)
    (port : UInt32) :
    handleSubscribe s src action (payload buf') (len.toNat - 1) trimpot port =
      handleSubscribe s src action (payload buf) (len.toNat - 1) trimpot port := by
  by_cases hthree : len = 3 ∧ payload buf 0 = msgDevTemp
  · have hun := hun hthree.1 hthree.2
    have htwo : len.toNat - 1 = 2 := by
      rw [hthree.1]
      rfl
    have h1 : payload buf' 0 = msgDevTemp := (h 0 (by omega)).trans hthree.2
    have h2 : buf' 2 = buf 2 := h 1 (by omega)
    rw [htwo, handleSubscribe_unanswered h1 (by rwa [payload, h2]),
      handleSubscribe_unanswered hthree.2 hun]
  · refine handleSubscribe_agree (fun htwo => h 0 (by omega)) (fun htwo => h 1 (by omega))
      (fun htwo htemp => h 2 ?_) s src action trimpot port
    have hne : len.toNat ≠ 3 := fun heq => hthree ⟨UInt8.toNat_inj.mp heq, htemp⟩
    omega

end Handlers

theorem xbeeData_agree {s : RfState} {src : Addr} {buf buf' : ℕ → UInt8} {len : UInt8}
    (hnot : ¬ ReadsPast s src buf len) (h : AgreeOn len.toNat buf buf') (now : UInt32)
    (trimpot : UInt16) (port : UInt32) :
    SameEffect (xbeeData s src buf len now trimpot port)
      (xbeeData s src buf' len now trimpot port) := by
  by_cases hlen : len < 1
  · simp only [xbeeData, if_pos hlen]
    exact .refl _
  have hpos : 0 < len.toNat := by
    by_contra hzero
    exact hlen (UInt8.lt_iff_toNat_lt.mpr (by simp; omega))
  have h0 : buf' 0 = buf 0 := h 0 hpos
  have hrest : AgreeOn (len.toNat - 1) (payload buf) (payload buf') :=
    fun i hi => h (i + 1) (by omega)
  have hsecond (hone : len ≠ 1) : buf' 1 = buf 1 := by
    have hne : len.toNat ≠ 1 := fun heq => hone (UInt8.toNat_inj.mp heq)
    exact h 1 (by omega)
  rw [xbeeData_route, xbeeData_route]
  have hkind : kind buf' = kind buf := by rw [kind, kind, h0]
  have hdev : device buf' = device buf := by rw [device, device, h0]
  simp only [route, if_neg hlen, hkind, hdev, h0]
  by_cases hget : kind buf = msgGet
  · simp only [if_pos hget]
    exact .refl _
  simp only [if_neg hget]
  by_cases hset : kind buf = msgSet
  · simp only [if_pos hset]
    cases s.isCoordinator
    · exact sameEffect_of_eq (congrArg (Prod.mk s) (setValue_agree hrest _))
    · exact .refl _
  simp only [if_neg hset]
  by_cases hsub : kind buf = msgSub
  · simp only [if_pos hsub]
    by_cases hresp : buf 0 &&& 0xF0 = msgSubResp
    · simp only [if_pos hresp]
      refine sameEffect_of_eq (congrArg (Prod.mk s) ?_)
      by_cases hone : len = 1
      · have hunheard : ¬ (s.cb.subStarted = true ∧ findNode s.nodes src ≠ none) :=
          fun hcb => hnot (.inr (.inl ⟨hone, hsub, hresp, hcb⟩))
        rw [handleSubscribeResponse_unheard hunheard, handleSubscribeResponse_unheard hunheard]
      · rw [hsecond hone]
    · simp only [if_neg hresp]
      cases hcoord : s.isCoordinator
      · have hnotemp (hthree : len = 3) (htemp : buf 1 = msgDevTemp) :
            ¬ Answered s src (device buf) (buf 2) := fun hans =>
          hnot (.inr (.inr ⟨hthree, ⟨hlen, hsub, hresp, hcoord⟩, htemp, hans⟩))
        exact sameEffect_of_eq (handleSubscribe_payload_agree hrest hnotemp trimpot port)
      · exact .refl _
  simp only [if_neg hsub]
  by_cases hunsub : kind buf = msgUnsub
  · simp only [if_pos hunsub]
    cases hcoord : s.isCoordinator
    · refine sameEffect_of_eq (congrArg (·, []) ?_)
      by_cases hone : len = 1
      · have hnone (i : Fin maxSubs) : (s.subscribers i).addr ≠ src :=
          fun haddr => hnot (.inl ⟨hone, hunsub, hcoord, i, haddr⟩)
        rw [handleUnsubscribe_stranger hnone, handleUnsubscribe_stranger hnone]
      · rw [hsecond hone]
    · exact .refl _
  simp only [if_neg hunsub]
  by_cases hval : kind buf = msgVal
  · simp only [if_pos hval]
    have hlt := len.toNat_lt
    exact ⟨rfl, handleValueUpdate_agree (by omega) hrest s src _⟩
  simp only [if_neg hval]
  by_cases hpoll : kind buf = msgPoll
  · simp only [if_pos hpoll]
    exact .refl _
  simp only [if_neg hpoll]
  by_cases hpublish : kind buf = msgPublish
  · simp only [if_pos hpublish]
    cases s.isCoordinator
    · exact .refl _
    · refine sameEffect_of_eq (handlePublish_agree ?_ s src now)
      rwa [UInt8.toNat_sub_of_le _ _ (UInt8.not_lt.mp hlen)]
  simp only [if_neg hpublish]
  exact .refl _

section Past
variable {s : RfState} {src : Addr}

theorem subNumRegistered_added_ne (i : Fin maxSubs) (action : UInt8) (r : Request) :
    added s i src action r ≠ s := by
  intro heq
  have hnum : s.subNumRegistered + 1 = s.subNumRegistered := congrArg RfState.subNumRegistered heq
  exact absurd (left_eq_add.mp hnum.symm) (by decide)

theorem subNumRegistered_removed_ne (i : Fin maxSubs) : removed s i ≠ s := by
  intro heq
  have hnum : s.subNumRegistered - 1 = s.subNumRegistered := congrArg RfState.subNumRegistered heq
  exact absurd (sub_eq_self.mp hnum) (by decide)

theorem sendSubResponse_inj {i j : Fin maxSubs}
    (h : [sendSubResponse src (subId i)].map shown = [sendSubResponse src (subId j)].map shown) :
    i = j := by
  simpa [shown, sendSubResponse, subId_inj] using h

theorem register_told_apart {action : UInt8} {r r' : Request} (hval : r.value ≠ r'.value)
    (hans : freeSub s.subscribers ≠ none ∨
      subscriptionExists s.subscribers src action r.pId r.value ≠ none) :
    ¬ SameEffect (register s src action r) (register s src action r') := by
  rintro ⟨hstate, houts⟩
  simp only [register] at hstate houts
  cases hex : subscriptionExists s.subscribers src action r.pId r.value with
  | some i =>
    cases hex' : subscriptionExists s.subscribers src action r'.pId r'.value with
    | some j =>
      simp only [hex, hex'] at houts
      have hij : j = i := sendSubResponse_inj houts
      have hi := (subscriptionExists_some hex).2.2.2
      have hj := (subscriptionExists_some hex').2.2.2
      rw [hij] at hj
      exact hval (hi.symm.trans hj)
    | none =>
      cases hfree : freeSub s.subscribers with
      | some k =>
        simp only [hex, hex', hfree] at hstate
        exact subNumRegistered_added_ne k action r' hstate
      | none => simp [hex, hex', hfree] at houts
  | none =>
    cases hfree : freeSub s.subscribers with
    | none => simp [hex, hfree] at hans
    | some k =>
      cases hex' : subscriptionExists s.subscribers src action r'.pId r'.value with
      | some j =>
        simp only [hex, hex', hfree] at hstate
        exact subNumRegistered_added_ne k action r hstate.symm
      | none =>
        simp only [hex, hex', hfree] at hstate
        have hsub := congrArg (fun t : RfState => (t.subscribers k).value) hstate
        simp only [added, Function.update_self] at hsub
        exact hval hsub.symm

theorem handleUnsubscribe_own {i : Fin maxSubs} (hi : (s.subscribers i).addr = src) :
    handleUnsubscribe s src (subId i) = removed s i := by
  have hslot : ∀ i, subId i ≠ 0 ∧
      ∃ h : (subId i - 1).toNat < maxSubs, (⟨_, h⟩ : Fin maxSubs) = i := by
    decide
  obtain ⟨hzero, hlt, heq⟩ := hslot i
  simp only [handleUnsubscribe, if_neg hzero, dif_pos hlt, heq, if_pos hi]
  rfl

variable {buf : ℕ → UInt8} {len : UInt8}

def effectWith (s : RfState) (src : Addr) (buf : ℕ → UInt8) (len : UInt8) (now : UInt32)
    (trimpot : UInt16) (port : UInt32) (x : UInt8) : RfState × List Out :=
  xbeeData s src (Function.update buf len.toNat x) len now trimpot port

theorem oneByte_cells (buf : ℕ → UInt8) (x : UInt8) :
    Function.update buf (1 : UInt8).toNat x 0 = buf 0 ∧
      Function.update buf (1 : UInt8).toNat x 1 = x :=
  ⟨Function.update_of_ne (by decide) .., Function.update_self ..⟩

theorem effectWith_unsubscribe (hlen : len = 1) (hk : kind buf = msgUnsub)
    (hdev : s.isCoordinator = false) (now : UInt32) (trimpot : UInt16) (port : UInt32) (x : UInt8) :
    effectWith s src buf len now trimpot port x = (handleUnsubscribe s src x, []) := by
  subst hlen
  rw [kind] at hk
  obtain ⟨h0, h1⟩ := oneByte_cells buf x
  simp only [effectWith, xbeeData, h0, h1, hk, hdev]
  rfl

theorem effectWith_subResponse (hlen : len = 1) (hk : kind buf = msgSub)
    (hresp : buf 0 &&& 0xF0 = msgSubResp) (now : UInt32) (trimpot : UInt16) (port : UInt32)
    (x : UInt8) :
    effectWith s src buf len now trimpot port x = (s, handleSubscribeResponse s src x) := by
  subst hlen
  rw [kind] at hk
  obtain ⟨h0, h1⟩ := oneByte_cells buf x
  simp only [effectWith, xbeeData, h0, h1, hk, hresp]
  rfl

theorem effectWith_temp (hlen : len = 3) (hsub : Subscribes s buf len) (htemp : buf 1 = msgDevTemp)
    (now : UInt32) (trimpot : UInt16) (port : UInt32) (x : UInt8) :
    effectWith s src buf len now trimpot port x =
      register s src (device buf) ⟨msgDevTemp, threshold (buf 2) x, trimpot.toUInt32⟩ := by
  subst hlen
  have hcell (k : ℕ) (hk : k < 3) : Function.update buf (3 : UInt8).toNat x k = buf k :=
    agreeOn_update buf 3 x k hk
  have hsub' : Subscribes s (Function.update buf (3 : UInt8).toNat x) 3 := by
    simpa only [Subscribes, kind, hcell 0 (by decide)] using hsub
  rw [effectWith, xbeeData_of_subscribes hsub']
  refine (handleSubscribe_temp ?_ s src _ trimpot port).trans ?_
  · exact (hcell 1 (by decide)).trans htemp
  · simp only [device, payload, hcell 0 (by decide), hcell 2 (by decide)]
    rw [show Function.update buf (3 : UInt8).toNat x 3 = x from Function.update_self ..]

theorem effectWith_varies (h : ReadsPast s src buf len) (now : UInt32) (trimpot : UInt16)
    (port : UInt32) : ∃ x y, ¬ SameEffect (effectWith s src buf len now trimpot port x)
      (effectWith s src buf len now trimpot port y) := by
  rcases h with ⟨hlen, hk, hdev, i, hi⟩ | ⟨hlen, hk, hresp, hcb, hfind⟩ |
    ⟨hlen, hsub, htemp, hans⟩
  · refine ⟨0, subId i, fun hsame => subNumRegistered_removed_ne (s := s) i ?_⟩
    simp only [effectWith_unsubscribe hlen hk hdev, handleUnsubscribe_own hi] at hsame
    exact hsame.1
  · refine ⟨0, 1, fun hsame => ?_⟩
    obtain ⟨i, hi⟩ := Option.ne_none_iff_exists'.mp hfind
    have houts := hsame.2
    simp only [effectWith_subResponse hlen hk hresp, handleSubscribeResponse, hi, hcb, call,
      if_true, List.map_cons, List.map_nil, shown] at houts
    simp at houts
  · obtain ⟨x, hx⟩ : ∃ x, freeSub s.subscribers ≠ none ∨ subscriptionExists s.subscribers src
        (device buf) msgDevTemp (threshold (buf 2) x) ≠ none := by
      rcases hans with hfree | ⟨x, hx⟩
      · exact ⟨0, Or.inl hfree⟩
      · exact ⟨x, Or.inr hx⟩
    refine ⟨x, x + 1, ?_⟩
    rw [effectWith_temp hlen hsub htemp, effectWith_temp hlen hsub htemp]
    refine register_told_apart (fun heq => ?_) hx
    have hlow := congrArg UInt32.toUInt8 heq
    simp only [threshold_low] at hlow
    exact absurd (left_eq_add.mp hlow) (by decide)

end Past

theorem SameEffect.euclidean {r a b : RfState × List Out} (ha : SameEffect r a)
    (hb : SameEffect r b) : SameEffect a b :=
  ⟨hb.1.trans ha.1.symm, hb.2.trans ha.2.symm⟩

theorem payload_decides_iff (s : RfState) (src : Addr) (buf : ℕ → UInt8) (len : UInt8)
    (now : UInt32) (trimpot : UInt16) (port : UInt32) :
    (∀ buf', AgreeOn len.toNat buf buf' →
      SameEffect (xbeeData s src buf len now trimpot port)
        (xbeeData s src buf' len now trimpot port)) ↔ ¬ ReadsPast s src buf len := by
  constructor
  · intro hall hpast
    obtain ⟨x, y, hxy⟩ := effectWith_varies hpast now trimpot port
    exact hxy ((hall _ (agreeOn_update buf _ x)).euclidean (hall _ (agreeOn_update buf _ y)))
  · exact fun hnot buf' h => xbeeData_agree hnot h now trimpot port

def subscribed : RfState :=
  (xbeeData (rfInit powerUp false allCallb) ⟨1, 1⟩ (ofList [0x13, msgDevBtn, 1]) 3 0 0 0).1

theorem unsubscribe_reads_checksum :
    AgreeOn 1 (ofList [msgUnsub, 0]) (ofList [msgUnsub, 1]) ∧
      ¬ SameEffect (xbeeData subscribed ⟨1, 1⟩ (ofList [msgUnsub, 0]) 1 0 0 0)
        (xbeeData subscribed ⟨1, 1⟩ (ofList [msgUnsub, 1]) 1 0 0 0) := by
  refine ⟨fun i hi => ?_, fun hsame => ?_⟩
  · obtain rfl : i = 0 := Nat.lt_one_iff.mp hi
    rfl
  have hnum := congrArg RfState.subNumRegistered hsame.1
  revert hnum
  decide +kernel

end AoaBoard.Rf
