import AoaBoard.Library.Slots
import AoaBoard.Rf.Lifecycle
import AoaBoard.Rf.Subscriptions

/-!
# Which table entries are in use

`handlePublish` and `handleSubscribe` take an entry to be free when both halves
of its address are zero. `rf_getNodes`, `rf_getNodeCaps`, `checkIfNodesAlive`
and `rf_task` take it to be in use when both halves are non-zero. The two tests
agree in every state of a run if and only if no address with exactly one zero
half is stored.
-/

namespace AoaBoard.Rf
open Library Library.Run Library.Slots Board

def InUse (a : Addr) : Prop := a.hi ≠ 0 ∧ a.lo ≠ 0

/-- Exactly one half of the address is zero. -/
def HalfZero (a : Addr) : Prop := a ≠ noAddr ∧ (a.hi = 0 ∨ a.lo = 0)

instance decidableInUse (a : Addr) : Decidable (InUse a) := inferInstanceAs (Decidable (_ ∧ _))

instance decidableHalfZero (a : Addr) : Decidable (HalfZero a) :=
  inferInstanceAs (Decidable (_ ∧ _))

theorem inUse_iff (a : Addr) : InUse a ↔ a ≠ noAddr ∧ ¬ HalfZero a := by
  have hzero : a = noAddr ↔ a.hi = 0 ∧ a.lo = 0 := by
    rw [noAddr, Addr.mk.injEq]
  simp only [InUse, HalfZero, Ne, hzero]
  tauto

theorem noAddr_not_halfZero : ¬ HalfZero noAddr := fun h => h.1 rfl

def takenNodes (s : RfState) : List (Fin maxNodes) :=
  (List.finRange maxNodes).filter fun i => (s.nodes i).addr ≠ noAddr

/-- Every entry that is taken for `handlePublish` or `handleSubscribe` is in use for the
other operations. -/
structure Agreement (s : RfState) : Prop where
  listed : ∀ i, (s.nodes i).addr ≠ noAddr → ∀ len : UInt8, (takenNodes s).length ≤ len.toNat →
    ∃ ids, rfGetNodes s false len = (.ok, some ids) ∧ nodeId i ∈ ids
  caps : ∀ i, (s.nodes i).addr ≠ noAddr → ∀ len : UInt8, len ≠ 0 →
    rfGetNodeCaps s false (nodeId i) len = (.ok, some (((List.finRange nodeMaxCaps).map
      (s.nodes i).caps).take (min len.toNat (s.nodes i).numCaps.toNat)))
  examined : ∀ i, (s.nodes i).addr ≠ noAddr → ∀ now,
    .examined (nodeId i) ∈ (checkIfNodesAlive s now).2
  evaluated : s.isCoordinator = false → ∀ i, (s.subscribers i).addr ≠ noAddr → ∀ r,
    .evaluated (subId i) ∈ (rfTask s r).2

structure NoHalfZero (s : RfState) : Prop where
  nodes : ∀ i, ¬ HalfZero (s.nodes i).addr
  subscribers : s.isCoordinator = false → ∀ i, ¬ HalfZero (s.subscribers i).addr

theorem nodeId_toNat (i : Fin maxNodes) : (nodeId i).toNat = i + 1 := by
  have hi : i.val < 10 := i.isLt
  rw [nodeId, UInt8.toNat_ofNat']
  omega

theorem nodeId_range (i : Fin maxNodes) : 0 < (nodeId i).toNat ∧ (nodeId i).toNat ≤ maxNodes := by
  have hid := nodeId_toNat i
  omega

theorem nodeId_slot (i : Fin maxNodes) (h : (nodeId i).toNat - 1 < maxNodes) :
    (⟨(nodeId i).toNat - 1, h⟩ : Fin maxNodes) = i := by
  have hid := nodeId_toNat i
  apply Fin.ext
  simp only [hid]
  omega

theorem getNode_nodeId (s : RfState) (i : Fin maxNodes) :
    getNode s (nodeId i) = if InUse (s.nodes i).addr then some (s.nodes i) else none := by
  have hrange := nodeId_range i
  simp only [getNode, dif_pos hrange, nodeId_slot]
  rfl

theorem rfGetNodes_lists {s : RfState} (h : NoHalfZero s) {len : UInt8}
    (hroom : (takenNodes s).length ≤ len.toNat) (hlen : len ≠ 0) :
    rfGetNodes s false len = (.ok, some ((takenNodes s).map nodeId)) := by
  have hfilter : (List.finRange maxNodes).filter (fun i => InUse (s.nodes i).addr) =
      takenNodes s := by
    refine List.filter_congr fun i _ => ?_
    simp [inUse_iff, h.nodes i]
  rw [← hfilter] at hroom ⊢
  have hcollect := foldl_collect (fun i => InUse (s.nodes i).addr) nodeId len.toNat
    (List.finRange maxNodes) [] (by simpa using hroom)
  simp only [rfGetNodes, hlen, Bool.false_eq_true, or_self, if_false, ← and_assoc]
  rw [List.nil_append] at hcollect
  exact congrArg (fun ids => (ErrorT.ok, some ids)) hcollect

theorem rfGetNodeCaps_inUse {s : RfState} {i : Fin maxNodes} (h : InUse (s.nodes i).addr)
    {len : UInt8} (hlen : len ≠ 0) :
    rfGetNodeCaps s false (nodeId i) len = (.ok, some (((List.finRange nodeMaxCaps).map
      (s.nodes i).caps).take (min len.toNat (s.nodes i).numCaps.toNat))) := by
  simp only [rfGetNodeCaps, hlen, Bool.false_eq_true, or_self, if_false, getNode_nodeId, if_pos h]
  rw [← List.map_take, ← takeWhile_finRange]
  simp only [Nat.lt_min]

theorem rfGetNodeCaps_halfZero {s : RfState} {i : Fin maxNodes} (h : HalfZero (s.nodes i).addr)
    {len : UInt8} (hlen : len ≠ 0) :
    rfGetNodeCaps s false (nodeId i) len = (.argument, some []) := by
  have huse : ¬ InUse (s.nodes i).addr := fun hu => ((inUse_iff _).mp hu).2 h
  simp only [rfGetNodeCaps, hlen, Bool.false_eq_true, or_self, if_false, getNode_nodeId,
    if_neg huse]

theorem checkNode_examined {s : RfState} {i : Fin maxNodes} (h : InUse (s.nodes i).addr)
    (now : Fin maxNodes → UInt32) : .examined (nodeId i) ∈ (checkNode now s i).2 := by
  rw [InUse] at h
  simp only [checkNode, if_pos h]
  split_ifs <;> simp

theorem checkNodes_examined (now : Fin maxNodes → UInt32) {s : RfState} {i : Fin maxNodes}
    (h : InUse (s.nodes i).addr) {is : List (Fin maxNodes)} (hi : i ∈ is) :
    .examined (nodeId i) ∈ outputs (checkNode now) s is := by
  induction is generalizing s with
  | nil => simp at hi
  | cons j is ih =>
    rw [outputs_cons, List.mem_append]
    by_cases hij : i = j
    · exact Or.inl (hij ▸ checkNode_examined h now)
    · have hnext : InUse ((checkNode now s j).1.nodes i).addr := by rwa [checkNode_other now s hij]
      exact Or.inr (ih hnext (List.mem_of_ne_of_mem hij hi))

theorem subId_inj {i j : Fin maxSubs} : subId i = subId j ↔ i = j := by
  revert i j
  decide

theorem notify_not_evaluated (r : Readings) (i : Fin maxSubs) (sub : Sub) (id : UInt8) :
    .evaluated id ∉ notify r i sub := by
  simp only [notify]
  split_ifs <;> simp [sendTemperature, sendBtn]

theorem evalSub_evaluated (r : Readings) (st : RfState × UInt32) (i j : Fin maxSubs) :
    .evaluated (subId i) ∈ (evalSub r st j).2 ↔ i = j ∧ InUse (st.1.subscribers j).addr := by
  by_cases huse : InUse (st.1.subscribers j).addr
  · have hrest (b : Bool) : .evaluated (subId i) ∉
        if b then notify r j (st.1.subscribers j) else [] := by
      cases b
      · simp
      · exact notify_not_evaluated r j _ _
    rw [and_iff_left huse]
    rw [InUse] at huse
    simp only [evalSub, if_pos huse, List.mem_cons, hrest, or_false, Out.evaluated.injEq, subId_inj]
  · rw [iff_false_right fun h => huse h.2]
    rw [InUse] at huse
    simp only [evalSub, if_neg huse, List.not_mem_nil, not_false_iff]

theorem evalSubs_evaluated (r : Readings) (st : RfState × UInt32) (i : Fin maxSubs)
    (is : List (Fin maxSubs)) :
    .evaluated (subId i) ∈ outputs (evalSub r) st is ↔
      i ∈ is ∧ InUse (st.1.subscribers i).addr := by
  induction is generalizing st with
  | nil => simp
  | cons j is ih =>
    obtain ⟨last, hlast⟩ := (evalSub_sameSubs r st j).entry i
    rw [outputs_cons, List.mem_append, evalSub_evaluated, ih, hlast, List.mem_cons]
    constructor
    · rintro (⟨rfl, huse⟩ | ⟨hi, huse⟩)
      · exact ⟨Or.inl rfl, huse⟩
      · exact ⟨Or.inr hi, huse⟩
    · rintro ⟨rfl | hi, huse⟩
      · exact Or.inl ⟨rfl, huse⟩
      · exact Or.inr ⟨hi, huse⟩

theorem rfTask_evaluated {s : RfState} (hs : SubInv s) (hdev : s.isCoordinator = false)
    {i : Fin maxSubs} (hi : (s.subscribers i).addr ≠ noAddr) (r : Readings) :
    .evaluated (subId i) ∈ (rfTask s r).2 ↔ InUse (s.subscribers i).addr := by
  have hsome : s.subNumRegistered ≠ 0 := by
    intro hzero
    have hcount := hs.count
    rw [hzero] at hcount
    have hpos : 0 < (taken s).card := Finset.card_pos.mpr ⟨i, mem_taken.mpr hi⟩
    have hnone : (0 : UInt8).toNat = 0 := rfl
    omega
  simp only [rfTask, hdev, Bool.false_eq_true, if_false, if_pos hsome]
  rw [evalSubs_evaluated]
  exact and_iff_right (List.mem_finRange i)

theorem agreement_iff {s : RfState} (hs : SubInv s) : Agreement s ↔ NoHalfZero s := by
  constructor
  · intro h
    refine ⟨fun i hhalf => ?_, fun hdev i hhalf => ?_⟩
    · have hcaps := h.caps i hhalf.1 1 (by decide)
      rw [rfGetNodeCaps_halfZero hhalf (by decide)] at hcaps
      simp at hcaps
    · have heval := h.evaluated hdev i hhalf.1 ⟨0, 0, 0, 0, 0, 0, 0⟩
      rw [rfTask_evaluated hs hdev hhalf.1] at heval
      exact ((inUse_iff _).mp heval).2 hhalf
  · intro h
    have huse {i : Fin maxNodes} (hi : (s.nodes i).addr ≠ noAddr) : InUse (s.nodes i).addr :=
      (inUse_iff _).mpr ⟨hi, h.nodes i⟩
    refine ⟨fun i hi len hroom => ?_, fun i hi len hlen => rfGetNodeCaps_inUse (huse hi) hlen,
      fun i hi now => checkNodes_examined now (huse hi) (List.mem_finRange i),
      fun hdev i hi r => ?_⟩
    · have hmem : i ∈ takenNodes s := by simp [takenNodes, hi]
      have hlen : len ≠ 0 := by
        rintro rfl
        have hpos := List.length_pos_of_mem hmem
        have hnone : (0 : UInt8).toNat = 0 := rfl
        omega
      exact ⟨_, rfGetNodes_lists h hroom hlen, List.mem_map_of_mem hmem⟩
    · exact (rfTask_evaluated hs hdev hi r).mpr ((inUse_iff _).mpr ⟨hi, h.subscribers hdev i⟩)

/-- The frame stores an address with exactly one zero half: it publishes to a coordinator
that has a free slot, or it makes a valid subscription request to an end device that has a
free entry. -/
def StoresHalfZero (s : RfState) : Input → Prop
  | .frame src buf len _ trimpot port => HalfZero src ∧
    ((Publishes s buf len ∧ ∃ i, (s.nodes i).addr = noAddr) ∨
      (Subscribes s buf len ∧ 3 ≤ len.toNat ∧ (subRequest (payload buf) trimpot port).isSome ∧
        ∃ i, (s.subscribers i).addr = noAddr))
  | .task _ => False

instance decidableStoresHalfZero (s : RfState) : ∀ e, Decidable (StoresHalfZero s e)
  | .frame _ _ _ _ _ _ => inferInstanceAs (Decidable (_ ∧ (_ ∨ _)))
  | .task _ => inferInstanceAs (Decidable False)

theorem publishScan_taken {nodes : Fin maxNodes → Node} {src : Addr} {is : List (Fin maxNodes)}
    {free : Option (Fin maxNodes)} (hnew : ∀ j, (nodes j).addr ≠ src)
    (hfree : free ≠ none ∨ ∃ i ∈ is, (nodes i).addr = noAddr) :
    ∃ i, publishScan nodes src is free = (some i, false) := by
  induction is generalizing free with
  | nil =>
    obtain ⟨i, rfl⟩ := Option.ne_none_iff_exists'.mp (hfree.resolve_right (by simp))
    exact ⟨i, rfl⟩
  | cons j is ih =>
    simp only [publishScan, if_neg (hnew j)]
    apply ih
    split_ifs with hj
    · exact Or.inl (by simp)
    · rcases hfree with hfree | ⟨i, hi, haddr⟩
      · exact Or.inl hfree
      · rcases List.mem_cons.mp hi with rfl | hi
        · exact Or.inl fun hnone => hj ⟨hnone, haddr⟩
        · exact Or.inr ⟨i, hi, haddr⟩

theorem handlePublish_stores {s : RfState} {src : Addr} (hnew : ∀ j, (s.nodes j).addr ≠ src)
    (hfree : ∃ i, (s.nodes i).addr = noAddr) (buf : ℕ → UInt8) (len : UInt8) (now : UInt32) :
    ∃ i, ((handlePublish s src buf len now).1.nodes i).addr = src := by
  obtain ⟨k, hk⟩ := hfree
  obtain ⟨i, hi⟩ : ∃ i, publishScan s.nodes src (List.finRange maxNodes) none = (some i, false) :=
    publishScan_taken hnew (Or.inr ⟨k, List.mem_finRange k, hk⟩)
  refine ⟨i, ?_⟩
  simp only [handlePublish, hi, Function.update_self, attachNode]

theorem handlePublish_noHalfZero {s : RfState} (h : NoHalfZero s)
    (hcoord : s.isCoordinator = true) (src : Addr) (buf : ℕ → UInt8) (len : UInt8)
    (now : UInt32) : NoHalfZero (handlePublish s src buf len now).1 ↔
      ¬ (HalfZero src ∧ ∃ i, (s.nodes i).addr = noAddr) := by
  constructor
  · rintro hnext ⟨hhalf, hfree⟩
    have hnew : ∀ j, (s.nodes j).addr ≠ src := fun j hj => h.nodes j (hj ▸ hhalf)
    obtain ⟨i, hi⟩ := handlePublish_stores hnew hfree buf len now
    exact hnext.nodes i (by rwa [hi])
  · intro hclear
    rcases handlePublish_cases s src buf len now with heq | ⟨i, hfree, -, -, heq⟩
    · rw [heq]
      exact h
    · rw [heq]
      refine ⟨fun j => ?_, fun hdev => absurd (hcoord.symm.trans hdev) (by decide)⟩
      by_cases hj : j = i
      · subst hj
        simp only [Function.update_self, attachNode]
        exact fun hhalf => hclear ⟨hhalf, j, hfree⟩
      · simp only [Function.update_of_ne hj]
        exact h.nodes j

theorem handleSubscribe_stores {s : RfState} {src : Addr} {buf : ℕ → UInt8} {len : ℕ}
    {trimpot : UInt16} {port : UInt32} (hnew : ∀ j, (s.subscribers j).addr ≠ src)
    (hlen : 2 ≤ len) (hreq : (subRequest buf trimpot port).isSome)
    (hfree : ∃ i, (s.subscribers i).addr = noAddr) (action : UInt8) :
    ∃ i, ((handleSubscribe s src action buf len trimpot port).1.subscribers i).addr = src := by
  obtain ⟨r, hr⟩ := Option.isSome_iff_exists.mp hreq
  have hex : subscriptionExists s.subscribers src action r.pId r.value = none := by
    rw [subscriptionExists, List.find?_eq_none]
    intro j _
    simp [hnew j]
  cases hslot : freeSub s.subscribers with
  | none =>
    obtain ⟨k, hk⟩ := hfree
    rw [freeSub, List.find?_eq_none] at hslot
    exact absurd hk (by simpa using hslot k (List.mem_finRange k))
  | some i =>
    refine ⟨i, ?_⟩
    simp only [handleSubscribe, if_neg (Nat.not_lt.mpr hlen), hr, hex, hslot, Function.update_self]

theorem handleSubscribe_noHalfZero {s : RfState} (h : NoHalfZero s)
    (hdev : s.isCoordinator = false) (src : Addr) (action : UInt8) (buf : ℕ → UInt8) (len : ℕ)
    (trimpot : UInt16) (port : UInt32) :
    NoHalfZero (handleSubscribe s src action buf len trimpot port).1 ↔
      ¬ (HalfZero src ∧ 2 ≤ len ∧ (subRequest buf trimpot port).isSome ∧
        ∃ i, (s.subscribers i).addr = noAddr) := by
  have hsame := (handleSubscribe_sameNodes s src action buf len trimpot port).1
  constructor
  · rintro hnext ⟨hhalf, hlen, hreq, hfree⟩
    have hnew : ∀ j, (s.subscribers j).addr ≠ src := fun j hj => h.subscribers hdev j (hj ▸ hhalf)
    obtain ⟨i, hi⟩ := handleSubscribe_stores hnew hlen hreq hfree action
    exact hnext.subscribers (hsame.isCoordinator.trans hdev) i (by rwa [hi])
  · intro hclear
    refine ⟨fun i => by rw [hsame.nodes]; exact h.nodes i, fun _ j => ?_⟩
    by_cases hlen : len < 2
    · simp only [handleSubscribe, if_pos hlen]
      exact h.subscribers hdev j
    · rcases handleSubscribe_cases s src action buf len trimpot port with
        heq | ⟨r, hr, ⟨i, -, heq⟩ | ⟨i, hfree, -, heq⟩⟩
      · rw [heq]
        exact h.subscribers hdev j
      · rw [heq]
        exact h.subscribers hdev j
      · rw [heq]
        by_cases hj : j = i
        · subst hj
          simp only [added, Function.update_self]
          exact fun hhalf => hclear ⟨hhalf, Nat.le_of_not_lt hlen, by rw [hr]; rfl, j, hfree⟩
        · simp only [added, Function.update_of_ne hj]
          exact h.subscribers hdev j

structure Kept (s s' : RfState) : Prop where
  isCoordinator : s'.isCoordinator = s.isCoordinator
  nodes : ∀ i, (s'.nodes i).addr = (s.nodes i).addr ∨ (s'.nodes i).addr = noAddr
  subscribers : ∀ i,
    (s'.subscribers i).addr = (s.subscribers i).addr ∨ (s'.subscribers i).addr = noAddr

theorem Kept.refl (s : RfState) : Kept s s := ⟨rfl, fun _ => Or.inl rfl, fun _ => Or.inl rfl⟩

theorem Kept.trans {s t u : RfState} (h : Kept s t) (h' : Kept t u) : Kept s u := by
  refine ⟨h'.isCoordinator.trans h.isCoordinator, fun i => ?_, fun i => ?_⟩
  · rcases h'.nodes i with hi | hi
    · rw [hi]
      exact h.nodes i
    · exact Or.inr hi
  · rcases h'.subscribers i with hi | hi
    · rw [hi]
      exact h.subscribers i
    · exact Or.inr hi

theorem Kept.noHalfZero {s s' : RfState} (h : Kept s s') (hs : NoHalfZero s) : NoHalfZero s' := by
  refine ⟨fun i => ?_, fun hdev i => ?_⟩
  · rcases h.nodes i with hi | hi
    · rw [hi]
      exact hs.nodes i
    · rw [hi]
      exact noAddr_not_halfZero
  · rcases h.subscribers i with hi | hi
    · rw [hi]
      exact hs.subscribers (h.isCoordinator.symm.trans hdev) i
    · rw [hi]
      exact noAddr_not_halfZero

theorem kept_of_update {s : RfState} (i : Fin maxNodes) {n : Node}
    (hn : n.addr = (s.nodes i).addr ∨ n.addr = noAddr) :
    Kept s { s with nodes := Function.update s.nodes i n } := by
  refine ⟨rfl, fun j => ?_, fun _ => Or.inl rfl⟩
  by_cases hj : j = i
  · subst hj
    simpa only [Function.update_self] using hn
  · simp only [Function.update_of_ne hj, true_or]

theorem kept_of_sameSubs {s s' : RfState} (hn : SameNodes s s') (h : SameSubs s s') :
    Kept s s' := by
  refine ⟨hn.isCoordinator, fun i => Or.inl (by rw [hn.nodes]), fun i => Or.inl ?_⟩
  obtain ⟨last, hlast⟩ := h.entry i
  rw [hlast]

theorem checkNode_kept (now : Fin maxNodes → UInt32) (s : RfState) (i : Fin maxNodes) :
    Kept s (checkNode now s i).1 := by
  simp only [checkNode]
  split_ifs
  · exact kept_of_update i (Or.inr rfl)
  · exact kept_of_update i (Or.inl rfl)
  · exact .refl s
  · exact .refl s

theorem rfTask_kept (s : RfState) (r : Readings) : Kept s (rfTask s r).1 :=
  rfTask_related .refl (fun _ _ _ => .trans)
    (fun _ _ => ⟨rfl, fun _ => Or.inl rfl, fun _ => Or.inl rfl⟩) checkNode_kept
    (fun r st i => kept_of_sameSubs (evalSub_sameNodes r st i).1 (evalSub_sameSubs r st i)) s r

theorem handleUnsubscribe_kept (s : RfState) (src : Addr) (id : UInt8) :
    Kept s (handleUnsubscribe s src id) := by
  have hsame := handleUnsubscribe_sameNodes s src id
  refine ⟨hsame.isCoordinator, fun i => Or.inl (by rw [hsame.nodes]), fun j => ?_⟩
  rcases handleUnsubscribe_cases s src id with heq | ⟨i, -, heq⟩
  · rw [heq]
    exact Or.inl rfl
  · rw [heq]
    by_cases hj : j = i
    · subst hj
      simp only [removed, Function.update_self, or_true]
    · simp only [removed, Function.update_of_ne hj, true_or]

theorem xbeeData_kept {s : RfState} {buf : ℕ → UInt8} {len : UInt8} (hp : ¬ Publishes s buf len)
    (hsub : ¬ Subscribes s buf len) (src : Addr) (now : UInt32) (trimpot : UInt16)
    (port : UInt32) : Kept s (xbeeData s src buf len now trimpot port).1 := by
  have hhandled := xbeeData_handled s src buf len now trimpot port
  generalize xbeeData s src buf len now trimpot port = r at hhandled
  cases hhandled with
  | subscribe hk => exact absurd hk hsub
  | publish hk => exact absurd hk hp
  | unsubscribe _ => exact handleUnsubscribe_kept s src (buf 1)
  | pollResponse _ =>
    simp only [handlePollResponse]
    split
    · exact kept_of_update _ (Or.inl rfl)
    · exact .refl s
  | _ => exact .refl s

theorem step_noHalfZero {s : RfState} (h : NoHalfZero s) (e : Input) :
    NoHalfZero (step s e).1 ↔ ¬ StoresHalfZero s e := by
  cases e with
  | task r => exact iff_of_true ((rfTask_kept s r).noHalfZero h) fun hfalse => hfalse
  | frame src buf len now trimpot port =>
    simp only [step, StoresHalfZero]
    by_cases hp : Publishes s buf len
    · have hsub : ¬ Subscribes s buf len := fun hsub => by
        have hflag := hp.2.2.symm.trans hsub.2.2.2
        exact Bool.noConfusion hflag
      rw [xbeeData_of_publishes hp, handlePublish_noHalfZero h hp.2.2]
      simp only [hp, hsub, true_and, false_and, or_false]
    · by_cases hsub : Subscribes s buf len
      · have hlen : 2 ≤ len.toNat - 1 ↔ 3 ≤ len.toNat := by omega
        rw [xbeeData_of_subscribes hsub, handleSubscribe_noHalfZero h hsub.2.2.2, hlen]
        simp only [hp, hsub, true_and, false_and, false_or]
      · simp only [hp, hsub, false_and, or_self, and_false, not_false_iff, iff_true]
        exact (xbeeData_kept hp hsub src now trimpot port).noHalfZero h

theorem rfInit_noHalfZero (s : RfState) (coordinator : Bool) (cb : Callb) :
    NoHalfZero (rfInit s coordinator cb) :=
  ⟨fun _ => noAddr_not_halfZero, fun _ _ => noAddr_not_halfZero⟩

/-- In a run without frames from `0:0` all operations agree on the entries in use, in every
state, if and only if no step stores an address with exactly one zero half. -/
theorem tables_agree_iff (s : RfState) (coordinator : Bool) (cb : Callb) (es : List Input)
    (hes : ∀ e ∈ es, source e ≠ some noAddr) :
    (∀ pre, pre <+: es → Agreement (after step (rfInit s coordinator cb) pre)) ↔
      Along step (fun t e => ¬ StoresHalfZero t e) (rfInit s coordinator cb) es := by
  have hinit := rfInit_subInv s coordinator cb
  refine reached_iff_along (I := SubInv) (P := Agreement) (c := fun e => source e ≠ some noAddr)
    (fun t e ht _ he _ => step_subInv ht he) (fun t e ht hagree he => ?_) hinit
    ((agreement_iff hinit).mpr (rfInit_noHalfZero s coordinator cb)) hes
  rw [agreement_iff (step_subInv ht he), step_noHalfZero ((agreement_iff ht).mp hagree)]

theorem tables_agree_publish :
    let start := rfInit powerUp true allCallb
    Along step (fun t e => ¬ StoresHalfZero t e) start publishAndTimeOut ∧
      Agreement (after step start publishAndTimeOut) := by
  intro start
  have hclear : Along step (fun t e => ¬ StoresHalfZero t e) start publishAndTimeOut := by decide
  have hagree := tables_agree_iff powerUp true allCallb publishAndTimeOut (by decide)
  exact ⟨hclear, hagree.mpr hclear publishAndTimeOut (List.prefix_refl _)⟩

theorem half_zero_node_ignored :
    let frame := frameFrom ⟨0, 7⟩ [msgPublish, msgDevBtn] 1
    source frame ≠ some noAddr ∧
      ¬ Agreement (after step (rfInit powerUp true allCallb) [frame]) := by
  intro frame
  refine ⟨by decide, fun h => ?_⟩
  have hcaps := h.caps ⟨0, by decide⟩ (by decide) 12 (by decide)
  exact absurd (congrArg Prod.fst hcaps) (by decide)

end AoaBoard.Rf
