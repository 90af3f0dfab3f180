import AoaBoard.Library.Clock
import AoaBoard.Rf.Commands
import AoaBoard.Rf.Lifecycle
import AoaBoard.Can.Discovery

/-!
# How long a node may be silent

Both protocols keep for every node the time at which it was attached or last
answered a poll, and both detach it once that time and the allowed silence add
up to less than the clock. `heard` records the same times by address, apart
from the tables. The RF version takes the time zero for none.
-/

namespace AoaBoard.Board.NodeTimeouts
open Library Library.Run Library.Clock Library.Registry

namespace Rf
open AoaBoard.Rf

def Examined (n : Node) : Prop := n.addr.hi ≠ 0 ∧ n.addr.lo ≠ 0

instance (n : Node) : Decidable (Examined n) := inferInstanceAs (Decidable (_ ∧ _))

def checked (now : UInt32) (n : Node) : Node :=
  if Examined n then
    if 0 < n.aliveTime ∧ n.aliveTime + nodeAliveTime < now then
      { n with addr := noAddr, numCaps := 0 }
    else if n.lastPoll + nodePollTime < now then { n with lastPoll := now }
    else n
  else n

/-- The entry is freed if and only if its node has been silent for too long, and is kept
otherwise. -/
def Timely (s : RfState) (now : Fin maxNodes → UInt32) (i : Fin maxNodes) : Prop :=
  let n := (checkIfNodesAlive s now).1.nodes i
  (n.addr = noAddr ↔ Exceeds (s.nodes i).aliveTime nodeAliveTime (now i)) ∧
    (¬ Exceeds (s.nodes i).aliveTime nodeAliveTime (now i) →
      n.addr = (s.nodes i).addr ∧ n.caps = (s.nodes i).caps ∧ n.numCaps = (s.nodes i).numCaps)

def Measures (since now : UInt32) : Prop :=
  (since = 0 → now ≤ nodeAliveTime) ∧ (since ≠ 0 → Aligned since nodeAliveTime now)

theorem checkNode_self (now : Fin maxNodes → UInt32) (s : RfState) (i : Fin maxNodes) :
    (checkNode now s i).1.nodes i = checked (now i) (s.nodes i) := by
  by_cases hex : Examined (s.nodes i)
  · have hex' : (s.nodes i).addr.hi ≠ 0 ∧ (s.nodes i).addr.lo ≠ 0 := hex
    simp only [checkNode, checked, if_pos hex, if_pos hex']
    split_ifs
    · exact Function.update_self ..
    · exact Function.update_self ..
    · rfl
  · have hex' : ¬ ((s.nodes i).addr.hi ≠ 0 ∧ (s.nodes i).addr.lo ≠ 0) := hex
    simp only [checkNode, checked, if_neg hex, if_neg hex']

theorem checkNodes_nodes (now : Fin maxNodes → UInt32) (s : RfState) {is : List (Fin maxNodes)}
    (hnodup : is.Nodup) {i : Fin maxNodes} (hi : i ∈ is) :
    (after (checkNode now) s is).nodes i = checked (now i) (s.nodes i) := by
  refine after_once (g := fun t : RfState => t.nodes i)
    (fun t j hj => checkNode_other now t (Ne.symm hj)) (fun t ht => ?_) hnodup hi rfl
  rw [checkNode_self, ht]

theorem checkIfNodesAlive_nodes (s : RfState) (now : Fin maxNodes → UInt32) (i : Fin maxNodes) :
    (checkIfNodesAlive s now).1.nodes i = checked (now i) (s.nodes i) := by
  have hpass := checkNodes_nodes now s (List.nodup_finRange maxNodes) (List.mem_finRange i)
  rw [← hpass]
  simp only [checkIfNodesAlive]

theorem test_iff (since now : UInt32) :
    ((0 < since ∧ since + nodeAliveTime < now) ↔ Exceeds since nodeAliveTime now) ↔
      Measures since now := by
  by_cases hzero : since = 0
  · subst hzero
    have hfalse : ¬ (0 < (0 : UInt32) ∧ 0 + nodeAliveTime < now) := fun h => absurd h.1 (by decide)
    rw [Measures, exceeds_zero, iff_false_left hfalse, UInt32.not_lt]
    simp
  · have hpos : 0 < since := by
      rw [UInt32.lt_iff_toNat_lt]
      exact Nat.pos_of_ne_zero fun h => hzero (UInt32.toNat_inj.mp h)
    rw [and_iff_right hpos, sum_lt_iff_exceeds_iff, Measures]
    simp [hzero]

theorem timely_iff {s : RfState} {i : Fin maxNodes} (hex : Examined (s.nodes i))
    (now : Fin maxNodes → UInt32) :
    Timely s now i ↔ Measures (s.nodes i).aliveTime (now i) := by
  have hused : (s.nodes i).addr ≠ noAddr := fun h => hex.1 (congrArg Addr.hi h)
  rw [← test_iff, Timely, checkIfNodesAlive_nodes, checked, if_pos hex]
  by_cases hlate : 0 < (s.nodes i).aliveTime ∧ (s.nodes i).aliveTime + nodeAliveTime < now i
  · rw [if_pos hlate, iff_true_left hlate, iff_true_left rfl]
    exact and_iff_left_of_imp fun hdue hnot => absurd hdue hnot
  · rw [if_neg hlate, iff_false_left hlate]
    split_ifs
    · rw [iff_false_left hused]
      exact and_iff_left_of_imp fun _ _ => ⟨rfl, rfl, rfl⟩
    · rw [iff_false_left hused]
      exact and_iff_left_of_imp fun _ _ => ⟨rfl, rfl, rfl⟩

structure Heard where
  state : RfState
  heard : Addr → UInt32

def Attached (s : RfState) (a : Addr) : Prop := ∃ i, (s.nodes i).addr = a

instance (s : RfState) (a : Addr) : Decidable (Attached s a) :=
  inferInstanceAs (Decidable (∃ i : Fin maxNodes, (s.nodes i).addr = a))

def heardAfter (t : Heard) : Input → Addr → UInt32
  | .frame src buf len now trimpot port =>
    match route t.state.isCoordinator buf len with
    | some .pollResponse => Function.update t.heard src now
    | some (.publish _ _) =>
      if ¬ Attached t.state src ∧
          Attached (xbeeData t.state src buf len now trimpot port).1 src then
        Function.update t.heard src now
      else t.heard
    | _ => t.heard
  | .task _ => t.heard

def heardStep (t : Heard) (e : Input) : Heard × List Out :=
  (⟨(step t.state e).1, heardAfter t e⟩, (step t.state e).2)

/-- `aliveTime` is the time of the attach or of the last poll response. -/
def Linked (t : Heard) : Prop :=
  ∀ i, (t.state.nodes i).addr ≠ noAddr →
    (t.state.nodes i).aliveTime = t.heard (t.state.nodes i).addr

theorem linked_of_nodes {t : Heard} (h : Linked t) {s : RfState} (hs : s.nodes = t.state.nodes) :
    Linked ⟨s, t.heard⟩ := by
  intro i hi
  simp only [hs] at hi ⊢
  exact h i hi

theorem step_distinct {s : RfState} (h : Distinct (table s)) (e : Input) :
    Distinct (table (step s e).1) := by
  obtain ⟨-, acts, htrace, -, -⟩ := step_performs s e
  exact htrace.distinct h

theorem distinct_addr {s : RfState} (h : Distinct (table s)) {i j : Fin maxNodes}
    (hi : (s.nodes i).addr ≠ noAddr) (hij : (s.nodes j).addr = (s.nodes i).addr) : i = j :=
  h i j _ ((table_eq_some_iff s i _).mpr ⟨rfl, hi⟩) ((table_eq_some_iff s j _).mpr ⟨hij, hi⟩)

theorem pollResponse_linked {t : Heard} (hd : Distinct (table t.state)) (h : Linked t) (src : Addr)
    (now : UInt32) :
    Linked ⟨handlePollResponse t.state src now, Function.update t.heard src now⟩ := by
  intro i hi
  simp only [handlePollResponse] at hi ⊢
  cases hfind : findNode t.state.nodes src with
  | none =>
    simp only [hfind] at hi ⊢
    have hne : (t.state.nodes i).addr ≠ src := by
      have hnone := List.find?_eq_none.mp hfind i (List.mem_finRange i)
      simpa using hnone
    rw [Function.update_of_ne hne]
    exact h i hi
  | some j =>
    have hj : (t.state.nodes j).addr = src := by simpa using List.find?_some hfind
    simp only [hfind] at hi ⊢
    by_cases hij : i = j
    · subst hij
      simp only [Function.update_self] at hi ⊢
      rw [hj, Function.update_self]
    · simp only [Function.update_of_ne hij] at hi ⊢
      have hne : (t.state.nodes i).addr ≠ src := fun hsrc =>
        hij (distinct_addr hd hi (hj.trans hsrc.symm))
      rw [Function.update_of_ne hne]
      exact h i hi

theorem publish_linked {t : Heard} (h : Linked t) (src : Addr) (buf : ℕ → UInt8) (len : UInt8)
    (now : UInt32) :
    Linked ⟨(handlePublish t.state src buf len now).1,
      if ¬ Attached t.state src ∧ Attached (handlePublish t.state src buf len now).1 src then
        Function.update t.heard src now
      else t.heard⟩ := by
  rcases handlePublish_cases t.state src buf len now with hsame | ⟨i, -, hnew, -, hattach⟩
  · rw [hsame, if_neg fun hboth => hboth.1 hboth.2]
    exact h
  · have hbefore : ¬ Attached t.state src := by
      rintro ⟨j, hj⟩
      exact hnew j hj
    have hafter : Attached (handlePublish t.state src buf len now).1 src := by
      refine ⟨i, ?_⟩
      rw [hattach]
      simp only [Function.update_self, attachNode]
    rw [if_pos ⟨hbefore, hafter⟩, hattach]
    intro j hj
    by_cases hji : j = i
    · subst hji
      simp only [Function.update_self, attachNode]
    · simp only [Function.update_of_ne hji] at hj ⊢
      rw [Function.update_of_ne (hnew j)]
      exact h j hj

theorem rfTask_alive (s : RfState) (r : Readings) (i : Fin maxNodes) :
    ((rfTask s r).1.nodes i).addr = noAddr ∨
      ((rfTask s r).1.nodes i).addr = (s.nodes i).addr ∧
        ((rfTask s r).1.nodes i).aliveTime = (s.nodes i).aliveTime := by
  refine rfTask_related (R := fun s t : RfState => (t.nodes i).addr = noAddr ∨
      (t.nodes i).addr = (s.nodes i).addr ∧ (t.nodes i).aliveTime = (s.nodes i).aliveTime)
    (fun _ => Or.inr ⟨rfl, rfl⟩) ?_ (fun _ _ => Or.inr ⟨rfl, rfl⟩) ?_ ?_ s r
  · rintro s t u hst (htu | ⟨haddr, halive⟩)
    · exact Or.inl htu
    · rw [haddr, halive]
      exact hst
  · intro now s j
    by_cases hij : i = j
    · subst hij
      rw [checkNode_self, checked]
      split_ifs
      · exact Or.inl rfl
      · exact Or.inr ⟨rfl, rfl⟩
      · exact Or.inr ⟨rfl, rfl⟩
      · exact Or.inr ⟨rfl, rfl⟩
    · rw [checkNode_other now s hij]
      exact Or.inr ⟨rfl, rfl⟩
  · intro r st j
    rw [(evalSub_sameNodes r st j).1.nodes]
    exact Or.inr ⟨rfl, rfl⟩

theorem step_linked {t : Heard} (hd : Distinct (table t.state)) (h : Linked t) (e : Input) :
    Linked (heardStep t e).1 := by
  cases e with
  | task r =>
    intro i hi
    rcases rfTask_alive t.state r i with hfree | ⟨haddr, halive⟩
    · exact absurd hfree hi
    · simp only [heardStep, step, heardAfter] at hi ⊢
      rw [haddr] at hi ⊢
      rw [halive]
      exact h i hi
  | frame src buf len now trimpot port =>
    have hroute := xbeeData_route t.state src buf len now trimpot port
    simp only [heardStep, step, heardAfter]
    cases hhandler : route t.state.isCoordinator buf len with
    | none =>
      rw [hhandler] at hroute
      rw [hroute]
      exact h
    | some handler =>
      rw [hhandler] at hroute
      have hdata : xbeeData t.state src buf len now trimpot port =
          perform t.state src now trimpot port handler := hroute
      rw [hdata]
      cases handler with
      | pollResponse => exact pollResponse_linked hd h src now
      | publish buf len => exact publish_linked h src buf len now
      | subscribe action buf len =>
        exact linked_of_nodes h
          (handleSubscribe_sameNodes t.state src action buf len trimpot port).1.nodes
      | unsubscribe id => exact linked_of_nodes h (handleUnsubscribe_sameNodes t.state src id).nodes
      | _ => exact h

theorem run_linked (mem : RfState) (coordinator : Bool) (cb : Callb) (heard : Addr → UInt32)
    (es : List Input) : Linked (after heardStep ⟨rfInit mem coordinator cb, heard⟩ es) := by
  have hstart : Distinct (table (rfInit mem coordinator cb)) ∧
      Linked ⟨rfInit mem coordinator cb, heard⟩ := by
    refine ⟨fun i j a hi => ?_, fun i hi => absurd rfl hi⟩
    rw [rfInit_free] at hi
    cases hi
  exact (after_invariant (P := fun t : Heard => Distinct (table t.state) ∧ Linked t)
    (fun t e ht _ => ⟨step_distinct ht.1 e, step_linked ht.1 ht.2 e⟩) hstart
    (along_trivial _ es)).2

end Rf

namespace Can
open AoaBoard.Can AoaBoard.Can.Discovery

def silence : UInt32 := nodeAliveTime + nodePollTime

def Timely (s : State) (now : Fin nodeMaxNum → UInt32) (i : Fin nodeMaxNum) : Prop :=
  let n := (checkIfNodesAlive s now).1.nodes i
  (n.reqId = 0 ↔ Exceeds (s.aliveTime i) silence (now i)) ∧
    (¬ Exceeds (s.aliveTime i) silence (now i) → n = s.nodes i)

def checked (now : UInt32) (n : Node × UInt32) : Node :=
  if n.1.reqId ≠ 0 ∧ n.2 + silence < now then { n.1 with reqId := 0 } else n.1

theorem checkNode_self (now : Fin nodeMaxNum → UInt32) (s : State) (i : Fin nodeMaxNum) :
    (checkNode now s i).1.nodes i = checked (now i) (s.nodes i, s.aliveTime i) := by
  have hsum : s.aliveTime i + nodeAliveTime + nodePollTime = s.aliveTime i + silence :=
    UInt32.add_assoc ..
  by_cases hid : (s.nodes i).reqId = 0
  · simp [checkNode, checked, hid]
  · by_cases hlate : s.aliveTime i + silence < now i
    · simp [checkNode, checked, hid, hsum, hlate]
    · simp only [checkNode, checked, hsum, ne_eq, hid, not_false_iff, if_true, true_and,
        if_neg hlate]
      split_ifs <;> rfl

theorem checkNodes_nodes (now : Fin nodeMaxNum → UInt32) (s : State) {is : List (Fin nodeMaxNum)}
    (hnodup : is.Nodup) {i : Fin nodeMaxNum} (hi : i ∈ is) :
    (after (checkNode now) s is).nodes i = checked (now i) (s.nodes i, s.aliveTime i) ∧
      (after (checkNode now) s is).aliveTime i = s.aliveTime i := by
  have hother (t : State) (j : Fin nodeMaxNum) (hj : j ≠ i) :
      ((checkNode now t j).1.nodes i, (checkNode now t j).1.aliveTime i) =
        (t.nodes i, t.aliveTime i) := by
    obtain ⟨halive, -, hnodes⟩ := checkNode_other now t j
    rw [halive, hnodes i (Ne.symm hj)]
  have hself (t : State) (ht : (t.nodes i, t.aliveTime i) = (s.nodes i, s.aliveTime i)) :
      ((checkNode now t i).1.nodes i, (checkNode now t i).1.aliveTime i) =
        (checked (now i) (s.nodes i, s.aliveTime i), s.aliveTime i) := by
    rw [checkNode_self, (checkNode_other now t i).1, ht, (Prod.mk.inj ht).2]
  exact Prod.mk.inj (after_once (g := fun t : State => (t.nodes i, t.aliveTime i)) hother hself
    hnodup hi rfl)

theorem checkIfNodesAlive_nodes (s : State) (now : Fin nodeMaxNum → UInt32) (i : Fin nodeMaxNum) :
    (checkIfNodesAlive s now).1.nodes i = checked (now i) (s.nodes i, s.aliveTime i) ∧
      (checkIfNodesAlive s now).1.aliveTime i = s.aliveTime i := by
  have hpass := checkNodes_nodes now s (List.nodup_finRange nodeMaxNum) (List.mem_finRange i)
  simp only [checkIfNodesAlive]
  exact hpass

theorem timely_iff {s : State} {i : Fin nodeMaxNum} (hid : (s.nodes i).reqId ≠ 0)
    (now : Fin nodeMaxNum → UInt32) :
    Timely s now i ↔ Aligned (s.aliveTime i) silence (now i) := by
  rw [← sum_lt_iff_exceeds_iff, Timely, (checkIfNodesAlive_nodes s now i).1, checked]
  by_cases hlate : s.aliveTime i + silence < now i
  · rw [if_pos ⟨hid, hlate⟩, iff_true_left hlate, iff_true_left rfl]
    exact and_iff_left_of_imp fun hdue hnot => absurd hdue hnot
  · rw [if_neg fun h => hlate h.2, iff_false_left hlate, iff_false_left hid]
    exact and_iff_left_of_imp fun _ _ => rfl

structure Heard where
  state : State
  heard : UInt8 → UInt32

def Registered (s : State) (id : UInt8) : Prop := ∃ i, (s.nodes i).reqId = id

instance (s : State) (id : UInt8) : Decidable (Registered s id) :=
  inferInstanceAs (Decidable (∃ i : Fin nodeMaxNum, (s.nodes i).reqId = id))

def PollResponse (msg : CanMsg) : Prop :=
  dataByte msg 1 &&& msgTypeMask = msgPoll ∧ dataByte msg 1 &&& msgPollResp ≠ 0

instance (msg : CanMsg) : Decidable (PollResponse msg) := inferInstanceAs (Decidable (_ ∧ _))

def heardNew (t : Heard) (s : State) (id : UInt8) (now : UInt32) : UInt8 → UInt32 :=
  if ¬ Registered t.state id ∧ Registered s id then Function.update t.heard id now else t.heard

def heardAfter (t : Heard) (e : Event) : UInt8 → UInt32 :=
  match e with
  | .common msg now _ => heardNew t (step t.state e).1 (dataByte msg 0) now
  | .direct msg now _ =>
    if PollResponse msg then Function.update t.heard (dataByte msg 0) now
    else heardNew t (step t.state e).1 (dataByte msg 0) now
  | .check _ => t.heard

def heardStep (t : Heard) (e : Event) : Heard × List Out :=
  (⟨(step t.state e).1, heardAfter t e⟩, (step t.state e).2)

def Linked (t : Heard) : Prop :=
  ∀ i, (t.state.nodes i).reqId ≠ 0 → t.state.aliveTime i = t.heard (t.state.nodes i).reqId

theorem heardNew_same (t : Heard) (id : UInt8) (now : UInt32) :
    heardNew t t.state id now = t.heard := if_neg fun h => h.1 h.2

theorem publish_linked {t : Heard} (h : Linked t) {reqId : UInt8} {buf : ℕ → UInt8} {len : UInt8}
    {now : UInt32} {wild : State}
    (hfits : newSlot t.state.nodes reqId ≠ none → len.toNat ≤ maxPayload) :
    Linked ⟨(handlePublish t.state reqId buf len now wild).1,
      heardNew t (handlePublish t.state reqId buf len now wild).1 reqId now⟩ := by
  cases hslot : newSlot t.state.nodes reqId with
  | none =>
    simp only [handlePublish, hslot, heardNew_same]
    exact h
  | some i =>
    obtain ⟨-, -, hnew⟩ := newSlot_some hslot
    have hlen := hfits (by rw [hslot]; exact Option.some_ne_none i)
    have hbefore : ¬ Registered t.state reqId := by
      rintro ⟨j, hj⟩
      exact hnew j hj
    have hafter : Registered (register t.state i reqId buf len now) reqId :=
      ⟨i, by simp only [register, Function.update_self]⟩
    simp only [handlePublish, hslot, if_pos hlen]
    rw [heardNew, if_pos ⟨hbefore, hafter⟩]
    intro j hj
    by_cases hji : j = i
    · subst hji
      simp only [register, Function.update_self]
    · simp only [register, Function.update_of_ne hji] at hj ⊢
      rw [Function.update_of_ne (hnew j)]
      exact h j hj

theorem pollResponse_linked {t : Heard} (hd : Distinct (registered t.state.toCanpt)) (h : Linked t)
    (reqId : UInt8) (now : UInt32) :
    Linked ⟨handlePollResponse t.state reqId now, Function.update t.heard reqId now⟩ := by
  have hsame (i j : Fin nodeMaxNum) (hi : (t.state.nodes i).reqId ≠ 0)
      (hij : (t.state.nodes j).reqId = (t.state.nodes i).reqId) : i = j := by
    refine hd i j _ (registered_eq_some hi) ?_
    rw [← hij]
    exact registered_eq_some (hij ▸ hi)
  intro i hi
  cases hfind : (List.finRange nodeMaxNum).find? fun i => (t.state.nodes i).reqId = reqId with
  | none =>
    simp only [handlePollResponse, hfind] at hi ⊢
    have hne : (t.state.nodes i).reqId ≠ reqId := by
      have hnone := List.find?_eq_none.mp hfind i (List.mem_finRange i)
      simpa using hnone
    rw [Function.update_of_ne hne]
    exact h i hi
  | some j =>
    have hj : (t.state.nodes j).reqId = reqId := by simpa using List.find?_some hfind
    simp only [handlePollResponse, hfind] at hi ⊢
    by_cases hij : i = j
    · subst hij
      rw [Function.update_self, hj, Function.update_self]
    · have hne : (t.state.nodes i).reqId ≠ reqId := fun hid =>
        hij (hsame i j hi (hj.trans hid.symm))
      rw [Function.update_of_ne hij, Function.update_of_ne hne]
      exact h i hi

theorem direct_cases (s : State) (msg : CanMsg) (now : UInt32) (wild : State) :
    PollResponse msg ∧
        (processMessage s msg now wild).1 = handlePollResponse s (dataByte msg 0) now ∨
      ¬ PollResponse msg ∧
        (dataByte msg 1 &&& msgTypeMask = msgPublish ∧ processMessage s msg now wild =
            handlePublish s (dataByte msg 0) (fun j => dataByte msg (2 + j)) (msg.len - 2) now
              wild ∨
          (processMessage s msg now wild).1 = s) := by
  simp only [processMessage, PollResponse]
  by_cases hval : dataByte msg 1 &&& msgTypeMask = msgVal
  · rw [if_pos hval]
    exact Or.inr ⟨fun h => absurd (hval.symm.trans h.1) (by decide), Or.inr rfl⟩
  rw [if_neg hval]
  by_cases hpub : dataByte msg 1 &&& msgTypeMask = msgPublish
  · rw [if_pos hpub]
    exact Or.inr ⟨fun h => absurd (hpub.symm.trans h.1) (by decide), Or.inl ⟨hpub, rfl⟩⟩
  rw [if_neg hpub]
  by_cases hpoll : dataByte msg 1 &&& msgTypeMask = msgPoll
  · rw [if_pos hpoll]
    by_cases hresp : dataByte msg 1 &&& msgPollResp ≠ 0
    · rw [if_pos hresp]
      exact Or.inl ⟨⟨hpoll, hresp⟩, rfl⟩
    · rw [if_neg hresp]
      exact Or.inr ⟨fun h => hresp h.2, Or.inr rfl⟩
  rw [if_neg hpoll]
  refine Or.inr ⟨fun h => hpoll h.1, Or.inr ?_⟩
  split_ifs <;> rfl

theorem step_linked {t : Heard} (hd : Distinct (registered t.state.toCanpt)) (h : Linked t)
    {e : Event} (he : InBounds t.state e) : Linked (heardStep t e).1 := by
  cases e with
  | check now =>
    intro i hi
    obtain ⟨hnode, halive⟩ := checkIfNodesAlive_nodes t.state now i
    simp only [heardStep, step, heardAfter] at hi ⊢
    rw [hnode] at hi ⊢
    rw [halive]
    unfold checked at hi ⊢
    split_ifs at hi ⊢
    · exact absurd rfl hi
    · exact h i hi
  | common msg now wild =>
    simp only [heardStep, heardAfter, step]
    by_cases hpub : (msg.id &&& ~~~msgCmnMask).toUInt8 = msgCmnIdDisc ∧ 2 < msg.len ∧
        dataByte msg 1 = msgPublish
    · simp only [processCmnMessage, if_pos hpub.1, if_pos hpub.2]
      exact publish_linked h (he _ (if_pos hpub))
    · have hsame : (processCmnMessage t.state msg now wild).1 = t.state := by
        simp only [processCmnMessage]
        split_ifs with hid hlen
        · exact absurd ⟨hid, hlen⟩ hpub
        · rfl
        · rfl
      rw [hsame, heardNew_same]
      exact h
  | direct msg now wild =>
    simp only [heardStep, heardAfter, step]
    rcases direct_cases t.state msg now wild with ⟨hpoll, heq⟩ | ⟨hpoll, ⟨hpub, heq⟩ | heq⟩
    · rw [if_pos hpoll, heq]
      exact pollResponse_linked hd h (dataByte msg 0) now
    · rw [if_neg hpoll, heq]
      exact publish_linked h (he _ (if_pos hpub))
    · rw [if_neg hpoll, heq, heardNew_same]
      exact h

theorem run_linked (cb : Callbacks) (heard : UInt8 → UInt32) {es : List Event}
    (hes : Along heardStep (fun t e => InBounds t.state e) ⟨powerUp cb, heard⟩ es) :
    Linked (after heardStep ⟨powerUp cb, heard⟩ es) := by
  have hstart : Distinct (registered (powerUp cb).toCanpt) ∧ Linked ⟨powerUp cb, heard⟩ := by
    refine ⟨fun i j a hi => ?_, fun i hi => absurd rfl hi⟩
    rw [powerUp_registered] at hi
    cases hi
  exact (after_invariant
    (P := fun t : Heard => Distinct (registered t.state.toCanpt) ∧ Linked t)
    (fun t e ht he => ⟨step_distinct ht.1 he, step_linked ht.1 ht.2 he⟩) hstart hes).2

end Can

/-- For every table and clock, an entry in use is judged right exactly if the sum of its time
and the silence has wrapped as the clock has (and, in the RF protocol, its time is not zero or
the silence has not elapsed since zero). Along every run its time is that of the attach or of
the last poll response; the runs of the CAN protocol are those that do not write past `caps`. -/
theorem node_timeouts_iff (mem : AoaBoard.Rf.RfState) (coordinator : Bool) (cb : AoaBoard.Rf.Callb)
    (canCb : AoaBoard.Can.Discovery.Callbacks) :
    (∀ s now i, Rf.Examined (s.nodes i) →
      (Rf.Timely s now i ↔ Rf.Measures (s.nodes i).aliveTime (now i))) ∧
    (∀ heard es, Rf.Linked (after Rf.heardStep ⟨AoaBoard.Rf.rfInit mem coordinator cb, heard⟩ es)) ∧
    (∀ s now i, (s.nodes i).reqId ≠ 0 →
      (Can.Timely s now i ↔ Aligned (s.aliveTime i) Can.silence (now i))) ∧
    (∀ heard es, Along Can.heardStep (fun t e => AoaBoard.Can.Discovery.InBounds t.state e)
        ⟨AoaBoard.Can.Discovery.powerUp canCb, heard⟩ es →
      Can.Linked (after Can.heardStep ⟨AoaBoard.Can.Discovery.powerUp canCb, heard⟩ es)) :=
  ⟨fun _ now _ hex => Rf.timely_iff hex now,
    fun heard es => Rf.run_linked mem coordinator cb heard es,
    fun _ now _ hid => Can.timely_iff hid now, fun heard _ hes => Can.run_linked canCb heard hes⟩

def lateNode : AoaBoard.Rf.RfState :=
  after AoaBoard.Rf.step (AoaBoard.Rf.rfInit AoaBoard.Rf.powerUp true AoaBoard.Rf.allCallb)
    [AoaBoard.Rf.frameFrom ⟨0x13A200, 7⟩ [AoaBoard.Rf.msgPublish, AoaBoard.Rf.msgDevBtn]
      0xFFFFFC18]

def lateEntry : Fin AoaBoard.Rf.maxNodes := ⟨0, Nat.zero_lt_succ 9⟩

theorem node_detached_before_wrap :
    Rf.Examined (lateNode.nodes lateEntry) ∧ (lateNode.nodes lateEntry).aliveTime = 0xFFFFFC18 ∧
      ((AoaBoard.Rf.checkIfNodesAlive lateNode fun _ => 0xFFFFFC19).1.nodes lateEntry).addr =
        AoaBoard.Rf.noAddr ∧
      ¬ Rf.Timely lateNode (fun _ => 0xFFFFFC19) lateEntry := by
  have hex : Rf.Examined (lateNode.nodes lateEntry) := by decide
  have htime : (lateNode.nodes lateEntry).aliveTime = 0xFFFFFC18 := by decide
  have hfree :
      ((AoaBoard.Rf.checkIfNodesAlive lateNode fun _ => 0xFFFFFC19).1.nodes lateEntry).addr =
        AoaBoard.Rf.noAddr := by decide
  refine ⟨hex, htime, hfree, fun h => ?_⟩
  have hdue := h.1.mp hfree
  rw [htime] at hdue
  exact absurd hdue (by decide)

end AoaBoard.Board.NodeTimeouts
