import AoaBoard.Library.Registry
import AoaBoard.Rf.Protocol

/-!
# The life cycle of the nodes of a coordinator

The node table is a registry of addresses: `table` reads the taken slots off
`nodes`, and every input of the protocol performs valid registry actions and
reports them through `nodeAttached` and `nodeDetached`. The properties of whole
runs are those of registry traces.
-/

namespace AoaBoard.Rf
open Library Library.Run Library.Registry

def table (s : RfState) (i : Fin maxNodes) : Option Addr :=
  if (s.nodes i).addr = noAddr then none else some (s.nodes i).addr

def isLife : Out → Bool
  | .nodeAttached _ | .nodeDetached _ => true
  | _ => false

def report : Act (Fin maxNodes) Addr → Out
  | .attach i _ => .nodeAttached (nodeId i)
  | .detach i => .nodeDetached (nodeId i)

def Reporting (s : RfState) : Prop := s.cb.nodeAttached = true ∧ s.cb.nodeDetached = true

/-- One step as registry actions that attach addresses in `A` only and that the outputs
report. -/
def Performs (A : Addr → Prop) (s : RfState) (r : RfState × List Out) : Prop :=
  r.1.cb = s.cb ∧ ∃ acts, Trace (table s) acts (table r.1) ∧
    (∀ i a, .attach i a ∈ acts → A a) ∧ (Reporting s → r.2.filter isLife = acts.map report)

variable {A : Addr → Prop}

theorem table_eq_none_iff (s : RfState) (i : Fin maxNodes) :
    table s i = none ↔ (s.nodes i).addr = noAddr := by
  simp [table]

theorem table_eq_some_iff (s : RfState) (i : Fin maxNodes) (a : Addr) :
    table s i = some a ↔ (s.nodes i).addr = a ∧ a ≠ noAddr := by
  simp only [table]
  split_ifs with h
  · simp only [false_iff, not_and, not_not]
    rintro rfl
    exact h
  · rw [Option.some.injEq]
    exact ⟨fun he => ⟨he, he ▸ h⟩, fun he => he.1⟩

theorem table_update (s : RfState) (i : Fin maxNodes) (n : Node) :
    table { s with nodes := Function.update s.nodes i n } =
      Function.update (table s) i (if n.addr = noAddr then none else some n.addr) := by
  funext j
  by_cases hj : j = i
  · subst hj
    simp only [table, Function.update_self]
  · simp only [table, Function.update_of_ne hj]

theorem table_update_same {s : RfState} {i : Fin maxNodes} {n : Node}
    (hn : n.addr = (s.nodes i).addr) :
    table { s with nodes := Function.update s.nodes i n } = table s := by
  rw [table_update, hn]
  exact Function.update_eq_self i (table s)

theorem performs_same {s s' : RfState} {outs : List Out} (hcb : s'.cb = s.cb)
    (ht : table s' = table s) (houts : ∀ o ∈ outs, isLife o = false) :
    Performs A s (s', outs) := by
  refine ⟨hcb, [], ht ▸ .nil, by simp, fun _ => ?_⟩
  rw [List.map_nil, List.filter_eq_nil_iff]
  intro o ho
  rw [houts o ho]
  exact Bool.false_ne_true

theorem publishScan_new {nodes : Fin maxNodes → Node} {src : Addr} {is : List (Fin maxNodes)}
    {free : Option (Fin maxNodes)} {i : Fin maxNodes}
    (h : publishScan nodes src is free = (some i, false)) :
    (∀ j ∈ is, (nodes j).addr ≠ src) ∧ (free = some i ∨ (nodes i).addr = noAddr) := by
  induction is generalizing free with
  | nil =>
    simp only [publishScan, Prod.mk.injEq, and_true] at h
    exact ⟨by simp, Or.inl h⟩
  | cons j is ih =>
    simp only [publishScan] at h
    by_cases hsrc : (nodes j).addr = src
    · simp [hsrc] at h
    · rw [if_neg hsrc] at h
      obtain ⟨hrest, hi⟩ := ih h
      refine ⟨List.forall_mem_cons.mpr ⟨hsrc, hrest⟩, ?_⟩
      split_ifs at hi with hfree
      · rcases hi with hi | hi
        · exact Or.inr (Option.some.inj hi ▸ hfree.2)
        · exact Or.inr hi
      · exact hi

theorem publishScan_attach {nodes : Fin maxNodes → Node} {src : Addr} {i : Fin maxNodes}
    (h : publishScan nodes src (List.finRange maxNodes) none = (some i, false)) :
    (nodes i).addr = noAddr ∧ ∀ j, (nodes j).addr ≠ src := by
  obtain ⟨hall, hi⟩ := publishScan_new h
  exact ⟨hi.resolve_left (by simp), fun j => hall j (List.mem_finRange j)⟩

theorem handlePublish_cases (s : RfState) (src : Addr) (buf : ℕ → UInt8) (len : UInt8)
    (now : UInt32) :
    handlePublish s src buf len now = (s, []) ∨
    ∃ i, (s.nodes i).addr = noAddr ∧ (∀ j, (s.nodes j).addr ≠ src) ∧ src ≠ noAddr ∧
      handlePublish s src buf len now =
        ({ s with nodes := Function.update s.nodes i (attachNode (s.nodes i) src buf len now) },
          call s.cb.nodeAttached (.nodeAttached (nodeId i))) := by
  simp only [handlePublish]
  split
  · rename_i i h
    obtain ⟨hfree, hnew⟩ := publishScan_attach h
    exact Or.inr ⟨i, hfree, hnew, fun he => hnew i (he ▸ hfree), rfl⟩
  · exact Or.inl rfl

theorem handlePublish_performs (s : RfState) (src : Addr) (buf : ℕ → UInt8) (len : UInt8)
    (now : UInt32) : Performs (· = src) s (handlePublish s src buf len now) := by
  rcases handlePublish_cases s src buf len now with h | ⟨i, hfree, hnew, hsrc, h⟩
  · rw [h]
    exact performs_same rfl rfl (by simp)
  · rw [h]
    refine ⟨rfl, [.attach i src], ?_, by simp, fun hr => by simp [call, hr.1, isLife, report]⟩
    have hv : (Act.attach i src).Valid (table s) := by
      refine ⟨(table_eq_none_iff s i).mpr hfree, fun j hj => ?_⟩
      exact hnew j ((table_eq_some_iff s j src).mp hj).1
    have ht := Trace.single hv
    rw [table_update, show (attachNode (s.nodes i) src buf len now).addr = src from rfl,
      if_neg hsrc]
    exact ht

theorem handlePollResponse_performs (s : RfState) (src : Addr) (now : UInt32) :
    Performs A s (handlePollResponse s src now, []) := by
  simp only [handlePollResponse]
  split
  · exact performs_same rfl (table_update_same rfl) (by simp)
  · exact performs_same rfl rfl (by simp)

theorem checkNode_other (now : Fin maxNodes → UInt32) (s : RfState) {i j : Fin maxNodes}
    (hij : i ≠ j) : (checkNode now s j).1.nodes i = s.nodes i := by
  simp only [checkNode]
  split_ifs
  · exact Function.update_of_ne hij _ _
  · exact Function.update_of_ne hij _ _
  · rfl
  · rfl

theorem checkNode_performs (now : Fin maxNodes → UInt32) (s : RfState) (i : Fin maxNodes) :
    Performs A s (checkNode now s i) := by
  simp only [checkNode]
  split_ifs with htaken
  · refine ⟨rfl, [.detach i], ?_, by simp, fun hr => by simp [call, hr.2, isLife, report]⟩
    have hv : (Act.detach i : Act (Fin maxNodes) Addr).Valid (table s) := by
      intro hnone
      exact htaken.1 (congrArg Addr.hi ((table_eq_none_iff s i).mp hnone))
    rw [table_update, if_pos rfl]
    exact Trace.single hv
  · exact performs_same rfl (table_update_same rfl) (by simp [isLife, sendPoll])
  · exact performs_same rfl rfl (by simp [isLife])
  · exact performs_same rfl rfl (by simp)

theorem Performs.trans {s : RfState} {r q : RfState × List Out} (h : Performs A s r)
    (h' : Performs A r.1 q) : Performs A s (q.1, r.2 ++ q.2) := by
  obtain ⟨hcb, acts, htrace, hatt, hrep⟩ := h
  obtain ⟨hcb', acts', htrace', hatt', hrep'⟩ := h'
  refine ⟨hcb'.trans hcb, acts ++ acts', htrace.append htrace', fun i a ha => ?_, fun hr => ?_⟩
  · rcases List.mem_append.mp ha with ha | ha
    · exact hatt i a ha
    · exact hatt' i a ha
  · have hr' : Reporting r.1 := by rwa [Reporting, hcb]
    rw [List.filter_append, hrep hr, hrep' hr', List.map_append]

theorem Performs.mono {B : Addr → Prop} {s : RfState} {r : RfState × List Out}
    (h : Performs A s r) (hab : ∀ a, A a → B a) : Performs B s r := by
  obtain ⟨hcb, acts, htrace, hatt, hrep⟩ := h
  exact ⟨hcb, acts, htrace, fun i a ha => hab a (hatt i a ha), hrep⟩

theorem performs_run {ε : Type*} {step : RfState → ε → RfState × List Out}
    (hstep : ∀ s e, Performs A s (step s e)) (s : RfState) (es : List ε) :
    Performs A s (after step s es, outputs step s es) :=
  run_composes (fun _ => performs_same rfl rfl (by simp)) (fun _ _ _ => .trans) hstep s es

theorem isLife_of_callback {o : Out} (h : isCallback o = false) : isLife o = false := by
  cases o <;> first | rfl | exact h

theorem performs_sameNodes {s s' : RfState} {outs : List Out} (h : SameNodes s s')
    (houts : ∀ o ∈ outs, isCallback o = false) : Performs A s (s', outs) :=
  performs_same h.cb (by funext i; simp only [table, h.nodes])
    fun o ho => isLife_of_callback (houts o ho)

theorem discover_performs (s : RfState) (r : Readings) : Performs A s (discover s r) := by
  rcases discover_cases s r with h | h
  · rw [h]
    exact performs_same rfl rfl (by simp)
  · rw [h]
    exact performs_same rfl rfl (by simp [isLife])

theorem xbeeData_performs (s : RfState) (src : Addr) (buf : ℕ → UInt8) (len : UInt8)
    (now : UInt32) (trimpot : UInt16) (port : UInt32) :
    Performs (· = src) s (xbeeData s src buf len now trimpot port) := by
  have hhandled := xbeeData_handled s src buf len now trimpot port
  generalize xbeeData s src buf len now trimpot port = r at hhandled
  cases hhandled with
  | quiet houts =>
    exact performs_same rfl rfl fun o ho => isLife_of_callback (houts o ho).not_callback
  | subResponse _ =>
    refine performs_same rfl rfl fun o ho => ?_
    obtain ⟨i, -, rfl⟩ := handleSubscribeResponse_outputs s src _ o ho
    rfl
  | subscribe _ =>
    obtain ⟨hn, ho⟩ := handleSubscribe_sameNodes s src (device buf) (payload buf) (len.toNat - 1)
      trimpot port
    exact performs_sameNodes hn ho
  | unsubscribe _ => exact performs_sameNodes (handleUnsubscribe_sameNodes s src _) (by simp)
  | value _ =>
    refine performs_same rfl rfl fun o ho => ?_
    obtain ⟨i, -, rfl⟩ := handleValueUpdate_outputs s src _ _ _ o ho
    rfl
  | pollResponse _ => exact handlePollResponse_performs s src now
  | publish _ => exact handlePublish_performs s src _ _ now

theorem checkIfNodesAlive_performs (s : RfState) (now : Fin maxNodes → UInt32) :
    Performs A s (checkIfNodesAlive s now) :=
  performs_run (checkNode_performs now) s (List.finRange maxNodes)

theorem rfTask_performs (s : RfState) (r : Readings) : Performs A s (rfTask s r) := by
  simp only [rfTask]
  split_ifs
  · exact (discover_performs s r).trans (checkIfNodesAlive_performs (discover s r).1 r.alive)
  · generalize List.finRange maxSubs = is
    exact performs_sameNodes (evalSub_run_sameNodes r (s, 0) is)
      (outputs_forall (fun st i => (evalSub_sameNodes r st i).2) (s, 0) is)
  · exact performs_same rfl rfl (by simp)

theorem step_performs (s : RfState) (e : Input) : Performs (source e = some ·) s (step s e) := by
  cases e with
  | frame src buf len now trimpot port =>
    exact (xbeeData_performs s src buf len now trimpot port).mono fun a ha => congrArg some ha.symm
  | task r => exact rfTask_performs s r

def lifecycle (id : UInt8) (outs : List Out) : List Bool :=
  outs.filterMap fun
    | .nodeAttached j => if j = id then some true else none
    | .nodeDetached j => if j = id then some false else none
    | _ => none

theorem nodeId_inj {i j : Fin maxNodes} : nodeId i = nodeId j ↔ i = j := by
  revert i j
  decide

theorem lifecycle_filter (id : UInt8) (outs : List Out) :
    lifecycle id (outs.filter isLife) = lifecycle id outs := by
  rw [lifecycle, List.filterMap_filter]
  apply List.filterMap_congr
  intro o _
  cases o <;> simp [isLife]

theorem lifecycle_report (i : Fin maxNodes) (acts : List (Act (Fin maxNodes) Addr)) :
    lifecycle (nodeId i) (acts.map report) = acts.filterMap (Act.mark i) := by
  rw [lifecycle, List.filterMap_map]
  apply List.filterMap_congr
  intro e _
  cases e <;> simp [report, Act.mark, nodeId_inj]

theorem lifecycle_other {id : UInt8} (hid : ∀ i, nodeId i ≠ id)
    (acts : List (Act (Fin maxNodes) Addr)) : lifecycle id (acts.map report) = [] := by
  rw [lifecycle, List.filterMap_map, List.filterMap_eq_nil_iff]
  intro e _
  cases e <;> simp [report, hid]

theorem run_performs (s : RfState) (es : List Input) :
    Performs (fun _ => True) s (after step s es, outputs step s es) :=
  performs_run (fun s e => (step_performs s e).mono fun _ _ => trivial) s es

theorem Performs.lifecycle_eq {s : RfState} {r : RfState × List Out} (h : Performs A s r)
    (hr : Reporting s) : ∃ acts, Trace (table s) acts (table r.1) ∧
      (∀ i, lifecycle (nodeId i) r.2 = acts.filterMap (Act.mark i)) ∧
      ∀ id, (∀ i, nodeId i ≠ id) → lifecycle id r.2 = [] := by
  obtain ⟨-, acts, htrace, -, hrep⟩ := h
  refine ⟨acts, htrace, fun i => ?_, fun id hid => ?_⟩
  · rw [← lifecycle_filter, hrep hr, lifecycle_report]
  · rw [← lifecycle_filter, hrep hr, lifecycle_other hid]

theorem rfInit_free (s : RfState) (coordinator : Bool) (cb : Callb) :
    table (rfInit s coordinator cb) = fun _ => none := by
  funext i
  exact (table_eq_none_iff _ i).mpr rfl

/-- From `rf_init` on, attach and detach callbacks alternate for every id, the ids that are
attached are the taken slots, their addresses differ, and an address stays until detached. -/
theorem node_life_cycle (s : RfState) (cb : Callb) (hattached : cb.nodeAttached = true)
    (hdetached : cb.nodeDetached = true) (es : List Input) :
    let start := rfInit s true cb
    let outs := outputs step start es
    let now := after step start es
    (∀ id, Alternates true (lifecycle id outs)) ∧
    (∀ id, (lifecycle id outs).getLast? = some true ↔
      ∃ i, nodeId i = id ∧ (now.nodes i).addr ≠ noAddr) ∧
    (∀ i j, (now.nodes i).addr ≠ noAddr → (now.nodes i).addr = (now.nodes j).addr → i = j) ∧
    ∀ i, (now.nodes i).addr ≠ noAddr → ∀ fs, .nodeDetached (nodeId i) ∉ outputs step now fs →
      ((after step now fs).nodes i).addr = (now.nodes i).addr := by
  intro start outs now
  have hr : Reporting start := ⟨hattached, hdetached⟩
  have hrun : Performs (fun _ => True) start (now, outs) := run_performs start es
  obtain ⟨acts, htrace, hmarks, hother⟩ := hrun.lifecycle_eq hr
  rw [rfInit_free] at htrace
  have hcases (id : UInt8) : (∃ i, nodeId i = id) ∨ ∀ i, nodeId i ≠ id := by
    by_cases h : ∃ i, nodeId i = id
    · exact Or.inl h
    · exact Or.inr fun i hi => h ⟨i, hi⟩
  refine ⟨fun id => ?_, fun id => ?_, fun i j hi hij => ?_, fun i hi fs hfs => ?_⟩
  · rcases hcases id with ⟨i, rfl⟩ | hid
    · rw [hmarks i]
      exact (htrace.marks i).1
    · rw [hother id hid]
      trivial
  · rcases hcases id with ⟨i, rfl⟩ | hid
    · rw [hmarks i, htrace.taken_iff rfl, Ne, table_eq_none_iff]
      exact ⟨fun h => ⟨i, rfl, h⟩, fun ⟨j, hj, h⟩ => nodeId_inj.mp hj ▸ h⟩
    · rw [hother id hid]
      exact ⟨fun h => by simp at h, fun ⟨i, hi, _⟩ => absurd hi (hid i)⟩
  · have hdistinct := htrace.distinct fun _ _ _ h => by simp at h
    exact hdistinct i j _ ((table_eq_some_iff now i _).mpr ⟨rfl, hi⟩)
      ((table_eq_some_iff now j _).mpr ⟨hij.symm, hi⟩)
  · have hr' : Reporting now := by rwa [Reporting, hrun.1]
    obtain ⟨acts', htrace', hmarks', -⟩ := (run_performs now fs).lifecycle_eq hr'
    have hnone : false ∉ acts'.filterMap (Act.mark i) := by
      rw [← hmarks' i]
      intro hmem
      obtain ⟨o, ho, hmark⟩ := List.mem_filterMap.mp hmem
      cases o <;> simp at hmark
      exact hfs (hmark ▸ ho)
    have hkept := htrace'.kept ((table_eq_some_iff now i _).mpr ⟨rfl, hi⟩) hnone
    exact ((table_eq_some_iff _ i _).mp hkept).1

def publishAndTimeOut : List Input :=
  [frameFrom ⟨0x13A200, 7⟩ [msgPublish, msgDevBtn] 1, taskAt 2000, taskAt 4000]

theorem node_life_cycle_publish :
    lifecycle 1 (outputs step (rfInit powerUp true allCallb) publishAndTimeOut) = [true, false] ∧
      Alternates true
        (lifecycle 1 (outputs step (rfInit powerUp true allCallb) publishAndTimeOut)) :=
  ⟨by decide, (node_life_cycle powerUp allCallb rfl rfl publishAndTimeOut).1 1⟩

end AoaBoard.Rf
