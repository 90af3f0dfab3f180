import AoaBoard.Library.Bytes
import AoaBoard.Rf.InUse

/-!
# The capabilities of the RF nodes

`published` holds for each entry of the node table the list of the publish frame
that took the entry. `handlePublish` stores the number of capabilities beside
them, so an entry that is reused shows nothing of the node it held before, and a
node that is in the table already is not changed by further publish frames.
-/

namespace AoaBoard.Rf.Capabilities
open Library Library.Run Library.Bytes Library.Slots Board

structure Traced where
  state : RfState
  published : Fin maxNodes → List UInt8

def Takes (s s' : RfState) (i : Fin maxNodes) : Prop :=
  (s.nodes i).addr = noAddr ∧ (s'.nodes i).addr ≠ noAddr

instance decidableTakes (s s' : RfState) (i : Fin maxNodes) : Decidable (Takes s s' i) :=
  inferInstanceAs (Decidable (_ ∧ _))

def listOf : Input → Option (List UInt8)
  | .frame _ buf len _ _ _ =>
    if kind buf = msgPublish then some (slice (payload buf) (len - 1).toNat) else none
  | .task _ => none

def publishedAfter (t : Traced) (e : Input) (i : Fin maxNodes) : List UInt8 :=
  if Takes t.state (step t.state e).1 i then (listOf e).getD (t.published i) else t.published i

def tracedStep (t : Traced) (e : Input) : Traced × List Out :=
  (⟨(step t.state e).1, publishedAfter t e⟩, (step t.state e).2)

def traced (s : RfState) : Traced := ⟨s, fun _ => []⟩

/-- An entry holds the first capabilities of a list, as many as it has room for. -/
def Holds (n : Node) (list : List UInt8) : Prop :=
  ((List.finRange nodeMaxCaps).map n.caps).take n.numCaps.toNat = list.take nodeMaxCaps

def Faithful (t : Traced) : Prop :=
  ∀ i, (t.state.nodes i).addr ≠ noAddr → Holds (t.state.nodes i) (t.published i)

def KeepsCaps (s s' : RfState) : Prop :=
  ∀ i, (s'.nodes i).addr ≠ noAddr → (s'.nodes i).addr = (s.nodes i).addr ∧
    (s'.nodes i).caps = (s.nodes i).caps ∧ (s'.nodes i).numCaps = (s.nodes i).numCaps

theorem KeepsCaps.refl (s : RfState) : KeepsCaps s s := fun _ _ => ⟨rfl, rfl, rfl⟩

theorem KeepsCaps.trans {s t u : RfState} (hst : KeepsCaps s t) (htu : KeepsCaps t u) :
    KeepsCaps s u := by
  intro i hi
  obtain ⟨ht, hcaps, hnum⟩ := htu i hi
  obtain ⟨hs, hcaps', hnum'⟩ := hst i (ht ▸ hi)
  exact ⟨ht.trans hs, hcaps.trans hcaps', hnum.trans hnum'⟩

theorem keepsCaps_of_nodes {s s' : RfState} (h : s'.nodes = s.nodes) : KeepsCaps s s' :=
  fun i _ => by
    rw [h]
    exact ⟨rfl, rfl, rfl⟩

theorem keepsCaps_of_update {s : RfState} {i : Fin maxNodes} {n : Node}
    (hn : n.addr = noAddr ∨ n.addr = (s.nodes i).addr ∧ n.caps = (s.nodes i).caps ∧
      n.numCaps = (s.nodes i).numCaps) :
    KeepsCaps s { s with nodes := Function.update s.nodes i n } := by
  intro j hj
  by_cases hji : j = i
  · subst hji
    simp only [Function.update_self] at hj ⊢
    rcases hn with hfree | ⟨haddr, hcaps, hnum⟩
    · exact absurd hfree hj
    · exact ⟨haddr, hcaps, hnum⟩
  · have hsame : Function.update s.nodes i n j = s.nodes j := Function.update_of_ne hji ..
    simp only [hsame] at hj ⊢
    exact ⟨trivial, trivial, trivial⟩

theorem checkNode_keepsCaps (now : Fin maxNodes → UInt32) (s : RfState) (i : Fin maxNodes) :
    KeepsCaps s (checkNode now s i).1 := by
  simp only [checkNode]
  split_ifs
  · exact keepsCaps_of_update (Or.inl rfl)
  · exact keepsCaps_of_update (Or.inr ⟨rfl, rfl, rfl⟩)
  · exact .refl s
  · exact .refl s

theorem rfTask_keepsCaps (s : RfState) (r : Readings) : KeepsCaps s (rfTask s r).1 :=
  rfTask_related .refl (fun _ _ _ => .trans) (fun _ _ => keepsCaps_of_nodes rfl)
    checkNode_keepsCaps (fun r st i => keepsCaps_of_nodes (evalSub_sameNodes r st i).1.nodes) s r

theorem frame_cases (s : RfState) (src : Addr) (buf : ℕ → UInt8) (len : UInt8) (now : UInt32)
    (trimpot : UInt16) (port : UInt32) :
    KeepsCaps s (xbeeData s src buf len now trimpot port).1 ∨
    ∃ i, kind buf = msgPublish ∧ (s.nodes i).addr = noAddr ∧ src ≠ noAddr ∧
      (xbeeData s src buf len now trimpot port).1.nodes =
        Function.update s.nodes i (attachNode (s.nodes i) src (payload buf) (len - 1) now) := by
  have hhandled := xbeeData_handled s src buf len now trimpot port
  generalize xbeeData s src buf len now trimpot port = r at hhandled ⊢
  cases hhandled with
  | quiet houts => exact Or.inl (.refl s)
  | subResponse hk => exact Or.inl (.refl s)
  | subscribe hk => exact Or.inl (keepsCaps_of_nodes (handleSubscribe_sameNodes ..).1.nodes)
  | unsubscribe hdev => exact Or.inl (keepsCaps_of_nodes (handleUnsubscribe_sameNodes ..).nodes)
  | value hk => exact Or.inl (.refl s)
  | pollResponse hk =>
    left
    simp only [handlePollResponse]
    split
    · exact keepsCaps_of_update (Or.inr ⟨rfl, rfl, rfl⟩)
    · exact .refl s
  | publish hk =>
    rcases handlePublish_cases s src (payload buf) (len - 1) now with h | ⟨i, hfree, -, hsrc, h⟩
    · rw [h]
      exact Or.inl (.refl s)
    · rw [h]
      exact Or.inr ⟨i, hk.2.1, hfree, hsrc, rfl⟩

theorem attachNode_holds (n : Node) (src : Addr) (buf : ℕ → UInt8) (len : UInt8) (now : UInt32) :
    Holds (attachNode n src buf len now) (slice buf len.toNat) := by
  have hmax : nodeMaxCaps = 12 := rfl
  have hnum : (attachNode n src buf len now).numCaps.toNat = min nodeMaxCaps len.toNat := by
    simp only [attachNode]
    split_ifs with hlong
    · rw [UInt8.toNat_ofNat']
      omega
    · omega
  rw [Holds, hnum]
  apply List.ext_getElem
  · rw [List.length_take, List.length_take, List.length_map, List.length_finRange, slice_length]
    omega
  · intro k hk hk'
    have hlt : k < len.toNat := by
      rw [List.length_take, slice_length] at hk'
      omega
    simp [attachNode, slice, hlt]

theorem KeepsCaps.faithful {t : Traced} (ht : Faithful t) {e : Input}
    (hk : KeepsCaps t.state (step t.state e).1) : Faithful (tracedStep t e).1 := by
  intro i hi
  obtain ⟨haddr, hcaps, hnum⟩ := hk i hi
  have htaken : (t.state.nodes i).addr ≠ noAddr := haddr ▸ hi
  have hnot : ¬ Takes t.state (step t.state e).1 i := fun h => htaken h.1
  simp only [tracedStep, publishedAfter, if_neg hnot, Holds, hcaps, hnum]
  exact ht i htaken

theorem step_faithful {t : Traced} (ht : Faithful t) (e : Input) : Faithful (tracedStep t e).1 := by
  cases e with
  | task r => exact KeepsCaps.faithful (e := .task r) ht (rfTask_keepsCaps t.state r)
  | frame src buf len now trimpot port =>
    rcases frame_cases t.state src buf len now trimpot port with hk | ⟨i, hkind, hfree, hsrc, heq⟩
    · exact KeepsCaps.faithful (e := .frame src buf len now trimpot port) ht hk
    · intro j hj
      simp only [tracedStep, publishedAfter, listOf, step, heq, if_pos hkind, Option.getD_some,
        Takes] at hj ⊢
      by_cases hji : j = i
      · subst hji
        have htakes : (t.state.nodes j).addr = noAddr ∧
            (attachNode (t.state.nodes j) src (payload buf) (len - 1) now).addr ≠ noAddr :=
          ⟨hfree, hsrc⟩
        simp only [Function.update_self, if_pos htakes]
        exact attachNode_holds _ _ _ _ _
      · have hnot : ¬ ((t.state.nodes j).addr = noAddr ∧ (t.state.nodes j).addr ≠ noAddr) :=
          fun h => h.2 h.1
        simp only [Function.update_of_ne hji, if_neg hnot] at hj ⊢
        exact ht j hj

theorem run_faithful (s : RfState) (coordinator : Bool) (cb : Callb) (es : List Input) :
    Faithful (after tracedStep (traced (rfInit s coordinator cb)) es) := by
  refine after_invariant (P := Faithful) (fun _ e ht _ => step_faithful ht e) (fun i hi => ?_)
    (along_trivial _ es)
  exact absurd rfl hi

theorem rfGetNodeCaps_ok {s : RfState} {null : Bool} {id len : UInt8} {bytes : List UInt8}
    (h : rfGetNodeCaps s null id len = (.ok, some bytes)) :
    ∃ i, id = nodeId i ∧ (s.nodes i).addr ≠ noAddr ∧ bytes =
      (((List.finRange nodeMaxCaps).map (s.nodes i).caps).take (s.nodes i).numCaps.toNat).take
        len.toNat := by
  have hargs : null = false ∧ len ≠ 0 := by
    by_contra hbad
    have hnull : null = true ∨ len = 0 := by
      cases null <;> simp_all
    rw [rfGetNodeCaps, if_pos hnull] at h
    cases h
  obtain ⟨rfl, hlen⟩ := hargs
  have hrange : 0 < id.toNat ∧ id.toNat ≤ maxNodes := by
    by_contra hout
    simp only [rfGetNodeCaps, hlen, Bool.false_eq_true, or_self, if_false, getNode,
      dif_neg hout] at h
    cases h
  have hid : nodeId ⟨id.toNat - 1, by omega⟩ = id := by
    have hlt := id.toNat_lt
    apply UInt8.toNat_inj.mp
    rw [nodeId_toNat]
    simp only
    omega
  rw [← hid] at h
  refine ⟨⟨id.toNat - 1, by omega⟩, hid.symm, ?_⟩
  generalize (⟨id.toNat - 1, by omega⟩ : Fin maxNodes) = i at h ⊢
  have huse : InUse (s.nodes i).addr := by
    by_contra hfree
    simp only [rfGetNodeCaps, hlen, Bool.false_eq_true, or_self, if_false, getNode_nodeId,
      if_neg hfree] at h
    cases h
  rw [rfGetNodeCaps_inUse huse hlen] at h
  refine ⟨((inUse_iff _).mp huse).1, ?_⟩
  rw [List.take_take]
  exact (Option.some.inj (congrArg Prod.snd h)).symm

/-- Whatever `rf_getNodeCaps` reports for a node are the first capabilities of the publish frame
that attached it, as many as there is room for. -/
theorem capabilities_as_published (s : RfState) (cb : Callb) (es : List Input) {null : Bool}
    {id len : UInt8} {bytes : List UInt8}
    (hok : rfGetNodeCaps (after tracedStep (traced (rfInit s true cb)) es).state null id len =
      (.ok, some bytes)) :
    ∃ i, id = nodeId i ∧
      let list := (after tracedStep (traced (rfInit s true cb)) es).published i
      bytes = list.take (min len.toNat (min nodeMaxCaps list.length)) ∧
        bytes.length = min len.toNat (min nodeMaxCaps list.length) := by
  have hfaithful := run_faithful s true cb es
  generalize after tracedStep (traced (rfInit s true cb)) es = t at *
  obtain ⟨i, hid, htaken, hbytes⟩ := rfGetNodeCaps_ok hok
  have hlist : bytes = (t.published i).take
      (min len.toNat (min nodeMaxCaps (t.published i).length)) := by
    rw [hbytes, hfaithful i htaken, List.take_take, List.take_eq_take_iff]
    omega
  refine ⟨i, hid, hlist, ?_⟩
  rw [hlist, List.length_take]
  omega

def succession : List Input :=
  [frameFrom ⟨1, 1⟩ [msgPublish, msgDevBtn, msgDevRgb, msgDevTemp] 1, taskAt 5000,
    frameFrom ⟨2, 2⟩ [msgPublish, msgDevLed] 5000]

theorem capabilities_as_published_reused :
    ∃ i, 1 = nodeId i ∧
      let list := (after tracedStep (traced (rfInit powerUp true allCallb)) succession).published i
      [msgDevLed] = list.take (min 12 (min nodeMaxCaps list.length)) ∧
        1 = min 12 (min nodeMaxCaps list.length) := by
  have hok : rfGetNodeCaps (after tracedStep (traced (rfInit powerUp true allCallb))
      succession).state false 1 12 = (.ok, some [msgDevLed]) := by decide +kernel
  exact capabilities_as_published powerUp allCallb succession hok

end AoaBoard.Rf.Capabilities
