import AoaBoard.Library.Slots
import AoaBoard.Board.RxQueue
import AoaBoard.Can.Queue

/-!
# The node registry and the commands of the CAN protocol

`canpt_getNodes` and `canpt_getNodeCaps` read the registry. The commands to a
node fill the bytes of `txMsg`; the calls that would send it to the node are
commented out in `canpt.c`, and no caller uses the result of a command.
-/

namespace AoaBoard.Can
open Library Library.Registry Library.Slots Board

def nodeMaxNum : ℕ := 10
def nodeMaxCaps : ℕ := 12

def msgGet : UInt8 := 0x01
def msgSet : UInt8 := 0x02
def msgSub : UInt8 := 0x03
def msgUnsub : UInt8 := 0x04
def msgSubGte : UInt8 := 0x10
def msgSubDif : UInt8 := 0x30
def msgDevTemp : UInt8 := 0x10
def msgDevLight : UInt8 := 0x20
def msgDevBtn : UInt8 := 0x30
def msgDevRgb : UInt8 := 0x40
def msgDevLed : UInt8 := 0x50

structure Node where
  reqId : UInt8
  caps : Fin nodeMaxCaps → UInt8

structure Canpt where
  nodes : Fin nodeMaxNum → Node
  txMsg : CanMsg

/-- `null` says that one of the two pointers is `NULL`; the second component is what is
written through them, if anything. -/
def canptGetNodes (c : Canpt) (null : Bool) (len : UInt8) : ErrorT × Option (List UInt8) :=
  if null ∨ len = 0 then (.argument, none)
  else
    (.ok, some ((List.finRange nodeMaxNum).foldl (fun ids i =>
      if (c.nodes i).reqId ≠ 0 ∧ ids.length < len.toNat then ids ++ [(c.nodes i).reqId]
      else ids) []))

def canptGetNodeCaps (c : Canpt) (null : Bool) (nodeId len : UInt8) :
    ErrorT × Option (List UInt8) :=
  if null ∨ len = 0 then (.argument, none)
  else
    match (List.finRange nodeMaxNum).find? fun i => (c.nodes i).reqId = nodeId with
    | none => (.argument, some [])
    | some i =>
      (.ok, some (((List.finRange nodeMaxCaps).takeWhile fun k =>
        k.val < len.toNat ∧ (c.nodes i).caps k ≠ 0).map (c.nodes i).caps))

def setDataA (c : Canpt) (pos : ℕ) (b : UInt8) : Canpt :=
  { c with txMsg := { c.txMsg with dataA := fun k => if k.val = pos then b else c.txMsg.dataA k } }

def setDataB (c : Canpt) (pos : ℕ) (b : UInt8) : Canpt :=
  { c with txMsg := { c.txMsg with dataB := fun k => if k.val = pos then b else c.txMsg.dataB k } }

def canptGetValue (c : Canpt) (_reqId periphId : UInt8) : Canpt :=
  if periphId < msgDevTemp ∨ msgDevLed < periphId then c else setDataA c 1 (msgGet ||| periphId)

def canptGetTemperature (c : Canpt) (reqId : UInt8) : Canpt := canptGetValue c reqId msgDevTemp

def canptGetLight (c : Canpt) (reqId : UInt8) : Canpt := canptGetValue c reqId msgDevLight

def canptGetButton (c : Canpt) (reqId : UInt8) : Canpt := canptGetValue c reqId msgDevBtn

def canptSetRgb (c : Canpt) (_reqId mask on : UInt8) : Canpt :=
  setDataA (setDataA (setDataA c 1 (msgSet ||| msgDevRgb)) 2 mask) 3 on

def canptSetLed (c : Canpt) (_reqId on : UInt8) : Canpt :=
  setDataA (setDataA c 1 (msgSet ||| msgDevLed)) 2 on

/-- The copy loop of `canpt_subscribe`: `inB` says that `d` points to `dataB`. -/
def storeValue (c : Canpt) (inB : Bool) (pos : ℕ) : List UInt8 → Canpt
  | [] => c
  | v :: vs =>
    if 3 < pos then storeValue (setDataB c 0 v) true 1 vs
    else storeValue (if inB then setDataB c pos v else setDataA c pos v) inB (pos + 1) vs

def canptSubscribe (c : Canpt) (_reqId periphId subAct : UInt8) (valBuf : List UInt8) : Canpt :=
  if periphId < msgDevTemp ∨ msgDevLed < periphId then c
  else if subAct < msgSubGte ∨ msgSubDif < subAct then c
  else if 4 < valBuf.length then c
  else storeValue (setDataA (setDataA c 1 (msgSub ||| subAct)) 2 periphId) false 3 valBuf

def canptUnsubscribe (c : Canpt) (_reqId subId : UInt8) : Canpt :=
  setDataA (setDataA c 1 msgUnsub) 2 subId

/-- `STD_ID_FORMAT` and `DATA_FRAME` are `0`. -/
def canptInit (c : Canpt) : Canpt := { c with txMsg := { c.txMsg with format := 0, type := 0 } }

@[simp] theorem setDataA_nodes (c : Canpt) (pos : ℕ) (b : UInt8) :
    (setDataA c pos b).nodes = c.nodes := rfl

@[simp] theorem setDataB_nodes (c : Canpt) (pos : ℕ) (b : UInt8) :
    (setDataB c pos b).nodes = c.nodes := rfl

@[simp] theorem canptGetValue_nodes (c : Canpt) (reqId periphId : UInt8) :
    (canptGetValue c reqId periphId).nodes = c.nodes := by
  simp only [canptGetValue]
  split_ifs <;> rfl

theorem storeValue_nodes (c : Canpt) (inB : Bool) (pos : ℕ) (vs : List UInt8) :
    (storeValue c inB pos vs).nodes = c.nodes := by
  induction vs generalizing c inB pos with
  | nil => rfl
  | cons v vs ih =>
    simp only [storeValue]
    split_ifs <;> simp only [ih, setDataA_nodes, setDataB_nodes]

@[simp] theorem canptSubscribe_nodes (c : Canpt) (reqId periphId subAct : UInt8)
    (valBuf : List UInt8) : (canptSubscribe c reqId periphId subAct valBuf).nodes = c.nodes := by
  simp only [canptSubscribe]
  split_ifs
  · rfl
  · rfl
  · rfl
  · rw [storeValue_nodes, setDataA_nodes, setDataA_nodes]

theorem canptGetNodes_ok (c : Canpt) {len : UInt8} (hlen : len ≠ 0) :
    ∃ ids, canptGetNodes c false len = (.ok, some ids) := by
  simp only [canptGetNodes, hlen, Bool.false_eq_true, or_self, if_false]
  exact ⟨_, rfl⟩

theorem canptGetNodes_congr {c c' : Canpt} (h : c'.nodes = c.nodes) (null : Bool) (len : UInt8) :
    canptGetNodes c' null len = canptGetNodes c null len := by
  simp only [canptGetNodes, h]

theorem canptGetNodeCaps_congr {c c' : Canpt} (h : c'.nodes = c.nodes) (null : Bool)
    (nodeId len : UInt8) : canptGetNodeCaps c' null nodeId len =
      canptGetNodeCaps c null nodeId len := by
  simp only [canptGetNodeCaps, h]

theorem canptGetNodeCaps_length {c : Canpt} {null : Bool} {nodeId len : UInt8}
    {caps : List UInt8} (h : canptGetNodeCaps c null nodeId len = (.ok, some caps)) :
    caps.length ≤ nodeMaxCaps := by
  simp only [canptGetNodeCaps] at h
  split_ifs at h
  · simp at h
  · split at h
    · simp at h
    · rw [← Option.some.inj (congrArg Prod.snd h), List.length_map]
      exact (List.takeWhile_sublist _).length_le.trans_eq List.length_finRange

def registered (c : Canpt) (i : Fin nodeMaxNum) : Option UInt8 :=
  if (c.nodes i).reqId ≠ 0 then some (c.nodes i).reqId else none

def capList (n : Node) : List UInt8 := ((List.finRange nodeMaxCaps).map n.caps).takeWhile (· ≠ 0)

theorem registered_eq_some {c : Canpt} {i : Fin nodeMaxNum} (h : (c.nodes i).reqId ≠ 0) :
    registered c i = some (c.nodes i).reqId := if_pos h

theorem registered_eq_none_iff (c : Canpt) (i : Fin nodeMaxNum) :
    registered c i = none ↔ (c.nodes i).reqId = 0 := by
  simp [registered]

theorem distinct_registered_iff (c : Canpt) : Distinct (registered c) ↔
    ∀ i j, (c.nodes i).reqId ≠ 0 → (c.nodes j).reqId = (c.nodes i).reqId → i = j := by
  constructor
  · intro h i j hi hij
    refine h i j _ (registered_eq_some hi) ?_
    rw [registered_eq_some (hij ▸ hi), hij]
  · intro h i j a hi hj
    have hne {k : Fin nodeMaxNum} (hk : registered c k = some a) :
        (c.nodes k).reqId ≠ 0 ∧ (c.nodes k).reqId = a := by
      simpa [registered] using hk
    exact h i j (hne hi).1 ((hne hj).2.trans (hne hi).2.symm)

theorem canptGetNodes_lists (c : Canpt) {len : UInt8} (hlen : nodeMaxNum ≤ len.toNat) :
    canptGetNodes c false len = (.ok, some (entries (registered c))) := by
  have hpos : len ≠ 0 := fun h => by
    rw [h] at hlen
    exact absurd hlen (by decide)
  have hroom : ((List.finRange nodeMaxNum).filter fun i => (c.nodes i).reqId ≠ 0).length ≤
      len.toNat := by
    have hle := (List.finRange nodeMaxNum).length_filter_le fun i => (c.nodes i).reqId ≠ 0
    rw [List.length_finRange] at hle
    exact hle.trans hlen
  have hcollect := foldl_collect (fun i => (c.nodes i).reqId ≠ 0) (fun i => (c.nodes i).reqId)
    len.toNat (List.finRange nodeMaxNum) [] (by simpa using hroom)
  rw [List.nil_append, ← entries_filter] at hcollect
  simp only [canptGetNodes, hpos, Bool.false_eq_true, or_self, if_false]
  exact congrArg (fun ids => (ErrorT.ok, some ids)) hcollect

theorem canptGetNodeCaps_lists {c : Canpt} (hdistinct : Distinct (registered c))
    {i : Fin nodeMaxNum} (hid : (c.nodes i).reqId ≠ 0) {len : UInt8}
    (hlen : nodeMaxCaps ≤ len.toNat) :
    canptGetNodeCaps c false (c.nodes i).reqId len = (.ok, some (capList (c.nodes i))) := by
  have hpos : len ≠ 0 := fun h => by
    rw [h] at hlen
    exact absurd hlen (by decide)
  have hfind : ((List.finRange nodeMaxNum).find? fun j => (c.nodes j).reqId = (c.nodes i).reqId) =
      some i := by
    cases hj : (List.finRange nodeMaxNum).find? fun j => (c.nodes j).reqId = (c.nodes i).reqId with
    | none => simpa using List.find?_eq_none.mp hj i (List.mem_finRange i)
    | some j =>
      have heq : (c.nodes j).reqId = (c.nodes i).reqId := by simpa using List.find?_some hj
      have hsame := hdistinct i j _ (registered_eq_some hid)
        ((registered_eq_some (heq ▸ hid)).trans (congrArg some heq))
      rw [hsame]
  have hall (k : Fin nodeMaxCaps) : k.val < len.toNat := lt_of_lt_of_le k.isLt hlen
  simp only [canptGetNodeCaps, hpos, Bool.false_eq_true, or_self, if_false, hfind, hall, true_and]
  rw [capList, List.takeWhile_map]
  rfl

end AoaBoard.Can
