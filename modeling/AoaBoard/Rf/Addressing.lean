import AoaBoard.Rf.Commands
import AoaBoard.Rf.InUse
import AoaBoard.Xbee.Driver

/-!
# Where the commands of a coordinator go

`getAddress` answers `0:0` for an id under which no node is attached, and the
commands hand that address to `xbee_send` like any other. A command to such an
id is sent to `0:0` and reported as sent, unless it is refused for another
reason.
-/

namespace AoaBoard.Rf
open Library Library.Bytes Library.Run Board Xbee

def transmit (x : XbeeState) : Out → Sent
  | .send dst data => xbeeSend x dst.hi dst.lo (ofList data) (UInt8.ofNat data.length) (some 0)
  | _ => ⟨.ok, x, none, []⟩

/-- The command as the application calls it: it returns an error, or what `xbee_send` does. -/
def command (s : RfState) (x : XbeeState) (id : UInt8) (c : Command) : Sent :=
  match issue s id c with
  | .ok out => transmit x out
  | .error err => ⟨err, x, none, []⟩

def AttachedAs (s : RfState) (id : UInt8) (a : Addr) : Prop :=
  ∃ i, nodeId i = id ∧ table s i = some a

def OneFrameTo (a : Addr) (wire : List UInt8) : Prop :=
  ∃ frameId data len cs, wire = tx64Frame frameId a.hi a.lo data len ++ [cs]

def BadArguments : Command → Prop
  | .subscribe periphId subAct _ len => (periphId < msgDevTemp ∨ msgDevLed < periphId) ∨
    (subAct < msgSubGte ∨ msgSubDif < subAct) ∨ 4 < len
  | _ => False

def Refused (x : XbeeState) (c : Command) : Prop := x.initialized = false ∨ BadArguments c

def Nothing (r : Sent) : Prop := r.err ≠ .ok ∧ r.wire = []

/-- The call sends one frame to the node attached under the id, or it reports an error and
sends nothing: the latter where no node is attached, the former where one is and the call is
not refused. -/
structure Addressed (s : RfState) (x : XbeeState) (id : UInt8) (c : Command) : Prop where
  either : Nothing (command s x id c) ∨
    (command s x id c).err = .ok ∧ ∃ a, AttachedAs s id a ∧ OneFrameTo a (command s x id c).wire
  unattached : (∀ a, ¬ AttachedAs s id a) → Nothing (command s x id c)
  attached : ∀ a, AttachedAs s id a → ¬ Refused x c →
    (command s x id c).err = .ok ∧ OneFrameTo a (command s x id c).wire

theorem issue_cases (s : RfState) (id : UInt8) (c : Command) :
    (BadArguments c ∧ issue s id c = .error .argument) ∨
      ¬ BadArguments c ∧ ∃ data : List UInt8, data.length ≤ 6 ∧
        issue s id c = .ok (.send (getAddress s id) data) := by
  have hsent (data : List UInt8) (hlen : data.length ≤ 6) (hc : ¬ BadArguments c)
      (heq : issue s id c = .ok (.send (getAddress s id) data)) :
      (BadArguments c ∧ issue s id c = .error .argument) ∨
        ¬ BadArguments c ∧ ∃ data : List UInt8, data.length ≤ 6 ∧
          issue s id c = .ok (.send (getAddress s id) data) := Or.inr ⟨hc, data, hlen, heq⟩
  cases c with
  | getTemperature => exact hsent [_] (by simp) (fun h => h) rfl
  | getButton => exact hsent [_] (by simp) (fun h => h) rfl
  | getLight => exact hsent [_] (by simp) (fun h => h) rfl
  | setRGB mask on => exact hsent [_, _, _] (by simp) (fun h => h) rfl
  | setLed on => exact hsent [_, _] (by simp) (fun h => h) rfl
  | unsubscribe subId => exact hsent [_, _] (by simp) (fun h => h) rfl
  | subscribe periphId subAct valBuf len =>
    simp only [issue, rfSubscribe, BadArguments] at hsent ⊢
    by_cases hperiph : periphId < msgDevTemp ∨ msgDevLed < periphId
    · exact Or.inl ⟨Or.inl hperiph, if_pos hperiph⟩
    by_cases hact : subAct < msgSubGte ∨ msgSubDif < subAct
    · exact Or.inl ⟨Or.inr (Or.inl hact), by rw [if_neg hperiph, if_pos hact]⟩
    by_cases hlen : 4 < len
    · exact Or.inl ⟨Or.inr (Or.inr hlen), by rw [if_neg hperiph, if_neg hact, if_pos hlen]⟩
    have hsmall : len.toNat ≤ 4 := by
      simpa [UInt8.lt_iff_toNat_lt] using hlen
    refine hsent _ ?_ ?_ (by rw [if_neg hperiph, if_neg hact, if_neg hlen])
    · rw [List.length_cons, List.length_cons, slice_length]
      omega
    · rintro (h | h | h)
      · exact hperiph h
      · exact hact h
      · exact hlen h

theorem command_refused {x : XbeeState} {c : Command} (h : Refused x c) (s : RfState)
    (id : UInt8) : Nothing (command s x id c) := by
  rw [command]
  rcases issue_cases s id c with ⟨-, hissue⟩ | ⟨hgood, data, -, hissue⟩
  · rw [hissue]
    exact ⟨fun herr => ErrorT.noConfusion herr, rfl⟩
  · have hdown : ¬ x.initialized = true := by
      rcases h with h | h
      · simp [h]
      · exact absurd h hgood
    rw [hissue]
    simp only [transmit, xbeeSend, if_neg hdown]
    exact ⟨fun herr => ErrorT.noConfusion herr, rfl⟩

theorem command_sent {x : XbeeState} {c : Command} (h : ¬ Refused x c) (s : RfState)
    (id : UInt8) : (command s x id c).err = .ok ∧
      OneFrameTo (getAddress s id) (command s x id c).wire := by
  obtain ⟨hup, hgood⟩ := not_or.mp h
  rw [command]
  rcases issue_cases s id c with ⟨hbad, -⟩ | ⟨-, data, hlen, hissue⟩
  · exact absurd hbad hgood
  · have hshort : ¬ 20 < UInt8.ofNat data.length := by
      rw [UInt8.lt_iff_toNat_lt, UInt8.toNat_ofNat']
      have htwenty : (20 : UInt8).toNat = 20 := rfl
      omega
    rw [hissue]
    simp only [transmit, xbeeSend, Bool.not_eq_false _ ▸ hup, if_true, apiTx64, if_neg hshort]
    exact ⟨trivial, _, _, _, _, rfl⟩

theorem getAddress_of_attached {s : RfState} {id : UInt8} {a : Addr} (h : AttachedAs s id a) :
    getAddress s id = a := by
  obtain ⟨i, rfl, hi⟩ := h
  rw [getAddress, dif_pos (nodeId_range i), nodeId_slot]
  exact ((table_eq_some_iff s i a).mp hi).1

/-- A command goes to the node attached under the id, and to no other address, if and only if
there is such a node or the command is refused anyway. -/
theorem commands_addressed_iff (m : RfState) (cb : Rf.Callb) (es : List Input) (x : XbeeState)
    (id : UInt8) (c : Command) :
    Addressed (after step (rfInit m true cb) es) x id c ↔
      (∃ a, AttachedAs (after step (rfInit m true cb) es) id a) ∨ Refused x c := by
  generalize after step (rfInit m true cb) es = s
  constructor
  · intro h
    by_contra hnone
    obtain ⟨hfree, hready⟩ := not_or.mp hnone
    have hquiet := h.unattached fun a ha => hfree ⟨a, ha⟩
    exact hquiet.1 (command_sent hready s id).1
  · intro h
    by_cases hrefused : Refused x c
    · have hquiet := command_refused hrefused s id
      exact ⟨Or.inl hquiet, fun _ => hquiet, fun _ _ hready => absurd hrefused hready⟩
    · obtain ⟨a, ha⟩ := h.resolve_right hrefused
      have hsent := command_sent hrefused s id
      have haddr {b : Addr} (hb : AttachedAs s id b) : (command s x id c).err = .ok ∧
          OneFrameTo b (command s x id c).wire := getAddress_of_attached hb ▸ hsent
      exact ⟨Or.inr ⟨hsent.1, a, ha, (haddr ha).2⟩, fun hnone => absurd ha (hnone a),
        fun b hb _ => haddr hb⟩

def started : XbeeState := { Xbee.start ⟨true, true, true, true⟩ true with initialized := true }

theorem detached_node_addressed :
    let s := after step (rfInit powerUp true allCallb) publishAndTimeOut
    (∀ a, ¬ AttachedAs s 1 a) ∧ (command s started 1 .getTemperature).err = .ok ∧
      OneFrameTo noAddr (command s started 1 .getTemperature).wire ∧
      ¬ Addressed s started 1 .getTemperature := by
  intro s
  have hfree : ∀ a, ¬ AttachedAs s 1 a := by
    rintro a ⟨i, hi, ha⟩
    have hempty : ∀ i, nodeId i = 1 → (s.nodes i).addr = noAddr := by decide +kernel
    rw [(table_eq_none_iff s i).mpr (hempty i hi)] at ha
    cases ha
  have hready : ¬ Refused started .getTemperature := by simp [Refused, BadArguments, started]
  have hsent := command_sent hready s 1
  have hzero : getAddress s 1 = noAddr := by decide +kernel
  exact ⟨hfree, hsent.1, hzero ▸ hsent.2, fun h => (h.unattached hfree).1 hsent.1⟩

end AoaBoard.Rf
