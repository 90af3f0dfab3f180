import AoaBoard.Rf.Protocol
import AoaBoard.Xbee.Driver

/-!
# Corrupted frames

The XBee driver and the RF protocol together: the events of `processFrame` call
the functions that `rfpt.c` registers, of which only `xbeeData` does more than
print. A frame that does not sum up to `0xFF` is dropped before the `switch`.
-/

namespace AoaBoard.Rf.Corruption
open Library.Bytes Library.Run Xbee

structure Radio where
  xbee : XbeeState
  rf : RfState

structure Inputs where
  now : UInt32
  trimpot : UInt16
  port : UInt32

def callback (i : Inputs) (s : RfState) : Xbee.Event → RfState × List Out
  | .data addrHi addrLo _ buf len => xbeeData s ⟨addrHi, addrLo⟩ buf len i.now i.trimpot i.port
  | .up _ | .node _ _ _ | .txStat _ _ => (s, [])
  -- not callbacks
  | .store _ | .frame _ => (s, [])

/-- `processFrame` with its callbacks: the events of the driver and the outputs of the protocol. -/
def processFrame (r : Radio) (i : Inputs) (buf : ℕ → UInt8) (len : ℕ) :
    Radio × List Xbee.Event × List Out :=
  let p := Xbee.processFrame r.xbee buf len
  (⟨p.1, after (callback i) r.rf p.2⟩, p.2, outputs (callback i) r.rf p.2)

def Dispatches (buf : ℕ → UInt8) (len : ℕ) : Prop := ¬ len < 2 ∧ ¬ checksum buf len ≠ 0

instance decidableDispatches (buf : ℕ → UInt8) (len : ℕ) : Decidable (Dispatches buf len) :=
  inferInstanceAs (Decidable (_ ∧ _))

theorem processFrame_eq (x : XbeeState) (buf : ℕ → UInt8) (len : ℕ) :
    Xbee.processFrame x buf len = if Dispatches buf len then dispatch x buf len else (x, []) := by
  by_cases hboth : Dispatches buf len
  · rw [Xbee.processFrame, if_neg hboth.1, if_neg hboth.2, if_pos hboth]
  · rw [Xbee.processFrame, if_neg hboth]
    split_ifs with hshort hsum
    · rfl
    · rfl
    · exact absurd ⟨hshort, hsum⟩ hboth

theorem dispatches_sum {buf : ℕ → UInt8} {len : ℕ} (h : Dispatches buf len) :
    byteSum (slice buf len) = 0xFF :=
  (checksum_eq_zero_iff buf len).mp (not_not.mp h.2)

theorem processFrame_dropped {buf : ℕ → UInt8} {len : ℕ} (h : ¬ Dispatches buf len) (r : Radio)
    (i : Inputs) : processFrame r i buf len = (r, [], []) := by
  simp only [processFrame, processFrame_eq, if_neg h, after_nil, outputs_nil]

theorem sum_update_ne {buf : ℕ → UInt8} {len k : ℕ} {b : UInt8}
    (hsum : byteSum (slice buf len) = 0xFF) (hk : k < len) (hb : b ≠ buf k) :
    byteSum (slice (Function.update buf k b) len) ≠ 0xFF := by
  intro heq
  have hupdate := byteSum_update buf hk b
  rw [heq, hsum] at hupdate
  exact hb (UInt8.add_right_inj 0xFF |>.mp hupdate).symm

/-- A frame with one changed byte makes no callback and leaves the driver and the tables of the
protocol as they are, and no frame that does not sum up to `0xFF` reaches the `switch`. -/
theorem corrupted_frame_ignored :
    (∀ (r : Radio) (i : Inputs) (buf : ℕ → UInt8) (len k : ℕ) (b : UInt8),
      byteSum (slice buf len) = 0xFF → k < len → b ≠ buf k →
        processFrame r i (Function.update buf k b) len = (r, [], [])) ∧
    ∀ (x : XbeeState) (buf : ℕ → UInt8) (len : ℕ),
      Xbee.processFrame x buf len = (if Dispatches buf len then dispatch x buf len else (x, [])) ∧
        (Dispatches buf len → byteSum (slice buf len) = 0xFF) := by
  refine ⟨fun r i buf len k b hsum hk hb => ?_, fun x buf len => ?_⟩
  · exact processFrame_dropped (fun h => sum_update_ne hsum hk hb (dispatches_sum h)) r i
  · exact ⟨processFrame_eq x buf len, dispatches_sum⟩

def coordinator : Radio :=
  ⟨Xbee.start ⟨true, true, true, true⟩ true, rfInit powerUp true allCallb⟩

/-- A modem status frame that says that the module has started, and the same with another status. -/
theorem corrupted_frame_ignored_status :
    (processFrame coordinator ⟨0, 0, 0⟩ (ofList [apiIdModStat, 6, 0x6F]) 3).2.1 = [.up 1] ∧
      processFrame coordinator ⟨0, 0, 0⟩
        (Function.update (ofList [apiIdModStat, 6, 0x6F]) 1 3) 3 = (coordinator, [], []) :=
  ⟨rfl, corrupted_frame_ignored.1 coordinator ⟨0, 0, 0⟩ (ofList [apiIdModStat, 6, 0x6F]) 3 1 3
    (by decide) (by decide) (by decide)⟩

end AoaBoard.Rf.Corruption
