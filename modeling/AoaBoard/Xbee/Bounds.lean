import AoaBoard.Xbee.Receiver

/-!
# Stores of the receiver and the end of its buffer

The length field is clamped to `XBEE_BUF_SZ`, but a body of that length is
followed by one checksum byte. As long as every length field declares fewer
than `XBEE_BUF_SZ` bytes, the stores stay inside `rfBuf`; a longer length field
followed by `XBEE_BUF_SZ + 1` bytes reaches the cell behind it.
-/

namespace AoaBoard.Xbee
open Library Library.Run Library.Bytes Board

def InBounds : Event → Prop
  | .store pos => pos < bufSz
  | .frame len => len ≤ bufSz
  | _ => True

/-- The input does not complete a length field of `XBEE_BUF_SZ` or more. -/
def LengthFits (p : Port) (i : Input) : Prop :=
  ∀ c ∈ consumed p i, c.1.rfState = .length ∧ c.1.rfPos = 1 → (joinLength c.1 c.2).toNat < bufSz

instance (p : Port) (i : Input) : Decidable (LengthFits p i) :=
  inferInstanceAs (Decidable (∀ c ∈ consumed p i, _ → _))

def Short (x : XbeeState) : Prop :=
  WellFormed x ∧ (x.rfState = .data → x.rfFrameLen.toNat < bufSz)

theorem callback_inBounds {e : Event} (he : IsCallback e) : InBounds e := by
  cases e with
  | store pos => exact he.elim
  | frame len => exact he.elim
  | up u => trivial
  | node hi lo rssi => trivial
  | txStat id st => trivial
  | data hi lo rssi buf len => trivial

theorem processByte_short {x : XbeeState} (h : Short x) (data : UInt8) (now : UInt32)
    (hfit : x.rfState = .length ∧ x.rfPos = 1 → (joinLength x data).toNat < bufSz) :
    Short (processByte x data now).1 ∧ ∀ e ∈ (processByte x data now).2, InBounds e := by
  have hwf := processByte_wellFormed h.1 data now
  cases hx : x.rfState with
  | frame =>
    by_cases hd : data = startDel
    · subst hd
      rw [processByte_start hx] at hwf ⊢
      exact ⟨⟨hwf, by simp⟩, by simp⟩
    · rw [processByte_noise hx hd]
      exact ⟨h, by simp⟩
  | length =>
    have hcase := h.1
    simp only [WellFormed, hx] at hcase
    rcases hcase with ⟨hpos, hlen⟩ | ⟨hpos, -⟩
    · rw [processByte_lengthHigh hx hpos hlen] at hwf ⊢
      exact ⟨⟨hwf, by simp [hx]⟩, by simp⟩
    · rw [processByte_lengthLow hx hpos] at hwf ⊢
      refine ⟨⟨hwf, fun _ => ?_⟩, by simp⟩
      have hlt := hfit ⟨hx, hpos⟩
      rw [clamp_toNat]
      omega
  | data =>
    have hlt := h.2 hx
    have hcase := h.1
    simp only [WellFormed, hx] at hcase
    by_cases hpos : x.rfPos = x.rfFrameLen
    · have hsucc := pos_succ_toNat (x := x) (hcase.2.trans hcase.1)
      rw [processByte_last hx hpos] at hwf ⊢
      have hcb := (processFrame_frame (finished x data) (finished x data).rfBuf
        (x.rfPos + 1).toNat).2
      refine ⟨⟨hwf, by simp [processFrame_rfState, finished]⟩, ?_⟩
      simp only [List.forall_mem_cons]
      refine ⟨?_, ?_, fun e he => callback_inBounds (hcb e he)⟩
      · change x.rfPos.toNat < bufSz
        omega
      · change (x.rfPos + 1).toNat ≤ bufSz
        omega
    · have hne : x.rfPos.toNat ≠ x.rfFrameLen.toNat := fun he => hpos (UInt32.toNat_inj.mp he)
      rw [processByte_body hx (by omega)] at hwf ⊢
      refine ⟨⟨hwf, fun _ => hlt⟩, ?_⟩
      simp only [List.forall_mem_cons]
      refine ⟨?_, by simp⟩
      change x.rfPos.toNat < bufSz
      omega

theorem expire_short {x : XbeeState} (h : Short x) (now : UInt32) : Short (expire x now) := by
  refine ⟨expire_wellFormed h.1 now, ?_⟩
  simp only [expire]
  split_ifs
  · simp
  · exact h.2

theorem step_short {p : Port} (h : Short p.xbee) {i : Input} (hfit : LengthFits p i) :
    Short (step p i).1.xbee ∧ ∀ e ∈ (step p i).2, InBounds e := by
  rcases step_cases p i with ⟨-, hout, hs⟩ | ⟨x, data, now, hc, hx, hs, hout⟩
  · refine ⟨?_, by simp [hout]⟩
    rcases hs with hs | ⟨now, hs⟩
    · rw [hs]
      exact h
    · rw [hs]
      exact expire_short h now
  · have hshort : Short x := by
      rcases hx with rfl | ⟨t, rfl⟩
      · exact h
      · exact expire_short h t
    rw [hs, hout]
    exact processByte_short hshort data now (hfit (x, data) hc)

def power (cb : Callb) (isCoordinator : Bool) : Port := ⟨start cb isCoordinator, RxQueue.start⟩

theorem power_short (cb : Callb) (isCoordinator : Bool) : Short (power cb isCoordinator).xbee :=
  ⟨wellFormed_start cb isCoordinator, nofun⟩

theorem outputs_inBounds {p : Port} (h : Short p.xbee) {is : List Input}
    (his : Along step LengthFits p is) : ∀ e ∈ outputs step p is, InBounds e := by
  have hrun := history_invariant
    (P := fun es (q : Port) => Short q.xbee ∧ ∀ e ∈ es, InBounds e) (fun es q i hq hfit => by
      obtain ⟨hs, hb⟩ := step_short hq.1 hfit
      refine ⟨hs, fun e he => ?_⟩
      rcases List.mem_append.mp he with he | he
      · exact hq.2 e he
      · exact hb e he) (h := []) ⟨h, by simp⟩ his
  simpa using hrun.2

theorem long_frame_overflows {p : Port} (hx : p.xbee.rfState = .length)
    (hpos : p.xbee.rfPos = 1) {data : UInt8}
    (hlen : bufSz ≤ (joinLength p.xbee data).toNat) (now : UInt32)
    (body : List (UInt8 × UInt32)) (hbody : body.length = bufSz + 1) :
    ∃ e ∈ outputs step p (.byte data now :: body.map fun b => .byte b.1 b.2), ¬ InBounds e := by
  refine ⟨.store bufSz, ?_, Nat.lt_irrefl bufSz⟩
  have hl := processByte_lengthLow hx hpos data now
  have hclamp : (clamp (joinLength p.xbee data)).toNat = bufSz := by
    rw [clamp_toNat]
    omega
  rw [outputs_cons, (run_bytes _ body).2]
  apply List.mem_append_right
  simp only [step, hl]
  rw [(feed_frame rfl hclamp.le rfl body (by rw [hbody]; exact congrArg (· + 1) hclamp.symm)).2]
  apply List.mem_append_left
  exact List.mem_map_of_mem (List.mem_range.mpr (by omega))

/-- Runs in which every length field declares fewer than `XBEE_BUF_SZ` bytes keep all
stores inside the buffer, and a longer length field leads outside it. -/
theorem receiver_stays_in_buffer (cb : Callb) (isCoordinator : Bool) :
    (∀ is, Along step LengthFits (power cb isCoordinator) is →
      ∀ e ∈ outputs step (power cb isCoordinator) is, InBounds e) ∧
    (∀ is data now, (after step (power cb isCoordinator) is).xbee.rfState = .length →
      (after step (power cb isCoordinator) is).xbee.rfPos = 1 →
      bufSz ≤ (joinLength (after step (power cb isCoordinator) is).xbee data).toNat →
      ∀ body : List (UInt8 × UInt32), body.length = bufSz + 1 →
        ∃ e ∈ outputs step (power cb isCoordinator)
          (is ++ .byte data now :: body.map fun b => .byte b.1 b.2), ¬ InBounds e) := by
  refine ⟨fun is his => outputs_inBounds (power_short cb isCoordinator) his, ?_⟩
  intro is data now hx hpos hlen body hbody
  obtain ⟨e, he, hbad⟩ := long_frame_overflows hx hpos hlen now body hbody
  refine ⟨e, ?_, hbad⟩
  rw [outputs_append]
  exact List.mem_append_right _ he

def allCallbacks : Callb := ⟨true, true, true, true⟩

def modemFrame : List Input :=
  [.byte 0x7E 0, .byte 0 0, .byte 2 0, .byte 0x8A 0, .byte 6 0, .byte 0x6F 0]

theorem receiver_modemFrame_in_buffer :
    Along step LengthFits (power allCallbacks true) modemFrame ∧
      ∀ e ∈ outputs step (power allCallbacks true) modemFrame, InBounds e :=
  ⟨by decide, (receiver_stays_in_buffer allCallbacks true).1 modemFrame (by decide)⟩

def longFrame : List Input :=
  [.byte 0x7E 0, .byte 0 0] ++
    .byte 0xC8 0 :: (List.replicate (bufSz + 1) ((0 : UInt8), (0 : UInt32))).map
      fun b => .byte b.1 b.2

theorem receiver_longFrame_overflows :
    ¬ ∀ e ∈ outputs step (power allCallbacks true) longFrame, InBounds e := by
  intro hall
  obtain ⟨e, he, hbad⟩ := long_frame_overflows
    (p := after step (power allCallbacks true) [.byte 0x7E 0, .byte 0 0]) rfl rfl
    (show bufSz ≤ (joinLength _ 0xC8).toNat by decide) 0
    (List.replicate (bufSz + 1) (0, 0)) (by simp)
  apply hbad
  apply hall
  rw [longFrame, outputs_append]
  exact List.mem_append_right _ he

end AoaBoard.Xbee
