import AoaBoard.Library.Run
import AoaBoard.Xbee.Driver

/-!
# The frame receiver along a run of bytes and task calls

`Port` couples the receiver with the UART receive queue. Its inputs are bytes
put into the queue by the UART interrupt, bytes given to `processByte`
directly, and calls of `xbee_task` with their two clock readings. `WellFormed`
links the parser state to its position and length fields and is kept by every
input. Bodies are then executed as a whole: `feed_body` stores bytes short of
the checksum and `feed_frame` ends in one call of `processFrame`.
-/

namespace AoaBoard.Xbee
open Library Library.Run Library.Bytes Board.RxQueue

def WellFormed (x : XbeeState) : Prop :=
  match x.rfState with
  | .frame => True
  | .length => (x.rfPos = 0 ∧ x.rfFrameLen = 0) ∨
      (x.rfPos = 1 ∧ ∃ hi : UInt8, x.rfFrameLen = hi.toUInt32 <<< 8)
  | .data => x.rfFrameLen.toNat ≤ bufSz ∧ x.rfPos.toNat ≤ x.rfFrameLen.toNat

theorem wellFormed_start (cb : Callb) (isCoordinator : Bool) :
    WellFormed (start cb isCoordinator) := trivial

def IsCallback : Event → Prop
  | .store _ | .frame _ => False
  | _ => True

theorem handleTxStatus_callback (x : XbeeState) (frameId status : UInt8) :
    ∀ e ∈ handleTxStatus x frameId status, IsCallback e := by
  unfold handleTxStatus
  split_ifs <;> simp [IsCallback]

theorem handleAtResponse_callback (x : XbeeState) (atBuf : ℕ → UInt8) (status : UInt8)
    (valueBuf : ℕ → UInt8) (valueLen : ℕ) :
    ∀ e ∈ handleAtResponse x atBuf status valueBuf valueLen, IsCallback e := by
  unfold handleAtResponse handleDiscovery
  split_ifs <;> simp [IsCallback]

theorem processData_callback (x : XbeeState) (addrHi addrLo : UInt32) (rssi : UInt8)
    (buf : ℕ → UInt8) (len : ℕ) :
    ∀ e ∈ processData x addrHi addrLo rssi buf len, IsCallback e := by
  unfold processData
  split_ifs <;> simp [IsCallback]

def OnlyInitialized (x : XbeeState) (r : XbeeState × List Event) : Prop :=
  (∃ b, r.1 = { x with initialized := b }) ∧ ∀ e ∈ r.2, IsCallback e

theorem onlyInitialized_same (x : XbeeState) {es : List Event} (h : ∀ e ∈ es, IsCallback e) :
    OnlyInitialized x (x, es) := ⟨⟨x.initialized, rfl⟩, h⟩

theorem handleModemStatus_frame (x : XbeeState) (status : UInt8) :
    OnlyInitialized x (handleModemStatus x status) := by
  have hup (u : UInt8) : ∀ e ∈ reportUp x u, IsCallback e := by
    unfold reportUp
    split_ifs <;> simp [IsCallback]
  unfold handleModemStatus
  split_ifs
  · exact ⟨⟨true, rfl⟩, hup 1⟩
  · exact ⟨⟨true, rfl⟩, hup 1⟩
  · exact ⟨⟨false, rfl⟩, hup 0⟩
  · exact onlyInitialized_same x (by simp)

theorem dispatch_frame (x : XbeeState) (buf : ℕ → UInt8) (len : ℕ) :
    OnlyInitialized x (dispatch x buf len) := by
  unfold dispatch
  split_ifs
  · exact onlyInitialized_same x (by simp)
  · exact onlyInitialized_same x (handleAtResponse_callback _ _ _ _ _)
  · exact onlyInitialized_same x (handleAtResponse_callback _ _ _ _ _)
  · exact onlyInitialized_same x (handleTxStatus_callback _ _ _)
  · exact onlyInitialized_same x (by simp)
  · exact onlyInitialized_same x (processData_callback _ _ _ _ _ _)
  · exact onlyInitialized_same x (by simp)
  · exact handleModemStatus_frame x _
  · exact onlyInitialized_same x (by simp)

theorem processFrame_frame (x : XbeeState) (buf : ℕ → UInt8) (len : ℕ) :
    OnlyInitialized x (processFrame x buf len) := by
  unfold processFrame
  split_ifs
  · exact onlyInitialized_same x (by simp)
  · exact onlyInitialized_same x (by simp)
  · exact dispatch_frame x buf len

theorem processFrame_rfState (x : XbeeState) (buf : ℕ → UInt8) (len : ℕ) :
    (processFrame x buf len).1.rfState = x.rfState := by
  obtain ⟨b, hb⟩ := (processFrame_frame x buf len).1
  rw [hb]

theorem joinLength_first {x : XbeeState} (hpos : x.rfPos = 0) (hlen : x.rfFrameLen = 0)
    (data : UInt8) : joinLength x data = data.toUInt32 <<< 8 := by
  simp [joinLength, hpos, hlen]

theorem processByte_noise {x : XbeeState} (hx : x.rfState = .frame) {data : UInt8}
    (hd : data ≠ startDel) (now : UInt32) : processByte x data now = (x, []) := by
  simp only [processByte, hx, if_neg hd]

theorem processByte_start {x : XbeeState} (hx : x.rfState = .frame) (now : UInt32) :
    processByte x startDel now = ({ x with rfPos := 0, rfFrameLen := 0, rfState := .length,
                                           rfFrameTimer := now + recvFrameTo }, []) := by
  simp only [processByte, hx, if_true]

theorem processByte_lengthHigh {x : XbeeState} (hx : x.rfState = .length) (hpos : x.rfPos = 0)
    (hlen : x.rfFrameLen = 0) (data : UInt8) (now : UInt32) :
    processByte x data now =
      ({ x with rfPos := 1, rfFrameLen := data.toUInt32 <<< 8 }, []) := by
  simp only [processByte, hx, hpos, joinLength_first hpos hlen]
  rfl

def clamp (frameLen : UInt32) : UInt32 :=
  if UInt32.ofNat bufSz < frameLen then UInt32.ofNat bufSz else frameLen

theorem clamp_toNat (frameLen : UInt32) : (clamp frameLen).toNat = min bufSz frameLen.toNat := by
  have hsz : (UInt32.ofNat bufSz).toNat = bufSz := rfl
  unfold clamp
  split_ifs with h
  · rw [UInt32.lt_iff_toNat_lt, hsz] at h
    omega
  · rw [UInt32.lt_iff_toNat_lt, hsz] at h
    omega

theorem processByte_lengthLow {x : XbeeState} (hx : x.rfState = .length) (hpos : x.rfPos = 1)
    (data : UInt8) (now : UInt32) :
    processByte x data now =
      ({ x with rfPos := 0, rfState := .data, rfFrameLen := clamp (joinLength x data) }, []) := by
  simp only [processByte, hx, hpos]
  rfl

def stored (x : XbeeState) (data : UInt8) : XbeeState :=
  { x with rfBuf := Function.update x.rfBuf x.rfPos.toNat data, rfPos := x.rfPos + 1 }

theorem pos_succ_toNat {x : XbeeState} (hpos : x.rfPos.toNat ≤ bufSz) :
    (x.rfPos + 1).toNat = x.rfPos.toNat + 1 := by
  have hsz : bufSz = 200 := rfl
  rw [UInt32.toNat_add, show (1 : UInt32).toNat = 1 from rfl]
  omega

theorem processByte_body {x : XbeeState} (hx : x.rfState = .data)
    (hpos : x.rfPos.toNat < x.rfFrameLen.toNat) (data : UInt8) (now : UInt32) :
    processByte x data now = (stored x data, [.store x.rfPos.toNat]) := by
  have hne : x.rfPos + 1 ≠ x.rfFrameLen + 1 := by
    intro he
    have hp := UInt32.add_left_inj 1 |>.mp he
    rw [hp] at hpos
    omega
  simp only [processByte, hx, if_neg hne, stored]

def finished (x : XbeeState) (data : UInt8) : XbeeState :=
  { stored x data with rfState := .frame, rfFrameTimer := 0 }

theorem processByte_last {x : XbeeState} (hx : x.rfState = .data)
    (hpos : x.rfPos = x.rfFrameLen) (data : UInt8) (now : UInt32) :
    processByte x data now =
      ((processFrame (finished x data) (finished x data).rfBuf (x.rfPos + 1).toNat).1,
        .store x.rfPos.toNat :: .frame (x.rfPos + 1).toNat ::
          (processFrame (finished x data) (finished x data).rfBuf (x.rfPos + 1).toNat).2) := by
  simp only [processByte, hx, hpos, if_true, finished, stored]

theorem processByte_wellFormed {x : XbeeState} (h : WellFormed x) (data : UInt8)
    (now : UInt32) : WellFormed (processByte x data now).1 := by
  cases hx : x.rfState with
  | frame =>
    by_cases hd : data = startDel
    · subst hd
      rw [processByte_start hx]
      exact Or.inl ⟨rfl, rfl⟩
    · rw [processByte_noise hx hd]
      exact h
  | length =>
    simp only [WellFormed, hx] at h
    rcases h with ⟨hpos, hlen⟩ | ⟨hpos, hi, hlen⟩
    · rw [processByte_lengthHigh hx hpos hlen]
      exact hx ▸ Or.inr ⟨rfl, data, rfl⟩
    · rw [processByte_lengthLow hx hpos]
      simp only [WellFormed, clamp_toNat]
      exact ⟨Nat.min_le_left _ _, Nat.zero_le _⟩
  | data =>
    simp only [WellFormed, hx] at h
    by_cases hpos : x.rfPos = x.rfFrameLen
    · rw [processByte_last hx hpos]
      simp only [WellFormed, processFrame_rfState, finished]
    · have hlt : x.rfPos.toNat < x.rfFrameLen.toNat := by
        have hne : x.rfPos.toNat ≠ x.rfFrameLen.toNat := fun he => hpos (UInt32.toNat_inj.mp he)
        omega
      rw [processByte_body hx hlt]
      have hnext := pos_succ_toNat (x := x) (h.2.trans h.1)
      simp only [WellFormed, stored, hx, hnext]
      exact ⟨h.1, by omega⟩

theorem expire_wellFormed {x : XbeeState} (h : WellFormed x) (now : UInt32) :
    WellFormed (expire x now) := by
  unfold expire
  split_ifs
  · trivial
  · exact h

structure Port where
  xbee : XbeeState
  rxq : Rxq

inductive Input
  | uart (data : UInt8)
  | byte (data : UInt8) (now : UInt32)
  | task (now now' : UInt32)

def step (p : Port) : Input → Port × List Event
  | .uart data => (⟨p.xbee, rxqPut p.rxq data⟩, [])
  | .byte data now =>
    let r := processByte p.xbee data now
    (⟨r.1, p.rxq⟩, r.2)
  | .task now now' =>
    let r := xbeeTask p.xbee p.rxq now now'
    (⟨r.1, r.2.1⟩, r.2.2)

/-- The byte an input gives to `processByte`, with the receiver it finds. -/
def consumed (p : Port) : Input → Option (XbeeState × UInt8)
  | .uart _ => none
  | .byte data _ => some (p.xbee, data)
  | .task now _ =>
    if rxqIsEmpty p.rxq then none else some (expire p.xbee now, (rxqGet p.rxq).1)

theorem step_cases (p : Port) (i : Input) :
    (consumed p i = none ∧ (step p i).2 = [] ∧
      ((step p i).1.xbee = p.xbee ∨ ∃ now, (step p i).1.xbee = expire p.xbee now)) ∨
    ∃ x data now, consumed p i = some (x, data) ∧ (x = p.xbee ∨ ∃ t, x = expire p.xbee t) ∧
      (step p i).1.xbee = (processByte x data now).1 ∧
      (step p i).2 = (processByte x data now).2 := by
  cases i with
  | uart data => exact Or.inl ⟨rfl, rfl, Or.inl rfl⟩
  | byte data now => exact Or.inr ⟨p.xbee, data, now, rfl, Or.inl rfl, rfl, rfl⟩
  | task now now' =>
    by_cases hq : rxqIsEmpty p.rxq = true
    · left
      refine ⟨by simp only [consumed, if_pos hq], ?_, Or.inr ⟨now, ?_⟩⟩
      · simp only [step, xbeeTask, if_pos hq]
      · simp only [step, xbeeTask, if_pos hq]
    · right
      refine ⟨expire p.xbee now, (rxqGet p.rxq).1, now', ?_, Or.inr ⟨now, rfl⟩, ?_, ?_⟩
      · simp only [consumed, if_neg hq]
      · simp only [step, xbeeTask, rfUartReceive, if_neg hq]
      · simp only [step, xbeeTask, rfUartReceive, if_neg hq]

theorem consumed_wellFormed {p : Port} (h : WellFormed p.xbee) {x : XbeeState}
    (hx : x = p.xbee ∨ ∃ t, x = expire p.xbee t) : WellFormed x := by
  rcases hx with rfl | ⟨t, rfl⟩
  · exact h
  · exact expire_wellFormed h t

theorem step_wellFormed {p : Port} (h : WellFormed p.xbee) (i : Input) :
    WellFormed (step p i).1.xbee := by
  rcases step_cases p i with ⟨-, -, hs⟩ | ⟨x, data, now, -, hx, hs, -⟩
  · exact consumed_wellFormed h hs
  · rw [hs]
    exact processByte_wellFormed (consumed_wellFormed h hx) data now

theorem run_wellFormed {p : Port} (h : WellFormed p.xbee) (is : List Input) :
    WellFormed (after step p is).xbee :=
  after_invariant (P := fun q : Port => WellFormed q.xbee) (fun _ i hq _ => step_wellFormed hq i) h
    (along_trivial p is)

def byteStep (x : XbeeState) (b : UInt8 × UInt32) : XbeeState × List Event :=
  processByte x b.1 b.2

theorem run_bytes (p : Port) (bs : List (UInt8 × UInt32)) :
    (after step p (bs.map fun b => .byte b.1 b.2)).xbee = after byteStep p.xbee bs ∧
      outputs step p (bs.map fun b => .byte b.1 b.2) = outputs byteStep p.xbee bs := by
  induction bs generalizing p with
  | nil => exact ⟨rfl, rfl⟩
  | cons b bs ih =>
    obtain ⟨ha, ho⟩ := ih (step p (.byte b.1 b.2)).1
    exact ⟨ha, by simp only [List.map_cons, outputs_cons, ho]; rfl⟩

theorem run_noise {x : XbeeState} (hx : x.rfState = .frame) (bs : List (UInt8 × UInt32))
    (hbs : ∀ b ∈ bs, b.1 ≠ startDel) :
    after byteStep x bs = x ∧ outputs byteStep x bs = [] := by
  induction bs with
  | nil => exact ⟨rfl, rfl⟩
  | cons b bs ih =>
    have hb : byteStep x b = (x, []) := processByte_noise hx (hbs b List.mem_cons_self) b.2
    simp only [after_cons, outputs_cons, hb, List.nil_append]
    exact ih fun c hc => hbs c (List.mem_cons_of_mem b hc)

theorem feed_header {x : XbeeState} (hx : x.rfState = .frame) (hi lo : UInt8) (t₀ t₁ t₂ : UInt32) :
    after byteStep x [(startDel, t₀), (hi, t₁), (lo, t₂)] =
        { x with rfPos := 0, rfState := .data, rfFrameTimer := t₀ + recvFrameTo,
                 rfFrameLen := clamp (hi.toUInt32 <<< 8 ||| lo.toUInt32) } ∧
      outputs byteStep x [(startDel, t₀), (hi, t₁), (lo, t₂)] = [] := by
  have hstart := processByte_start hx t₀
  set x₁ := (processByte x startDel t₀).1 with hx₁
  have hhigh := processByte_lengthHigh (x := x₁) (by rw [hx₁, hstart]) (by rw [hx₁, hstart])
    (by rw [hx₁, hstart]) hi t₁
  set x₂ := (processByte x₁ hi t₁).1 with hx₂
  have hlow := processByte_lengthLow (x := x₂) (by rw [hx₂, hhigh, hx₁, hstart])
    (by rw [hx₂, hhigh]) lo t₂
  have hjoin : joinLength x₂ lo = hi.toUInt32 <<< 8 ||| lo.toUInt32 := by
    rw [hx₂, hhigh]
    simp [joinLength]
  constructor
  · simp only [after_cons, after_nil, byteStep, ← hx₁, ← hx₂]
    rw [hlow, hjoin, hx₂, hhigh, hx₁, hstart]
  · simp only [outputs_cons, outputs_nil, byteStep, ← hx₁, ← hx₂]
    rw [hlow, hhigh, hstart]
    rfl

theorem feed_body {x : XbeeState} (hx : x.rfState = .data) (hlen : x.rfFrameLen.toNat ≤ bufSz)
    (bs : List (UInt8 × UInt32)) (hbs : x.rfPos.toNat + bs.length ≤ x.rfFrameLen.toNat) :
    after byteStep x bs =
        { x with rfBuf := fill x.rfBuf x.rfPos.toNat (bs.map Prod.fst)
                 rfPos := x.rfPos + UInt32.ofNat bs.length } ∧
      outputs byteStep x bs = (List.range' x.rfPos.toNat bs.length).map .store := by
  induction bs generalizing x with
  | nil => simp [fill]
  | cons b bs ih =>
    have hlt : x.rfPos.toNat < x.rfFrameLen.toNat := by
      simp only [List.length_cons] at hbs
      omega
    have hstep : byteStep x b = (stored x b.1, [.store x.rfPos.toNat]) :=
      processByte_body hx hlt b.1 b.2
    have hnext := pos_succ_toNat (x := x) (by omega)
    have hpos : (stored x b.1).rfPos.toNat = x.rfPos.toNat + 1 := hnext
    obtain ⟨ha, ho⟩ := ih (x := stored x b.1) hx hlen (by
      simp only [List.length_cons] at hbs
      change (stored x b.1).rfPos.toNat + bs.length ≤ x.rfFrameLen.toNat
      omega)
    constructor
    · simp only [after_cons, hstep, ha, hpos, fill, List.map_cons, List.length_cons]
      simp only [stored, XbeeState.mk.injEq, true_and, and_true]
      apply UInt32.toNat_inj.mp
      simp only [UInt32.toNat_add, UInt32.toNat_ofNat']
      have hone : (1 : UInt32).toNat = 1 := rfl
      omega
    · simp only [outputs_cons, hstep, ho, hpos, List.length_cons, List.range'_succ, List.map_cons,
        List.singleton_append]

def framed (x : XbeeState) (body : List UInt8) : XbeeState :=
  { x with rfState := .frame, rfFrameTimer := 0, rfPos := x.rfFrameLen + 1,
           rfBuf := fill x.rfBuf 0 body }

theorem feed_frame {x : XbeeState} (hx : x.rfState = .data) (hlen : x.rfFrameLen.toNat ≤ bufSz)
    (hpos : x.rfPos = 0) (bs : List (UInt8 × UInt32))
    (hbs : bs.length = x.rfFrameLen.toNat + 1) :
    let y := framed x (bs.map Prod.fst)
    after byteStep x bs = (processFrame y y.rfBuf bs.length).1 ∧
      outputs byteStep x bs = (List.range bs.length).map .store ++
        .frame bs.length :: (processFrame y y.rfBuf bs.length).2 := by
  obtain ⟨body, b, rfl⟩ : ∃ body b, bs = body ++ [b] := by
    have hne : bs ≠ [] := by
      intro h
      simp [h] at hbs
    exact ⟨bs.dropLast, bs.getLast hne, (List.dropLast_concat_getLast hne).symm⟩
  simp only [List.length_append, List.length_singleton, Nat.add_right_cancel_iff] at hbs
  have hzero : x.rfPos.toNat = 0 := by rw [hpos]; rfl
  obtain ⟨ha, ho⟩ := feed_body hx hlen body (by omega)
  have hend : x.rfPos + UInt32.ofNat body.length = x.rfFrameLen := by
    rw [hbs, UInt32.ofNat_toNat, hpos, UInt32.zero_add]
  have hsucc : (x.rfFrameLen + 1).toNat = body.length + 1 := by
    have hsz : bufSz = 200 := rfl
    rw [UInt32.toNat_add, show (1 : UInt32).toNat = 1 from rfl]
    omega
  have hfill : fill x.rfBuf 0 ((body ++ [b]).map Prod.fst) =
      Function.update (fill x.rfBuf 0 (body.map Prod.fst)) body.length b.1 := by
    rw [List.map_append, List.map_singleton, fill_concat, List.length_map, Nat.zero_add]
  rw [hend, hzero] at ha
  have hlast : byteStep (after byteStep x body) b =
      ((processFrame (framed x ((body ++ [b]).map Prod.fst))
          (framed x ((body ++ [b]).map Prod.fst)).rfBuf (body.length + 1)).1,
        .store body.length :: .frame (body.length + 1) ::
          (processFrame (framed x ((body ++ [b]).map Prod.fst))
            (framed x ((body ++ [b]).map Prod.fst)).rfBuf (body.length + 1)).2) := by
    have hd : (after byteStep x body).rfState = .data := by rw [ha]; exact hx
    have hp : (after byteStep x body).rfPos = (after byteStep x body).rfFrameLen := by rw [ha]
    have hl := processByte_last hd hp b.1 b.2
    simp only [ha, finished, stored, hsucc, ← hbs] at hl
    simp only [byteStep, ha, hl, framed, hfill]
  simp only [after_append, outputs_append, after_cons, after_nil, outputs_cons, outputs_nil, hlast,
    ho, hzero, List.length_append, List.length_singleton, List.range_succ, List.map_append,
    List.map_singleton, List.append_assoc, List.range_eq_range', List.append_nil, true_and]
  rfl

end AoaBoard.Xbee
