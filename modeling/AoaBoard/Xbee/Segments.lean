import AoaBoard.Xbee.Bounds
import AoaBoard.Xbee.Independence

/-!
# How a byte stream is cut into frames

`cut` divides a stream without regard to the receiver: bytes up to the next
start delimiter are skipped, two bytes declare a length, and that many bytes,
`XBEE_BUF_SZ` of them at most, are taken with the byte behind them as one
piece. The calls of `processFrame` along a run without a frame time-out are
read off the pieces of the bytes that the run takes from the UART.
-/

namespace AoaBoard.Xbee
open Library Library.Run Library.Bytes Board.RxQueue

def declared (hi lo : UInt8) : ℕ := 2 ^ 8 * hi.toNat + lo.toNat

/-- The pieces of a stream, and the bytes of the frame it ends in. -/
def cut : List UInt8 → List (List UInt8) × List UInt8
  | [] => ([], [])
  | b :: bs =>
    if b = startDel then
      let m := min bufSz (declared (bs.getD 0 0) (bs.getD 1 0)) + 1
      if m + 2 ≤ bs.length then
        ((bs.drop 2).take m :: (cut (bs.drop (m + 2))).1, (cut (bs.drop (m + 2))).2)
      else ([], b :: bs)
    else cut bs
  termination_by bs => bs.length

theorem cut_noise {b : UInt8} (hb : b ≠ startDel) (bs : List UInt8) : cut (b :: bs) = cut bs := by
  rw [cut, if_neg hb]

theorem cut_skip {tail : List UInt8} (htail : startDel ∉ tail) (bs : List UInt8) :
    cut (tail ++ bs) = cut bs := by
  induction tail with
  | nil => rfl
  | cons b tail ih =>
    obtain ⟨hb, hrest⟩ := not_or.mp (mt List.mem_cons.mpr htail)
    rw [List.cons_append, cut_noise (Ne.symm hb), ih hrest]

theorem cut_frame (hi lo : UInt8) {body : List UInt8}
    (hbody : body.length = min bufSz (declared hi lo) + 1) (rest : List UInt8) :
    cut (startDel :: hi :: lo :: (body ++ rest)) = (body :: (cut rest).1, (cut rest).2) := by
  have hlong : body.length + 2 ≤ (hi :: lo :: (body ++ rest)).length := by
    simp only [List.length_cons, List.length_append]
    omega
  rw [cut, if_pos rfl]
  simp only [List.getD_cons_zero, List.getD_cons_succ, ← hbody, if_pos hlong, List.drop_succ_cons,
    List.drop_zero, List.take_left, List.drop_left]

theorem cut_short {bs : List UInt8} (hbs : bs.length < 2) :
    cut (startDel :: bs) = ([], startDel :: bs) := by
  rw [cut, if_pos rfl]
  exact if_neg (by omega)

theorem cut_open (hi lo : UInt8) {rest : List UInt8}
    (hrest : rest.length ≤ min bufSz (declared hi lo)) :
    cut (startDel :: hi :: lo :: rest) = ([], startDel :: hi :: lo :: rest) := by
  rw [cut, if_pos rfl]
  refine if_neg ?_
  simp only [List.getD_cons_zero, List.getD_cons_succ, List.length_cons]
  omega

theorem stream_cases {P : List UInt8 → Prop} (hnil : P [])
    (hnoise : ∀ b bs, b ≠ startDel → P bs → P (b :: bs))
    (hshort : ∀ bs : List UInt8, bs.length < 2 → P (startDel :: bs))
    (hopen : ∀ hi lo rest, rest.length ≤ min bufSz (declared hi lo) →
      P (startDel :: hi :: lo :: rest))
    (hframe : ∀ hi lo body rest, body.length = min bufSz (declared hi lo) + 1 → P rest →
      P (startDel :: hi :: lo :: (body ++ rest))) (bs : List UInt8) : P bs := by
  induction hn : bs.length using Nat.strong_induction_on generalizing bs with
  | _ n ih =>
    subst hn
    rcases bs with _ | ⟨b, bs⟩
    · exact hnil
    · by_cases hb : b = startDel
      · subst hb
        rcases bs with _ | ⟨hi, _ | ⟨lo, rest⟩⟩
        · exact hshort [] (by decide)
        · exact hshort [hi] (Nat.lt_succ_self 1)
        · by_cases hm : rest.length ≤ min bufSz (declared hi lo)
          · exact hopen hi lo rest hm
          · have hsplit := List.take_append_drop (min bufSz (declared hi lo) + 1) rest
            rw [← hsplit]
            refine hframe hi lo _ _ (List.length_take_of_le (by omega)) ?_
            refine ih _ ?_ _ rfl
            simp only [List.length_drop, List.length_cons]
            omega
      · exact hnoise b bs hb (ih bs.length (by simp) bs rfl)

def called (x : XbeeState) : Event → Option (ℕ × List UInt8)
  | .frame len => some (len, slice x.rfBuf (min bufSz len))
  | _ => none

def callStep (x : XbeeState) (b : UInt8 × UInt32) : XbeeState × List (ℕ × List UInt8) :=
  ((byteStep x b).1, (byteStep x b).2.filterMap (called (byteStep x b).1))

def asCall (piece : List UInt8) : ℕ × List UInt8 := (piece.length, piece.take bufSz)

theorem called_callback (x : XbeeState) {es : List Event} (h : ∀ e ∈ es, IsCallback e) :
    es.filterMap (called x) = [] := by
  refine List.filterMap_eq_nil_iff.mpr fun e he => ?_
  have hcall := h e he
  cases e with
  | store pos => exact hcall.elim
  | frame len => exact hcall.elim
  | up | node | txStat | data => rfl

theorem calls_quiet {x : XbeeState} {bs : List (UInt8 × UInt32)}
    (h : ∀ e ∈ outputs byteStep x bs, ∀ y, called y e = none) : outputs callStep x bs = [] := by
  induction bs generalizing x with
  | nil => rfl
  | cons b bs ih =>
    have hfirst : (callStep x b).2 = [] :=
      List.filterMap_eq_nil_iff.mpr fun e he => h e (List.mem_append_left _ he) _
    have hrest : outputs callStep (byteStep x b).1 bs = [] :=
      ih fun e he => h e (List.mem_append_right _ he)
    rw [outputs_cons, hfirst]
    exact hrest

theorem after_callStep (x : XbeeState) (bs : List (UInt8 × UInt32)) :
    after callStep x bs = after byteStep x bs := by
  have hstep : ∀ x b, (callStep x b).1 = (byteStep x b).1 := fun _ _ => rfl
  exact after_congr hstep x bs

theorem calls_stored {x : XbeeState} {bs : List (UInt8 × UInt32)} {n k : ℕ}
    (h : outputs byteStep x bs = (List.range' n k).map .store) : outputs callStep x bs = [] := by
  refine calls_quiet fun e he y => ?_
  rw [h] at he
  obtain ⟨pos, -, rfl⟩ := List.mem_map.mp he
  rfl

theorem callStep_last {x : XbeeState} (hx : x.rfState = .data) (hpos : x.rfPos = x.rfFrameLen)
    (b : UInt8 × UInt32) :
    (callStep x b).2 = [((x.rfPos + 1).toNat,
      slice (byteStep x b).1.rfBuf (min bufSz (x.rfPos + 1).toNat))] := by
  have hcalls := called_callback (byteStep x b).1 (processFrame_frame (finished x b.1)
    (finished x b.1).rfBuf (x.rfPos + 1).toNat).2
  have hevents : (byteStep x b).2 = .store x.rfPos.toNat :: .frame (x.rfPos + 1).toNat ::
      (processFrame (finished x b.1) (finished x b.1).rfBuf (x.rfPos + 1).toNat).2 := by
    rw [byteStep, processByte_last hx hpos]
  simp only [callStep, hevents, List.filterMap_cons, called, hcalls]

theorem feed_piece {x : XbeeState} (hx : x.rfState = .data) (hlen : x.rfFrameLen.toNat ≤ bufSz)
    (hpos : x.rfPos = 0) (bs : List (UInt8 × UInt32))
    (hbs : bs.length = x.rfFrameLen.toNat + 1) :
    outputs callStep x bs = [asCall (bs.map Prod.fst)] ∧
      (after byteStep x bs).rfState = .frame := by
  have hafter := (feed_frame hx hlen hpos bs hbs).1
  have hbuf : (after byteStep x bs).rfBuf = fill x.rfBuf 0 (bs.map Prod.fst) := by
    rw [hafter, processFrame_rfBuf, framed]
  refine ⟨?_, by rw [hafter, processFrame_rfState, framed]⟩
  obtain ⟨body, b, rfl⟩ : ∃ body b, bs = body ++ [b] := by
    have hne : bs ≠ [] := by
      rintro rfl
      simp at hbs
    exact ⟨bs.dropLast, bs.getLast hne, (List.dropLast_concat_getLast hne).symm⟩
  rw [List.length_append, List.length_singleton, Nat.add_right_cancel_iff] at hbs
  have hzero : x.rfPos.toNat = 0 := by
    rw [hpos]
    rfl
  obtain ⟨hstate, houts⟩ := feed_body hx hlen body (by omega)
  have hend : (after byteStep x body).rfPos = x.rfFrameLen := by
    rw [hstate, hbs, UInt32.ofNat_toNat, hpos, UInt32.zero_add]
  have hlast : (after byteStep x body).rfPos = (after byteStep x body).rfFrameLen := by
    rw [hend, hstate]
  have hdata : (after byteStep x body).rfState = .data := by
    rw [hstate]
    exact hx
  have hsucc : ((after byteStep x body).rfPos + 1).toNat = body.length + 1 := by
    rw [pos_succ_toNat (by rw [hend]; exact hlen), hend, hbs]
  rw [after_append, after_cons, after_nil] at hbuf
  rw [outputs_append, calls_stored houts, after_callStep, List.nil_append, outputs_cons,
    outputs_nil, List.append_nil, callStep_last hdata hlast, hsucc, hbuf, asCall]
  have hall := slice_fill x.rfBuf 0 ((body ++ [b]).map Prod.fst)
  rw [List.length_map, List.length_append, List.length_singleton, Nat.zero_add, slice_zero,
    List.nil_append] at hall
  rw [← take_slice, hall, List.length_map, List.length_append, List.length_singleton]

theorem header_declared (hi lo : UInt8) :
    (clamp (hi.toUInt32 <<< 8 ||| lo.toUInt32)).toNat = min bufSz (declared hi lo) := by
  rw [clamp_toNat, word16_toNat, declared]

/-- The calls along the stream are its pieces, and the receiver ends between two frames
where the stream does. -/
def CutAs (x : XbeeState) (bs : List (UInt8 × UInt32)) (pieces : List (List UInt8))
    (unfinished : List UInt8) : Prop :=
  outputs callStep x bs = pieces.map asCall ∧
    ((after byteStep x bs).rfState = .frame ↔ unfinished = [])

section Pieces
variable {x : XbeeState} (hx : x.rfState = .frame)
include hx

theorem cutAs_noise {b : UInt8 × UInt32} (hb : b.1 ≠ startDel) {bs : List (UInt8 × UInt32)}
    {pieces : List (List UInt8)} {unfinished : List UInt8} (h : CutAs x bs pieces unfinished) :
    CutAs x (b :: bs) pieces unfinished := by
  have hstep : byteStep x b = (x, []) := processByte_noise hx hb b.2
  have hcall : callStep x b = (x, []) := by
    rw [callStep, hstep]
    rfl
  rw [CutAs, outputs_cons, after_cons, hcall, hstep]
  exact h

theorem cutAs_short {bs : List (UInt8 × UInt32)} (hbs : bs.length < 2) (t : UInt32)
    (l : List UInt8) : CutAs x ((startDel, t) :: bs) [] (startDel :: l) := by
  have hstep := processByte_start hx t
  have hlength : (byteStep x (startDel, t)).1.rfState = .length := by rw [byteStep, hstep]
  have houts : (byteStep x (startDel, t)).2 = [] := by rw [byteStep, hstep]
  rcases bs with _ | ⟨b, _ | ⟨c, bs⟩⟩
  · refine ⟨calls_quiet ?_, iff_of_false ?_ (List.cons_ne_nil _ _)⟩
    · simp [houts]
    · simp [hlength]
  · have hhigh := processByte_lengthHigh hlength (by rw [byteStep, hstep]) (by rw [byteStep, hstep])
      b.1 b.2
    refine ⟨calls_quiet ?_, iff_of_false ?_ (List.cons_ne_nil _ _)⟩
    · simp only [outputs_cons, outputs_nil, houts, List.nil_append, List.append_nil]
      rw [byteStep, hhigh]
      simp
    · simp only [after_cons, after_nil]
      rw [byteStep, hhigh, hlength]
      decide
  · simp only [List.length_cons] at hbs
    omega

theorem header_read (hi lo : UInt8) (t₀ t₁ t₂ : UInt32) :
    let y := after byteStep x [(startDel, t₀), (hi, t₁), (lo, t₂)]
    y.rfState = .data ∧ y.rfPos = 0 ∧ y.rfFrameLen.toNat = min bufSz (declared hi lo) ∧
      outputs callStep x [(startDel, t₀), (hi, t₁), (lo, t₂)] = [] := by
  obtain ⟨hstate, houts⟩ := feed_header hx hi lo t₀ t₁ t₂
  refine ⟨by rw [hstate], by rw [hstate], ?_, calls_quiet (by simp [houts])⟩
  rw [hstate]
  exact header_declared hi lo

theorem cutAs_open (hi lo : UInt8) (t₀ t₁ t₂ : UInt32) {bs : List (UInt8 × UInt32)}
    (hbs : bs.length ≤ min bufSz (declared hi lo)) (l : List UInt8) :
    CutAs x ((startDel, t₀) :: (hi, t₁) :: (lo, t₂) :: bs) [] (startDel :: l) := by
  obtain ⟨hdata, hpos, hlen, hcalls⟩ := header_read hx hi lo t₀ t₁ t₂
  set y := after byteStep x [(startDel, t₀), (hi, t₁), (lo, t₂)]
  have hzero : y.rfPos.toNat = 0 := by
    rw [hpos]
    rfl
  obtain ⟨hstate, houts⟩ := feed_body hdata (by omega) bs (by omega)
  have hsplit : (startDel, t₀) :: (hi, t₁) :: (lo, t₂) :: bs =
      [(startDel, t₀), (hi, t₁), (lo, t₂)] ++ bs := rfl
  rw [hsplit, CutAs, outputs_append, hcalls, after_callStep, after_append, calls_stored houts,
    hstate]
  refine ⟨rfl, iff_of_false ?_ (List.cons_ne_nil _ _)⟩
  simp only [hdata]
  decide

theorem cutAs_frame (hi lo : UInt8) (t₀ t₁ t₂ : UInt32) {body : List (UInt8 × UInt32)}
    (hbody : body.length = min bufSz (declared hi lo) + 1) {bs : List (UInt8 × UInt32)}
    {pieces : List (List UInt8)} {unfinished : List UInt8}
    (h : ∀ y, y.rfState = .frame → CutAs y bs pieces unfinished) :
    CutAs x ((startDel, t₀) :: (hi, t₁) :: (lo, t₂) :: (body ++ bs))
      (body.map Prod.fst :: pieces) unfinished := by
  obtain ⟨hdata, hpos, hlen, hcalls⟩ := header_read hx hi lo t₀ t₁ t₂
  set y := after byteStep x [(startDel, t₀), (hi, t₁), (lo, t₂)]
  obtain ⟨hpiece, hidle⟩ := feed_piece hdata (by omega) hpos body (by omega)
  obtain ⟨hrest, hend⟩ := h _ hidle
  have hsplit : (startDel, t₀) :: (hi, t₁) :: (lo, t₂) :: (body ++ bs) =
      [(startDel, t₀), (hi, t₁), (lo, t₂)] ++ (body ++ bs) := rfl
  rw [hsplit, CutAs, outputs_append, hcalls, after_callStep, after_append, outputs_append,
    after_callStep, after_append, hpiece, hrest]
  exact ⟨rfl, hend⟩

end Pieces

theorem run_cut {x : XbeeState} (hx : x.rfState = .frame) (bs : List (UInt8 × UInt32)) :
    CutAs x bs (cut (bs.map Prod.fst)).1 (cut (bs.map Prod.fst)).2 := by
  suffices h : ∀ l (x : XbeeState) (bs : List (UInt8 × UInt32)), x.rfState = .frame →
      bs.map Prod.fst = l → CutAs x bs (cut l).1 (cut l).2 from h _ x bs hx rfl
  intro l
  -- the times of the bytes do not matter, so the induction is on the bytes alone
  induction l using stream_cases with
  | hnil =>
    intro x bs hx hbs
    rw [List.map_eq_nil_iff.mp hbs, cut]
    exact ⟨rfl, iff_of_true hx rfl⟩
  | hnoise b l hb ih =>
    intro x bs hx hbs
    obtain ⟨c, bs, rfl, rfl, hrest⟩ := List.map_eq_cons_iff.mp hbs
    rw [cut_noise hb]
    exact cutAs_noise hx hb (ih x bs hx hrest)
  | hshort l hl =>
    intro x bs hx hbs
    obtain ⟨⟨_, t⟩, bs, rfl, rfl, hrest⟩ := List.map_eq_cons_iff.mp hbs
    rw [cut_short hl]
    exact cutAs_short hx (by rw [← List.length_map, hrest]; exact hl) t l
  | hopen hi lo l hl =>
    intro x bs hx hbs
    obtain ⟨⟨_, t₀⟩, bs₁, rfl, rfl, hbs₁⟩ := List.map_eq_cons_iff.mp hbs
    obtain ⟨⟨_, t₁⟩, bs₂, rfl, rfl, hbs₂⟩ := List.map_eq_cons_iff.mp hbs₁
    obtain ⟨⟨_, t₂⟩, bs₃, rfl, rfl, hbs₃⟩ := List.map_eq_cons_iff.mp hbs₂
    rw [cut_open _ _ hl]
    exact cutAs_open hx _ _ t₀ t₁ t₂ (by rw [← List.length_map, hbs₃]; exact hl) _
  | hframe hi lo body l hbody ih =>
    intro x bs hx hbs
    obtain ⟨⟨_, t₀⟩, bs₁, rfl, rfl, hbs₁⟩ := List.map_eq_cons_iff.mp hbs
    obtain ⟨⟨_, t₁⟩, bs₂, rfl, rfl, hbs₂⟩ := List.map_eq_cons_iff.mp hbs₁
    obtain ⟨⟨_, t₂⟩, bs₃, rfl, rfl, hbs₃⟩ := List.map_eq_cons_iff.mp hbs₂
    obtain ⟨front, rest, rfl, rfl, hrest⟩ := List.map_eq_append_iff.mp hbs₃
    rw [cut_frame _ _ hbody]
    exact cutAs_frame hx _ _ t₀ t₁ t₂ (by rw [← List.length_map]; exact hbody)
      fun y hy => ih y rest hy hrest

def Unexpired (p : Port) : Input → Prop
  | .task now _ => ¬ (0 < p.xbee.rfFrameTimer ∧ p.xbee.rfFrameTimer < now)
  | _ => True

instance (p : Port) : (i : Input) → Decidable (Unexpired p i)
  | .uart _ => inferInstanceAs (Decidable True)
  | .byte _ _ => inferInstanceAs (Decidable True)
  | .task now _ =>
    inferInstanceAs (Decidable (¬ (0 < p.xbee.rfFrameTimer ∧ p.xbee.rfFrameTimer < now)))

def taken (p : Port) : Input → List (UInt8 × UInt32)
  | .uart _ => []
  | .byte data now => [(data, now)]
  | .task _ now' => if rxqIsEmpty p.rxq then [] else [((rxqGet p.rxq).1, now')]

def takenStep (p : Port) (i : Input) : Port × List (UInt8 × UInt32) := ((step p i).1, taken p i)

def portCalls (p : Port) (i : Input) : Port × List (ℕ × List UInt8) :=
  ((step p i).1, (step p i).2.filterMap (called (step p i).1.xbee))

def stream (p : Port) (is : List Input) : List UInt8 := (outputs takenStep p is).map Prod.fst

def calls (p : Port) (is : List Input) : List (ℕ × List UInt8) := outputs portCalls p is

theorem step_taken {p : Port} {i : Input} (h : Unexpired p i) :
    (step p i).1.xbee = after byteStep p.xbee (taken p i) ∧
      (step p i).2 = outputs byteStep p.xbee (taken p i) ∧
      (portCalls p i).2 = outputs callStep p.xbee (taken p i) := by
  cases i with
  | uart data => exact ⟨rfl, rfl, rfl⟩
  | byte data now =>
    simp only [taken, after_cons, after_nil, outputs_cons, outputs_nil, List.append_nil]
    exact ⟨rfl, rfl, rfl⟩
  | task now now' =>
    have hx : expire p.xbee now = p.xbee := if_neg h
    by_cases hq : rxqIsEmpty p.rxq = true
    · simp only [portCalls, taken, step, xbeeTask, hx, if_pos hq, after_nil, outputs_nil,
        List.filterMap_nil, and_self]
    · simp only [portCalls, taken, step, xbeeTask, rfUartReceive, hx, if_neg hq, after_cons,
        after_nil, outputs_cons, outputs_nil, List.append_nil]
      exact ⟨rfl, rfl, rfl⟩

theorem run_taken {p : Port} {is : List Input} (h : Along step Unexpired p is) :
    (after step p is).xbee = after byteStep p.xbee (outputs takenStep p is) ∧
      calls p is = outputs callStep p.xbee (outputs takenStep p is) := by
  induction is generalizing p with
  | nil => exact ⟨rfl, rfl⟩
  | cons i is ih =>
    obtain ⟨hfirst, hrest⟩ := h
    obtain ⟨hstate, -, hcalls⟩ := step_taken hfirst
    obtain ⟨hend, htail⟩ := ih hrest
    have htaken : outputs takenStep p (i :: is) =
        taken p i ++ outputs takenStep (step p i).1 is := rfl
    rw [htaken, after_append, outputs_append, after_callStep, ← hstate, ← hcalls, ← hend, ← htail]
    exact ⟨rfl, rfl⟩

theorem cut_append {front : List UInt8} (hfront : (cut front).2 = []) (rest : List UInt8) :
    cut (front ++ rest) = ((cut front).1 ++ (cut rest).1, (cut rest).2) := by
  induction front using stream_cases with
  | hnil =>
    rw [cut, List.nil_append]
    rfl
  | hnoise b l hb ih =>
    rw [cut_noise hb] at hfront
    rw [List.cons_append, cut_noise hb, cut_noise hb, ih hfront]
  | hshort l hl =>
    rw [cut_short hl] at hfront
    cases hfront
  | hopen hi lo l hl =>
    rw [cut_open hi lo hl] at hfront
    cases hfront
  | hframe hi lo body l hbody ih =>
    rw [cut_frame hi lo hbody] at hfront
    have hsplit : startDel :: hi :: lo :: (body ++ l) ++ rest =
        startDel :: hi :: lo :: (body ++ (l ++ rest)) := by
      simp only [List.cons_append, List.append_assoc]
    rw [hsplit, cut_frame hi lo hbody, cut_frame hi lo hbody, ih hfront]
    rfl

theorem calls_cut {p : Port} (hidle : p.xbee.rfState = .frame) {is : List Input}
    (his : Along step Unexpired p is) :
    calls p is = (cut (stream p is)).1.map asCall ∧
      ((after step p is).xbee.rfState = .frame ↔ (cut (stream p is)).2 = []) := by
  obtain ⟨hstate, hcalls⟩ := run_taken his
  obtain ⟨hpieces, hend⟩ := run_cut hidle (outputs takenStep p is)
  rw [hcalls, hstate]
  exact ⟨hpieces, hend⟩

/-- A frame is cut behind `XBEE_BUF_SZ` bytes. Its bytes in front of the cut are taken
whatever they are; those behind it are skipped unless one of them is a start delimiter. -/
theorem frames_cut {p : Port} (hidle : p.xbee.rfState = .frame) {is : List Input}
    (his : Along step Unexpired p is) :
    (calls p is = (cut (stream p is)).1.map asCall ∧
      ((after step p is).xbee.rfState = .frame ↔ (cut (stream p is)).2 = [])) ∧
    (∀ front hi lo body rest, stream p is = front ++ startDel :: hi :: lo :: (body ++ rest) →
      (cut front).2 = [] → body.length = min bufSz (declared hi lo) + 1 →
      calls p is = (cut front).1.map asCall ++ asCall body :: (cut rest).1.map asCall) ∧
    (∀ front hi lo body tail next,
      stream p is = front ++ startDel :: hi :: lo :: (body ++ (tail ++ next)) →
      (cut front).2 = [] → body.length = bufSz + 1 →
      body.length + tail.length = declared hi lo + 1 → startDel ∉ tail →
      calls p is = (cut front).1.map asCall ++ asCall body :: (cut next).1.map asCall) := by
  obtain ⟨hpieces, hend⟩ := calls_cut hidle his
  have hframe : ∀ front hi lo body rest,
      stream p is = front ++ startDel :: hi :: lo :: (body ++ rest) → (cut front).2 = [] →
      body.length = min bufSz (declared hi lo) + 1 →
      calls p is = (cut front).1.map asCall ++ asCall body :: (cut rest).1.map asCall := by
    intro front hi lo body rest hstream hfront hbody
    rw [hpieces, hstream, cut_append hfront, cut_frame hi lo hbody, List.map_append, List.map_cons]
  refine ⟨⟨hpieces, hend⟩, hframe, ?_⟩
  intro front hi lo body tail next hstream hfront hbody hlen htail
  rw [hframe front hi lo body (tail ++ next) hstream hfront (by omega), cut_skip htail]

def oversized (cs : UInt8) : List UInt8 := startDel :: 0 :: 0xC9 :: (List.replicate 201 0 ++ [cs])

def asInputs (bs : List UInt8) : List Input := bs.map fun b => .byte b 0

theorem stream_asInputs (p : Port) (bs : List UInt8) : stream p (asInputs bs) = bs := by
  induction bs generalizing p with
  | nil => rfl
  | cons b bs ih => exact congrArg (b :: ·) (ih (step p (.byte b 0)).1)

theorem unexpired_asInputs (p : Port) (bs : List UInt8) : Along step Unexpired p (asInputs bs) := by
  induction bs generalizing p with
  | nil => trivial
  | cons b bs ih => exact ⟨trivial, ih _⟩

def oversizedThenModem : List Input := asInputs (oversized 0 ++ frameBytes [apiIdModStat, 2] 0x73)

theorem frames_cut_oversized :
    calls (power allCallbacks false) oversizedThenModem =
      [(201, List.replicate 200 0), (3, [apiIdModStat, 2, 0x73])] := by
  have hstream : stream (power allCallbacks false) oversizedThenModem =
      [] ++ startDel :: 0 :: 0xC9 :: (List.replicate 201 0 ++
        ([0] ++ frameBytes [apiIdModStat, 2] 0x73)) := by
    rw [oversizedThenModem, stream_asInputs, oversized, List.cons_append, List.cons_append,
      List.cons_append, List.append_assoc, List.nil_append]
  have h := (frames_cut (p := power allCallbacks false) rfl (unexpired_asInputs _ _)).2.2 [] 0 0xC9
    (List.replicate 201 0) [0] (frameBytes [apiIdModStat, 2] 0x73) hstream
    (by rw [cut]) (by rw [List.length_replicate]; rfl) (by rw [List.length_replicate]; rfl)
    (by decide)
  have hnext : cut (frameBytes [apiIdModStat, 2] 0x73) = ([[apiIdModStat, 2, 0x73]], []) := by
    have hlen : [apiIdModStat, 2, 0x73].length = min bufSz (declared 0 2) + 1 := rfl
    have hframe := cut_frame 0 2 hlen []
    rw [cut] at hframe
    exact hframe
  rw [oversizedThenModem, h, hnext, cut, List.map_nil, List.nil_append, asCall,
    List.length_replicate, List.take_replicate]
  rfl

/-- The first 201 of its 202 bytes are given to `processFrame`, and the last one, a start
delimiter by value, opens a frame. -/
theorem oversized_frame_not_dropped :
    stream (power allCallbacks false) (asInputs (oversized startDel)) = oversized startDel ∧
      Along step Unexpired (power allCallbacks false) (asInputs (oversized startDel)) ∧
      calls (power allCallbacks false) (asInputs (oversized startDel)) =
        [(201, List.replicate 200 0)] ∧
      (after step (power allCallbacks false) (asInputs (oversized startDel))).xbee.rfState ≠
        .frame := by
  have hrun := unexpired_asInputs (power allCallbacks false) (oversized startDel)
  have hcut : cut (oversized startDel) = ([List.replicate 201 0], [startDel]) := by
    rw [oversized, cut_frame 0 0xC9 (by rw [List.length_replicate]; rfl), cut_short (by decide)]
  obtain ⟨hcalls, hend⟩ := calls_cut (p := power allCallbacks false) rfl hrun
  rw [stream_asInputs, hcut] at hcalls hend
  refine ⟨stream_asInputs _ _, hrun, ?_, fun h => absurd (hend.mp h) (List.cons_ne_nil _ _)⟩
  rw [hcalls, List.map_singleton, asCall, List.length_replicate, List.take_replicate]
  rfl

end AoaBoard.Xbee
