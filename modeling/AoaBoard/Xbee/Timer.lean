import AoaBoard.Library.Clock
import AoaBoard.Xbee.Bounds

/-!
# The timer of the frame in progress

`rfFrameTimer` is the time at which the frame in progress is given up, and zero
stands for no frame. `since` records when its start delimiter was processed.
The timer is a sum on a wrapping clock: it can be zero itself, and it can have
wrapped where the clock has not.
-/

namespace AoaBoard.Xbee.Timer
open Library Library.Run Library.Clock Board.RxQueue

structure Timed where
  port : Port
  since : UInt32

def clock : Input → UInt32
  | .uart _ => 0
  | .byte _ now => now
  | .task _ now' => now'

def opens (p : Port) (i : Input) : Bool :=
  match consumed p i with
  | some (x, data) => x.rfState = .frame ∧ data = startDel
  | none => false

def timedStep (t : Timed) (i : Input) : Timed × List Event :=
  let r := step t.port i
  (⟨r.1, if opens t.port i then clock i else t.since⟩, r.2)

def Armed (x : XbeeState) : Prop := x.rfState ≠ .frame ↔ x.rfFrameTimer ≠ 0

/-- A call of the task gives the frame in progress up exactly when it is overdue. -/
def GivesUpWhenDue (t : Timed) : Input → Prop
  | .task now _ => t.port.xbee.rfState ≠ .frame →
      ((expire t.port.xbee now).rfState = .frame ↔ Exceeds t.since recvFrameTo now)
  | _ => True

def Right (t : Timed) (i : Input) : Prop :=
  GivesUpWhenDue t i ∧ Armed (timedStep t i).1.port.xbee

def FindsAligned (t : Timed) : Input → Prop
  | .task now _ => t.port.xbee.rfState ≠ .frame → Aligned t.since recvFrameTo now
  | _ => True

/-- No frame is opened at a time whose timer would be zero. -/
def Sound (t : Timed) (i : Input) : Prop :=
  FindsAligned t i ∧ (opens t.port i = true → clock i + recvFrameTo ≠ 0)

def Started (x : XbeeState) (since : UInt32) : Prop :=
  (x.rfState = .frame → x.rfFrameTimer = 0) ∧
    (x.rfState ≠ .frame → x.rfFrameTimer = since + recvFrameTo ∧ since + recvFrameTo ≠ 0)

theorem Started.armed {x : XbeeState} {since : UInt32} (h : Started x since) : Armed x := by
  constructor
  · intro hx
    rw [(h.2 hx).1]
    exact (h.2 hx).2
  · intro htimer hx
    exact htimer (h.1 hx)

theorem processFrame_rfFrameTimer (x : XbeeState) (buf : ℕ → UInt8) (len : ℕ) :
    (processFrame x buf len).1.rfFrameTimer = x.rfFrameTimer := by
  obtain ⟨b, hb⟩ := (processFrame_frame x buf len).1
  rw [hb]

theorem processByte_timer {x : XbeeState} {data : UInt8} (now : UInt32)
    (h : ¬ (x.rfState = .frame ∧ data = startDel)) :
    (processByte x data now).1.rfState = .frame ∧
        (x.rfState = .frame ∧ (processByte x data now).1.rfFrameTimer = x.rfFrameTimer ∨
          (processByte x data now).1.rfFrameTimer = 0) ∨
      x.rfState ≠ .frame ∧ (processByte x data now).1.rfState ≠ .frame ∧
        (processByte x data now).1.rfFrameTimer = x.rfFrameTimer := by
  cases hx : x.rfState with
  | frame =>
    have hdata : data ≠ startDel := fun hd => h ⟨hx, hd⟩
    rw [processByte_noise hx hdata]
    exact Or.inl ⟨hx, Or.inl ⟨rfl, rfl⟩⟩
  | length =>
    right
    simp only [processByte, hx]
    split_ifs
    · exact ⟨by decide, RfState.noConfusion, rfl⟩
    · exact ⟨by decide, RfState.noConfusion, rfl⟩
    · exact ⟨by decide, RfState.noConfusion, rfl⟩
  | data =>
    simp only [processByte, hx]
    split_ifs
    · left
      rw [processFrame_rfState, processFrame_rfFrameTimer]
      exact ⟨rfl, Or.inr rfl⟩
    · right
      exact ⟨by decide, RfState.noConfusion, rfl⟩

theorem processByte_started {x : XbeeState} {since : UInt32} (h : Started x since) {data : UInt8}
    (now : UInt32) (hopens : ¬ (x.rfState = .frame ∧ data = startDel)) :
    Started (processByte x data now).1 since := by
  rcases processByte_timer now hopens with ⟨hstate, htimer⟩ | ⟨hx, hstate, htimer⟩
  · refine ⟨fun _ => ?_, fun hne => absurd hstate hne⟩
    rcases htimer with ⟨hx, htimer⟩ | htimer
    · rw [htimer]
      exact h.1 hx
    · exact htimer
  · refine ⟨fun hframe => absurd hframe hstate, fun _ => ?_⟩
    rw [htimer]
    exact h.2 hx

theorem expire_started {x : XbeeState} {since : UInt32} (h : Started x since) (now : UInt32) :
    Started (expire x now) since := by
  unfold expire
  split_ifs
  · exact ⟨fun _ => rfl, fun hne => absurd rfl hne⟩
  · exact h

theorem expire_frame_iff {x : XbeeState} {since : UInt32} (h : Started x since)
    (hx : x.rfState ≠ .frame) (now : UInt32) :
    (expire x now).rfState = .frame ↔ since + recvFrameTo < now := by
  obtain ⟨htimer, hne⟩ := h.2 hx
  have hpos : 0 < since + recvFrameTo := by
    rw [UInt32.lt_iff_toNat_lt]
    exact Nat.pos_of_ne_zero fun hz => hne (UInt32.toNat_inj.mp hz)
  unfold expire
  rw [htimer]
  split_ifs with hfires
  · exact iff_of_true rfl hfires.2
  · exact iff_of_false hx fun hlt => hfires ⟨hpos, hlt⟩

theorem opened_started {x : XbeeState} (hx : x.rfState = .frame) (now : UInt32) :
    (now + recvFrameTo ≠ 0 → Started (processByte x startDel now).1 now) ∧
      (Armed (processByte x startDel now).1 ↔ now + recvFrameTo ≠ 0) := by
  rw [processByte_start hx]
  refine ⟨fun hne => ⟨fun h => absurd h (by simp), fun _ => ⟨rfl, hne⟩⟩, ?_⟩
  simp [Armed]

theorem byte_armed_iff {x : XbeeState} {since : UInt32} (h : Started x since) (data : UInt8)
    (now : UInt32) :
    let opened : Bool := x.rfState = .frame ∧ data = startDel
    ((opened = true → now + recvFrameTo ≠ 0) →
        Started (processByte x data now).1 (if opened then now else since)) ∧
      (Armed (processByte x data now).1 ↔ (opened = true → now + recvFrameTo ≠ 0)) := by
  intro opened
  by_cases hopens : x.rfState = .frame ∧ data = startDel
  · obtain ⟨hx, rfl⟩ := hopens
    have hopened : opened = true := by simp [opened, hx]
    obtain ⟨hstarted, harmed⟩ := opened_started hx now
    rw [hopened]
    exact ⟨fun hne => hstarted (hne rfl), by rw [harmed]; simp⟩
  · have hopened : opened = false := by simp only [opened, hopens, decide_false]
    have hstarted := processByte_started h now hopens
    rw [hopened]
    exact ⟨fun _ => hstarted, iff_of_true hstarted.armed fun hf => absurd hf (by decide)⟩

theorem timedStep_armed_iff {t : Timed} (h : Started t.port.xbee t.since) (i : Input) :
    ((opens t.port i = true → clock i + recvFrameTo ≠ 0) →
        Started (timedStep t i).1.port.xbee (timedStep t i).1.since) ∧
      (Armed (timedStep t i).1.port.xbee ↔
        (opens t.port i = true → clock i + recvFrameTo ≠ 0)) := by
  cases i with
  | uart data =>
    exact ⟨fun _ => h, iff_of_true h.armed fun hf => absurd hf (by simp [opens, consumed])⟩
  | byte data now => exact byte_armed_iff h data now
  | task now now' =>
    have hexpired := expire_started h now
    by_cases hq : rxqIsEmpty t.port.rxq = true
    · have hopens : opens t.port (.task now now') = false := by
        simp only [opens, consumed, if_pos hq]
      have hstep : (step t.port (.task now now')).1.xbee = expire t.port.xbee now := by
        simp only [step, xbeeTask, if_pos hq]
      simp only [timedStep, hopens, hstep]
      exact ⟨fun _ => hexpired, iff_of_true hexpired.armed fun hf => absurd hf (by decide)⟩
    · have hopens : opens t.port (.task now now') = decide
          ((expire t.port.xbee now).rfState = .frame ∧ (rxqGet t.port.rxq).1 = startDel) := by
        simp only [opens, consumed, if_neg hq]
      have hstep : (step t.port (.task now now')).1.xbee =
          (processByte (expire t.port.xbee now) (rxqGet t.port.rxq).1 now').1 := by
        simp only [step, xbeeTask, rfUartReceive, if_neg hq]
      simp only [timedStep, hopens, hstep]
      exact byte_armed_iff hexpired (rxqGet t.port.rxq).1 now'

theorem givesUp_iff {t : Timed} (h : Started t.port.xbee t.since) (i : Input) :
    GivesUpWhenDue t i ↔ FindsAligned t i := by
  cases i with
  | uart data => exact Iff.rfl
  | byte data now => exact Iff.rfl
  | task now now' =>
    refine forall_congr' fun hx => ?_
    rw [expire_frame_iff h hx, sum_lt_iff_exceeds_iff]

theorem right_iff_sound {t : Timed} (h : Started t.port.xbee t.since) (i : Input) :
    Right t i ↔ Sound t i := by
  rw [Right, Sound, givesUp_iff h, (timedStep_armed_iff h i).2]

/-- Along every run from power-up, the timer is right at every step if and only if no frame is
opened 2000 before a wrap and the task finds no timer that has wrapped where the clock has not,
or the other way round. -/
theorem frame_timer_right_iff (cb : Callb) (isCoordinator : Bool) (since : UInt32)
    (is : List Input) :
    Along timedStep Right ⟨power cb isCoordinator, since⟩ is ↔
      Along timedStep Sound ⟨power cb isCoordinator, since⟩ is := by
  refine along_iff_of_invariant (P := fun t : Timed => Started t.port.xbee t.since)
    (fun t i ht => right_iff_sound ht i) (fun t i ht hi => (timedStep_armed_iff ht i).1 hi.2) ?_ is
  exact ⟨fun _ => rfl, fun h => absurd rfl h⟩

def openAt (now : UInt32) : List Input := [.byte startDel now, .task (now + 1) (now + 1)]

theorem frame_timer_wrong_before_wrap :
    let t : Timed := ⟨power allCallbacks true, 0⟩
    ¬ Armed (after timedStep t [.byte startDel 0xFFFFF830]).port.xbee ∧
      (after timedStep t (openAt 0xFFFFFC18)).port.xbee.rfState = .frame ∧
      ¬ Along timedStep Right t (openAt 0xFFFFFC18) := by
  intro t
  have hzero : (after timedStep t [.byte startDel 0xFFFFF830]).port.xbee.rfState ≠ .frame ∧
      (after timedStep t [.byte startDel 0xFFFFF830]).port.xbee.rfFrameTimer = 0 := by decide
  have hdropped : (after timedStep t (openAt 0xFFFFFC18)).port.xbee.rfState = .frame := by decide
  refine ⟨fun h => h.mp hzero.1 hzero.2, hdropped, fun h => ?_⟩
  have hdue := h.2.1.1 (by decide)
  exact absurd (hdue.mp (by decide)) (by decide)

end AoaBoard.Xbee.Timer
