import AoaBoard.Can.Driver
import AoaBoard.Board.RxQueue

/-!
# Waiting for a transmission

`sendMessage` writes `txMsg`, hands it to `CAN_SendMsg` and polls the global
status register until a transmission is complete or 500 ms have passed. The
deadline is a sum on the 32-bit clock, the loop reads the clock only behind a poll
that finds the transmission incomplete, and the test behind the loop reads it once
more. `sends` is the result of `CAN_SendMsg`, `gsr k` the status that poll `k`
finds, and `advance j` the time that passes before reading `j` of the clock.
-/

namespace AoaBoard.Can.SendMessage
open Board

def canptNodeUniqueId : UInt8 := 0x10

def canGsrTcs : UInt32 := (1 : UInt32) <<< 3

structure Environment where
  start : UInt32
  sends : CanMsg → Bool
  gsr : ℕ → UInt32
  advance : ℕ → ℕ

namespace Environment

def elapsed (e : Environment) (j : ℕ) : ℕ := ((List.range (j + 1)).map e.advance).sum

def clock (e : Environment) (j : ℕ) : UInt32 := e.start + UInt32.ofNat (e.elapsed j)

def due (e : Environment) : UInt32 := e.start + 500

def complete (e : Environment) (k : ℕ) : Bool := e.gsr k &&& canGsrTcs ≠ 0

end Environment

structure Waited where
  polls : ℕ
  readings : ℕ

/-- The loop of `sendMessage` from poll `k` on; `none` when `fuel` rounds are not enough. -/
def waitLoop (e : Environment) : ℕ → ℕ → Option Waited
  | 0, _ => none
  | fuel + 1, k =>
    if e.complete k then some ⟨k + 1, k⟩
    else if e.clock k < e.due then waitLoop e fuel (k + 1)
    else some ⟨k + 1, k + 1⟩

structure Sent where
  err : ErrorT
  txMsg : CanMsg
  waited : Option Waited

def outgoing (txMsg : CanMsg) (dataLen : UInt8) : CanMsg :=
  { txMsg with id := 0x20000, format := extIdFormat, len := dataLen + 1
               dataA := fun k => if k.val = 0 then canptNodeUniqueId else txMsg.dataA k }

def sendMessage (fuel : ℕ) (e : Environment) (txMsg : CanMsg) (_reqId dataLen : UInt8) :
    Option Sent :=
  let txMsg := outgoing txMsg dataLen
  if e.sends txMsg = false then some ⟨.canSend, txMsg, none⟩
  else (waitLoop e fuel 0).map fun w =>
    ⟨if e.due ≤ e.clock w.readings then .timeout else .ok, txMsg, some w⟩

/-- Poll `k` is the last one: it finds the transmission complete, or the reading behind it has
reached the deadline. -/
structure LastPoll (e : Environment) (k : ℕ) : Prop where
  before : ∀ j < k, e.complete j = false ∧ e.clock j < e.due
  last : e.complete k = true ∨ ¬ e.clock k < e.due

def finalReading (e : Environment) (k : ℕ) : ℕ := if e.complete k then k else k + 1

variable {e : Environment}

theorem waitLoop_some {fuel k : ℕ} {w : Waited} (h : waitLoop e fuel k = some w)
    (hbefore : ∀ j < k, e.complete j = false ∧ e.clock j < e.due) :
    ∃ l, LastPoll e l ∧ w = ⟨l + 1, finalReading e l⟩ := by
  induction fuel generalizing k with
  | zero => cases h
  | succ fuel ih =>
    rw [waitLoop] at h
    split_ifs at h with hcomplete hclock
    · cases h
      exact ⟨k, ⟨hbefore, .inl hcomplete⟩, by rw [finalReading, if_pos hcomplete]⟩
    · refine ih h fun j hj => ?_
      rcases (Nat.lt_succ_iff_lt_or_eq.mp hj) with hj | rfl
      · exact hbefore j hj
      · exact ⟨Bool.eq_false_of_not_eq_true hcomplete, hclock⟩
    · cases h
      exact ⟨k, ⟨hbefore, .inr hclock⟩, by rw [finalReading, if_neg hcomplete]⟩

theorem waitLoop_of_lastPoll {l : ℕ} (h : LastPoll e l) {k : ℕ} (hk : k ≤ l) :
    waitLoop e (l - k + 1) k = some ⟨l + 1, finalReading e l⟩ := by
  obtain ⟨d, hd⟩ : ∃ d, l - k = d := ⟨_, rfl⟩
  induction d generalizing k with
  | zero =>
    obtain rfl : k = l := by omega
    rw [hd, waitLoop]
    by_cases hcomplete : e.complete k = true
    · rw [if_pos hcomplete, finalReading, if_pos hcomplete]
    · have hclock := h.last.resolve_left hcomplete
      rw [if_neg hcomplete, if_neg hclock, finalReading, if_neg hcomplete]
  | succ d ih =>
    obtain ⟨hcomplete, hclock⟩ := h.before k (by omega)
    have hrest := ih (k := k + 1) (by omega) (by omega)
    rw [show l - (k + 1) + 1 = d + 1 by omega] at hrest
    rw [hd, waitLoop, hcomplete, if_neg Bool.false_ne_true, if_pos hclock, hrest]

theorem LastPoll.not_lt {k l : ℕ} (hk : LastPoll e k) (hl : LastPoll e l) : ¬ k < l := by
  intro hlt
  obtain ⟨hcomplete, hclock⟩ := hl.before k hlt
  rcases hk.last with h | h
  · exact absurd (hcomplete.symm.trans h) Bool.false_ne_true
  · exact absurd hclock h

theorem LastPoll.unique {k l : ℕ} (hk : LastPoll e k) (hl : LastPoll e l) : k = l :=
  le_antisymm (Nat.le_of_not_lt (hl.not_lt hk)) (Nat.le_of_not_lt (hk.not_lt hl))

/-- What the result of `sendMessage` says about the call. -/
structure Reports (e : Environment) (sent : Bool) (r : Sent) : Prop where
  canSend : r.err = .canSend ↔ sent = false
  ok : r.err = .ok ↔ sent = true ∧ ∃ w, r.waited = some w ∧ e.complete (w.polls - 1) = true
  timeout : r.err = .timeout → ∃ w, r.waited = some w ∧
    (∀ k < w.polls, e.complete k = false) ∧ 500 ≤ e.elapsed w.readings

section Call
variable (e) (txMsg : CanMsg) (reqId dataLen : UInt8)

theorem sendMessage_failed (h : e.sends (outgoing txMsg dataLen) = false) (fuel : ℕ) :
    sendMessage fuel e txMsg reqId dataLen = some ⟨.canSend, outgoing txMsg dataLen, none⟩ :=
  if_pos h

def sentAt (k : ℕ) : Sent :=
  ⟨if e.due ≤ e.clock (finalReading e k) then .timeout else .ok, outgoing txMsg dataLen,
    some ⟨k + 1, finalReading e k⟩⟩

theorem sendMessage_some_iff (h : e.sends (outgoing txMsg dataLen) = true) (r : Sent) :
    (∃ fuel, sendMessage fuel e txMsg reqId dataLen = some r) ↔
      ∃ k, LastPoll e k ∧ r = sentAt e txMsg dataLen k := by
  have hsent : ¬ e.sends (outgoing txMsg dataLen) = false := by
    rw [h]
    exact Bool.false_ne_true.symm
  simp only [sendMessage, if_neg hsent]
  constructor
  · rintro ⟨fuel, hr⟩
    obtain ⟨w, hw, rfl⟩ := Option.map_eq_some_iff.mp hr
    obtain ⟨k, hlast, rfl⟩ := waitLoop_some hw fun j hj => absurd hj (Nat.not_lt_zero j)
    exact ⟨k, hlast, rfl⟩
  · rintro ⟨k, hlast, rfl⟩
    refine ⟨k + 1, ?_⟩
    have hloop := waitLoop_of_lastPoll hlast (Nat.zero_le k)
    rw [Nat.sub_zero] at hloop
    rw [hloop]
    rfl

theorem sentAt_err (k : ℕ) : (sentAt e txMsg dataLen k).err =
    if e.due ≤ e.clock (finalReading e k) then .timeout else .ok := by
  rw [sentAt]

theorem sentAt_ne_canSend (k : ℕ) : (sentAt e txMsg dataLen k).err ≠ .canSend := by
  rw [sentAt_err]
  split_ifs
  · exact ErrorT.noConfusion
  · exact ErrorT.noConfusion

theorem sentAt_timeout_iff (k : ℕ) :
    (sentAt e txMsg dataLen k).err = .timeout ↔ e.due ≤ e.clock (finalReading e k) := by
  rw [sentAt_err]
  by_cases hdue : e.due ≤ e.clock (finalReading e k)
  · rw [if_pos hdue]
    exact iff_of_true rfl hdue
  · rw [if_neg hdue]
    exact iff_of_false ErrorT.noConfusion hdue

theorem sentAt_ok_iff (k : ℕ) :
    (sentAt e txMsg dataLen k).err = .ok ↔ e.clock (finalReading e k) < e.due := by
  rw [sentAt_err, ← UInt32.not_le]
  by_cases hdue : e.due ≤ e.clock (finalReading e k)
  · rw [if_pos hdue]
    exact iff_of_false ErrorT.noConfusion (not_not.mpr hdue)
  · rw [if_neg hdue]
    exact iff_of_true rfl hdue

end Call

theorem LastPoll.none_complete {k : ℕ} (h : LastPoll e k) (hk : e.complete k = false) :
    ∀ j < k + 1, e.complete j = false := by
  intro j hj
  rcases Nat.lt_succ_iff_lt_or_eq.mp hj with hj | rfl
  · exact (h.before j hj).1
  · exact hk

/-- The reading behind the loop agrees with what the last poll has found: it lies below the
deadline if the transmission is complete, and otherwise not, and 500 ms have passed. -/
def ReadingAgrees (e : Environment) (k : ℕ) : Prop :=
  (e.complete k = true → e.clock k < e.due) ∧
    (e.complete k = false → e.due ≤ e.clock (k + 1) ∧ 500 ≤ e.elapsed (k + 1))

theorem reports_sentAt_iff {k : ℕ} (h : LastPoll e k) (txMsg : CanMsg) (dataLen : UInt8) :
    Reports e true (sentAt e txMsg dataLen k) ↔ ReadingAgrees e k := by
  have hsend := sentAt_ne_canSend e txMsg dataLen k
  have htimeout := sentAt_timeout_iff e txMsg dataLen k
  have hok := sentAt_ok_iff e txMsg dataLen k
  cases hcomplete : e.complete k with
  | true =>
    rw [finalReading, if_pos hcomplete] at htimeout hok
    have hseen : true = true ∧ ∃ w, (sentAt e txMsg dataLen k).waited = some w ∧
        e.complete (w.polls - 1) = true := ⟨rfl, _, rfl, hcomplete⟩
    constructor
    · intro hr
      exact ⟨fun _ => hok.mp (hr.ok.mpr hseen),
        fun hfalse => absurd (hcomplete.symm.trans hfalse) Bool.false_ne_true.symm⟩
    · rintro ⟨hclock, -⟩
      have hbefore := hclock hcomplete
      exact ⟨iff_of_false hsend Bool.false_ne_true.symm, iff_of_true (hok.mpr hbefore) hseen,
        fun ht => absurd (htimeout.mp ht) (UInt32.not_le.mpr hbefore)⟩
  | false =>
    have hfinal : finalReading e k = k + 1 := by
      rw [finalReading, hcomplete, if_neg Bool.false_ne_true]
    rw [hfinal] at htimeout hok
    have hunseen : ¬ (true = true ∧ ∃ w, (sentAt e txMsg dataLen k).waited = some w ∧
        e.complete (w.polls - 1) = true) := by
      rintro ⟨-, w, hw, htrue⟩
      cases hw
      exact absurd (hcomplete.symm.trans htrue) Bool.false_ne_true
    constructor
    · intro hr
      have hdue : e.due ≤ e.clock (k + 1) :=
        UInt32.not_lt.mp fun hlt => hunseen (hr.ok.mp (hok.mpr hlt))
      obtain ⟨w, hw, -, helapsed⟩ := hr.timeout (htimeout.mpr hdue)
      cases hw
      rw [hfinal] at helapsed
      exact ⟨fun htrue => absurd (hcomplete.symm.trans htrue) Bool.false_ne_true,
        fun _ => ⟨hdue, helapsed⟩⟩
    · rintro ⟨-, hagrees⟩
      obtain ⟨hdue, helapsed⟩ := hagrees hcomplete
      refine ⟨iff_of_false hsend Bool.false_ne_true.symm,
        iff_of_false (fun h => absurd (hok.mp h) (UInt32.not_lt.mpr hdue)) hunseen,
        fun _ => ⟨_, rfl, h.none_complete hcomplete, ?_⟩⟩
      rw [hfinal]
      exact helapsed

theorem send_returns_iff (e : Environment) (txMsg : CanMsg) (reqId dataLen : UInt8) :
    (∃ fuel r, sendMessage fuel e txMsg reqId dataLen = some r) ↔
      e.sends (outgoing txMsg dataLen) = false ∨ ∃ k, LastPoll e k := by
  cases hsent : e.sends (outgoing txMsg dataLen) with
  | false => exact ⟨fun _ => .inl rfl, fun _ =>
      ⟨0, _, sendMessage_failed e txMsg reqId dataLen hsent 0⟩⟩
  | true =>
    have hsome := sendMessage_some_iff e txMsg reqId dataLen hsent
    constructor
    · rintro ⟨fuel, r, hr⟩
      obtain ⟨k, hlast, -⟩ := (hsome r).mp ⟨fuel, hr⟩
      exact .inr ⟨k, hlast⟩
    · rintro (h | ⟨k, hlast⟩)
      · cases h
      · obtain ⟨fuel, hr⟩ := (hsome _).mpr ⟨k, hlast, rfl⟩
        exact ⟨fuel, _, hr⟩

/-- `sendMessage` reports what happened if and only if the reading behind its loop agrees with
the last poll; it returns unless it polls for ever. -/
theorem send_reported_iff (e : Environment) (txMsg : CanMsg) (reqId dataLen : UInt8) :
    ((∃ fuel r, sendMessage fuel e txMsg reqId dataLen = some r) ↔
        e.sends (outgoing txMsg dataLen) = false ∨ ∃ k, LastPoll e k) ∧
      ((∀ fuel r, sendMessage fuel e txMsg reqId dataLen = some r →
          Reports e (e.sends (outgoing txMsg dataLen)) r) ↔
        (e.sends (outgoing txMsg dataLen) = true → ∀ k, LastPoll e k → ReadingAgrees e k)) := by
  refine ⟨send_returns_iff e txMsg reqId dataLen, ?_⟩
  cases hsent : e.sends (outgoing txMsg dataLen) with
  | false =>
    refine ⟨fun _ h => absurd h Bool.false_ne_true, fun _ fuel r hr => ?_⟩
    rw [sendMessage_failed e txMsg reqId dataLen hsent] at hr
    cases hr
    refine ⟨⟨fun _ => rfl, fun _ => rfl⟩, ⟨fun h => ?_, fun h => absurd h.1 Bool.false_ne_true⟩,
      fun h => ?_⟩
    · cases h
    · cases h
  | true =>
    have hsome := sendMessage_some_iff e txMsg reqId dataLen hsent
    constructor
    · intro hreports _ k hlast
      obtain ⟨fuel, hr⟩ := (hsome _).mpr ⟨k, hlast, rfl⟩
      exact (reports_sentAt_iff hlast txMsg dataLen).mp (hreports fuel _ hr)
    · intro hagrees fuel r hr
      obtain ⟨k, hlast, rfl⟩ := (hsome r).mp ⟨fuel, hr⟩
      exact (reports_sentAt_iff hlast txMsg dataLen).mpr (hagrees rfl k hlast)

theorem elapsed_succ (e : Environment) (j : ℕ) :
    e.elapsed (j + 1) = e.elapsed j + e.advance (j + 1) := by
  rw [Environment.elapsed, List.range_succ, List.map_append, List.sum_append]
  simp [Environment.elapsed]

theorem due_le_clock_iff {j : ℕ} (hdue : e.start.toNat + 500 < 2 ^ 32)
    (hclock : e.start.toNat + e.elapsed j < 2 ^ 32) : e.due ≤ e.clock j ↔ 500 ≤ e.elapsed j := by
  have hspan : (500 : UInt32).toNat = 500 := rfl
  rw [UInt32.le_iff_toNat_le, Environment.due, Environment.clock, UInt32.toNat_add,
    UInt32.toNat_add, UInt32.toNat_ofNat', hspan]
  omega

/-- Far from the wrap of the clock, the reading disagrees only where 500 ms have passed between
the call and the test behind a successful poll. -/
theorem readingAgrees_iff {k : ℕ} (h : LastPoll e k) (hdue : e.start.toNat + 500 < 2 ^ 32)
    (hclock : e.start.toNat + e.elapsed (k + 1) < 2 ^ 32) :
    ReadingAgrees e k ↔ (e.complete k = true → e.elapsed k < 500) := by
  have hsucc := elapsed_succ e k
  have hthis : e.due ≤ e.clock k ↔ 500 ≤ e.elapsed k := due_le_clock_iff hdue (by omega)
  have hnext := due_le_clock_iff hdue hclock
  rw [ReadingAgrees, ← UInt32.not_le, hthis, hnext, Nat.not_le, and_self]
  refine and_iff_left fun hcomplete => ?_
  have hlate := h.last.resolve_left (by rw [hcomplete]; exact Bool.false_ne_true)
  rw [UInt32.not_lt, hthis] at hlate
  omega

def completeButLate : Environment := ⟨0, fun _ => true, fun _ => canGsrTcs, fun _ => 500⟩

theorem complete_reported_as_timeout : ¬ ∀ fuel r,
    sendMessage fuel completeButLate Queue.blank 0 0 = some r → Reports completeButLate true r := by
  intro h
  have hreports := h 1 _ rfl
  obtain ⟨w, hw, hnone, -⟩ := hreports.timeout rfl
  cases hw
  exact absurd (hnone 0 Nat.one_pos) (by decide)

end AoaBoard.Can.SendMessage
