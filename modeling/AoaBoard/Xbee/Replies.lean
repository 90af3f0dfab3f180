import AoaBoard.Xbee.AtCommands

/-!
# What the replies of the module say

Every call leaves a record of the conversation. As long as no byte finds 255
others pending, the bytes handed over and those still queued are the bytes that
were queued and those that have arrived. `readLine` stops at the first carriage
return that is handed over, at a full buffer or at the first reading of the clock
that reaches the deadline, and reports an error unless it was the first.
-/

namespace AoaBoard.Xbee.AtCommands
open Library.Bytes Board Board.RxQueue

def handed : List Talk → List UInt8
  | [] => []
  | .sent _ :: ts => handed ts
  | .handed data :: ts => data :: handed ts

@[simp] theorem handed_append (ts us : List Talk) : handed (ts ++ us) = handed ts ++ handed us := by
  induction ts with
  | nil => rfl
  | cons t ts ih =>
    cases t with
    | sent text => exact ih
    | handed data => exact congrArg (data :: ·) ih

@[simp] theorem handed_map (l : List UInt8) : handed (l.map Talk.handed) = l := by
  induction l with
  | nil => rfl
  | cons b l ih => exact congrArg (b :: ·) ih

def queued (u : Uart) : List UInt8 := content u.queue

structure Between (u u' : Uart) (as : List UInt8) (ts : List Talk) : Prop where
  arrived : u'.arrived = u.arrived ++ as
  talk : u'.talk = u.talk ++ ts

/-- What was queued or has arrived is handed over in its order or queued. -/
def Exact (u u' : Uart) : Prop :=
  ∃ as ts, Between u u' as ts ∧ queued u ++ as = handed ts ++ queued u'

/-- Bytes are lost if and only if one finds the queue full. -/
def Accounted (u u' : Uart) : Prop :=
  ∃ as ts, Between u u' as ts ∧
    ((u'.overflows = u.overflows ∧ queued u ++ as = handed ts ++ queued u') ∨
      (u.overflows < u'.overflows ∧
        (handed ts).length + (queued u').length < (queued u).length + as.length))

theorem Between.refl (u : Uart) : Between u u [] [] :=
  ⟨(List.append_nil _).symm, (List.append_nil _).symm⟩

theorem Between.trans {u v w : Uart} {as bs : List UInt8} {ts us : List Talk}
    (h : Between u v as ts) (h' : Between v w bs us) : Between u w (as ++ bs) (ts ++ us) := by
  constructor
  · rw [h'.arrived, h.arrived, List.append_assoc]
  · rw [h'.talk, h.talk, List.append_assoc]

theorem Between.unique {u u' : Uart} {as bs : List UInt8} {ts us : List Talk}
    (h : Between u u' as ts) (h' : Between u u' bs us) : as = bs ∧ ts = us :=
  ⟨List.append_cancel_left (h.arrived.symm.trans h'.arrived),
    List.append_cancel_left (h.talk.symm.trans h'.talk)⟩

theorem Accounted.refl (u : Uart) : Accounted u u :=
  ⟨[], [], .refl u, Or.inl ⟨rfl, List.append_nil _⟩⟩

theorem Accounted.trans {u v w : Uart} (h : Accounted u v) (h' : Accounted v w) :
    Accounted u w := by
  obtain ⟨as, ts, hb, hcase⟩ := h
  obtain ⟨bs, us, hb', hcase'⟩ := h'
  refine ⟨as ++ bs, ts ++ us, hb.trans hb', ?_⟩
  simp only [handed_append, List.length_append]
  obtain ⟨ho, heq⟩ | ⟨ho, hlt⟩ := hcase <;> obtain ⟨ho', heq'⟩ | ⟨ho', hlt'⟩ := hcase'
  · left
    refine ⟨ho'.trans ho, ?_⟩
    rw [← List.append_assoc, heq, List.append_assoc, heq', List.append_assoc]
  · right
    have hlen := congrArg List.length heq
    simp only [List.length_append] at hlen
    omega
  · right
    have hlen := congrArg List.length heq'
    simp only [List.length_append] at hlen
    omega
  · right
    omega

theorem Accounted.exact_iff {u u' : Uart} (h : Accounted u u') :
    Exact u u' ↔ u'.overflows = u.overflows := by
  obtain ⟨as, ts, hb, hcase⟩ := h
  constructor
  · rintro ⟨bs, us, hb', heq⟩
    obtain ⟨rfl, rfl⟩ := hb.unique hb'
    obtain ⟨ho, -⟩ | ⟨-, hlt⟩ := hcase
    · exact ho
    · have hlen := congrArg List.length heq
      simp only [List.length_append] at hlen
      omega
  · intro ho
    obtain ⟨-, heq⟩ | ⟨hlt, -⟩ := hcase
    · exact ⟨as, ts, hb, heq⟩
    · omega

theorem arrive_cases (u : Uart) (data : UInt8) :
    ((arrive u data).overflows = u.overflows ∧ queued (arrive u data) = queued u ++ [data]) ∨
      ((arrive u data).overflows = u.overflows + 1 ∧ (queued u).length = 255 ∧
        (queued (arrive u data)).length ≤ 255) := by
  have hlt := content_length_lt u.queue
  by_cases hfull : (content u.queue).length = 255
  · right
    refine ⟨if_pos hfull, hfull, ?_⟩
    exact Nat.le_of_lt_succ (content_length_lt (rxqPut u.queue data))
  · left
    exact ⟨if_neg hfull, (rxqPut_of_room (by omega) data).2⟩

theorem arrivals_cases (as : List UInt8) (u : Uart) :
    (as.foldl arrive u).now = u.now ∧ Between u (as.foldl arrive u) as [] ∧
      (((as.foldl arrive u).overflows = u.overflows ∧
          queued (as.foldl arrive u) = queued u ++ as) ∨
        (u.overflows < (as.foldl arrive u).overflows ∧
          256 ≤ (queued u).length + as.length ∧
          (queued (as.foldl arrive u)).length < (queued u).length + as.length)) := by
  induction as generalizing u with
  | nil => exact ⟨rfl, .refl u, Or.inl ⟨rfl, (List.append_nil _).symm⟩⟩
  | cons a as ih =>
    obtain ⟨hnow, hbetween, hcase⟩ := ih (arrive u a)
    rw [List.foldl_cons]
    have hfirst : Between u (arrive u a) [a] [] := ⟨rfl, (List.append_nil _).symm⟩
    refine ⟨hnow, hfirst.trans hbetween, ?_⟩
    rw [List.length_cons]
    obtain ⟨ho, hq⟩ | ⟨ho, hfull, hle⟩ := arrive_cases u a
    · rw [ho, hq] at hcase
      simp only [List.append_assoc, List.singleton_append, List.length_append,
        List.length_singleton] at hcase
      obtain ⟨ho', hq'⟩ | ⟨ho', hmany, hless⟩ := hcase
      · exact Or.inl ⟨ho', hq'⟩
      · exact Or.inr ⟨ho', by omega, by omega⟩
    · right
      obtain ⟨ho', hq'⟩ | ⟨ho', hmany, hless⟩ := hcase
      · have hlen := congrArg List.length hq'
        rw [List.length_append] at hlen
        exact ⟨by omega, by omega, by omega⟩
      · exact ⟨by omega, by omega, by omega⟩

variable {σ : Schedule}

theorem wait_now (u : Uart) : (wait σ u).now = u.now + 1 := rfl

theorem wait_talk (u : Uart) : (wait σ u).talk = u.talk := by
  have htalk := (arrivals_cases (σ.arrivals u.now) u).2.1.talk
  rw [List.append_nil] at htalk
  exact htalk

theorem wait_accounted (u : Uart) : Accounted u (wait σ u) := by
  obtain ⟨-, hbetween, hcase⟩ := arrivals_cases (σ.arrivals u.now) u
  refine ⟨_, [], ⟨hbetween.arrived, hbetween.talk⟩, ?_⟩
  obtain ⟨ho, hq⟩ | ⟨ho, -, hless⟩ := hcase
  · exact Or.inl ⟨ho, hq.symm⟩
  · refine Or.inr ⟨ho, ?_⟩
    rw [handed, List.length_nil, Nat.zero_add]
    exact hless

theorem sendString_accounted (text : List UInt8) (u : Uart) :
    Accounted u (rfUartSendString σ text u) := by
  obtain ⟨as, ts, hbetween, hcase⟩ := @wait_accounted σ u
  have hts : ts = [] := by
    have htalk := hbetween.talk
    rw [wait_talk] at htalk
    exact List.self_eq_append_right.mp htalk
  subst hts
  exact ⟨as, [.sent text], ⟨hbetween.arrived, rfl⟩, hcase⟩

theorem get_talk (u : Uart) : (get σ u).2.talk = u.talk ++ [.handed (get σ u).1] := rfl

theorem get_accounted {u : Uart} (h : queued u ≠ []) : Accounted u (get σ u).2 := by
  obtain ⟨-, hbetween, hcase⟩ := arrivals_cases (σ.arrivals u.now) u
  refine ⟨σ.arrivals u.now, [.handed (get σ u).1], ⟨hbetween.arrived, rfl⟩, ?_⟩
  have hq : queued (get σ u).2 = content (rxqGet (wait σ u).queue).2 := rfl
  have hb : (get σ u).1 = (rxqGet (wait σ u).queue).1 := rfl
  have hw : queued ((σ.arrivals u.now).foldl arrive u) = content (wait σ u).queue := rfl
  rw [hw] at hcase
  by_cases hempty : rxqIsEmpty (wait σ u).queue = true
  · have hnil := (isEmpty_iff _).mp hempty
    rw [hnil] at hcase
    obtain ⟨-, hall⟩ | ⟨ho, hmany, -⟩ := hcase
    · exact absurd (List.append_eq_nil_iff.mp hall.symm).1 h
    · refine Or.inr ⟨ho, ?_⟩
      rw [hq, rxqGet_of_empty hempty, hnil]
      simp only [handed, List.length_cons, List.length_nil]
      omega
  · have hcontent := rxqGet_of_nonempty hempty
    obtain ⟨ho, hall⟩ | ⟨ho, -, hless⟩ := hcase
    · refine Or.inl ⟨ho, ?_⟩
      rw [← hall, hcontent, hq, hb]
      rfl
    · refine Or.inr ⟨ho, ?_⟩
      rw [hcontent, List.length_cons] at hless
      rw [hq]
      simp only [handed, List.length_cons, List.length_nil]
      omega

theorem receive_empty {u : Uart} (h : rxqIsEmpty (wait σ u).queue = true) (n : ℕ) :
    rfUartReceive σ (n + 1) u = ([], wait σ u) := if_pos h

theorem receive_nonempty {u : Uart} (h : ¬ rxqIsEmpty (wait σ u).queue = true) (n : ℕ) :
    rfUartReceive σ (n + 1) u =
      ((get σ (wait σ u)).1 :: (rfUartReceive σ n (get σ (wait σ u)).2).1,
        (rfUartReceive σ n (get σ (wait σ u)).2).2) := if_neg h

theorem receive_accounted (n : ℕ) (u : Uart) : Accounted u (rfUartReceive σ n u).2 := by
  induction n generalizing u with
  | zero => exact .refl u
  | succ n ih =>
    have hwait := @wait_accounted σ u
    by_cases hempty : rxqIsEmpty (wait σ u).queue = true
    · rw [receive_empty hempty]
      exact hwait
    · have hne : queued (wait σ u) ≠ [] := fun hnil => hempty ((isEmpty_iff _).mpr hnil)
      rw [receive_nonempty hempty]
      exact (hwait.trans (get_accounted hne)).trans (ih (get σ (wait σ u)).2)

theorem receive_one (u : Uart) :
    u.now < (rfUartReceive σ 1 u).2.now ∧ (rfUartReceive σ 1 u).2.now ≤ u.now + 2 ∧
    ((rfUartReceive σ 1 u).1 = [] ∧ (rfUartReceive σ 1 u).2.talk = u.talk ∨
      ∃ data, (rfUartReceive σ 1 u).1 = [data] ∧
        (rfUartReceive σ 1 u).2.talk = u.talk ++ [.handed data]) := by
  by_cases hempty : rxqIsEmpty (wait σ u).queue = true
  · rw [receive_empty hempty]
    exact ⟨Nat.lt_succ_self _, Nat.le_succ _, Or.inl ⟨rfl, wait_talk u⟩⟩
  · rw [receive_nonempty hempty]
    refine ⟨Nat.lt_succ_of_lt (Nat.lt_succ_self _), le_refl _, Or.inr ⟨_, rfl, ?_⟩⟩
    rw [rfUartReceive, get_talk, wait_talk]

theorem readLoop_receive {bufLen t : UInt32} {l : Line} (hpos : l.pos < bufLen)
    (hclock : σ.clock l.uart.now < t) (fuel : ℕ) :
    readLoop σ bufLen t (fuel + 1) l =
      let r := rfUartReceive σ 1 (wait σ l.uart)
      let l := r.1.foldl store { l with uart := r.2 }
      let len := UInt32.ofNat r.1.length
      if 0 < len ∧ l.buf l.pos.toNat = cr then some (store l 0)
      else readLoop σ bufLen t fuel { l with pos := l.pos + len } := by
  rw [readLoop, if_pos hpos]
  exact if_pos hclock

theorem readLoop_succ (bufLen t : UInt32) (fuel : ℕ) (l : Line) :
    (bufLen ≤ l.pos ∧ readLoop σ bufLen t (fuel + 1) l = some l) ∨
    (l.pos < bufLen ∧ t ≤ σ.clock l.uart.now ∧
      readLoop σ bufLen t (fuel + 1) l = some { l with uart := wait σ l.uart }) ∨
    (l.pos < bufLen ∧ σ.clock l.uart.now < t ∧ ∃ u, Accounted l.uart u ∧
      l.uart.now < u.now ∧ u.now ≤ l.uart.now + 3 ∧
      ((u.talk = l.uart.talk ++ [.handed cr] ∧ readLoop σ bufLen t (fuel + 1) l =
          some (store (store { l with uart := u } cr) 0)) ∨
        (∃ data, data ≠ cr ∧ u.talk = l.uart.talk ++ [.handed data] ∧
          readLoop σ bufLen t (fuel + 1) l =
            readLoop σ bufLen t fuel { store { l with uart := u } data with pos := l.pos + 1 }) ∨
        (u.talk = l.uart.talk ∧ readLoop σ bufLen t (fuel + 1) l =
          readLoop σ bufLen t fuel { l with uart := u }))) := by
  by_cases hpos : l.pos < bufLen
  swap
  · exact Or.inl ⟨UInt32.not_lt.mp hpos, by rw [readLoop, if_neg hpos]⟩
  right
  by_cases hclock : σ.clock l.uart.now < t
  swap
  · refine Or.inl ⟨hpos, UInt32.not_lt.mp hclock, ?_⟩
    rw [readLoop, if_pos hpos]
    exact if_neg hclock
  refine Or.inr ⟨hpos, hclock, (rfUartReceive σ 1 (wait σ l.uart)).2, ?_⟩
  obtain ⟨hlow, hhigh, hreceived⟩ := @receive_one σ (wait σ l.uart)
  rw [wait_now] at hlow hhigh
  rw [wait_talk] at hreceived
  refine ⟨(wait_accounted l.uart).trans (receive_accounted 1 _), by omega, by omega, ?_⟩
  rw [readLoop_receive hpos hclock]
  generalize rfUartReceive σ 1 (wait σ l.uart) = r at hreceived
  obtain ⟨bytes, u⟩ := r
  obtain ⟨hnone, htalk⟩ | ⟨data, hone, htalk⟩ := hreceived
  · obtain rfl : bytes = [] := hnone
    refine Or.inr (Or.inr ⟨htalk, ?_⟩)
    simp
  · obtain rfl : bytes = [data] := hone
    have hstored : (store { l with uart := u } data).buf l.pos.toNat = data :=
      Function.update_self _ _ _
    by_cases hcr : data = cr
    · subst hcr
      refine Or.inl ⟨htalk, ?_⟩
      simp only [List.foldl_cons, List.foldl_nil, List.length_singleton]
      exact if_pos ⟨by decide, hstored⟩
    · refine Or.inr (Or.inl ⟨data, hcr, htalk, ?_⟩)
      simp only [List.foldl_cons, List.foldl_nil, List.length_singleton]
      refine if_neg fun h => hcr ?_
      rw [← hstored]
      exact h.2

structure Reading (u : Uart) (bufLen : UInt32) (l : Line) : Prop where
  talk : l.uart.talk = u.talk ++ (slice l.buf l.pos.toNat).map .handed
  noCr : cr ∉ slice l.buf l.pos.toNat
  stores : ∀ k ∈ l.stores, k < bufLen.toNat
  accounted : Accounted u l.uart

/-- The buffer holds what was handed over in front of the first carriage return, terminated, and
nothing was taken after it. -/
def Terminated (u : Uart) (l : Line) (line : List UInt8) : Prop :=
  line.length = l.pos.toNat ∧ cr ∉ line ∧ slice l.buf line.length = line ∧
    l.buf line.length = 0 ∧ l.uart.talk = u.talk ++ (line ++ [cr]).map .handed

structure Ended (σ : Schedule) (u : Uart) (bufLen t : UInt32) (l : Line) : Prop where
  stores : ∀ k ∈ l.stores, k < bufLen.toNat
  accounted : Accounted u l.uart
  reason : bufLen ≤ l.pos ∨ (∃ k < l.uart.now, t ≤ σ.clock k) ∨ ∃ line, Terminated u l line

theorem store_reading {u v : Uart} {bufLen : UInt32} {l : Line} (h : Reading u bufLen l)
    (hpos : l.pos < bufLen) {data : UInt8} (hdata : data ≠ cr)
    (htalk : v.talk = l.uart.talk ++ [.handed data]) (hv : Accounted l.uart v) :
    Reading u bufLen { store { l with uart := v } data with pos := l.pos + 1 } := by
  have hbound := bufLen.toNat_lt
  rw [UInt32.lt_iff_toNat_lt] at hpos
  have hnext : (l.pos + 1).toNat = l.pos.toNat + 1 := by
    rw [UInt32.toNat_add, UInt32.toNat_one]
    omega
  have hslice : slice (Function.update l.buf l.pos.toNat data) (l.pos + 1).toNat =
      slice l.buf l.pos.toNat ++ [data] := by rw [hnext, slice_update]
  constructor
  · change v.talk = u.talk ++ (slice (Function.update l.buf l.pos.toNat data) _).map .handed
    rw [hslice, htalk, h.talk, List.map_append, List.append_assoc]
    rfl
  · change cr ∉ slice (Function.update l.buf l.pos.toNat data) (l.pos + 1).toNat
    rw [hslice, List.mem_append, List.mem_singleton]
    exact not_or.mpr ⟨h.noCr, hdata.symm⟩
  · intro k hk
    obtain hold | hlast := List.mem_append.mp hk
    · exact h.stores k hold
    · rw [List.mem_singleton.mp hlast]
      exact hpos
  · exact h.accounted.trans hv

theorem store_terminated {u v : Uart} {bufLen t : UInt32} {l : Line} (h : Reading u bufLen l)
    (hpos : l.pos < bufLen) (htalk : v.talk = l.uart.talk ++ [.handed cr])
    (hv : Accounted l.uart v) :
    Ended σ u bufLen t (store (store { l with uart := v } cr) 0) := by
  rw [UInt32.lt_iff_toNat_lt] at hpos
  have hbuf : (store (store { l with uart := v } cr) 0).buf =
      Function.update l.buf l.pos.toNat 0 := Function.update_idem ..
  refine ⟨fun k hk => ?_, h.accounted.trans hv, Or.inr (Or.inr ⟨slice l.buf l.pos.toNat, ?_⟩)⟩
  · have hstores : (store (store { l with uart := v } cr) 0).stores =
        l.stores ++ [l.pos.toNat, l.pos.toNat] := List.append_assoc ..
    rw [hstores, List.mem_append] at hk
    obtain hold | hlast := hk
    · exact h.stores k hold
    · have hk : k = l.pos.toNat := by simpa using hlast
      rw [hk]
      exact hpos
  · rw [Terminated, hbuf, slice_length, Function.update_self]
    refine ⟨rfl, h.noCr, slice_congr fun i hi => Function.update_of_ne hi.ne _ _, rfl, ?_⟩
    change v.talk = _
    rw [htalk, h.talk, List.map_append, List.append_assoc]
    rfl

theorem readLoop_ended {u : Uart} {bufLen t : UInt32} {fuel : ℕ} {l l' : Line}
    (h : Reading u bufLen l) (hl : readLoop σ bufLen t fuel l = some l') :
    Ended σ u bufLen t l' := by
  induction fuel generalizing l with
  | zero => exact absurd hl (by simp [readLoop])
  | succ fuel ih =>
    obtain ⟨hfull, heq⟩ | ⟨hpos, hpast, heq⟩ | ⟨hpos, hclock, v, hv, -, -, hround⟩ :=
      @readLoop_succ σ bufLen t fuel l
    · obtain rfl := Option.some.inj (heq.symm.trans hl)
      exact ⟨h.stores, h.accounted, Or.inl hfull⟩
    · obtain rfl := Option.some.inj (heq.symm.trans hl)
      exact ⟨h.stores, h.accounted.trans (wait_accounted _),
        Or.inr (Or.inl ⟨l.uart.now, Nat.lt_succ_self _, hpast⟩)⟩
    · obtain ⟨htalk, heq⟩ | ⟨data, hdata, htalk, heq⟩ | ⟨htalk, heq⟩ := hround
      · obtain rfl := Option.some.inj (heq.symm.trans hl)
        exact store_terminated h hpos htalk hv
      · exact ih (store_reading h hpos hdata htalk hv) (heq.symm.trans hl)
      · refine ih (l := { l with uart := v }) ⟨?_, h.noCr, h.stores, h.accounted.trans hv⟩
          (heq.symm.trans hl)
        exact htalk.trans h.talk

theorem readLoop_terminates {bufLen t : UInt32} {k fuel : ℕ} (hk : t ≤ σ.clock k) {l : Line}
    (hfuel : k < l.uart.now + fuel) (hpos : 0 < fuel) :
    ∃ l', readLoop σ bufLen t fuel l = some l' ∧
      l'.uart.now ≤ max (k + 3) (l.uart.now + 1) := by
  induction fuel generalizing l with
  | zero => exact absurd hpos (lt_irrefl 0)
  | succ fuel ih =>
    obtain ⟨-, heq⟩ | ⟨-, -, heq⟩ | ⟨-, hclock, v, -, hlow, hhigh, hround⟩ :=
      @readLoop_succ σ bufLen t fuel l
    · exact ⟨l, heq, by omega⟩
    · exact ⟨_, heq, by rw [wait_now]; omega⟩
    · have hbefore : l.uart.now < k := by
        by_contra hlate
        have hle := σ.nondecreasing k l.uart.now (not_lt.mp hlate)
        exact absurd (UInt32.lt_of_lt_of_le hclock hk) (UInt32.not_lt.mpr hle)
      have hnext (l₁ : Line) (hl₁ : l₁.uart = v)
          (heq : readLoop σ bufLen t (fuel + 1) l = readLoop σ bufLen t fuel l₁) :
          ∃ l', readLoop σ bufLen t (fuel + 1) l = some l' ∧
            l'.uart.now ≤ max (k + 3) (l.uart.now + 1) := by
        obtain ⟨l', hl', hnow⟩ := ih (l := l₁) (by rw [hl₁]; omega) (by omega)
        rw [hl₁] at hnow
        exact ⟨l', heq.trans hl', by omega⟩
      obtain ⟨-, heq⟩ | ⟨data, -, -, heq⟩ | ⟨-, heq⟩ := hround
      · refine ⟨_, heq, ?_⟩
        change v.now ≤ _
        omega
      · exact hnext _ rfl heq
      · exact hnext _ rfl heq

theorem toInt32_of_nonneg {v : UInt32} (h : 0 ≤ toInt32 v) : toInt32 v = v.toNat := by
  have hbound := v.toNat_lt
  rw [toInt32] at h ⊢
  split_ifs at h ⊢ with hsmall
  · rfl
  · omega

theorem conclude_spec {u : Uart} {bufLen t : UInt32} {l : Line} (h : Ended σ u bufLen t l) :
    (∀ k ∈ (conclude σ bufLen t l).line.stores, k < bufLen.toNat) ∧
      Accounted u (conclude σ bufLen t l).line.uart ∧
      (0 ≤ (conclude σ bufLen t l).result →
        ∃ line : List UInt8, (line.length : ℤ) = (conclude σ bufLen t l).result ∧
          line.length < bufLen.toNat ∧ Terminated u (conclude σ bufLen t l).line line) := by
  have hwaited := h.accounted.trans (@wait_accounted σ l.uart)
  by_cases hfull : bufLen ≤ l.pos
  · rw [conclude, if_pos hfull]
    have hneg : ¬ (0 : ℤ) ≤ errorBufTooSmall := by decide
    exact ⟨h.stores, h.accounted, fun hnonneg => absurd hnonneg hneg⟩
  by_cases hpast : t ≤ σ.clock l.uart.now
  · have hresult : conclude σ bufLen t l =
        ⟨errorTimeout, { l with uart := wait σ l.uart }⟩ := by
      rw [conclude, if_neg hfull]
      exact if_pos hpast
    rw [hresult]
    have hneg : ¬ (0 : ℤ) ≤ errorTimeout := by decide
    exact ⟨h.stores, hwaited, fun hnonneg => absurd hnonneg hneg⟩
  · have hresult : conclude σ bufLen t l =
        ⟨toInt32 l.pos, { l with uart := wait σ l.uart }⟩ := by
      rw [conclude, if_neg hfull]
      exact if_neg hpast
    rw [hresult]
    refine ⟨h.stores, hwaited, fun hnonneg => ?_⟩
    obtain hfull' | ⟨k, hk, htk⟩ | ⟨line, hlen, hcr, hslice, hnul, htalk⟩ := h.reason
    · exact absurd hfull' hfull
    · exact absurd (UInt32.le_trans htk (σ.nondecreasing k _ hk.le)) hpast
    · refine ⟨line, ?_, ?_, hlen, hcr, hslice, hnul, ?_⟩
      · rw [toInt32_of_nonneg hnonneg, hlen]
      · rw [hlen]
        exact UInt32.lt_iff_toNat_lt.mp (UInt32.not_le.mp hfull)
      · exact (wait_talk l.uart).trans htalk

theorem readLine_ended {fuel : ℕ} {u : Uart} {buf : ℕ → UInt8} {bufLen timeout : UInt32}
    {r : Reply} (h : readLine σ fuel u buf bufLen timeout = some r) :
    ∃ l, Ended σ u bufLen (σ.clock u.now + timeout) l ∧
      r = conclude σ bufLen (σ.clock u.now + timeout) l := by
  obtain ⟨l, hl, hr⟩ := Option.map_eq_some_iff.mp h
  refine ⟨l, readLoop_ended ⟨?_, ?_, ?_, wait_accounted u⟩ hl, hr.symm⟩
  · exact (wait_talk u).trans (List.append_nil _).symm
  · exact List.not_mem_nil
  · exact fun k hk => absurd hk List.not_mem_nil

theorem readLine_spec {fuel : ℕ} {u : Uart} {buf : ℕ → UInt8} {bufLen timeout : UInt32}
    {r : Reply} (h : readLine σ fuel u buf bufLen timeout = some r) :
    (∀ k ∈ r.line.stores, k < bufLen.toNat) ∧ Accounted u r.line.uart ∧
      (0 ≤ r.result → ∃ line : List UInt8, (line.length : ℤ) = r.result ∧
        line.length < bufLen.toNat ∧ Terminated u r.line line) := by
  obtain ⟨l, hended, rfl⟩ := readLine_ended h
  exact conclude_spec hended

theorem conclude_now (bufLen t : UInt32) (l : Line) :
    (conclude σ bufLen t l).line.uart.now ≤ l.uart.now + 1 := by
  by_cases hfull : bufLen ≤ l.pos
  · rw [conclude, if_pos hfull]
    exact Nat.le_succ _
  · rw [conclude, if_neg hfull]
    simp only
    split_ifs
    · exact le_refl _
    · exact le_refl _

theorem readLine_terminates (u : Uart) (buf : ℕ → UInt8) (bufLen : UInt32) {timeout : UInt32}
    {k fuel : ℕ} (hk : σ.clock u.now + timeout ≤ σ.clock k) (hfuel : k ≤ u.now + fuel)
    (hpos : 0 < fuel) :
    ∃ r, readLine σ fuel u buf bufLen timeout = some r ∧
      r.line.uart.now ≤ max k u.now + 4 := by
  have hnext : (wait σ u).now = u.now + 1 := wait_now u
  obtain ⟨l, hl, hnow⟩ : ∃ l, readLoop σ bufLen (σ.clock u.now + timeout) fuel
      ⟨wait σ u, buf, 0, []⟩ = some l ∧ l.uart.now ≤ max (k + 3) ((wait σ u).now + 1) :=
    readLoop_terminates hk (by change k < (wait σ u).now + fuel; omega) hpos
  refine ⟨conclude σ bufLen (σ.clock u.now + timeout) l, ?_, ?_⟩
  · rw [readLine]
    simp only [timeGet, hl, Option.map_some]
  · have hlast := @conclude_now σ bufLen (σ.clock u.now + timeout) l
    rw [wait_now] at hnow
    omega

section Acknowledged

/-- A reply line that says `OK` up to its first NUL. -/
def SaysOk (line : List UInt8) : Prop := cr ∉ line ∧ line.takeWhile (· ≠ 0) = respOk

def exchange (command : List (List UInt8)) (line : List UInt8) : List Talk :=
  command.map .sent ++ (line ++ [cr]).map .handed

/-- The commands were sent in this order, each acknowledged before the next, and nothing else was
sent or handed over. -/
def Acknowledged (commands : List (List (List UInt8))) (u u' : Uart) : Prop :=
  ∃ lines : List (List UInt8), lines.length = commands.length ∧ (∀ line ∈ lines, SaysOk line) ∧
    u'.talk = u.talk ++ (List.zipWith exchange commands lines).flatten

theorem strEq_iff {s : List UInt8} (hs : 0 ∉ s) {buf : ℕ → UInt8} {n : ℕ} (hnul : buf n = 0) :
    strEq s buf = true ↔ (slice buf n).takeWhile (· ≠ 0) = s := by
  induction s generalizing buf n with
  | nil =>
    cases n with
    | zero => simp [strEq, hnul]
    | succ n => rw [slice_cons]; simp [strEq, List.takeWhile_cons]
  | cons c s ih =>
    obtain ⟨hc, hrest⟩ := not_or.mp (mt List.mem_cons.mpr hs)
    cases n with
    | zero =>
      have hne : ¬ buf 0 = c := fun h => hc (hnul.symm.trans h)
      simp [strEq, hne]
    | succ n =>
      have htail : (fun k => buf (k + 1)) = shift buf 1 := by
        funext k
        rw [shift, Nat.add_comm]
      have hnul' : shift buf 1 n = 0 := by rw [shift, Nat.add_comm]; exact hnul
      rw [slice_cons, htail, strEq, Bool.and_eq_true, decide_eq_true_iff, ih hrest hnul',
        List.takeWhile_cons]
      by_cases hzero : buf 0 = 0
      · simp [hzero, hc]
      · simp [hzero]

theorem Acknowledged.trans {cs ds : List (List (List UInt8))} {u v w : Uart}
    (h : Acknowledged cs u v) (h' : Acknowledged ds v w) : Acknowledged (cs ++ ds) u w := by
  obtain ⟨ls, hlen, hok, htalk⟩ := h
  obtain ⟨ms, hlen', hok', htalk'⟩ := h'
  refine ⟨ls ++ ms, by rw [List.length_append, List.length_append, hlen, hlen'], ?_, ?_⟩
  · intro line hline
    exact (List.mem_append.mp hline).elim (hok line) (hok' line)
  · rw [htalk', htalk, List.zipWith_append hlen.symm, List.flatten_append, List.append_assoc]

theorem readLine_acknowledges {fuel : ℕ} {u v : Uart} {command : List (List UInt8)}
    (hsent : v.talk = u.talk ++ command.map .sent) {buf : ℕ → UInt8} {bufLen timeout : UInt32}
    {r : Reply} (h : readLine σ fuel v buf bufLen timeout = some r) (hresult : ¬ r.result < 0)
    (hok : strEq respOk r.line.buf = true) : Acknowledged [command] u r.line.uart := by
  obtain ⟨line, -, -, -, hcr, hslice, hnul, htalk⟩ := (readLine_spec h).2.2 (not_lt.mp hresult)
  have hline := (strEq_iff (by decide) hnul).mp hok
  rw [hslice] at hline
  refine ⟨[line], rfl, fun l hl => ?_, ?_⟩
  · rw [List.mem_singleton.mp hl]
    exact ⟨hcr, hline⟩
  · rw [htalk, hsent, List.append_assoc]
    simp [exchange]

structure Conducts (commands : List (List (List UInt8))) (u : Uart) (a : Answer) : Prop where
  accounted : Accounted u a.uart
  acknowledged : a.err = .ok → Acknowledged commands u a.uart

theorem conducts_of_error {commands : List (List (List UInt8))} {u v : Uart} {err : ErrorT}
    (herr : err ≠ .ok) (h : Accounted u v) : Conducts commands u ⟨err, v⟩ :=
  ⟨h, fun hok => absurd hok herr⟩

theorem commandMode_conducts {fuel : ℕ} {u : Uart} {a : Answer}
    (h : commandMode σ fuel u = some a) :
    Conducts [[text ['+', '+', '+']]] u a := by
  obtain ⟨r, hr, rfl⟩ := Option.map_eq_some_iff.mp h
  have haccounted := (sendString_accounted (text ['+', '+', '+']) u).trans (readLine_spec hr).2.1
  split_ifs with hneg hstr
  · exact conducts_of_error (by decide) haccounted
  · exact conducts_of_error (by decide) haccounted
  · exact ⟨haccounted, fun _ =>
      readLine_acknowledges rfl hr hneg (Bool.not_eq_false _ ▸ hstr)⟩

theorem atSet_conducts {fuel : ℕ} {u : Uart} {atCmd : List UInt8} {a : Answer}
    (h : atSet σ fuel u atCmd = some a) : Conducts [[atCmd, xbeeEndCmd]] u a := by
  obtain ⟨b, hb, rfl⟩ := Option.map_eq_some_iff.mp h
  obtain ⟨r, hr, rfl⟩ := Option.map_eq_some_iff.mp hb
  have haccounted := ((sendString_accounted atCmd u).trans
    (sendString_accounted xbeeEndCmd _)).trans (readLine_spec hr).2.1
  have hsent : (rfUartSendString σ xbeeEndCmd (rfUartSendString σ atCmd u)).talk =
      u.talk ++ [atCmd, xbeeEndCmd].map .sent := List.append_assoc ..
  by_cases hneg : r.result < 0
  · simp only [if_pos hneg]
    exact conducts_of_error (by decide) haccounted
  · simp only [if_neg hneg]
    split_ifs with hstr
    · exact conducts_of_error (by decide) haccounted
    · exact ⟨haccounted, fun _ =>
        readLine_acknowledges hsent hr hneg (Bool.not_eq_false _ ▸ hstr)⟩

theorem orBreak_conducts {cs ds : List (List (List UInt8))} {u : Uart} {o : Option Answer}
    {next : Uart → Option Answer} (hfirst : ∀ a, o = some a → Conducts cs u a)
    (hnext : ∀ v a, next v = some a → Conducts ds v a) :
    ∀ a, orBreak o next = some a → Conducts (cs ++ ds) u a := by
  intro a ha
  obtain ⟨b, hb, hba⟩ := Option.bind_eq_some_iff.mp ha
  have hconducts := hfirst b hb
  split_ifs at hba with hok
  · have hthen := hnext b.uart a hba
    exact ⟨hconducts.accounted.trans hthen.accounted,
      fun herr => (hconducts.acknowledged hok).trans (hthen.acknowledged herr)⟩
  · obtain rfl := Option.some.inj hba
    exact ⟨hconducts.accounted, fun herr => absurd herr hok⟩

def setCommands (coordinator : Bool) : List (List UInt8) :=
  [text ['A', 'T', 'I', 'D', 'E', 'A', 'E', 'A'], text ['A', 'T', 'M', 'Y', 'F', 'F', 'F', 'E']] ++
    (if coordinator then
      [text ['A', 'T', 'A', '2', '4'], text ['A', 'T', 'C', 'E', '1']]
    else [text ['A', 'T', 'A', '1', '4']]) ++
    [text ['A', 'T', 'A', 'P', '1']]

def initCommands (coordinator : Bool) : List (List (List UInt8)) :=
  [text ['+', '+', '+']] :: (setCommands coordinator).map fun cmd => [cmd, xbeeEndCmd]

theorem xbeeInit_conducts {fuel : ℕ} {coordinator : Bool} {callbacks : Callb} {x : XbeeState}
    {u : Uart} {a : Answer} (h : (xbeeInit σ fuel coordinator callbacks x u).2 = some a) :
    Conducts (initCommands coordinator) u a := by
  have hset (cmd : List UInt8) : ∀ v b, atSet σ fuel v cmd = some b →
      Conducts [[cmd, xbeeEndCmd]] v b := fun _ _ => atSet_conducts
  have hmode : ∀ b, commandMode σ fuel u = some b → Conducts [[text ['+', '+', '+']]] u b :=
    fun _ => commandMode_conducts
  cases coordinator with
  | true =>
    exact orBreak_conducts (orBreak_conducts (orBreak_conducts (orBreak_conducts
      (orBreak_conducts hmode (hset _)) (hset _)) (hset _)) (hset _)) (hset _) a h
  | false =>
    exact orBreak_conducts (orBreak_conducts (orBreak_conducts (orBreak_conducts hmode (hset _))
      (hset _)) (hset _)) (hset _) a h

end Acknowledged

section Received
variable {u : Uart}

/-- The bytes received, those queued at the call and those that arrive, begin with a line and a
carriage return: the line is in the buffer, terminated, and the rest is queued. -/
def ReadExactly (u : Uart) (bufLen : UInt32) (r : Reply) : Prop :=
  ∃ line as : List UInt8, r.line.uart.arrived = u.arrived ++ as ∧
    queued u ++ as = line ++ cr :: queued r.line.uart ∧ cr ∉ line ∧
    (line.length : ℤ) = r.result ∧ line.length < bufLen.toNat ∧
    slice r.line.buf line.length = line ∧ r.line.buf line.length = 0

/-- The commands were sent, and the bytes received are the lines that acknowledge them in their
order, and what is queued. -/
def AcknowledgedExactly (commands : List (List (List UInt8))) (u u' : Uart) : Prop :=
  ∃ lines : List (List UInt8), ∃ as : List UInt8, u'.arrived = u.arrived ++ as ∧
    queued u ++ as = (lines.map (· ++ [cr])).flatten ++ queued u' ∧
    lines.length = commands.length ∧ (∀ line ∈ lines, SaysOk line) ∧
    u'.talk = u.talk ++ (List.zipWith exchange commands lines).flatten

theorem handed_sent (texts : List (List UInt8)) : handed (texts.map Talk.sent) = [] := by
  induction texts with
  | nil => rfl
  | cons text texts ih => exact ih

theorem handed_exchange {commands : List (List (List UInt8))} {lines : List (List UInt8)}
    (h : lines.length = commands.length) :
    handed (List.zipWith exchange commands lines).flatten = (lines.map (· ++ [cr])).flatten := by
  induction lines generalizing commands with
  | nil => rw [List.zipWith_nil_right]; rfl
  | cons line lines ih =>
    cases commands with
    | nil => exact absurd h (Nat.succ_ne_zero _)
    | cons command commands =>
      rw [List.zipWith_cons_cons, List.flatten_cons, handed_append, ih (Nat.succ.inj h), exchange,
        handed_append, handed_sent, handed_map, List.map_cons, List.flatten_cons]
      rfl

theorem readExactly_iff {fuel : ℕ} {buf : ℕ → UInt8} {bufLen timeout : UInt32} {r : Reply}
    (h : readLine σ fuel u buf bufLen timeout = some r) (hresult : 0 ≤ r.result) :
    ReadExactly u bufLen r ↔ r.line.uart.overflows = u.overflows := by
  obtain ⟨-, haccounted, hline⟩ := readLine_spec h
  obtain ⟨line, hlen, hfits, -, hcr, hslice, hnul, htalk⟩ := hline hresult
  rw [← haccounted.exact_iff]
  constructor
  · rintro ⟨line', as, harrived, hall, -, hlen', -, hslice', -⟩
    have hlines : line' = line := by
      have hlength : line'.length = line.length := Int.ofNat_inj.mp (hlen'.trans hlen.symm)
      rw [← hslice', ← hslice, hlength]
    subst hlines
    refine ⟨as, (line' ++ [cr]).map .handed, ⟨harrived, htalk⟩, ?_⟩
    rw [hall, handed_map, List.append_assoc]
    rfl
  · rintro ⟨as, ts, hbetween, hall⟩
    have hts : ts = (line ++ [cr]).map .handed :=
      List.append_cancel_left (hbetween.talk.symm.trans htalk)
    subst hts
    rw [handed_map, List.append_assoc] at hall
    exact ⟨line, as, hbetween.arrived, hall, hcr, hlen, hfits, hslice, hnul⟩

theorem Conducts.exactly_iff {commands : List (List (List UInt8))} {a : Answer}
    (h : Conducts commands u a) (hok : a.err = .ok) :
    AcknowledgedExactly commands u a.uart ↔ a.uart.overflows = u.overflows := by
  rw [← h.accounted.exact_iff]
  constructor
  · rintro ⟨lines, as, harrived, hall, hlen, -, htalk⟩
    refine ⟨as, _, ⟨harrived, htalk⟩, ?_⟩
    rw [handed_exchange hlen]
    exact hall
  · rintro ⟨as, ts, hbetween, hall⟩
    obtain ⟨lines, hlen, hsays, htalk⟩ := h.acknowledged hok
    have hts := List.append_cancel_left (hbetween.talk.symm.trans htalk)
    subst hts
    rw [handed_exchange hlen] at hall
    exact ⟨lines, as, hbetween.arrived, hall, hlen, hsays, htalk⟩

/-- An answer without an error says that the commands were acknowledged by what was handed over,
and by what was received if and only if no byte has found the queue full. -/
structure Answered (commands : List (List (List UInt8))) (u : Uart) (a : Answer) : Prop where
  acknowledged : a.err = .ok → Acknowledged commands u a.uart
  exactly : (a.err = .ok → AcknowledgedExactly commands u a.uart) ↔
    (a.err = .ok → a.uart.overflows = u.overflows)

theorem Conducts.answered {commands : List (List (List UInt8))} {a : Answer}
    (h : Conducts commands u a) : Answered commands u a :=
  ⟨h.acknowledged, forall_congr' fun hok => h.exactly_iff hok⟩

end Received

/-- At every schedule and from every state of the UART: `readLine` ends once the clock has reached
the deadline and stores only into its buffer; a result that is no error is the line handed over in
front of the first carriage return; and it is the line received, and the commands are acknowledged
by the lines received, if and only if none of the bytes that arrive during the call finds 255
others pending. -/
theorem at_replies_read_iff (σ : Schedule) (u : Uart) :
    (∀ buf bufLen timeout k fuel, σ.clock u.now + timeout ≤ σ.clock k → k ≤ u.now + fuel →
      0 < fuel → ∃ r, readLine σ fuel u buf bufLen timeout = some r ∧
        r.line.uart.now ≤ max k u.now + 4) ∧
    (∀ fuel buf bufLen timeout r, readLine σ fuel u buf bufLen timeout = some r →
      (∀ j ∈ r.line.stores, j < bufLen.toNat) ∧
      (0 ≤ r.result → ∃ line : List UInt8, (line.length : ℤ) = r.result ∧
        line.length < bufLen.toNat ∧ Terminated u r.line line) ∧
      ((0 ≤ r.result → ReadExactly u bufLen r) ↔
        (0 ≤ r.result → r.line.uart.overflows = u.overflows))) ∧
    (∀ fuel a, commandMode σ fuel u = some a → Answered [[text ['+', '+', '+']]] u a) ∧
    (∀ fuel atCmd a, atSet σ fuel u atCmd = some a → Answered [[atCmd, xbeeEndCmd]] u a) ∧
    ∀ fuel coordinator callbacks x a, (xbeeInit σ fuel coordinator callbacks x u).2 = some a →
      Answered (initCommands coordinator) u a := by
  refine ⟨fun buf bufLen timeout k fuel hk hfuel hpos => ?_, fun fuel buf bufLen timeout r hr => ?_,
    fun fuel a ha => ?_, fun fuel atCmd a ha => ?_, fun fuel coordinator callbacks x a ha => ?_⟩
  · exact readLine_terminates u buf bufLen hk hfuel hpos
  · obtain ⟨hstores, -, hline⟩ := readLine_spec hr
    exact ⟨hstores, hline, forall_congr' fun hresult => readExactly_iff hr hresult⟩
  · exact (commandMode_conducts ha).answered
  · exact (atSet_conducts ha).answered
  · exact (xbeeInit_conducts ha).answered

def powerUp : Uart := ⟨0, RxQueue.start, [], 0, []⟩

def atOnce (bytes : List UInt8) : Schedule :=
  ⟨fun k => if k = 0 then bytes else [], fun _ => 0, fun _ _ _ => UInt32.le_refl 0, fun _ _ => 0⟩

def acknowledged : Option Answer :=
  (xbeeInit (atOnce (List.replicate 6 (respOk ++ [cr])).flatten) 4 true ⟨true, true, true, true⟩
    (start ⟨true, true, true, true⟩ true) powerUp).2

theorem at_replies_read_coordinator : ∃ a, acknowledged = some a ∧ a.err = .ok ∧
    AcknowledgedExactly (initCommands true) powerUp a.uart := by
  obtain ⟨-, -, -, -, hinit⟩ :=
    at_replies_read_iff (atOnce (List.replicate 6 (respOk ++ [cr])).flatten) powerUp
  have hcall : acknowledged.map (fun a => (a.err, a.uart.overflows)) = some (.ok, 0) := by
    decide +kernel
  obtain ⟨a, ha, hfields⟩ := Option.map_eq_some_iff.mp hcall
  obtain ⟨hok, hoverflows⟩ := Prod.mk.inj hfields
  exact ⟨a, ha, hok, (hinit 4 true _ _ a ha).exactly.mpr (fun _ => hoverflows) hok⟩

/-- Of 256 bytes and an `OK` behind them only the `OK` is read. -/
theorem reply_read_without_its_beginning :
    ∃ r, readLine (atOnce (List.replicate 256 0x78 ++ respOk ++ [cr])) 4 powerUp (fun _ => 0) 10
        1200 = some r ∧ r.result = 2 ∧ slice r.line.buf 2 = respOk ∧
      ¬ ReadExactly powerUp 10 r := by
  have hcall : (readLine (atOnce (List.replicate 256 0x78 ++ respOk ++ [cr])) 4 powerUp
      (fun _ => 0) 10 1200).map (fun r =>
        (r.result, r.line.uart.arrived.length, slice r.line.buf 2)) =
      some (2, 259, respOk) := by decide +kernel
  obtain ⟨r, hr, hfields⟩ := Option.map_eq_some_iff.mp hcall
  obtain ⟨hresult, hreceived, hbuf⟩ : r.result = 2 ∧ r.line.uart.arrived.length = 259 ∧
      slice r.line.buf 2 = respOk := by simpa using hfields
  refine ⟨r, hr, hresult, hbuf, ?_⟩
  -- of 259 bytes, 3 would be read and 256 queued, one more than the queue holds
  rintro ⟨line, as, harrived, hall, -, hlen, -⟩
  have hpending : (queued r.line.uart).length < 256 := content_length_lt r.line.uart.queue
  have hcount := congrArg List.length hall
  rw [show r.line.uart.arrived = as from harrived] at hreceived
  rw [show queued powerUp = [] from rfl, List.nil_append, List.length_append,
    List.length_cons, hreceived] at hcount
  omega

end AoaBoard.Xbee.AtCommands
