import AoaBoard.Can.Gateway

/-!
# Frames arriving at the two controllers

A controller keeps the frames that have arrived and were not released, the
oldest one in its receive registers. As long as there is one, bit 0 of its
interrupt and of its status register is set; the other bits, and the registers
of a controller without a frame, are arbitrary. The release command removes the
oldest frame. `passed` records the messages given to `q_put` for the frames of
each controller.
-/

namespace AoaBoard.Can.Arrivals
open Library Library.Run Gateway

inductive Controller
  | can1
  | can2
  deriving DecidableEq

structure Frame where
  rfs : UInt32
  rid : UInt32
  rda : UInt32
  rdb : UInt32

structure Board where
  gateway : Gateway.State
  pending : Controller → List Frame
  arrived : Controller → List Frame
  passed : Controller → List CanMsg

/-- An interrupt carries the other bits of the interrupt and status registers, and what the
receive registers hold without a frame. -/
inductive Event
  | arrive (c : Controller) (f : Frame)
  | irq (icr sr : Controller → UInt32) (old : Controller → Frame)
  | tick (sr gsr now : UInt32)

def ready (b : Board) (c : Controller) : Bool := !(b.pending c).isEmpty

def regs (b : Board) (sr : Controller → UInt32) (old : Controller → Frame) (c : Controller) :
    RxRegs :=
  let f := (b.pending c).headD (old c)
  ⟨setFlag 1 (sr c) (ready b c), f.rfs, f.rid, f.rda, f.rdb⟩

def served (icr : Controller → UInt32) : Option Controller :=
  if icr .can1 &&& 0x01 ≠ 0 then some .can1
  else if icr .can2 &&& 0x01 ≠ 0 then some .can2
  else none

def interrupt (b : Board) (icr : Controller → UInt32) (can : Controller → RxRegs) : Board :=
  let g := (Gateway.step b.gateway (.irq (icr .can1) (icr .can2) (can .can1) (can .can2))).1
  match served icr with
  | none => { b with gateway := g }
  | some c =>
    { b with
      gateway := g
      passed := Function.update b.passed c (b.passed c ++ [g.rxMsg])
      pending :=
        if (canReceiveMsg (can c) b.gateway.rxMsg).released then
          Function.update b.pending c (b.pending c).tail
        else b.pending }

def step (b : Board) : Event → Board × List (CanMsg × Bool)
  | .arrive c f =>
    ({ b with pending := Function.update b.pending c (b.pending c ++ [f])
              arrived := Function.update b.arrived c (b.arrived c ++ [f]) }, [])
  | .irq icr sr old =>
    (interrupt b (fun c => setFlag 1 (icr c) (ready b c)) (regs b sr old), [])
  | .tick sr gsr now =>
    let r := Gateway.step b.gateway (.tick sr gsr now)
    ({ b with gateway := r.1 }, r.2)

def powerUp (can2 : Fin 3 → TxRegs) : Board :=
  ⟨Gateway.powerUp can2, fun _ => [], fun _ => [], fun _ => []⟩

/-- The message is that of the frame; a remote frame has no data bytes. -/
structure Carries (f : Frame) (m : CanMsg) : Prop where
  id : m.id = f.rid
  len : m.len = frameLen f.rfs
  type : m.type = frameType f.rfs
  format : m.format = frameFormat f.rfs
  data : frameType f.rfs = dataFrame → m.dataA = dataBytes f.rda ∧ m.dataB = dataBytes f.rdb

/-- Of the frames that have arrived at each controller, those released were passed to
`q_put` once each, in order, and no other message was. -/
def Exact (b : Board) : Prop :=
  ∀ c, ∃ done, b.arrived c = done ++ b.pending c ∧ List.Forall₂ Carries done (b.passed c)

def next (b : Board) : Option Controller :=
  if b.pending .can1 ≠ [] then some .can1
  else if b.pending .can2 ≠ [] then some .can2
  else none

def ReadsData (b : Board) : Event → Prop
  | .irq _ _ _ => ∀ c ∈ next b, ∀ f ∈ (b.pending c).head?, frameType f.rfs = dataFrame
  | _ => True

theorem setFlag_ready (b : Board) (c : Controller) (other : UInt32) :
    setFlag 1 other (ready b c) &&& 0x01 ≠ 0 ↔ b.pending c ≠ [] := by
  rw [setFlag_and_self, ready]
  cases b.pending c <;> simp

theorem served_ready (b : Board) (icr : Controller → UInt32) :
    served (fun c => setFlag 1 (icr c) (ready b c)) = next b := by
  simp only [served, setFlag_ready, next]

theorem next_pending {b : Board} {c : Controller} (h : next b = some c) : b.pending c ≠ [] := by
  unfold next at h
  split_ifs at h with h₁ h₂
  · cases h
    exact h₁
  · cases h
    exact h₂

theorem interrupt_served {g : Gateway.State} {icr : Controller → UInt32} {c : Controller}
    (h : served icr = some c) (can : Controller → RxRegs) :
    (Gateway.step g (.irq (icr .can1) (icr .can2) (can .can1) (can .can2))).1 =
      receive g (can c) := by
  unfold served at h
  split_ifs at h with h₁ h₂
  · cases h
    simp only [Gateway.step, canIrqHandler, if_pos h₁]
  · cases h
    simp only [Gateway.step, canIrqHandler, if_neg h₁, if_pos h₂]

theorem canReceiveMsg_frame {can : RxRegs} (hsr : can.sr &&& 1 ≠ 0) (old : CanMsg) :
    Carries ⟨can.rfs, can.rid, can.rda, can.rdb⟩ (canReceiveMsg can old).msg ∧
      ((canReceiveMsg can old).released = true ↔ frameType can.rfs = dataFrame) := by
  simp only [canReceiveMsg, if_pos hsr]
  split_ifs with htype
  · exact ⟨⟨rfl, rfl, rfl, rfl, fun _ => ⟨rfl, rfl⟩⟩, iff_of_true rfl htype⟩
  · exact ⟨⟨rfl, rfl, rfl, rfl, fun h => absurd h htype⟩, iff_of_false (by simp) htype⟩

theorem interrupt_none {b : Board} {icr : Controller → UInt32} (h : served icr = none)
    (can : Controller → RxRegs) :
    (interrupt b icr can).pending = b.pending ∧ (interrupt b icr can).arrived = b.arrived ∧
      (interrupt b icr can).passed = b.passed := by
  simp only [interrupt, h, and_self]

theorem irq_cases (b : Board) (icr sr : Controller → UInt32) (old : Controller → Frame) :
    let b' := (step b (.irq icr sr old)).1
    b'.arrived = b.arrived ∧
      ((next b = none ∧ b'.pending = b.pending ∧ b'.passed = b.passed) ∨
        ∃ c f rest m, next b = some c ∧ b.pending c = f :: rest ∧ Carries f m ∧
          b'.passed = Function.update b.passed c (b.passed c ++ [m]) ∧
          b'.pending =
            if frameType f.rfs = dataFrame then Function.update b.pending c rest
            else b.pending) := by
  have hserved := served_ready b icr
  simp only [step]
  cases hnext : next b with
  | none =>
    rw [hnext] at hserved
    obtain ⟨hpending, harrived, hpassed⟩ := interrupt_none (b := b) hserved (regs b sr old)
    exact ⟨harrived, Or.inl ⟨rfl, hpending, hpassed⟩⟩
  | some c =>
    rw [hnext] at hserved
    obtain ⟨f, rest, hcons⟩ := List.exists_cons_of_ne_nil (next_pending hnext)
    have hhead : regs b sr old c =
        ⟨setFlag 1 (sr c) (ready b c), f.rfs, f.rid, f.rda, f.rdb⟩ := by
      simp only [regs, hcons, List.headD_cons]
    have hbit : (regs b sr old c).sr &&& 1 ≠ 0 := by
      rw [hhead]
      exact (setFlag_ready b c (sr c)).mpr (next_pending hnext)
    obtain ⟨hcarries, hreleased⟩ := canReceiveMsg_frame hbit b.gateway.rxMsg
    rw [hhead] at hcarries hreleased
    simp only [interrupt, hserved, interrupt_served hserved, hcons, List.tail_cons, hhead,
      hreleased]
    exact ⟨trivial, Or.inr ⟨c, f, rest, _, rfl, hcons, hcarries, rfl, rfl⟩⟩

theorem exact_length {b : Board} (h : Exact b) (c : Controller) :
    (b.arrived c).length = (b.passed c).length + (b.pending c).length := by
  obtain ⟨done, harrived, hdone⟩ := h c
  rw [harrived, List.length_append, hdone.length_eq]

theorem arrive_exact {b : Board} (h : Exact b) (c : Controller) (f : Frame) :
    Exact (step b (.arrive c f)).1 := by
  intro d
  obtain ⟨done, harrived, hdone⟩ := h d
  refine ⟨done, ?_, hdone⟩
  simp only [step]
  by_cases hd : d = c
  · subst hd
    rw [Function.update_self, Function.update_self, harrived, List.append_assoc]
  · rw [Function.update_of_ne hd, Function.update_of_ne hd, harrived]

theorem exact_pass {b b' : Board} (h : Exact b) {c : Controller} {f : Frame} {rest : List Frame}
    {m : CanMsg} (hpending : b.pending c = f :: rest) (hm : Carries f m)
    (harrived' : b'.arrived = b.arrived)
    (hpassed' : b'.passed = Function.update b.passed c (b.passed c ++ [m]))
    (hpending' : b'.pending = Function.update b.pending c rest) : Exact b' := by
  intro d
  obtain ⟨done, harrived, hdone⟩ := h d
  by_cases hd : d = c
  · subst hd
    refine ⟨done ++ [f], ?_, ?_⟩
    · rw [harrived', hpending', Function.update_self, harrived, hpending, List.append_assoc]
      rfl
    · rw [hpassed', Function.update_self]
      exact List.rel_append hdone (List.Forall₂.cons hm List.Forall₂.nil)
  · refine ⟨done, ?_, ?_⟩
    · rw [harrived', hpending', Function.update_of_ne hd, harrived]
    · rw [hpassed', Function.update_of_ne hd]
      exact hdone

theorem irq_exact_iff {b : Board} (h : Exact b) (icr sr : Controller → UInt32)
    (old : Controller → Frame) :
    Exact (step b (.irq icr sr old)).1 ↔ ReadsData b (.irq icr sr old) := by
  obtain ⟨harrived', ⟨hnone, hpending', hpassed'⟩ |
    ⟨c, f, rest, m, hnext, hpending, hm, hpassed', hpending'⟩⟩ := irq_cases b icr sr old
  · refine iff_of_true (fun c => ?_) (fun c hc => by simp [hnone] at hc)
    rw [harrived', hpending', hpassed']
    exact h c
  · by_cases hdata : frameType f.rfs = dataFrame
    · rw [if_pos hdata] at hpending'
      refine iff_of_true (exact_pass h hpending hm harrived' hpassed' hpending') ?_
      intro d hd g hg
      cases hnext.symm.trans hd
      rw [hpending] at hg
      cases hg
      exact hdata
    · rw [if_neg hdata] at hpending'
      refine iff_of_false (fun hexact => ?_) (fun hread => hdata ?_)
      · have hbefore := exact_length h c
        have hafter := exact_length hexact c
        rw [harrived', hpending', hpassed', Function.update_self, List.length_append,
          List.length_singleton] at hafter
        omega
      · exact hread c hnext f (by rw [hpending]; rfl)

theorem step_exact_iff {b : Board} (h : Exact b) (e : Event) :
    Exact (step b e).1 ↔ ReadsData b e := by
  cases e with
  | arrive c f => exact iff_of_true (arrive_exact h c f) trivial
  | irq icr sr old => exact irq_exact_iff h icr sr old
  | tick sr gsr now => exact iff_of_true h trivial

theorem exact_powerUp (can2 : Fin 3 → TxRegs) : Exact (powerUp can2) :=
  fun _ => ⟨[], rfl, List.Forall₂.nil⟩

def Activation : Event → Prop
  | .irq _ _ _ => True
  | _ => False

def DataOnly (b : Board) : Prop := ∀ c, ∀ f ∈ b.pending c, frameType f.rfs = dataFrame

def waiting (b : Board) : ℕ := (b.pending .can1).length + (b.pending .can2).length

theorem waiting_eq_zero {b : Board} (h : waiting b = 0) (c : Controller) : b.pending c = [] := by
  apply List.length_eq_zero_iff.mp
  unfold waiting at h
  cases c with
  | can1 => omega
  | can2 => omega

theorem waiting_update {b b' : Board} {c : Controller} {f : Frame} {rest : List Frame}
    (h : b.pending c = f :: rest) (h' : b'.pending = Function.update b.pending c rest) :
    waiting b = waiting b' + 1 := by
  have hlen := congrArg List.length h
  rw [List.length_cons] at hlen
  cases c with
  | can1 =>
    rw [waiting, waiting, h', Function.update_self, Function.update_of_ne (by decide)]
    omega
  | can2 =>
    rw [waiting, waiting, h', Function.update_self, Function.update_of_ne (by decide)]
    omega

theorem dataOnly_update {b b' : Board} {c : Controller} {f : Frame} {rest : List Frame}
    (h : DataOnly b) (hcons : b.pending c = f :: rest)
    (h' : b'.pending = Function.update b.pending c rest) : DataOnly b' := by
  intro d g hg
  rw [h'] at hg
  by_cases hd : d = c
  · subst hd
    rw [Function.update_self] at hg
    exact h d g (by rw [hcons]; exact List.mem_cons_of_mem f hg)
  · rw [Function.update_of_ne hd] at hg
    exact h d g hg

theorem irq_waiting {b : Board} (h : DataOnly b) (icr sr : Controller → UInt32)
    (old : Controller → Frame) :
    let b' := (step b (.irq icr sr old)).1
    DataOnly b' ∧ waiting b' = waiting b - 1 := by
  obtain ⟨-, ⟨hnone, hpending', -⟩ | ⟨c, f, rest, m, -, hpending, -, -, hpending'⟩⟩ :=
    irq_cases b icr sr old
  · have hempty : waiting b = 0 := by
      unfold next at hnone
      split_ifs at hnone with h₁ h₂
      rw [waiting, not_not.mp h₁, not_not.mp h₂]
      rfl
    have hsame : waiting (step b (.irq icr sr old)).1 = waiting b := by
      rw [waiting, hpending', waiting]
    refine ⟨fun c f hf => h c f (by rwa [hpending'] at hf), ?_⟩
    rw [hsame, hempty]
  · rw [if_pos (h c f (by rw [hpending]; exact List.mem_cons_self))] at hpending'
    have hcount := waiting_update hpending hpending'
    exact ⟨dataOnly_update h hpending hpending', by omega⟩

theorem drain {b : Board} (hexact : Exact b) (hdata : DataOnly b) {irqs : List Event}
    (hirqs : ∀ e ∈ irqs, Activation e) (hlen : waiting b ≤ irqs.length) (c : Controller) :
    List.Forall₂ Carries ((after step b irqs).arrived c) ((after step b irqs).passed c) := by
  induction irqs generalizing b with
  | nil =>
    obtain ⟨done, harrived, hdone⟩ := hexact c
    rw [waiting_eq_zero (Nat.le_zero.mp hlen) c, List.append_nil] at harrived
    rw [after_nil, harrived]
    exact hdone
  | cons e irqs ih =>
    have hrest := fun e' he' => hirqs e' (List.mem_cons_of_mem e he')
    have he := hirqs e List.mem_cons_self
    rw [List.length_cons] at hlen
    cases e with
    | arrive c f => exact he.elim
    | tick sr gsr now => exact he.elim
    | irq icr sr old =>
      obtain ⟨hdata', hwaiting⟩ := irq_waiting hdata icr sr old
      have hread : ReadsData b (.irq icr sr old) :=
        fun d _ f hf => hdata d f (List.mem_of_mem_head? hf)
      exact ih ((irq_exact_iff hexact icr sr old).mpr hread) hdata' hrest (by omega)

def remoteRun : List Event :=
  [.arrive .can1 ⟨0x40000000, 0x123, 0, 0⟩, .irq (fun _ => 0) (fun _ => 0) fun _ => ⟨0, 0, 0, 0⟩,
    .irq (fun _ => 0) (fun _ => 0) fun _ => ⟨0, 0, 0, 0⟩]

end AoaBoard.Can.Arrivals
