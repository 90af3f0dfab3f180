import AoaBoard.Library.Run
import AoaBoard.Library.Ring
import Mathlib.Data.UInt

/-!
# The CAN receive queue between the interrupt and the main loop

`q_put` runs whole, from the receive interrupt. `q_isEmpty` and `q_get` run in
the main loop and are cut at every access to the two indices, so that a put may
come between any two of their steps. `Traced` adds the messages accepted by
`q_put`, the messages that the pointers returned by `q_get` pointed to, and the
number of messages pending when the call under way read `rxMsgIn`.
-/

namespace AoaBoard.Can
open Library Library.Run

def numRxMsgs : ℕ := 5

structure CanMsg where
  id : UInt32
  dataA : Fin 4 → UInt8
  dataB : Fin 4 → UInt8
  len : UInt8
  format : UInt8
  type : UInt8
  deriving DecidableEq

namespace Queue

structure RxMsgs where
  rxMsgs : ℕ → CanMsg
  rxMsgIn : UInt8
  rxMsgOut : UInt8

def advance (i : UInt8) : UInt8 := UInt8.ofNat ((i.toNat + 1) % numRxMsgs)

def Full (q : RxMsgs) : Prop := q.rxMsgOut.toNat = (q.rxMsgIn.toNat + 1) % numRxMsgs

instance decidableFull (q : RxMsgs) : Decidable (Full q) :=
  inferInstanceAs (Decidable (_ = _))

def qPut (q : RxMsgs) (d : CanMsg) : RxMsgs :=
  if Full q then q
  else
    { q with rxMsgs := Function.update q.rxMsgs q.rxMsgIn.toNat d
             rxMsgIn := advance q.rxMsgIn }

inductive Result
  | empty (b : Bool)
  | null
  | msg (m : UInt8)
  deriving DecidableEq

/-- Where the main loop stands: the constructors carry the indices it has loaded. -/
inductive Pc
  | idle
  | isEmptyRead (i : UInt8)
  | getRead (i : UInt8)
  | getSlot
  | getLoad (m : UInt8)
  | getStore (m o : UInt8)
  deriving DecidableEq

structure Traced where
  queue : RxMsgs
  pc : Pc
  hand : Option UInt8
  accepted : List CanMsg
  returned : List CanMsg
  sampled : ℕ

inductive Event
  | put (d : CanMsg)
  | isEmpty
  | get
  | tick

def Event.isCall : Event → Bool
  | .isEmpty | .get => true
  | .put _ | .tick => false

def Event.isTick : Event → Bool
  | .tick => true
  | _ => false

def put (t : Traced) (d : CanMsg) : Traced :=
  { t with queue := qPut t.queue d
           accepted := if Full t.queue then t.accepted else t.accepted ++ [d] }

def call (t : Traced) (pc : UInt8 → Pc) : Traced :=
  if t.pc = .idle then
    { t with pc := pc t.queue.rxMsgIn, sampled := t.accepted.length - t.returned.length }
  else t

def tick (t : Traced) : Traced × List Result :=
  match t.pc with
  | .idle => (t, [])
  | .isEmptyRead i => ({ t with pc := .idle }, [.empty (i = t.queue.rxMsgOut)])
  | .getRead i =>
    if i = t.queue.rxMsgOut then ({ t with pc := .idle }, [.null])
    else ({ t with pc := .getSlot }, [])
  | .getSlot => ({ t with pc := .getLoad t.queue.rxMsgOut }, [])
  | .getLoad m => ({ t with pc := .getStore m t.queue.rxMsgOut }, [])
  | .getStore m o =>
    ({ t with pc := .idle, queue := { t.queue with rxMsgOut := advance o }, hand := some m
              returned := t.returned ++ [t.queue.rxMsgs m.toNat] }, [.msg m])

def step (t : Traced) : Event → Traced × List Result
  | .put d => (put t d, [])
  | .isEmpty => (call t .isEmptyRead, [])
  | .get => (call t .getRead, [])
  | .tick => tick t

def blank : CanMsg := ⟨0, fun _ => 0, fun _ => 0, 0, 0, 0⟩

def start : Traced := ⟨⟨fun _ => blank, 0, 0⟩, .idle, none, [], [], 0⟩

def content (q : RxMsgs) : List CanMsg :=
  Ring.content q.rxMsgs numRxMsgs q.rxMsgIn.toNat q.rxMsgOut.toNat

def HandKept (t : Traced) (m : UInt8) : Prop :=
  m.toNat < numRxMsgs ∧ (m.toNat + 1) % numRxMsgs = t.queue.rxMsgOut.toNat ∧
    t.returned.getLast? = some (t.queue.rxMsgs m.toNat)

def PcFacts (t : Traced) : Prop :=
  match t.pc with
  | .idle => True
  | .isEmptyRead i | .getRead i =>
    (i = t.queue.rxMsgOut ↔ t.sampled = 0) ∧ t.sampled ≤ (content t.queue).length
  | .getSlot => t.sampled ≠ 0 ∧ content t.queue ≠ []
  | .getLoad m => t.sampled ≠ 0 ∧ content t.queue ≠ [] ∧ m = t.queue.rxMsgOut
  | .getStore m o =>
    t.sampled ≠ 0 ∧ content t.queue ≠ [] ∧ m = t.queue.rxMsgOut ∧ o = t.queue.rxMsgOut

structure Inv (t : Traced) : Prop where
  inLt : t.queue.rxMsgIn.toNat < numRxMsgs
  outLt : t.queue.rxMsgOut.toNat < numRxMsgs
  linked : t.returned ++ content t.queue = t.accepted
  hand : ∀ m, t.hand = some m → HandKept t m
  facts : PcFacts t

theorem advance_toNat (i : UInt8) : (advance i).toNat = (i.toNat + 1) % numRxMsgs := by
  have hlt : (i.toNat + 1) % numRxMsgs < numRxMsgs := Nat.mod_lt _ (by decide)
  simp only [advance, UInt8.toNat_ofNat', numRxMsgs] at hlt ⊢
  omega

theorem inv_start : Inv start := ⟨by decide, by decide, rfl, nofun, trivial⟩

theorem Inv.pending {t : Traced} (h : Inv t) :
    t.accepted.length = t.returned.length + (content t.queue).length := by
  rw [← h.linked, List.length_append]

theorem Inv.capacity {t : Traced} (h : Inv t) :
    t.accepted.length ≤ t.returned.length + (numRxMsgs - 1) := by
  have hlt : (content t.queue).length < numRxMsgs := by
    rw [content, Ring.content_length]
    exact Ring.held_lt (by decide) _ _
  have hp := h.pending
  omega

theorem put_full {t : Traced} (hfull : Full t.queue) (d : CanMsg) : put t d = t := by
  simp only [put, qPut, if_pos hfull]

theorem pending_of_full {t : Traced} (h : Inv t) (hfull : Full t.queue) :
    t.accepted.length = t.returned.length + (numRxMsgs - 1) := by
  rw [h.pending, content, Ring.content_length, Ring.held_full h.inLt hfull]

theorem content_put {t : Traced} (h : Inv t) (hfull : ¬ Full t.queue) (d : CanMsg) :
    content (put t d).queue = content t.queue ++ [d] := by
  simp only [content, put, qPut, if_neg hfull, advance_toNat]
  exact Ring.content_push _ d h.inLt h.outLt hfull

theorem put_rxMsgOut (t : Traced) (d : CanMsg) :
    (put t d).queue.rxMsgOut = t.queue.rxMsgOut := by
  by_cases hfull : Full t.queue
  · rw [put_full hfull]
  · simp only [put, qPut, if_neg hfull]

theorem put_hand {t : Traced} (h : Inv t) (d : CanMsg) {m : UInt8} (hm : t.hand = some m) :
    (put t d).queue.rxMsgs m.toNat = t.queue.rxMsgs m.toNat := by
  by_cases hfull : Full t.queue
  · rw [put_full hfull]
  · obtain ⟨-, hnext, -⟩ := h.hand m hm
    have hne : m.toNat ≠ t.queue.rxMsgIn.toNat := fun he => hfull (by rw [Full, ← hnext, he])
    simp only [put, qPut, if_neg hfull]
    exact Function.update_of_ne hne _ _

theorem put_facts {t : Traced} (h : Inv t) (hfull : ¬ Full t.queue) (d : CanMsg) :
    PcFacts (put t d) := by
  have hfacts := h.facts
  have hpc : (put t d).pc = t.pc := rfl
  have hs : (put t d).sampled = t.sampled := rfl
  have hc := content_put h hfull d
  have hne : content (put t d).queue ≠ [] := by
    rw [hc]
    simp
  cases hp : t.pc with
  | idle => simp only [PcFacts, hpc, hp]
  | isEmptyRead i =>
    simp only [PcFacts, hp] at hfacts
    simp only [PcFacts, hpc, hp, put_rxMsgOut, hs, hc, List.length_append]
    exact ⟨hfacts.1, by omega⟩
  | getRead i =>
    simp only [PcFacts, hp] at hfacts
    simp only [PcFacts, hpc, hp, put_rxMsgOut, hs, hc, List.length_append]
    exact ⟨hfacts.1, by omega⟩
  | getSlot =>
    simp only [PcFacts, hp] at hfacts
    simpa only [PcFacts, hpc, hp, hs] using ⟨hfacts.1, hne⟩
  | getLoad m =>
    simp only [PcFacts, hp] at hfacts
    simpa only [PcFacts, hpc, hp, hs, put_rxMsgOut] using ⟨hfacts.1, hne, hfacts.2.2⟩
  | getStore m o =>
    simp only [PcFacts, hp] at hfacts
    simpa only [PcFacts, hpc, hp, hs, put_rxMsgOut] using ⟨hfacts.1, hne, hfacts.2.2⟩

theorem put_inv {t : Traced} (h : Inv t) (d : CanMsg) : Inv (put t d) := by
  by_cases hfull : Full t.queue
  · rw [put_full hfull]
    exact h
  · refine ⟨?_, ?_, ?_, fun m hm => ?_, put_facts h hfull d⟩
    · simp only [put, qPut, if_neg hfull, advance_toNat]
      exact Nat.mod_lt _ (by decide)
    · rw [put_rxMsgOut]
      exact h.outLt
    · rw [content_put h hfull d, ← List.append_assoc]
      simp only [put, if_neg hfull, h.linked]
    · obtain ⟨hlt, hnext, hlast⟩ := h.hand m hm
      refine ⟨hlt, by rw [put_rxMsgOut, hnext], ?_⟩
      rw [put_hand h d hm]
      exact hlast

theorem content_eq_nil_iff {t : Traced} (h : Inv t) :
    t.queue.rxMsgIn = t.queue.rxMsgOut ↔ content t.queue = [] := by
  rw [content, Ring.content_eq_nil_iff _ h.inLt h.outLt, UInt8.toNat_inj]

theorem call_inv {t : Traced} (h : Inv t) {pc : UInt8 → Pc}
    (hpc : pc = .isEmptyRead ∨ pc = .getRead) : Inv (call t pc) := by
  by_cases hidle : t.pc = .idle
  · have hp := h.pending
    have hfacts : (t.queue.rxMsgIn = t.queue.rxMsgOut ↔
        t.accepted.length - t.returned.length = 0) ∧
        t.accepted.length - t.returned.length ≤ (content t.queue).length := by
      rw [content_eq_nil_iff h, ← List.length_eq_zero_iff]
      omega
    simp only [call, if_pos hidle]
    refine ⟨h.inLt, h.outLt, h.linked, h.hand, ?_⟩
    rcases hpc with rfl | rfl
    · exact hfacts
    · exact hfacts
  · simp only [call, if_neg hidle]
    exact h

structure Quiet (t u : Traced) : Prop where
  queue : u.queue = t.queue
  hand : u.hand = t.hand
  accepted : u.accepted = t.accepted
  returned : u.returned = t.returned
  sampled : u.sampled = t.sampled

theorem tick_cases {t : Traced} (h : Inv t) :
    (Quiet t (tick t).1 ∧ PcFacts (tick t).1) ∨
    (t.pc = .getStore t.queue.rxMsgOut t.queue.rxMsgOut ∧ content t.queue ≠ []) := by
  have hfacts := h.facts
  cases hp : t.pc with
  | idle =>
    have ht : tick t = (t, []) := by simp only [tick, hp]
    rw [ht]
    exact Or.inl ⟨⟨rfl, rfl, rfl, rfl, rfl⟩, hfacts⟩
  | isEmptyRead i =>
    have ht : (tick t).1 = { t with pc := .idle } := by simp only [tick, hp]
    rw [ht]
    exact Or.inl ⟨⟨rfl, rfl, rfl, rfl, rfl⟩, trivial⟩
  | getRead i =>
    simp only [PcFacts, hp] at hfacts
    by_cases hi : i = t.queue.rxMsgOut
    · have ht : (tick t).1 = { t with pc := .idle } := by simp only [tick, hp, if_pos hi]
      rw [ht]
      exact Or.inl ⟨⟨rfl, rfl, rfl, rfl, rfl⟩, trivial⟩
    · have ht : (tick t).1 = { t with pc := .getSlot } := by simp only [tick, hp, if_neg hi]
      have hpos : t.sampled ≠ 0 := fun hz => hi (hfacts.1.mpr hz)
      have hlen : (content t.queue).length ≠ 0 := by omega
      rw [ht]
      exact Or.inl ⟨⟨rfl, rfl, rfl, rfl, rfl⟩, hpos, fun hnil => hlen (congrArg List.length hnil)⟩
  | getSlot =>
    simp only [PcFacts, hp] at hfacts
    have ht : (tick t).1 = { t with pc := .getLoad t.queue.rxMsgOut } := by simp only [tick, hp]
    rw [ht]
    exact Or.inl ⟨⟨rfl, rfl, rfl, rfl, rfl⟩, hfacts.1, hfacts.2, rfl⟩
  | getLoad m =>
    simp only [PcFacts, hp] at hfacts
    have ht : (tick t).1 = { t with pc := .getStore m t.queue.rxMsgOut } := by simp only [tick, hp]
    rw [ht]
    exact Or.inl ⟨⟨rfl, rfl, rfl, rfl, rfl⟩, hfacts.1, hfacts.2.1, hfacts.2.2, rfl⟩
  | getStore m o =>
    simp only [PcFacts, hp] at hfacts
    obtain ⟨-, hne, rfl, rfl⟩ := hfacts
    exact Or.inr ⟨rfl, hne⟩

theorem tick_store {t : Traced} {m o : UInt8} (hp : t.pc = .getStore m o) :
    tick t = ({ t with pc := .idle, queue := { t.queue with rxMsgOut := advance o }, hand := some m
                       returned := t.returned ++ [t.queue.rxMsgs m.toNat] }, [.msg m]) := by
  simp only [tick, hp]

theorem content_advance {t : Traced} (h : Inv t) (hne : content t.queue ≠ []) :
    content t.queue = t.queue.rxMsgs t.queue.rxMsgOut.toNat ::
      content { t.queue with rxMsgOut := advance t.queue.rxMsgOut } := by
  have hidx : t.queue.rxMsgIn.toNat ≠ t.queue.rxMsgOut.toNat := fun he =>
    hne ((content_eq_nil_iff h).mp (UInt8.toNat_inj.mp he))
  simp only [content, advance_toNat]
  exact Ring.content_pop _ h.inLt h.outLt hidx

theorem tick_inv {t : Traced} (h : Inv t) : Inv (tick t).1 := by
  rcases tick_cases h with ⟨hq, hfacts⟩ | ⟨hpc, hne⟩
  · refine ⟨hq.queue ▸ h.inLt, hq.queue ▸ h.outLt, ?_, fun m hm => ?_, hfacts⟩
    · rw [hq.queue, hq.accepted, hq.returned]
      exact h.linked
    · have hkept := h.hand m (hq.hand ▸ hm)
      rwa [HandKept, hq.queue, hq.returned]
  · rw [tick_store hpc]
    refine ⟨h.inLt, ?_, ?_, ?_, trivial⟩
    · show (advance _).toNat < numRxMsgs
      rw [advance_toNat]
      exact Nat.mod_lt _ (by decide)
    · rw [List.append_assoc, List.singleton_append]
      exact (congrArg (t.returned ++ ·) (content_advance h hne).symm).trans h.linked
    · rintro m ⟨⟩
      exact ⟨h.outLt, (advance_toNat _).symm, by simp⟩

theorem step_inv {t : Traced} (h : Inv t) (e : Event) : Inv (step t e).1 := by
  cases e with
  | put d => exact put_inv h d
  | isEmpty => exact call_inv h (Or.inl rfl)
  | get => exact call_inv h (Or.inr rfl)
  | tick => exact tick_inv h

theorem run_inv {t : Traced} (h : Inv t) (es : List Event) : Inv (after step t es) :=
  after_invariant (P := Inv) (fun _ e ht _ => step_inv ht e) h (along_trivial t es)

theorem call_kept (t : Traced) (pc : UInt8 → Pc) :
    (call t pc).hand = t.hand ∧ (call t pc).returned = t.returned := by
  by_cases hidle : t.pc = .idle
  · simp only [call, if_pos hidle, and_self]
  · simp only [call, if_neg hidle, and_self]

theorem step_hand {t : Traced} (h : Inv t) (e : Event) :
    ((step t e).1.hand = t.hand ∧ (step t e).1.returned = t.returned) ∨
      ∃ d, (step t e).1.returned = t.returned ++ [d] := by
  cases e with
  | put d => exact Or.inl ⟨rfl, rfl⟩
  | isEmpty => exact Or.inl (call_kept t _)
  | get => exact Or.inl (call_kept t _)
  | tick =>
    rcases tick_cases h with ⟨hq, -⟩ | ⟨hpc, -⟩
    · exact Or.inl ⟨hq.hand, hq.returned⟩
    · exact Or.inr ⟨_, congrArg (Traced.returned ∘ Prod.fst) (tick_store hpc)⟩

theorem run_hand {t : Traced} (h : Inv t) (es : List Event) :
    t.returned <+: (after step t es).returned ∧
      ((after step t es).returned = t.returned → (after step t es).hand = t.hand) := by
  induction es generalizing t with
  | nil => exact ⟨List.prefix_rfl, fun _ => rfl⟩
  | cons e es ih =>
    obtain ⟨hpre, hsame⟩ := ih (step_inv h e)
    rw [after_cons]
    rcases step_hand h e with ⟨hh, hr⟩ | ⟨d, hr⟩
    · rw [hr] at hpre hsame
      rw [hh] at hsame
      exact ⟨hpre, hsame⟩
    · rw [hr] at hpre
      refine ⟨(List.prefix_append _ _).trans hpre, fun he => ?_⟩
      have hlen := hpre.length_le
      rw [he, List.length_append, List.length_singleton] at hlen
      omega

def Pc.remaining : Pc → ℕ
  | .idle => 0
  | .isEmptyRead _ => 1
  | .getRead _ => 4
  | .getSlot => 3
  | .getLoad _ => 2
  | .getStore _ _ => 1

def Pc.gets : Pc → Bool
  | .idle | .isEmptyRead _ => false
  | _ => true

theorem Pc.remaining_le (pc : Pc) : pc.remaining ≤ 4 := by
  cases pc <;> simp [Pc.remaining]

theorem Pc.remaining_pos {pc : Pc} (h : pc ≠ .idle) : 0 < pc.remaining := by
  cases pc with
  | idle => exact absurd rfl h
  | _ => exact Nat.succ_pos _

/-- The answer `r` to the call under way in `t`, given in `u`. -/
def Delivers (t : Traced) (r : Result) (u : Traced) : Prop :=
  match r with
  | .empty b => t.pc.gets = false ∧ (b = true ↔ t.sampled = 0) ∧ u.returned = t.returned
  | .null => t.pc.gets = true ∧ t.sampled = 0 ∧ u.returned = t.returned
  | .msg m => t.pc.gets = true ∧ t.sampled ≠ 0 ∧ u.hand = some m ∧
      ∃ d, u.returned = t.returned ++ [d]

theorem tick_progress {t : Traced} (h : Inv t) (hbusy : t.pc ≠ .idle) :
    (∃ r, (tick t).2 = [r] ∧ (tick t).1.pc = .idle ∧ Delivers t r (tick t).1) ∨
      (tick t).2 = [] ∧ (tick t).1.pc ≠ .idle ∧ (tick t).1.pc.remaining + 1 = t.pc.remaining ∧
        (tick t).1.pc.gets = t.pc.gets ∧ Quiet t (tick t).1 := by
  have hfacts := h.facts
  cases hp : t.pc with
  | idle => exact absurd hp hbusy
  | isEmptyRead i =>
    left
    simp only [PcFacts, hp] at hfacts
    have ht : tick t = ({ t with pc := .idle }, [.empty (i = t.queue.rxMsgOut)]) := by
      simp only [tick, hp]
    rw [ht]
    exact ⟨_, rfl, rfl, congrArg Pc.gets hp, decide_eq_true_iff.trans hfacts.1, rfl⟩
  | getRead i =>
    simp only [PcFacts, hp] at hfacts
    by_cases hi : i = t.queue.rxMsgOut
    · left
      have ht : tick t = ({ t with pc := .idle }, [.null]) := by simp only [tick, hp, if_pos hi]
      rw [ht]
      exact ⟨_, rfl, rfl, congrArg Pc.gets hp, hfacts.1.mp hi, rfl⟩
    · right
      have ht : tick t = ({ t with pc := .getSlot }, []) := by simp only [tick, hp, if_neg hi]
      rw [ht]
      exact ⟨rfl, Pc.noConfusion, rfl, rfl, rfl, rfl, rfl, rfl, rfl⟩
  | getSlot =>
    right
    have ht : tick t = ({ t with pc := .getLoad t.queue.rxMsgOut }, []) := by simp only [tick, hp]
    rw [ht]
    exact ⟨rfl, Pc.noConfusion, rfl, rfl, rfl, rfl, rfl, rfl, rfl⟩
  | getLoad m =>
    right
    have ht : tick t = ({ t with pc := .getStore m t.queue.rxMsgOut }, []) := by
      simp only [tick, hp]
    rw [ht]
    exact ⟨rfl, Pc.noConfusion, rfl, rfl, rfl, rfl, rfl, rfl, rfl⟩
  | getStore m o =>
    left
    simp only [PcFacts, hp] at hfacts
    rw [tick_store hp]
    exact ⟨_, rfl, rfl, congrArg Pc.gets hp, hfacts.1, rfl, _, rfl⟩

theorem idle_run {t : Traced} (hidle : t.pc = .idle) {es : List Event}
    (hes : ∀ e ∈ es, e.isCall = false) :
    outputs step t es = [] ∧ (after step t es).pc = .idle ∧
      (after step t es).hand = t.hand ∧ (after step t es).returned = t.returned := by
  induction es generalizing t with
  | nil => exact ⟨rfl, hidle, rfl, rfl⟩
  | cons e es ih =>
    obtain ⟨hcall, hrest⟩ := List.forall_mem_cons.mp hes
    cases e with
    | put d =>
      have hput : (put t d).pc = .idle := hidle
      exact ih hput hrest
    | isEmpty => cases hcall
    | get => cases hcall
    | tick =>
      have htick : step t .tick = (t, []) := by simp only [step, tick, hidle]
      rw [outputs_cons, after_cons, htick]
      exact ih hidle hrest

theorem Delivers.of_same {t u v w : Traced} {r : Result} (h : Delivers u r v)
    (hgets : u.pc.gets = t.pc.gets) (hsampled : u.sampled = t.sampled)
    (hreturned : u.returned = t.returned) (hhand : w.hand = v.hand)
    (hthen : w.returned = v.returned) : Delivers t r w := by
  cases r with
  | empty b =>
    obtain ⟨hkind, hanswer, hsame⟩ := h
    exact ⟨hgets ▸ hkind, hsampled ▸ hanswer, hthen.trans (hsame.trans hreturned)⟩
  | null =>
    obtain ⟨hkind, hanswer, hsame⟩ := h
    exact ⟨hgets ▸ hkind, hsampled ▸ hanswer, hthen.trans (hsame.trans hreturned)⟩
  | msg m =>
    obtain ⟨hkind, hpending, hanswer, d, hnew⟩ := h
    exact ⟨hgets ▸ hkind, hsampled ▸ hpending, hhand.trans hanswer, d,
      hthen.trans (hreturned ▸ hnew)⟩

/-- By induction on the run: a put leaves the call as it stands, a tick brings it on. -/
theorem busy_run {t : Traced} (h : Inv t) (hbusy : t.pc ≠ .idle) {es : List Event}
    (hes : ∀ e ∈ es, e.isCall = false) (hticks : t.pc.remaining ≤ es.countP Event.isTick) :
    ∃ r, outputs step t es = [r] ∧ (after step t es).pc = .idle ∧
      Delivers t r (after step t es) := by
  induction es generalizing t with
  | nil => exact absurd hticks (Nat.not_le.mpr (Pc.remaining_pos hbusy))
  | cons e es ih =>
    obtain ⟨hcall, hrest⟩ := List.forall_mem_cons.mp hes
    cases e with
    | isEmpty => cases hcall
    | get => cases hcall
    | put d =>
      have hcount : (Event.put d :: es).countP Event.isTick = es.countP Event.isTick :=
        List.countP_cons_of_neg Bool.noConfusion
      rw [hcount] at hticks
      have hpc : (put t d).pc ≠ .idle := hbusy
      obtain ⟨r, hr, hidle, hgiven⟩ := ih (put_inv h d) hpc hrest hticks
      exact ⟨r, hr, hidle, hgiven.of_same rfl rfl rfl rfl rfl⟩
    | tick =>
      have hcount : (Event.tick :: es).countP Event.isTick = es.countP Event.isTick + 1 :=
        List.countP_cons_of_pos rfl
      rw [outputs_cons, after_cons]
      change ∃ r, (tick t).2 ++ outputs step (tick t).1 es = [r] ∧ _
      rcases tick_progress h hbusy with ⟨r, hr, hidle, hgiven⟩ |
        ⟨hnone, hpc, hremaining, hgets, hquiet⟩
      · obtain ⟨hout, hend, hhand, hreturned⟩ := idle_run hidle hrest
        rw [hr, hout]
        exact ⟨r, rfl, hend, hgiven.of_same rfl rfl rfl hhand hreturned⟩
      · have hless : (tick t).1.pc.remaining ≤ es.countP Event.isTick := by omega
        obtain ⟨r, hr, hend, hgiven⟩ := ih (tick_inv h) hpc hrest hless
        rw [hnone, List.nil_append]
        exact ⟨r, hr, hend, hgiven.of_same hgets hquiet.sampled hquiet.returned rfl rfl⟩

/-- What the queue promises in a state: order, capacity, the slot handed out last, the put
that may come next, the answer of the call under way, and the end and the answer of every call with
puts between its steps. -/
structure Fifo (t : Traced) : Prop where
  order : t.returned <+: t.accepted
  capacity : t.accepted.length ≤ t.returned.length + (numRxMsgs - 1)
  handed : ∀ m, t.hand = some m → t.returned.getLast? = some (t.queue.rxMsgs m.toNat)
  kept : ∀ m, t.hand = some m → ∀ es, (after step t es).returned = t.returned →
    (after step t es).queue.rxMsgs m.toNat = t.queue.rxMsgs m.toNat
  put : ∀ d, (step t (.put d)).1.accepted = t.accepted ++ [d] ∨
    ((step t (.put d)).1 = t ∧ t.accepted.length = t.returned.length + (numRxMsgs - 1))
  answers : ∀ r ∈ (step t .tick).2, match r with
    | .empty b => b = true ↔ t.sampled = 0
    | .null => t.sampled = 0
    | .msg m => (step t .tick).1.hand = some m ∧
        (step t .tick).1.returned.length = t.returned.length + 1
  ends : t.pc ≠ .idle → ∀ es, (∀ e ∈ es, e.isCall = false) → 4 ≤ es.countP Event.isTick →
    ∃ r, outputs step t es = [r] ∧ (after step t es).pc = .idle
  isEmpty : t.pc = .idle → ∀ es, (∀ e ∈ es, e.isCall = false) → 1 ≤ es.countP Event.isTick →
    outputs step t (.isEmpty :: es) = [.empty (t.accepted.length = t.returned.length)]
  get : t.pc = .idle → ∀ es, (∀ e ∈ es, e.isCall = false) → 4 ≤ es.countP Event.isTick →
    (t.accepted.length = t.returned.length → outputs step t (.get :: es) = [.null] ∧
      (after step t (.get :: es)).returned = t.returned) ∧
    ∀ d, t.accepted[t.returned.length]? = some d → ∃ m, outputs step t (.get :: es) = [.msg m] ∧
      (after step t (.get :: es)).returned = t.returned ++ [d] ∧
      (after step t (.get :: es)).queue.rxMsgs m.toNat = d

theorem tick_answers {t : Traced} (h : Inv t) : ∀ r ∈ (tick t).2, match r with
    | .empty b => b = true ↔ t.sampled = 0
    | .null => t.sampled = 0
    | .msg m => (tick t).1.hand = some m ∧
        (tick t).1.returned.length = t.returned.length + 1 := by
  have hfacts := h.facts
  intro r hr
  cases hp : t.pc with
  | idle => simp [tick, hp] at hr
  | isEmptyRead i =>
    simp only [PcFacts, hp] at hfacts
    simp only [tick, hp, List.mem_singleton] at hr
    subst hr
    simpa using hfacts.1
  | getRead i =>
    simp only [PcFacts, hp] at hfacts
    by_cases hi : i = t.queue.rxMsgOut
    · simp only [tick, hp, if_pos hi, List.mem_singleton] at hr
      subst hr
      exact hfacts.1.mp hi
    · simp [tick, hp, hi] at hr
  | getSlot => simp [tick, hp] at hr
  | getLoad m => simp [tick, hp] at hr
  | getStore m o =>
    rw [tick_store hp] at hr ⊢
    obtain rfl := List.mem_singleton.mp hr
    exact ⟨rfl, List.length_append⟩

theorem put_answer {t : Traced} (h : Inv t) (d : CanMsg) :
    (put t d).accepted = t.accepted ++ [d] ∨
      (put t d = t ∧ t.accepted.length = t.returned.length + (numRxMsgs - 1)) := by
  by_cases hfull : Full t.queue
  · exact Or.inr ⟨put_full hfull d, pending_of_full h hfull⟩
  · left
    simp only [put, if_neg hfull]

theorem ends_of_inv {t : Traced} (h : Inv t) (hbusy : t.pc ≠ .idle) {es : List Event}
    (hes : ∀ e ∈ es, e.isCall = false) (hticks : 4 ≤ es.countP Event.isTick) :
    ∃ r, outputs step t es = [r] ∧ (after step t es).pc = .idle := by
  obtain ⟨r, hr, hidle, -⟩ := busy_run h hbusy hes (t.pc.remaining_le.trans hticks)
  exact ⟨r, hr, hidle⟩

theorem call_run {t : Traced} (h : Inv t) (hidle : t.pc = .idle) {e : Event} {pc : UInt8 → Pc}
    (hstep : ∀ u, step u e = (call u pc, [])) (hpc : pc = .isEmptyRead ∨ pc = .getRead)
    {es : List Event} (hes : ∀ e ∈ es, e.isCall = false)
    (hticks : (pc t.queue.rxMsgIn).remaining ≤ es.countP Event.isTick) :
    ∃ r, outputs step t (e :: es) = [r] ∧
      Delivers { t with pc := pc t.queue.rxMsgIn
                        sampled := t.accepted.length - t.returned.length } r
        (after step t (e :: es)) := by
  have hcall : call t pc = { t with pc := pc t.queue.rxMsgIn
                                    sampled := t.accepted.length - t.returned.length } := by
    simp only [call, if_pos hidle]
  have hinv := call_inv h hpc
  have hbusy : (call t pc).pc ≠ .idle := by
    rw [hcall]
    rcases hpc with rfl | rfl
    · exact Pc.noConfusion
    · exact Pc.noConfusion
  rw [← hcall, outputs_cons, after_cons, hstep]
  have hremaining : (call t pc).pc.remaining ≤ es.countP Event.isTick := by
    rw [hcall]
    exact hticks
  obtain ⟨r, hr, -, hgiven⟩ := busy_run hinv hbusy hes hremaining
  exact ⟨r, hr, hgiven⟩

theorem isEmpty_answer {t : Traced} (h : Inv t) (hidle : t.pc = .idle) {es : List Event}
    (hes : ∀ e ∈ es, e.isCall = false) (hticks : 1 ≤ es.countP Event.isTick) :
    outputs step t (.isEmpty :: es) = [.empty (t.accepted.length = t.returned.length)] := by
  obtain ⟨r, hr, hgiven⟩ := call_run (e := .isEmpty) h hidle (fun _ => rfl) (Or.inl rfl) hes hticks
  have hp := h.pending
  rw [hr]
  cases r with
  | empty b =>
    obtain ⟨-, hanswer, -⟩ := hgiven
    simp only at hanswer
    have hiff : b = true ↔ t.accepted.length = t.returned.length := by
      rw [hanswer]
      omega
    exact congrArg (fun b => [Result.empty b])
      (Bool.eq_iff_iff.mpr (hiff.trans decide_eq_true_iff.symm))
  | null => exact absurd hgiven.1 Bool.noConfusion
  | msg m => exact absurd hgiven.1 Bool.noConfusion

theorem step_accepted (t : Traced) (e : Event) : t.accepted <+: (step t e).1.accepted := by
  cases e with
  | put d =>
    change t.accepted <+: if Full t.queue then t.accepted else t.accepted ++ [d]
    split_ifs
    · exact List.prefix_rfl
    · exact List.prefix_append _ _
  | isEmpty =>
    change t.accepted <+: (call t _).accepted
    rw [call]
    split_ifs <;> exact List.prefix_rfl
  | get =>
    change t.accepted <+: (call t _).accepted
    rw [call]
    split_ifs <;> exact List.prefix_rfl
  | tick =>
    change t.accepted <+: (tick t).1.accepted
    unfold tick
    split
    case h_3 => split_ifs <;> exact List.prefix_rfl
    all_goals exact List.prefix_rfl

theorem run_accepted (t : Traced) (es : List Event) :
    t.accepted <+: (after step t es).accepted :=
  after_related (R := fun t u => t.accepted <+: u.accepted) (fun _ => List.prefix_rfl)
    (fun _ _ _ => List.IsPrefix.trans) step_accepted t es

theorem get_answer {t : Traced} (h : Inv t) (hidle : t.pc = .idle) {es : List Event}
    (hes : ∀ e ∈ es, e.isCall = false) (hticks : 4 ≤ es.countP Event.isTick) :
    (t.accepted.length = t.returned.length → outputs step t (.get :: es) = [.null] ∧
      (after step t (.get :: es)).returned = t.returned) ∧
    ∀ d, t.accepted[t.returned.length]? = some d → ∃ m, outputs step t (.get :: es) = [.msg m] ∧
      (after step t (.get :: es)).returned = t.returned ++ [d] ∧
      (after step t (.get :: es)).queue.rxMsgs m.toNat = d := by
  obtain ⟨r, hr, hgiven⟩ := call_run (e := .get) h hidle (fun _ => rfl) (Or.inr rfl) hes hticks
  have hinv := run_inv h (.get :: es)
  have hgrown := run_accepted t (.get :: es)
  generalize after step t (.get :: es) = u at hgiven hinv hgrown ⊢
  have hp := h.pending
  rw [hr]
  cases r with
  | empty b => exact absurd hgiven.1 Bool.noConfusion
  | null =>
    obtain ⟨-, hnone, hsame⟩ := hgiven
    simp only at hnone hsame
    refine ⟨fun _ => ⟨rfl, hsame⟩, fun d hd => ?_⟩
    have hlt := (List.getElem?_eq_some_iff.mp hd).1
    omega
  | msg m =>
    obtain ⟨-, hpending, hhand, d', hnew⟩ := hgiven
    simp only at hpending hnew
    refine ⟨fun hnone => absurd hnone (by omega), fun d hd => ?_⟩
    have hoff : u.accepted[t.returned.length]? = some d' := by
      obtain ⟨rest, hrest⟩ := (⟨_, hinv.linked⟩ : u.returned <+: u.accepted)
      rw [← hrest, hnew, List.append_assoc, List.getElem?_append_right (Nat.le_refl _),
        Nat.sub_self]
      rfl
    have hsame : d' = d := by
      obtain ⟨rest, hrest⟩ := hgrown
      rw [← hrest, List.getElem?_append_left (List.getElem?_eq_some_iff.mp hd).1, hd] at hoff
      exact (Option.some.inj hoff).symm
    subst hsame
    have hlast := (hinv.hand m hhand).2.2
    rw [hnew, List.getLast?_concat] at hlast
    exact ⟨m, rfl, hnew, (Option.some.inj hlast).symm⟩

theorem fifo_of_inv {t : Traced} (h : Inv t) : Fifo t where
  order := ⟨content t.queue, h.linked⟩
  capacity := h.capacity
  handed m hm := (h.hand m hm).2.2
  kept m hm es he := by
    have hhand := (run_hand h es).2 he
    have hthen := ((run_inv h es).hand m (hhand.trans hm)).2.2
    rw [he, (h.hand m hm).2.2] at hthen
    exact (Option.some.inj hthen).symm
  put d := put_answer h d
  answers := tick_answers h
  ends hbusy _ hes hticks := ends_of_inv h hbusy hes hticks
  isEmpty hidle _ hes hticks := isEmpty_answer h hidle hes hticks
  get hidle _ hes hticks := get_answer h hidle hes hticks

/-- For every interleaving of whole puts with the single steps of the main loop. -/
theorem rxMsgs_fifo (es : List Event) : Fifo (after step start es) :=
  fifo_of_inv (run_inv inv_start es)

theorem rxMsgs_fifo_first :
    let m : CanMsg := { blank with id := 7 }
    let t := after step start [.put m, .put blank]
    ∃ i, outputs step t [.get, .tick, .put blank, .tick, .tick, .put m, .tick] = [.msg i] ∧
      (after step t [.get, .tick, .put blank, .tick, .tick, .put m, .tick]).queue.rxMsgs i.toNat =
        m := by
  intro m t
  obtain ⟨i, hi, -, hslot⟩ := ((rxMsgs_fifo [.put m, .put blank]).get rfl
    [.tick, .put blank, .tick, .tick, .put m, .tick] (by decide) (by decide)).2 m rfl
  exact ⟨i, hi, hslot⟩

end Queue
end AoaBoard.Can
