import AoaBoard.Library.Run
import AoaBoard.Library.Ring

/-!
# The receive queue of the RF UART

`rxqPut` runs in the UART receive callback, the other calls in the main loop.
The two indices are `uint8_t` values and the buffer has `RX_BUF_SIZE` cells, so
the comparisons and the remainder are taken on the promoted `int` values and
the stored index is truncated to eight bits. A call of `rf_uart_receive` that is
interrupted between two iterations is the sequence of its `rxq_isEmpty` and
`rxq_get` calls, interleaved with the puts of the callback.

The ring that the indices delimit has 256 cells. `Traced` records, along a run of
interleaved calls, the bytes that `rxq_put` let in and those handed to the main
loop; its pending bytes are the abstract content of the queue.
-/

namespace AoaBoard.Board

inductive ErrorT
  | ok
  | argument
  | timeout
  | notInit
  | canSend
  | rfCmdError
  | rfReadError
  deriving DecidableEq

namespace RxQueue
open Library Library.Run

def rxBufSize : ℕ := 512

structure Rxq where
  rxqIn : UInt8
  rxqOut : UInt8
  rxq : Fin rxBufSize → UInt8

def slot (i : UInt8) : Fin rxBufSize := ⟨i.toNat, i.toNat_lt.trans (by decide)⟩

def Accepts (q : Rxq) : Prop := q.rxqOut.toNat ≠ (q.rxqIn.toNat + 1) % rxBufSize

instance (q : Rxq) : Decidable (Accepts q) := inferInstanceAs (Decidable (_ ≠ _))

def rxqPut (q : Rxq) (data : UInt8) : Rxq :=
  if Accepts q then
    { rxqIn := UInt8.ofNat ((q.rxqIn.toNat + 1) % rxBufSize)
      rxqOut := q.rxqOut
      rxq := Function.update q.rxq (slot q.rxqIn) data }
  else q

def rxqGet (q : Rxq) : UInt8 × Rxq :=
  if q.rxqIn = q.rxqOut then (0, q)
  else (q.rxq (slot q.rxqOut),
    { q with rxqOut := UInt8.ofNat ((q.rxqOut.toNat + 1) % rxBufSize) })

def rxqIsEmpty (q : Rxq) : Bool := decide (q.rxqIn = q.rxqOut)

def rfUartReceive (q : Rxq) : ℕ → List UInt8 × Rxq
  | 0 => ([], q)
  | buflen + 1 =>
    if rxqIsEmpty q then ([], q)
    else
      let r := rxqGet q
      let rest := rfUartReceive r.2 buflen
      (r.1 :: rest.1, rest.2)

def rfUartRecvCb (q : Rxq) (ready : List UInt8) : Rxq := ready.foldl rxqPut q

def start : Rxq := ⟨0, 0, fun _ => 0⟩

def cell (q : Rxq) (i : ℕ) : UInt8 := if h : i < rxBufSize then q.rxq ⟨i, h⟩ else 0

def content (q : Rxq) : List UInt8 := Ring.content (cell q) 256 q.rxqIn.toNat q.rxqOut.toNat

theorem cell_slot (q : Rxq) (i : UInt8) : cell q i.toNat = q.rxq (slot i) := by
  simp only [cell, slot, dif_pos (i.toNat_lt.trans (by decide : 2 ^ 8 < rxBufSize))]

theorem cell_rxqPut {q : Rxq} (h : Accepts q) (data : UInt8) :
    cell (rxqPut q data) = Function.update (cell q) q.rxqIn.toNat data := by
  funext i
  simp only [rxqPut, if_pos h]
  by_cases hi : i = q.rxqIn.toNat
  · subst hi
    rw [cell_slot, Function.update_self]
    exact Function.update_self _ _ _
  · rw [Function.update_of_ne hi]
    simp only [cell]
    split_ifs with hlt
    · have hne : (⟨i, hlt⟩ : Fin rxBufSize) ≠ slot q.rxqIn := fun he => hi (congrArg Fin.val he)
      exact Function.update_of_ne hne _ _
    · rfl

theorem next_toNat (i : UInt8) :
    (UInt8.ofNat ((i.toNat + 1) % rxBufSize)).toNat = (i.toNat + 1) % 256 := by
  have hi := i.toNat_lt
  simp only [UInt8.toNat_ofNat', rxBufSize]
  omega

theorem content_length_lt (q : Rxq) : (content q).length < 256 := by
  rw [content, Ring.content_length]
  exact Ring.held_lt (by decide) _ _

theorem isEmpty_iff (q : Rxq) : rxqIsEmpty q = true ↔ content q = [] := by
  rw [rxqIsEmpty, decide_eq_true_iff, content,
    Ring.content_eq_nil_iff _ q.rxqIn.toNat_lt q.rxqOut.toNat_lt, UInt8.toNat_inj]

theorem rxqPut_of_room {q : Rxq} (h : (content q).length < 255) (data : UInt8) :
    Accepts q ∧ content (rxqPut q data) = content q ++ [data] := by
  have hi := q.rxqIn.toNat_lt
  have ho := q.rxqOut.toNat_lt
  have hfull : q.rxqOut.toNat ≠ (q.rxqIn.toNat + 1) % 256 := by
    intro he
    rw [content, Ring.content_length, Ring.held_full hi he] at h
    omega
  have hacc : Accepts q := by
    simp only [Accepts, rxBufSize]
    omega
  refine ⟨hacc, ?_⟩
  rw [content, cell_rxqPut hacc]
  simp only [rxqPut, if_pos hacc, next_toNat]
  exact Ring.content_push _ _ hi ho hfull

theorem rxqPut_of_full {q : Rxq} (h : (content q).length = 255) (hacc : Accepts q)
    (data : UInt8) : rxqIsEmpty (rxqPut q data) = true := by
  have hi := q.rxqIn.toNat_lt
  have ho := q.rxqOut.toNat_lt
  rw [content, Ring.content_length] at h
  have hin := Ring.add_held hi ho
  rw [h] at hin
  rw [rxqIsEmpty, decide_eq_true_iff]
  apply UInt8.toNat_inj.mp
  simp only [rxqPut, if_pos hacc, next_toNat]
  simp only [Accepts, rxBufSize] at hacc
  omega

theorem rxqGet_of_nonempty {q : Rxq} (h : ¬ rxqIsEmpty q = true) :
    content q = (rxqGet q).1 :: content (rxqGet q).2 := by
  simp only [rxqIsEmpty, decide_eq_true_iff] at h
  simp only [rxqGet, if_neg h, content, next_toNat]
  rw [Ring.content_pop _ q.rxqIn.toNat_lt q.rxqOut.toNat_lt (fun he => h (UInt8.toNat_inj.mp he)),
    cell_slot]
  rfl

theorem rxqGet_of_empty {q : Rxq} (h : rxqIsEmpty q = true) : rxqGet q = (0, q) := by
  rw [rxqIsEmpty, decide_eq_true_iff] at h
  exact if_pos h

theorem rxqGet_content (q : Rxq) : (rxqGet q).1 = (content q).headD 0 ∧
    content (rxqGet q).2 = (content q).tail := by
  by_cases h : rxqIsEmpty q = true
  · rw [rxqGet_of_empty h, (isEmpty_iff q).mp h]
    exact ⟨rfl, rfl⟩
  · rw [rxqGet_of_nonempty h]
    exact ⟨rfl, rfl⟩

theorem rfUartReceive_content (q : Rxq) (k : ℕ) :
    (rfUartReceive q k).1 = (content q).take k ∧
      content (rfUartReceive q k).2 = (content q).drop k := by
  induction k generalizing q with
  | zero => exact ⟨rfl, rfl⟩
  | succ k ih =>
    by_cases h : rxqIsEmpty q = true
    · simp only [rfUartReceive, if_pos h, (isEmpty_iff q).mp h, List.take_nil, List.drop_nil,
        and_self]
    · simp only [rfUartReceive, if_neg h]
      rw [rxqGet_of_nonempty h, List.take_succ_cons, List.drop_succ_cons, (ih _).1, (ih _).2]
      exact ⟨rfl, rfl⟩

inductive Call
  | put (data : UInt8)
  | get
  | isEmpty
  | receive (buflen : ℕ)

structure Traced where
  queue : Rxq
  accepted : List UInt8
  returned : List UInt8

def Traced.pending (t : Traced) : List UInt8 := t.accepted.drop t.returned.length

def taken (q : Rxq) : Call → List UInt8
  | .put data => if Accepts q then [data] else []
  | _ => []

def handed (q : Rxq) : Call → List UInt8
  | .get => if rxqIsEmpty q then [] else [(rxqGet q).1]
  | .receive buflen => (rfUartReceive q buflen).1
  | _ => []

def perform (q : Rxq) : Call → Rxq
  | .put data => rxqPut q data
  | .get => (rxqGet q).2
  | .isEmpty => q
  | .receive buflen => (rfUartReceive q buflen).2

def step (t : Traced) (c : Call) : Traced × List UInt8 :=
  (⟨perform t.queue c, t.accepted ++ taken t.queue c, t.returned ++ handed t.queue c⟩,
    handed t.queue c)

def traced : Traced := ⟨start, [], []⟩

structure Agrees (q : Rxq) (c : List UInt8) : Prop where
  isEmpty : rxqIsEmpty q = true ↔ c = []
  get : (rxqGet q).1 = c.headD 0
  receive : ∀ k, (rfUartReceive q k).1 = c.take k

/-- A call meets the bounded FIFO: only a put that finds `RX_BUF_SIZE - 1` bytes may be
refused, the bytes handed out are the oldest accepted ones, and the queue then holds
exactly the others. -/
def Lossless (t : Traced) (c : Call) : Prop :=
  (∀ data, c = .put data → ¬ Accepts t.queue → t.pending.length = rxBufSize - 1) ∧
    (step t c).1.returned <+: (step t c).1.accepted ∧
    Agrees (step t c).1.queue (step t c).1.pending

def Roomy (t : Traced) (c : Call) : Prop := ∀ data, c = .put data → t.pending.length < 255

def Linked (t : Traced) : Prop := t.returned ++ content t.queue = t.accepted

theorem Linked.pending_eq {t : Traced} (h : Linked t) : t.pending = content t.queue := by
  rw [Traced.pending, ← h, List.drop_left]

theorem agrees_content (q : Rxq) : Agrees q (content q) :=
  ⟨isEmpty_iff q, (rxqGet_content q).1, fun k => (rfUartReceive_content q k).1⟩

theorem content_perform (q : Rxq) (c : Call)
    (h : ∀ data, c = .put data → (content q).length < 255) :
    handed q c ++ content (perform q c) = content q ++ taken q c := by
  cases c with
  | put data =>
    obtain ⟨hacc, hput⟩ := rxqPut_of_room (h data rfl) data
    simp only [handed, taken, perform, if_pos hacc, hput, List.nil_append]
  | get =>
    by_cases hq : rxqIsEmpty q = true
    · simp only [handed, taken, perform, if_pos hq, rxqGet_of_empty hq, List.nil_append,
        List.append_nil]
    · simp only [handed, taken, perform, if_neg hq, List.append_nil]
      rw [rxqGet_of_nonempty hq]
      rfl
  | isEmpty => simp only [handed, taken, perform, List.nil_append, List.append_nil]
  | receive k =>
    simp only [handed, taken, perform, (rfUartReceive_content q k).1,
      (rfUartReceive_content q k).2, List.take_append_drop, List.append_nil]

theorem step_linked {t : Traced} {c : Call} (h : Linked t) (hroom : Roomy t c) :
    Linked (step t c).1 := by
  have hq := content_perform t.queue c (fun data hc => by rw [← h.pending_eq]; exact hroom data hc)
  simp only [Linked, step, List.append_assoc, hq]
  rw [← List.append_assoc, h]

theorem lossless_of_roomy {t : Traced} {c : Call} (h : Linked t) (hroom : Roomy t c) :
    Lossless t c := by
  have hnext := step_linked h hroom
  refine ⟨fun data hc hrefused => ?_, ⟨_, hnext⟩, ?_⟩
  · have hlen := hroom data hc
    rw [h.pending_eq] at hlen
    exact absurd (rxqPut_of_room hlen data).1 hrefused
  · rw [hnext.pending_eq]
    exact agrees_content _

theorem roomy_of_lossless {t : Traced} {c : Call} (h : Linked t) (hl : Lossless t c) :
    Roomy t c := by
  rintro data rfl
  by_contra hfull
  have hlt := content_length_lt t.queue
  rw [← h.pending_eq] at hlt
  have hlen : (content t.queue).length = 255 := by rw [← h.pending_eq]; omega
  by_cases hacc : Accepts t.queue
  · have hempty := hl.2.2.isEmpty.mp (rxqPut_of_full hlen hacc data)
    have hzero := congrArg List.length hempty
    simp only [Traced.pending, step, taken, handed, if_pos hacc, List.append_nil,
      List.length_drop, List.length_append, List.length_cons, List.length_nil] at hzero
    have hsum := congrArg List.length h
    rw [List.length_append] at hsum
    omega
  · have hcap := hl.1 data rfl hacc
    simp only [rxBufSize] at hcap
    omega

theorem lossless_iff_roomy {t : Traced} (h : Linked t) (calls : List Call) :
    Along step Lossless t calls ↔ Along step Roomy t calls :=
  along_iff_of_invariant (P := Linked)
    (fun _ _ ht => ⟨roomy_of_lossless ht, lossless_of_roomy ht⟩)
    (fun _ _ ht hroom => step_linked ht hroom) h calls

theorem traced_linked : Linked traced := rfl

theorem rfUartRecvCb_eq_after (t : Traced) (ready : List UInt8) :
    (after step t (ready.map .put)).queue = rfUartRecvCb t.queue ready := by
  induction ready generalizing t with
  | nil => rfl
  | cons data ready ih => exact ih (step t (.put data)).1

/-- The UART receive queue is a lossless FIFO in exactly the runs in which every put finds
fewer than 255 bytes pending. -/
theorem rxq_lossless_iff (calls : List Call) :
    Along step Lossless traced calls ↔ Along step Roomy traced calls :=
  lossless_iff_roomy traced_linked calls

theorem puts_pending (n : ℕ) (hn : n ≤ 255) :
    Linked (after step traced (List.replicate n (.put 0))) ∧
      (after step traced (List.replicate n (.put 0))).pending.length = n := by
  induction n with
  | zero => exact ⟨traced_linked, rfl⟩
  | succ n ih =>
    obtain ⟨hlink, hlen⟩ := ih (by omega)
    rw [List.replicate_succ', after_append]
    generalize after step traced (List.replicate n (.put 0)) = t at hlink hlen
    have hnext := step_linked (c := .put 0) hlink fun _ _ => by omega
    have hroom : (content t.queue).length < 255 := by rw [← hlink.pending_eq]; omega
    refine ⟨hnext, ?_⟩
    change (step t (.put 0)).1.pending.length = n + 1
    rw [hnext.pending_eq]
    simp only [step, perform, (rxqPut_of_room hroom 0).2, List.length_append,
      List.length_singleton]
    rw [← hlink.pending_eq, hlen]

theorem rxq_overflow_loses : ¬ Along step Lossless traced (List.replicate 256 (.put 0)) := by
  intro h
  rw [List.replicate_succ' (n := 255), along_append] at h
  obtain ⟨hlink, hlen⟩ := puts_pending 255 le_rfl
  have hroom := roomy_of_lossless hlink h.2.1 0 rfl
  omega

end RxQueue
end AoaBoard.Board
