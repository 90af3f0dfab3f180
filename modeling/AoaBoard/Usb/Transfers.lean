import AoaBoard.Usb.Queueing

/-!
# Queueing a transfer

`QueueGTDs` and `QueueITDs` cut a buffer into what one TD takes. They end
because every round takes a TD of a pool that does not grow.
-/

namespace AoaBoard.Usb.Ohci

def segments (direction : UInt8) : ℕ → UInt32 → UInt32 → List Piece
  | 0, _, _ => []
  | fuel + 1, dataBuff, xferLen =>
    if xferLen = 0 then []
    else
      let tdLen := min xferLen (maxTDLen dataBuff)
      ⟨dataBuff, tdLen, direction, 0, xferLen - tdLen = 0⟩ ::
        segments direction fuel (dataBuff + tdLen) (xferLen - tdLen)

def total : List Piece → ℕ
  | [] => 0
  | P :: ps => P.xferLen.toNat + total ps

/-- The pieces follow one another from an address on. None is empty or lies in more than two pages
of memory, and the last one alone asks for an interrupt. -/
def Consecutive (direction : UInt8) : UInt32 → List Piece → Prop
  | _, [] => True
  | dataBuff, P :: ps =>
    P.currentBufferPointer = dataBuff ∧ 0 < P.xferLen.toNat ∧
      (offset4k dataBuff).toNat + P.xferLen.toNat ≤ 0x2000 ∧ P.directionPID = direction ∧
      P.dataToggle = 0 ∧ (P.ioc = true ↔ ps = []) ∧ Consecutive direction (dataBuff + P.xferLen) ps

theorem offset4k_lt (value : UInt32) : (offset4k value).toNat < 0x1000 := by
  rw [offset4k, UInt32.toNat_and, show (0xFFF : UInt32).toNat = 2 ^ 12 - 1 from rfl,
    Nat.and_two_pow_sub_one_eq_mod]
  exact Nat.mod_lt _ (by decide)

theorem maxTDLen_toNat (dataBuff : UInt32) :
    (maxTDLen dataBuff).toNat = 0x2000 - (offset4k dataBuff).toNat := by
  have hlt := offset4k_lt dataBuff
  rw [maxTDLen, UInt32.toNat_sub_of_le _ _ ?_]
  · rfl
  · rw [UInt32.le_iff_toNat_le, show tdMaxXferLength.toNat = 0x2000 from rfl]
    omega

theorem min_toNat (a b : UInt32) : (min a b).toNat = min a.toNat b.toNat := by
  have hmin : min a b = if a ≤ b then a else b := rfl
  rw [hmin]
  split_ifs with h
  · rw [UInt32.le_iff_toNat_le] at h
    omega
  · rw [UInt32.le_iff_toNat_le] at h
    omega

theorem segments_consecutive {direction : UInt8} {fuel : ℕ} {dataBuff xferLen : UInt32}
    (h : (segments direction fuel dataBuff xferLen).length < fuel) :
    Consecutive direction dataBuff (segments direction fuel dataBuff xferLen) ∧
      total (segments direction fuel dataBuff xferLen) = xferLen.toNat := by
  induction fuel generalizing dataBuff xferLen with
  | zero => omega
  | succ fuel ih =>
    by_cases hlen : xferLen = 0
    · simp [segments, hlen, Consecutive, total]
    · have hmin := min_toNat xferLen (maxTDLen dataBuff)
      rw [maxTDLen_toNat] at hmin
      have hoffset := offset4k_lt dataBuff
      have hpos : 0 < xferLen.toNat := Nat.pos_of_ne_zero fun h => hlen (UInt32.toNat_inj.mp h)
      have hle : min xferLen (maxTDLen dataBuff) ≤ xferLen := by
        rw [UInt32.le_iff_toNat_le]
        omega
      have hsub := UInt32.toNat_sub_of_le xferLen _ hle
      simp only [segments, if_neg hlen, List.length_cons] at h ⊢
      generalize min xferLen (maxTDLen dataBuff) = tdLen at h hmin hle hsub ⊢
      obtain ⟨hconsecutive, htotal⟩ := @ih (dataBuff + tdLen) (xferLen - tdLen) (by omega)
      have hlast : decide (xferLen - tdLen = 0) = true ↔
          segments direction fuel (dataBuff + tdLen) (xferLen - tdLen) = [] := by
        rw [decide_eq_true_eq]
        constructor
        · intro hzero
          rw [hzero]
          cases fuel <;> simp [segments]
        · intro hnil
          rw [hnil] at htotal
          exact UInt32.toNat_inj.mp htotal.symm
      have hfits : 0 < tdLen.toNat ∧ (offset4k dataBuff).toNat + tdLen.toNat ≤ 0x2000 := by omega
      have hsum : tdLen.toNat + (xferLen - tdLen).toNat = xferLen.toNat := by omega
      exact ⟨⟨rfl, hfits.1, hfits.2, rfl, rfl, hlast, hconsecutive⟩, by rw [total, htotal, hsum]⟩

theorem Consecutive.ioc {direction : UInt8} {dataBuff : UInt32} {ps : List Piece}
    (h : Consecutive direction dataBuff ps) {k : ℕ} {P : Piece} (hP : ps[k]? = some P) :
    P.ioc = decide (k + 1 = ps.length) := by
  induction ps generalizing dataBuff k with
  | nil => simp at hP
  | cons Q ps ih =>
    obtain ⟨-, -, -, -, -, hioc, hrest⟩ := h
    cases k with
    | zero =>
      obtain rfl := Option.some.inj hP
      rw [Bool.eq_iff_iff, hioc, decide_eq_true_eq, ← List.length_eq_zero_iff, List.length_cons]
      omega
    | succ k =>
      rw [ih hrest hP, List.length_cons]
      congr 1
      simp

theorem segments_head {direction : UInt8} {fuel : ℕ} {dataBuff xferLen : UInt32} {P : Piece}
    (hP : P ∈ (segments direction fuel dataBuff xferLen).head?) (hioc : P.ioc = true) :
    (segments direction fuel dataBuff xferLen).length ≤ 1 := by
  cases fuel with
  | zero => simp [segments]
  | succ fuel =>
    simp only [segments] at hP ⊢
    split_ifs at hP ⊢ with hlen
    · simp
    · obtain rfl := Option.some.inj hP
      rw [decide_eq_true_eq] at hioc
      rw [hioc]
      cases fuel <;> simp [segments]

section Transfers
variable {s s' : Host} {w p : Option Td} {T : Place → List Td} {e : Fin maxEd} {q m : List Td}
  {t td : Td}

theorem queueGTDs_eq {fuel : ℕ} (hq : Queues s.shape w p T) (he : (s.shape.eds e).opened = true)
    (hT : T (.pipe e) = q ++ [t]) (hkind : (s.eds e).format = false) (direction : UInt8)
    (dataBuff xferLen : UInt32) (hfuel : maxGtd < fuel + used s false) :
    queueGTDs e direction fuel s dataBuff xferLen =
      queueList e (segments direction fuel dataBuff xferLen) s := by
  induction fuel generalizing s T q t dataBuff xferLen with
  | zero =>
    have hle := used_le s false
    simp only [capacity] at hle
    omega
  | succ fuel ih =>
    by_cases hlen : xferLen = 0
    · simp only [queueGTDs, segments, if_pos hlen, queueList]
    · obtain ⟨i, r, rfl, heval, hone⟩ := queueOneGTD_queues hq he hT hkind dataBuff
        (min xferLen (maxTDLen dataBuff)) direction 0
        (xferLen - min xferLen (maxTDLen dataBuff) = 0)
      simp only [queueGTDs, segments, if_neg hlen, queueList, heval, Option.bind_eq_bind,
        Option.bind_some]
      cases hone with
      | @done s₁ td htd happends hfilled hfresh =>
        have hused := htd ▸ used_append happends
        rw [if_pos rfl, andThen_ok]
        refine ih happends.queues happends.opened (q := q ++ [.gtd i]) (t := td) ?_ ?_ _ _
          (by omega)
        · rw [Function.update_self, hT]
        · rw [happends.eds, Function.update_self]
          exact hkind
      | full hstatus hfull happends =>
        rw [if_neg hstatus, andThen_error hstatus]
        rfl

theorem queueITDs_appends (fuel : ℕ) (hq : Queues s.shape w p T)
    (he : (s.shape.eds e).opened = true) (hkind : (s.eds e).format = true)
    (maxDataSize dataBuff xferLen : UInt32) (frameIdx : UInt16)
    (hfuel : maxItd < fuel + used s true) :
    ∃ s' status m, queueITDs e maxDataSize fuel s dataBuff xferLen frameIdx = some (s', status) ∧
      Appends s s' w p T e m := by
  induction fuel generalizing s T dataBuff xferLen frameIdx with
  | zero =>
    have hle := used_le s true
    simp only [capacity] at hle
    omega
  | succ fuel ih =>
    by_cases hlen : xferLen = 0
    · exact ⟨s, .ok, [], by simp only [queueITDs, if_pos hlen], .refl hq he⟩
    · obtain ⟨q, t, hT, -⟩ := hq.split_tail he
      obtain ⟨i, r, rfl, heval, hone⟩ := queueOneITD_queues hq he hT hkind dataBuff
        (min xferLen (min maxDataSize (maxTDLen dataBuff))) frameIdx
      simp only [queueITDs, if_neg hlen, heval, Option.bind_eq_bind, Option.bind_some]
      cases hone with
      | @done s₁ td htd happends hfilled hfresh =>
        have hused := htd ▸ used_append happends
        have hkind₁ : (s₁.eds e).format = true := by
          rw [happends.eds, Function.update_self]
          exact hkind
        obtain ⟨s', status, m, hrec, happ⟩ := ih happends.queues happends.opened hkind₁
          (dataBuff + min xferLen (min maxDataSize (maxTDLen dataBuff)))
          (xferLen - min xferLen (min maxDataSize (maxTDLen dataBuff))) (frameIdx + 1) (by omega)
        refine ⟨s', status, td :: m, ?_, happends.trans happ⟩
        rw [if_pos rfl]
        exact hrec
      | @full s₁ status hstatus hfull happends =>
        refine ⟨s₁, status, [], ?_, happends⟩
        rw [if_neg hstatus]
        rfl

inductive Transfers (s : Host) (w p : Option Td) (T : Place → List Td) (handle : UInt32) :
    Host × HcdStatus → Prop
  | refused (status : HcdStatus) : Transfers s w p T handle (s, status)
  | queued {s₁ s' : Host} (e : Fin maxEd) (m : List Td) (status : HcdStatus)
    (hparse : pipehandleParse s handle = some e) (happends : Appends s s₁ w p T e m)
    (hshape : s'.shape = s₁.shape) (heds : ∀ x, x ≠ e → s'.eds x = s₁.eds x)
    (hrest : s' = { s₁ with
      eds := s'.eds
      controlListFilled := s'.controlListFilled
      bulkListFilled := s'.bulkListFilled }) :
    Transfers s w p T handle (s', status)

def issued (s : Host) (e : Fin maxEd) : Host :=
  { s with controlListFilled := true }.setEd e { s.eds e with status := .transferQueued }

/-- A control transfer has all its stages in the queue, or there are no TDs left and the first of
them stay there. -/
theorem hcdControlTransfer_eq {handle : UInt32} {r : Request} {buffer : UInt32}
    (hq : Queues s.shape w p T) (he : (s.shape.eds e).opened = true) (hT : T (.pipe e) = q ++ [t])
    (hkind : (s.eds e).format = false) (hparse : pipehandleParse s handle = some e)
    (hnull : ¬(r.address = 0 ∨ buffer = 0)) :
    ∃ s₁ m, QueuesList s s₁ w p T e q t (stages r buffer) m ∧
      (m.length = (stages r buffer).length ∧
          hcdControlTransfer s handle r buffer = some (issued s₁ e, .ok) ∨
        m.length < (stages r buffer).length ∧ used s₁ false = maxGtd ∧
          ∃ status, status ≠ .ok ∧ hcdControlTransfer s handle r buffer = some (s₁, status)) := by
  obtain ⟨s₁, status, m, heval, hlist, hcases⟩ := queueList_queues (stages r buffer) hq he hT hkind
  refine ⟨s₁, m, hlist, ?_⟩
  simp only [hcdControlTransfer, if_neg hnull, hparse, queueStages_eq, heval]
  rcases hcases with ⟨rfl, hlen⟩ | ⟨hstatus, hlen, hfull⟩
  · exact Or.inl ⟨hlen, rfl⟩
  · exact Or.inr ⟨hlen, hfull, status, hstatus, andThen_error hstatus _⟩

theorem hcdControlTransfer_transfers {handle : UInt32} (hq : Queues s.shape w p T)
    (he : ∀ e, pipehandleParse s handle = some e →
      (s.shape.eds e).opened = true ∧ (s.eds e).format = false) (r : Request) (buffer : UInt32) :
    ∃ result, hcdControlTransfer s handle r buffer = some result ∧
      Transfers s w p T handle result := by
  by_cases hnull : r.address = 0 ∨ buffer = 0
  · simp only [hcdControlTransfer, if_pos hnull]
    exact ⟨_, rfl, .refused _⟩
  · cases hparse : pipehandleParse s handle with
    | none =>
      simp only [hcdControlTransfer, if_neg hnull, hparse]
      exact ⟨_, rfl, .refused _⟩
    | some e =>
      obtain ⟨q, t, hT, -⟩ := hq.split_tail (he e hparse).1
      obtain ⟨s₁, m, hlist, ⟨-, heval⟩ | ⟨-, -, status, -, heval⟩⟩ :=
        hcdControlTransfer_eq hq (he e hparse).1 hT (he e hparse).2 hparse hnull
      · refine ⟨_, heval, .queued e m _ hparse hlist.appends ?_
          (fun x hx => Function.update_of_ne hx _ _) rfl⟩
        rw [issued, shape_setEd]
        exact Shape.setEd_self _ rfl
      · exact ⟨_, heval, .queued e m _ hparse hlist.appends rfl (fun _ _ => rfl) rfl⟩

def QueuesPieces (s s₁ : Host) (w p : Option Td) (T : Place → List Td) (e : Fin maxEd) (q : List Td)
    (t : Td) (ps : List Piece) (m : List Td) (status : HcdStatus) : Prop :=
  QueuesList s s₁ w p T e q t ps m ∧ (status = .ok ∧ m.length = ps.length ∨
    status ≠ .ok ∧ m.length < ps.length ∧ used s₁ false = maxGtd)

theorem queueData_appends (hq : Queues s.shape w p T) (he : (s.shape.eds e).opened = true)
    (hT : T (.pipe e) = q ++ [t]) (buffer length : UInt32) :
    ∃ s₁ s' status m, queueData s e buffer length = some (s', status) ∧ Appends s s₁ w p T e m ∧
      (s' = s₁ ∨ s' = { s₁ with bulkListFilled := true }) ∧ ((s.eds e).format = false →
        QueuesPieces s s₁ w p T e q t (segments 0 (maxGtd + 1) buffer length) m status) := by
  by_cases hkind : isIsoEndpoint s e = true
  · simp only [queueData, if_pos hkind]
    obtain ⟨s', status, m, heval, happends⟩ := queueITDs_appends (maxItd + 1) hq he hkind
      (8 * (s.eds e).maxPackageSize.toUInt32) buffer length (s.hccaFrameNumber + 1) (by omega)
    refine ⟨s', s', status, m, heval, happends, Or.inl rfl, fun hgtd => ?_⟩
    rw [isIsoEndpoint, hgtd] at hkind
    cases hkind
  · simp only [queueData, if_neg hkind]
    rw [Bool.not_eq_true] at hkind
    obtain ⟨s₁, status, m, heval, hlist, hcases⟩ :=
      queueList_queues (segments 0 (maxGtd + 1) buffer length) hq he hT hkind
    rw [queueGTDs_eq hq he hT hkind 0 buffer length (by omega), heval]
    by_cases hstatus : status = .ok
    · subst hstatus
      rw [andThen_ok]
      refine ⟨s₁, _, .ok, m, rfl, hlist.appends, ?_, fun _ => ⟨hlist, hcases⟩⟩
      split_ifs
      · exact Or.inr rfl
      · exact Or.inl rfl
    · exact ⟨s₁, s₁, status, m, andThen_error hstatus _, hlist.appends, Or.inl rfl,
        fun _ => ⟨hlist, hcases⟩⟩

/-- The number of bytes that `HcdDataTransfer` queues. -/
def expectedLength (s : Host) (e : Fin maxEd) (length : UInt32) : UInt32 :=
  if length ≠ hcdEndpointMaxpacketXferLen then length else (s.eds e).maxPackageSize.toUInt32

theorem hcdDataTransfer_eq {handle buffer length : UInt32} (hq : Queues s.shape w p T)
    (he : (s.shape.eds e).opened = true) (hT : T (.pipe e) = q ++ [t])
    (hparse : pipehandleParse s handle = some e) (hnull : ¬(buffer = 0 ∨ length = 0))
    (hhalted : (s.eds e).halted = false) (count : Option ℕ) :
    ∃ s₁ s' status m, hcdDataTransfer s handle buffer length count = some (s', status) ∧
      Appends s s₁ w p T e m ∧ s'.shape = s₁.shape ∧ (∀ x, x ≠ e → s'.eds x = s₁.eds x) ∧
      s' = { s₁ with eds := s'.eds, bulkListFilled := s'.bulkListFilled } ∧
      (status = .ok → (s'.eds e).status = .transferQueued) ∧
      ((s.eds e).format = false → QueuesPieces s s₁ w p T e q t
        (segments 0 (maxGtd + 1) buffer (expectedLength s e length)) m status) := by
  obtain ⟨s₁, s₂, status, m, heval, happends, hs₂, hpieces⟩ :=
    queueData_appends hq he hT buffer (expectedLength s e length)
  rw [expectedLength] at heval
  have hflag : s₂.shape = s₁.shape ∧ s₂.eds = s₁.eds ∧
      s₂ = { s₁ with bulkListFilled := s₂.bulkListFilled } := by
    rcases hs₂ with rfl | rfl <;> exact ⟨rfl, rfl, rfl⟩
  have hgo : ¬(s.eds e).halted = true := by simp [hhalted]
  simp only [hcdDataTransfer, if_neg hnull, hparse, if_neg hgo, heval]
  by_cases hstatus : status = .ok
  · subst hstatus
    refine ⟨s₁, _, .ok, m, rfl, happends, ?_, fun x hx => ?_, ?_, fun _ => ?_, hpieces⟩
    · rw [shape_setEd, ← hflag.1]
      exact Shape.setEd_self _ rfl
    · rw [← hflag.2.1]
      exact Function.update_of_ne hx _ _
    · rw [hflag.2.2]
      rfl
    · exact congrArg Ed.status (Function.update_self e _ s₂.eds)
  · refine ⟨s₁, s₂, status, m, andThen_error hstatus _, happends, hflag.1,
      fun x _ => by rw [hflag.2.1], ?_, fun hok => absurd hok hstatus, hpieces⟩
    rw [hflag.2.2]

theorem hcdDataTransfer_transfers {handle : UInt32} (hq : Queues s.shape w p T)
    (he : ∀ e, pipehandleParse s handle = some e → (s.shape.eds e).opened = true)
    (buffer length : UInt32) (count : Option ℕ) :
    ∃ result, hcdDataTransfer s handle buffer length count = some result ∧
      Transfers s w p T handle result := by
  by_cases hnull : buffer = 0 ∨ length = 0
  · simp only [hcdDataTransfer, if_pos hnull]
    exact ⟨_, rfl, .refused _⟩
  · cases hparse : pipehandleParse s handle with
    | none =>
      simp only [hcdDataTransfer, if_neg hnull, hparse]
      exact ⟨_, rfl, .refused _⟩
    | some e =>
      by_cases hhalted : (s.eds e).halted = true
      · simp only [hcdDataTransfer, if_neg hnull, hparse, if_pos hhalted]
        exact ⟨_, rfl, .refused _⟩
      · rw [Bool.not_eq_true] at hhalted
        obtain ⟨q, t, hT, -⟩ := hq.split_tail (he e hparse)
        obtain ⟨s₁, s', status, m, heval, happends, hshape, heds, hrest, -, -⟩ :=
          hcdDataTransfer_eq hq (he e hparse) hT hparse hnull hhalted count
        exact ⟨_, heval, .queued e m _ hparse happends hshape heds (by rw [hrest])⟩

end Transfers

end AoaBoard.Usb.Ohci
