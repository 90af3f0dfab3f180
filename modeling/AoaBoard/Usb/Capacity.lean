import AoaBoard.Usb.Completion

/-!
# How far the TDs go

A transfer takes one general TD for each of its pieces. There are three more of
them than endpoints: one for the place holder of each endpoint and three for the
stages of one control transfer.
-/

namespace AoaBoard.Usb.Ohci
open Library Library.Run Library.Links

section Pools
variable {M : Machine} {T : Place → List Td} {L : ListHead → List (Fin maxEd)} {e : Fin maxEd}

/-- Nothing is in the queues behind the place holders, nothing waits for the driver. -/
def AllIdle (s : Host) : Prop :=
  (∀ e, s.opened e = true → (s.chain (.pipe e)).length = 1) ∧
    s.chain .retired = [] ∧ s.chain .written = []

instance (s : Host) : Decidable (AllIdle s) :=
  inferInstanceAs (Decidable ((∀ _, _ → _) ∧ _ = _ ∧ _ = _))

theorem used_idle (hinv : Inv M T L) (hlost : ∀ td, ¬LostIn M.host T td) (hidle : AllIdle M.host) :
    used M.host false ≤ maxEd := by
  obtain ⟨hone, hretired, hwritten⟩ := hidle
  simp only [hinv.queues.chain_eq] at hone hretired hwritten
  have hpipe : ∀ td, M.host.tdInUse td = true → td ∈ T (.pipe (M.host.edIdx td)) := by
    intro td huse
    by_contra hnot
    refine hlost td ⟨huse, fun c hc => ?_⟩
    cases c with
    | pipe x =>
      rw [← shape_edIdx, (hinv.queues.members_pipe hc).2.1] at hnot
      exact hnot hc
    | retired => simp [hretired] at hc
    | written => simp [hwritten] at hc
    | list => simp [hinv.queues.list_nil] at hc
  have hinj : Set.InjOn M.host.edIdx ↑((tds false).filter fun td => M.host.tdInUse td = true) := by
    intro td htd td' htd' heq
    have hmem := hpipe td (Finset.mem_filter.mp htd).2
    have hmem' := hpipe td' (Finset.mem_filter.mp htd').2
    rw [← heq] at hmem'
    have hopened : M.host.opened (M.host.edIdx td) = true := by
      by_contra hclosed
      rw [Bool.not_eq_true] at hclosed
      rw [hinv.queues.unopened hclosed] at hmem
      cases hmem
    obtain ⟨t, hT⟩ := List.length_eq_one_iff.mp (hone _ hopened)
    rw [hT, List.mem_singleton] at hmem hmem'
    rw [hmem, hmem']
  have hcard := Finset.card_le_card_of_injOn (t := Finset.univ) M.host.edIdx
    (fun _ _ => Finset.mem_univ _) hinj
  simpa [used] using hcard

theorem stages_length_le (r : Request) (buffer : UInt32) : (stages r buffer).length ≤ 3 := by
  simp only [stages]
  split_ifs <;> simp

/-- As many of the pieces as there are TDs for come to stand behind the queue of an endpoint, and
the call succeeds if that is all of them. A place holder that was filled in vain before asks for no
interrupt any more. -/
structure Queued (s s' : Host) (e : Fin maxEd) (ps : List Piece) (status : HcdStatus) (q : List Td)
    (t : Td) (st : List Td) (t' : Td) : Prop where
  before : s.chain (.pipe e) = q ++ [t]
  status : status = .ok ↔ used s false + ps.length ≤ maxGtd
  length : st.length = min ps.length (maxGtd - used s false)
  chain : s'.chain (.pipe e) = q ++ st ++ [t']
  holds : (∀ P ∈ ps.head?, P.ioc = true → s.delayInterrupt t = 0) →
    List.Forall₂ (Holds s') st (ps.take st.length)
  other : ∀ c, c ≠ .pipe e → s'.chain c = s.chain c

theorem queued_of_pieces {s₁ s' : Host} {ps : List Piece} {status : HcdStatus} {q m : List Td}
    {t : Td} (hinv : Inv M T L) (he : M.host.opened e = true) (hT : T (.pipe e) = q ++ [t])
    (h : QueuesPieces M.host s₁ M.host.written none T e q t ps m status)
    (hshape : s'.shape = s₁.shape) (hwritten : s'.written = s₁.written)
    (hcontent : s'.content = s₁.content) :
    ∃ st t', Queued M.host s' e ps status q t st t' := by
  obtain ⟨hlist, hcases⟩ := h
  obtain ⟨st, t', hqueue, hst, hholds⟩ := hlist.holds
  have hinv' : Inv { M with host := s' } (Function.update T (.pipe e) (T (.pipe e) ++ m)) L :=
    (append_moved hinv he hlist.appends).inv.of_shape hshape hwritten rfl
  have hchain := hinv'.queues.chain_eq
  have hused := hlist.used
  have hle := used_le s₁ false
  simp only [capacity] at hle
  refine ⟨st, t', (hinv.queues.chain_eq _).trans hT, ?_, ?_, ?_, fun hfresh => ?_, fun c hc => ?_⟩
  · rcases hcases with ⟨rfl, hlen⟩ | ⟨hstatus, hlt, hfull⟩
    · exact iff_of_true rfl (by omega)
    · exact iff_of_false hstatus (by omega)
  · rcases hcases with ⟨-, hlen⟩ | ⟨-, hlt, hfull⟩ <;> omega
  · rw [hchain, Function.update_self]
    exact hqueue
  · rw [hst]
    exact (hholds hfresh).imp fun td P h => h.congr (congrFun hcontent td)
  · rw [hchain, Function.update_of_ne hc, hinv.queues.chain_eq]

theorem control_queued {handle : UInt32} {r : Request} {buffer : UInt32} (hinv : Inv M T L)
    (hlegal : Legal (some M) (.controlTransfer handle r buffer))
    (hparse : pipehandleParse M.host handle = some e) (haddress : r.address ≠ 0)
    (hbuffer : buffer ≠ 0) :
    ∃ s' status q t st t', hcdControlTransfer M.host handle r buffer = some (s', status) ∧
      Queued M.host s' e (stages r buffer) status q t st t' ∧
      List.Forall₂ (Holds s') st ((stages r buffer).take st.length) := by
  have he := hlegal.1 e hparse
  obtain ⟨q, t, hT, -⟩ := hinv.queues.split_tail he
  have hnull : ¬(r.address = 0 ∨ buffer = 0) := by simp [haddress, hbuffer]
  obtain ⟨s₁, m, hlist, hcases⟩ := hcdControlTransfer_eq hinv.queues he hT (hlegal.2 e hparse)
    hparse hnull
  have hshape : (issued s₁ e).shape = s₁.shape := by
    rw [issued, shape_setEd]
    exact Shape.setEd_self _ rfl
  rcases hcases with ⟨hlen, heval⟩ | ⟨hlt, hfull, status, hstatus, heval⟩
  · obtain ⟨st, t', hqueued⟩ := queued_of_pieces hinv he hT ⟨hlist, Or.inl ⟨rfl, hlen⟩⟩ hshape rfl
      (content_eq rfl rfl)
    exact ⟨_, _, q, t, st, t', heval, hqueued, hqueued.holds (by simp [stages])⟩
  · obtain ⟨st, t', hqueued⟩ := queued_of_pieces hinv he hT
      ⟨hlist, Or.inr ⟨hstatus, hlt, hfull⟩⟩ rfl rfl rfl
    exact ⟨_, _, q, t, st, t', heval, hqueued, hqueued.holds (by simp [stages])⟩

end Pools

section Results
variable (s : Host) (as : List Action) (handle : UInt32) (r : Request) (buffer length : UInt32)
  (count : Option ℕ) (e : Fin maxEd) (M : Machine)

/-- A control transfer succeeds if there are TDs for all its stages. If there are not, the stages
for which there were TDs stay in the queue. -/
theorem control_transfer_stages (has : Along step Legal (started s) as)
    (hM : after step (started s) as = some M)
    (hlegal : Legal (some M) (.controlTransfer handle r buffer))
    (hparse : pipehandleParse M.host handle = some e) (haddress : r.address ≠ 0)
    (hbuffer : buffer ≠ 0) :
    ∃ s' status q t st t', hcdControlTransfer M.host handle r buffer = some (s', status) ∧
      Queued M.host s' e (stages r buffer) status q t st t' ∧
      List.Forall₂ (Holds s') st ((stages r buffer).take st.length) := by
  obtain ⟨M', T, L, heq, hinv, -⟩ := reached_run has
  obtain rfl : M = M' := Option.some.inj (hM.symm.trans heq)
  exact control_queued hinv hlegal hparse haddress hbuffer

end Results

def someTransfers : List Action :=
  [.openPipe ⟨0, 1, .full, 0, .control, .setup, 64, 0⟩,
    .controlTransfer 0 someRequest 0x20080100, .controlTransfer 0 someRequest 0x20080200,
    .controlTransfer 0 someRequest 0x20080300]

theorem someTransfers_isSome : (after step (started zeroHost) someTransfers).isSome = true := by
  decide +kernel

def fullMachine : Machine := (after step (started zeroHost) someTransfers).get someTransfers_isSome

theorem control_transfer_stages_full : ∃ s' status q t st t',
    hcdControlTransfer fullMachine.host 0 someRequest 0x20080400 = some (s', status) ∧
      Queued fullMachine.host s' firstEd (stages someRequest 0x20080400) status q t st t' ∧
      List.Forall₂ (Holds s') st ((stages someRequest 0x20080400).take st.length) :=
  control_transfer_stages zeroHost someTransfers 0 someRequest 0x20080400 firstEd fullMachine
    (by decide +kernel) (Option.some_get someTransfers_isSome).symm (by decide +kernel)
    (by decide +kernel) (by decide) (by decide)

section Results
variable (s : Host) (as : List Action) (handle : UInt32) (r : Request) (buffer length : UInt32)
  (count : Option ℕ) (e : Fin maxEd) (M : Machine)

/-- Where nothing was lost and nothing is under way, every control transfer finds its TDs. -/
theorem idle_control_transfer (has : Along step Legal (started s) as)
    (hM : after step (started s) as = some M) (hlost : M.lost = []) (hidle : AllIdle M.host)
    (hlegal : Legal (some M) (.controlTransfer handle r buffer))
    (hparse : pipehandleParse M.host handle = some e) (haddress : r.address ≠ 0)
    (hbuffer : buffer ≠ 0) :
    ∃ s' st t, hcdControlTransfer M.host handle r buffer = some (s', .ok) ∧
      s'.chain (.pipe e) = st ++ [t] ∧ List.Forall₂ (Holds s') st (stages r buffer) := by
  obtain ⟨M', T, L, heq, hinv, hlostIn⟩ := reached_run has
  obtain rfl : M = M' := Option.some.inj (hM.symm.trans heq)
  obtain ⟨s', status, q, t, st, t', heval, hqueued, hholds⟩ :=
    control_queued hinv hlegal hparse haddress hbuffer
  have hused := used_idle hinv (fun td htd => by simpa [hlost] using (hlostIn td).mp htd) hidle
  have hstages := stages_length_le r buffer
  have hmax : maxGtd = maxEd + 3 := rfl
  have hq : q = [] := by
    have hone := hidle.1 e (hlegal.1 e hparse)
    rw [hqueued.before] at hone
    simpa using hone
  have hlen := hqueued.length
  obtain rfl : status = .ok := hqueued.status.mpr (by omega)
  refine ⟨s', st, t', heval, by rw [hqueued.chain, hq, List.nil_append], ?_⟩
  rwa [List.take_of_length_le (by omega)] at hholds

end Results

theorem idle_control_transfer_first : ∃ s' st t,
    hcdControlTransfer idleMachine.host 0 someRequest 0x20080100 = some (s', .ok) ∧
      s'.chain (.pipe firstEd) = st ++ [t] ∧
      List.Forall₂ (Holds s') st (stages someRequest 0x20080100) :=
  idle_control_transfer zeroHost someSetup 0 someRequest 0x20080100 firstEd idleMachine
    (by decide +kernel) (Option.some_get someSetup_isSome).symm (by decide +kernel)
    (by decide +kernel) (by decide +kernel) (by decide +kernel) (by decide) (by decide)

section Results
variable (s : Host) (as : List Action) (handle : UInt32) (r : Request) (buffer length : UInt32)
  (count : Option ℕ) (e : Fin maxEd) (M : Machine)

/-- A data transfer is cut into TDs that follow one another in memory and make up the buffer, if
there are TDs for all of them. -/
theorem data_transfer_pieces (ps : List Piece)
    (hps : ps = segments 0 (maxGtd + 1) buffer (expectedLength M.host e length))
    (has : Along step Legal (started s) as) (hM : after step (started s) as = some M)
    (hlegal : Legal (some M) (.dataTransfer handle buffer length count))
    (hparse : pipehandleParse M.host handle = some e) (hkind : (M.host.eds e).format = false)
    (hhalted : (M.host.eds e).halted = false) (hbuffer : buffer ≠ 0) (hlength : length ≠ 0) :
    ∃ s' status q t st t', hcdDataTransfer M.host handle buffer length count = some (s', status) ∧
      Queued M.host s' e ps status q t st t' ∧
      (status = .ok → Consecutive 0 buffer ps ∧
        total ps = (expectedLength M.host e length).toNat) ∧
      (1 < ps.length ∨ M.host.delayInterrupt t = 0 →
        List.Forall₂ (Holds s') st (ps.take st.length)) := by
  obtain ⟨M', T, L, heq, hinv, -⟩ := reached_run has
  obtain rfl : M = M' := Option.some.inj (hM.symm.trans heq)
  have he : M.host.opened e = true := hlegal e hparse
  obtain ⟨q, t, hT, -⟩ := hinv.queues.split_tail he
  have hnull : ¬(buffer = 0 ∨ length = 0) := by simp [hbuffer, hlength]
  obtain ⟨s₁, s', status, m, heval, happends, hshape, -, hrest, -, hpieces⟩ :=
    hcdDataTransfer_eq hinv.queues he hT hparse hnull hhalted count
  have hwritten : s'.written = s₁.written := by
    rw [hrest]
    rfl
  obtain ⟨st, t', hqueued⟩ := queued_of_pieces hinv he hT (hpieces hkind) hshape hwritten
    (content_eq (by rw [hrest]) (by rw [hrest]))
  subst hps
  refine ⟨s', status, q, t, st, t', heval, hqueued, fun hok => ?_, fun hfresh => ?_⟩
  · have hused := hqueued.status.mp hok
    exact segments_consecutive (by omega)
  · exact hqueued.holds fun P hP hioc => hfresh.resolve_left (not_lt.mpr (segments_head hP hioc))

end Results

theorem data_transfer_pieces_three : ∃ s' status q t st t',
    hcdDataTransfer bulkMachine.host 0 0x20080F00 20000 none = some (s', status) ∧
      Queued bulkMachine.host s' firstEd bulkPieces status q t st t' ∧
      (status = .ok → Consecutive 0 0x20080F00 bulkPieces ∧
        total bulkPieces = (expectedLength bulkMachine.host firstEd 20000).toNat) ∧
      (1 < bulkPieces.length ∨ bulkMachine.host.delayInterrupt t = 0 →
        List.Forall₂ (Holds s') st (bulkPieces.take st.length)) :=
  data_transfer_pieces zeroHost someBulk 0 0x20080F00 20000 none firstEd bulkMachine bulkPieces rfl
    (by decide +kernel) (Option.some_get someBulk_isSome).symm (by decide +kernel)
    (by decide +kernel) (by decide +kernel) (by decide +kernel) (by decide) (by decide)

end AoaBoard.Usb.Ohci
