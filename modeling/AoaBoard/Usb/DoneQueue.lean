import AoaBoard.Usb.OpenClose

/-!
# The done queue

`ProcessDoneQueue` turns round the list that the controller has handed over and
goes through it: each TD may set the status of its endpoint and is freed. The
TD is freed as one of the kind its endpoint has by now, which need not be the
kind it has itself.
-/

namespace AoaBoard.Usb.Ohci
open Library.Links

section Done
variable {s s' : Host} {w p : Option Td} {T : Place → List Td} {e : Fin maxEd} {q m : List Td}
  {t td : Td}

theorem reverseDone_queues (fuel : ℕ) {l : List Td} (hq : Queues s.shape w p T)
    (hl : T .written = l) (hfuel : l.length ≤ fuel) :
    ∃ s' p' T', reverseDone fuel s w p = some (s', p') ∧
      Queues s'.shape none p' T' ∧ T' .list = l.reverse ++ T .list ∧ T' .written = [] ∧
      T' .retired = T .retired ∧ (∀ e, T' (.pipe e) = T (.pipe e)) ∧ s'.content = s.content ∧
      s' = { s with gtds := s'.gtds, itds := s'.itds } := by
  induction l generalizing s T w p fuel with
  | nil =>
    have hlinked := hq.chains.linked .written
    rw [hl] at hlinked
    obtain rfl : w = none := hlinked
    exact ⟨s, p, T, by cases fuel <;> rfl, hq, rfl, hl, rfl, fun _ => rfl, rfl, rfl⟩
  | cons td l ih =>
    obtain ⟨k, rfl⟩ : ∃ k, fuel = k + 1 := ⟨fuel - 1, by simp at hfuel; omega⟩
    have hlinked := hq.chains.linked .written
    rw [hl] at hlinked
    obtain rfl : w = some td := hlinked.1
    have hq₁ := hq.turn hl
    rw [Shape.setNext, ← shape_setNextTD, shape_next] at hq₁
    obtain ⟨s', p', T', heval, hq', hlist, hwritten, hretired, hpipe, hcontent, hrest⟩ :=
      ih k hq₁ (by simp) (by simpa using hfuel)
    refine ⟨s', p', T', heval, hq', ?_, hwritten, ?_, fun e => ?_, ?_, ?_⟩
    · rw [hlist]
      simp
    · rw [hretired]
      simp
    · rw [hpipe]
      simp
    · rw [hcontent]
      exact funext fun x => content_setNextTD s td x p
    · rw [hrest, setNextTD_rest]

def finish (s : Host) (d : Ed) (td : Td) : Ed :=
  updateStatus d (s.delayInterrupt td) (s.conditionCode td)

def SameExceptAddr (d d' : Ed) : Prop := d' = { d with functionAddr := d'.functionAddr }

theorem updateStatus_endpoint (d : Ed) (delay : UInt8) (code : ConditionCode) :
    (updateStatus d delay code).endpoint = d.endpoint := by
  simp only [updateStatus]
  split_ifs <;> rfl

theorem countTransfer_shape (s : Host) (i : Fin maxGtd) : (countTransfer s i).shape = s.shape := by
  have hcell : ∀ g : Gtd, g.cell = (s.gtds i).cell → (s.setGtd i g).shape = s.shape := by
    intro g hg
    rw [shape_setGtd]
    exact s.shape.setTd_self hg
  simp only [countTransfer]
  split_ifs <;> split <;> exact hcell _ rfl

theorem countTransfer_eds (s : Host) (i : Fin maxGtd) : (countTransfer s i).eds = s.eds := by
  simp only [countTransfer]
  split_ifs <;> split <;> rfl

theorem countTransfer_content (s : Host) (i : Fin maxGtd) {x : Td} (hx : x ≠ .gtd i) :
    (countTransfer s i).content x = s.content x := by
  have hset : ∀ g : Gtd, (s.setGtd i g).content x = s.content x := fun g => by
    cases x with
    | gtd j =>
      have hne : j ≠ i := fun heq => hx (heq ▸ rfl)
      simp [Host.content, Host.setGtd, hne]
    | itd j => rfl
  simp only [countTransfer]
  split_ifs <;> split <;> exact hset _

theorem countTransfer_self (s : Host) (i : Fin maxGtd) :
    (countTransfer s i).delayInterrupt (.gtd i) = s.delayInterrupt (.gtd i) ∧
      (countTransfer s i).conditionCode (.gtd i) = s.conditionCode (.gtd i) := by
  simp only [countTransfer]
  split_ifs <;> split <;> simp [Host.delayInterrupt, Host.conditionCode, Host.setGtd]

theorem countTransfer_rest (s : Host) (i : Fin maxGtd) : countTransfer s i =
    { s with gtds := (countTransfer s i).gtds, counts := (countTransfer s i).counts } := by
  simp only [countTransfer]
  split_ifs <;> split <;> rfl

theorem freeTd_other (hkind : td.isItd ≠ (s.eds e).format) :
    (freeTd s e td).shape = s.shape ∧ (∀ x, x ≠ td → (freeTd s e td).content x = s.content x) ∧
      (∀ x, SameExceptAddr (s.eds x) ((freeTd s e td).eds x)) ∧ freeTd s e td =
        { s with eds := (freeTd s e td).eds, itds := (freeTd s e td).itds } := by
  cases td with
  | gtd i =>
    have hiso : (s.eds e).format = true := by
      by_contra hne
      exact hkind (Bool.not_eq_true _ ▸ hne).symm
    have hfree : freeTd s e (.gtd i) = freeItd s (.gtd i) := by
      simp only [freeTd, isIsoEndpoint, hiso, if_true]
    rw [hfree]
    simp only [freeItd]
    split_ifs with hlast
    · refine ⟨?_, fun x _ => ?_, fun x => ?_, rfl⟩
      · rw [shape_setEd]
        exact s.shape.setEd_self rfl
      · exact congrFun (content_eq rfl rfl) x
      · by_cases hx : x = firstEd
        · subst hx
          simp [SameExceptAddr, Host.setEd]
        · simp [SameExceptAddr, Host.setEd, hx]
    · exact ⟨rfl, fun _ _ => rfl, fun _ => rfl, rfl⟩
  | itd i =>
    have hiso : (s.eds e).format = false := by
      by_contra hne
      exact hkind (Bool.not_eq_false _ ▸ hne).symm
    have hfree : freeTd s e (.itd i) = freeGtd s (.itd i) := by
      simp only [freeTd, isIsoEndpoint, hiso, Bool.false_eq_true, if_false]
    rw [hfree]
    refine ⟨?_, fun x hx => ?_, fun _ => rfl, rfl⟩
    · simp only [freeGtd]
      rw [shape_setItd]
      exact s.shape.setTd_self rfl
    · cases x with
      | gtd j => rfl
      | itd j =>
        have hne : j ≠ i := fun heq => hx (heq ▸ rfl)
        simp [freeGtd, Host.content, Host.setItd, hne]

def Matches (s : Host) (td : Td) : Prop := td.isItd = (s.eds (s.edIdx td)).format

structure Processed (s s' : Host) (td : Td) : Prop where
  freed : Matches s td → s'.shape = s.shape.setTd td { s.shape.tds td with inUse := false }
  kept : ¬ Matches s td → s'.shape = s.shape
  content : ∀ x, x ≠ td → s'.content x = s.content x
  eds : ∀ x, SameExceptAddr (if x = s.edIdx td then finish s (s.eds x) td else s.eds x) (s'.eds x)
  rest : s' = { s with eds := s'.eds, gtds := s'.gtds, itds := s'.itds, counts := s'.counts }

theorem processTd_processed (s : Host) (td : Td) : Processed s (processTd s td) td := by
  obtain ⟨s₁, hs₁, hshape, heds, hcontent, hdelay, hcode, hrest⟩ : ∃ s₁,
      countDone s td = s₁ ∧ s₁.shape = s.shape ∧
      s₁.eds = s.eds ∧ (∀ x, x ≠ td → s₁.content x = s.content x) ∧
      s₁.delayInterrupt td = s.delayInterrupt td ∧ s₁.conditionCode td = s.conditionCode td ∧
      s₁ = { s with gtds := s₁.gtds, counts := s₁.counts } := by
    cases td with
    | gtd i => exact ⟨_, rfl, countTransfer_shape s i, countTransfer_eds s i,
        fun x hx => countTransfer_content s i hx, (countTransfer_self s i).1,
        (countTransfer_self s i).2, countTransfer_rest s i⟩
    | itd i => exact ⟨s, rfl, rfl, rfl, fun _ _ => rfl, rfl, rfl, rfl⟩
  generalize hs₂ : s₁.setEd (s.edIdx td) (finish s (s.eds (s.edIdx td)) td) = s₂
  have heval : processTd s td = freeTd s₂ (s.edIdx td) td := by
    simp only [processTd, hs₁, heds, hdelay, hcode, ← hs₂, finish]
  have heds₂ : s₂.eds = Function.update s.eds (s.edIdx td) (finish s (s.eds (s.edIdx td)) td) := by
    rw [← hs₂, Host.setEd, heds]
  have hshape₂ : s₂.shape = s.shape := by
    rw [← hs₂, shape_setEd, hshape]
    exact s.shape.setEd_self (updateStatus_endpoint _ _ _)
  have hformat : (s₂.eds (s.edIdx td)).format = (s.eds (s.edIdx td)).format := by
    rw [heds₂, Function.update_self]
    exact congrArg Endpoint.format (updateStatus_endpoint _ _ _)
  have hcontent₂ : ∀ x, x ≠ td → s₂.content x = s.content x := fun x hx => by
    rw [← hcontent x hx, ← hs₂]
    rfl
  have hif : ∀ x, s₂.eds x = if x = s.edIdx td then finish s (s.eds x) td else s.eds x := by
    intro x
    rw [heds₂]
    by_cases hx : x = s.edIdx td
    · rw [if_pos hx, hx, Function.update_self]
    · rw [if_neg hx, Function.update_of_ne hx]
  rw [heval]
  by_cases hmatch : Matches s td
  · obtain ⟨hfree, hfrees, hrest'⟩ := freeTd_frees (hmatch.trans hformat.symm)
    refine ⟨fun _ => ?_, fun h => absurd hmatch h, fun x hx => ?_, fun x => ?_, ?_⟩
    · rw [hfree, hshape₂]
    · rw [hfrees.content x (by simpa using hx), hcontent₂ x hx]
    · rw [hrest', ← hif]
      rfl
    · rw [hrest', ← hs₂, hrest]
      rfl
  · obtain ⟨hkept, hother, heds', hrest'⟩ :=
      freeTd_other (e := s.edIdx td) fun h => hmatch (h.trans hformat)
    refine ⟨fun h => absurd h hmatch, fun _ => ?_, fun x hx => ?_, fun x => ?_, ?_⟩
    · rw [hkept, hshape₂]
    · rw [hother x hx, hcontent₂ x hx]
    · rw [← hif]
      exact heds' x
    · rw [hrest', ← hs₂, hrest]
      rfl

def finishes (s : Host) (l : List Td) (e : Fin maxEd) : Ed :=
  (l.filter fun td => s.edIdx td = e).foldl (finish s) (s.eds e)

theorem finish_congr {d : Ed} (h : s'.content td = s.content td) :
    finish s' d td = finish s d td := by
  rw [finish, finish, delayInterrupt_of_content h, conditionCode_of_content h]

theorem SameExceptAddr.trans {d d' d'' : Ed} (h : SameExceptAddr d d')
    (h' : SameExceptAddr d' d'') : SameExceptAddr d d'' := by
  rw [SameExceptAddr] at h h' ⊢
  rw [h', h]

theorem SameExceptAddr.finish {d d' : Ed} (h : SameExceptAddr d d') (s : Host) (td : Td) :
    SameExceptAddr (finish s d td) (finish s d' td) := by
  rw [SameExceptAddr] at h
  rw [h]
  simp only [SameExceptAddr, Ohci.finish, updateStatus]
  split_ifs <;> rfl

theorem SameExceptAddr.foldl {d d' : Ed} (h : SameExceptAddr d d') (s : Host) (l : List Td) :
    SameExceptAddr (l.foldl (Ohci.finish s) d) (l.foldl (Ohci.finish s) d') := by
  induction l generalizing d d' with
  | nil => exact h
  | cons td l ih => exact ih (h.finish s td)

theorem finishes_cons (s : Host) (td : Td) (l : List Td) (e : Fin maxEd) :
    finishes s (td :: l) e = (l.filter fun x => s.edIdx x = e).foldl (finish s)
      (if e = s.edIdx td then finish s (s.eds e) td else s.eds e) := by
  by_cases he : e = s.edIdx td
  · simp [finishes, he]
  · simp [finishes, he, Ne.symm he]

theorem foldl_finish_congr {d : Ed} {l : List Td} (h : ∀ x ∈ l, s'.content x = s.content x)
    (e : Fin maxEd) : (l.filter fun x => s'.edIdx x = e).foldl (finish s') d =
      (l.filter fun x => s.edIdx x = e).foldl (finish s) d := by
  induction l generalizing d with
  | nil => rfl
  | cons td l ih =>
    have htd := h td (by simp)
    have hrest := fun x hx => h x (List.mem_cons_of_mem td hx)
    rw [List.filter_cons, List.filter_cons, edIdx_of_content htd]
    split_ifs
    · rw [List.foldl_cons, List.foldl_cons, finish_congr htd, ih hrest]
    · exact ih hrest

theorem Processed.matches (h : Processed s s' td) {x : Td} (hx : x ≠ td) :
    Matches s' x ↔ Matches s x := by
  have hformat : ∀ e, (s'.eds e).format = (s.eds e).format := fun e => by
    have heds := h.eds e
    rw [SameExceptAddr] at heds
    rw [heds]
    split_ifs
    · exact congrArg Endpoint.format (updateStatus_endpoint _ _ _)
    · rfl
  rw [Matches, Matches, edIdx_of_content (h.content x hx), hformat]

theorem Processed.inUse (h : Processed s s' td) (x : Td) :
    s'.tdInUse x = true ↔ s.tdInUse x = true ∧ (x = td → ¬ Matches s td) := by
  by_cases hx : x = td
  · subst hx
    by_cases hmatch : Matches s x
    · have hfree : s'.tdInUse x = false := by
        rw [← shape_inUse, h.freed hmatch, Shape.setTd_tds, Function.update_self]
      simp [hfree, hmatch]
    · rw [← shape_inUse, h.kept hmatch, shape_inUse]
      simp [hmatch]
  · have hsame : s'.tdInUse x = s.tdInUse x := by rw [tdInUse_eq, tdInUse_eq, h.content x hx]
    simp [hsame, hx]

structure ProcessedList (s s' : Host) (w : Option Td) (T : Place → List Td)
    (l : List Td) : Prop where
  queues : Queues s'.shape w none (Function.update T .list [])
  inUse : ∀ x, s'.tdInUse x = true ↔ s.tdInUse x = true ∧ (x ∈ l → ¬ Matches s x)
  content : ∀ x, x ∉ l → s'.content x = s.content x
  eds : ∀ e, SameExceptAddr (finishes s l e) (s'.eds e)
  rest : s' = { s with eds := s'.eds, gtds := s'.gtds, itds := s'.itds, counts := s'.counts }

theorem processList_queues (fuel : ℕ) {l : List Td} (hq : Queues s.shape w p T) (hl : T .list = l)
    (hfuel : l.length ≤ fuel) :
    ∃ s', processList fuel s p = some s' ∧ ProcessedList s s' w T l := by
  induction l generalizing s T p fuel with
  | nil =>
    have hlinked := hq.chains.linked .list
    rw [hl] at hlinked
    obtain rfl : p = none := hlinked
    refine ⟨s, by cases fuel <;> rfl, ⟨?_, by simp, fun _ _ => rfl, fun _ => rfl, rfl⟩⟩
    rw [← hl, Function.update_eq_self]
    exact hq
  | cons td l ih =>
    obtain ⟨k, rfl⟩ : ∃ k, fuel = k + 1 := ⟨fuel - 1, by simp at hfuel; omega⟩
    have hlinked := hq.chains.linked .list
    rw [hl] at hlinked
    obtain rfl : p = some td := hlinked.1
    have hp := processTd_processed s td
    generalize hs₁ : processTd s td = s₁ at hp
    have hnodup := hq.chains.nodup .list
    rw [hl] at hnodup
    have hmem : td ∉ l := (List.nodup_cons.mp hnodup).1
    have hnot : ∀ c, td ∉ Function.update T .list l c := fun c hc => by
      rcases Queues.mem_update hc with ⟨-, hc⟩ | ⟨hne, hc⟩
      · exact hmem hc
      · exact hne (hq.chains.apart hc (hl ▸ List.mem_cons_self))
    have hq₁ : Queues s₁.shape w (s.nextTD td) (Function.update T .list l) := by
      rw [← shape_next]
      by_cases hmatch : Matches s td
      · rw [hp.freed hmatch]
        exact (hq.next hl).setTd hnot
      · rw [hp.kept hmatch]
        exact hq.next hl
    obtain ⟨s', heval, hlist⟩ := ih k hq₁ (by simp) (by simpa using hfuel)
    have hcontent : ∀ x ∈ l, s₁.content x = s.content x := fun x hx =>
      hp.content x fun heq => hmem (heq ▸ hx)
    refine ⟨s', ?_, ⟨?_, fun x => ?_, fun x hx => ?_, fun e => ?_, ?_⟩⟩
    · simp only [processList, hs₁]
      exact heval
    · have hqueues := hlist.queues
      rwa [Function.update_idem] at hqueues
    · rw [hlist.inUse, hp.inUse, and_assoc]
      refine and_congr_right fun _ => ?_
      by_cases hx : x = td
      · subst hx
        simp [hmem]
      · simp [hx, hp.matches hx]
    · rw [List.mem_cons, not_or] at hx
      rw [hlist.content x hx.2, hp.content x hx.1]
    · refine SameExceptAddr.trans ?_ (hlist.eds e)
      rw [finishes_cons, finishes, foldl_finish_congr hcontent]
      exact (hp.eds e).foldl s _
    · rw [hlist.rest, hp.rest]

/-- What `HccaDoneHead` stands for: the controller has handed over a list if the interrupt is
pending. -/
def Host.written (s : Host) : Option Td := if s.writebackDoneHead then s.hccaDoneHead else none

structure Handled (s s' : Host) (T : Place → List Td) : Prop where
  queues : Queues s'.shape none none (Function.update T .written [])
  inUse : ∀ x, s'.tdInUse x = true ↔ s.tdInUse x = true ∧ (x ∈ T .written → ¬ Matches s x)
  content : ∀ x, x ∉ T .written → s'.content x = s.content x
  eds : ∀ e, SameExceptAddr (finishes s (T .written).reverse e) (s'.eds e)
  rest : s' = { s with
    eds := s'.eds
    gtds := s'.gtds
    itds := s'.itds
    counts := s'.counts
    writebackDoneHead := false }

theorem Queues.list_nil {S : Shape} (hq : Queues S w none T) : T .list = [] :=
  (hq.chains.linked .list).start_none

theorem Queues.written_nil {S : Shape} (hq : Queues S none p T) : T .written = [] :=
  (hq.chains.linked .written).start_none

theorem matches_of_content (hcontent : s'.content = s.content) (heds : s'.eds = s.eds) (x : Td) :
    Matches s' x ↔ Matches s x := by
  rw [Matches, Matches, edIdx_of_content (congrFun hcontent x), heds]

theorem processDoneQueue_queues (hq : Queues s.shape w none T) :
    ∃ s', processDoneQueue s w = some s' ∧
      Queues s'.shape none none (Function.update T .written []) ∧
      (∀ x, s'.tdInUse x = true ↔ s.tdInUse x = true ∧ (x ∈ T .written → ¬ Matches s x)) ∧
      (∀ x, x ∉ T .written → s'.content x = s.content x) ∧
      (∀ e, SameExceptAddr (finishes s (T .written).reverse e) (s'.eds e)) ∧
      s' = { s with eds := s'.eds, gtds := s'.gtds, itds := s'.itds, counts := s'.counts } := by
  cases w with
  | none =>
    have hnil := hq.written_nil
    refine ⟨s, rfl, ?_, by simp [hnil], fun _ _ => rfl,
      fun e => by simp [hnil, finishes, SameExceptAddr], rfl⟩
    rwa [← hnil, Function.update_eq_self]
  | some td =>
    have hlen := length_le_tds (hq.chains.nodup .written)
    obtain ⟨s₁, p, T₁, heval₁, hq₁, hlist, hwritten, hretired, hpipe, hcontent, hrest₁⟩ :=
      reverseDone_queues (maxGtd + maxItd) hq rfl hlen
    rw [hq.list_nil, List.append_nil] at hlist
    obtain ⟨s₂, heval₂, hproc⟩ := processList_queues (maxGtd + maxItd) hq₁ hlist
      (by rw [List.length_reverse]; exact hlen)
    have heds₁ : s₁.eds = s.eds := by rw [hrest₁]
    have hT : Function.update T₁ .list [] = Function.update T .written [] := by
      funext c
      cases c with
      | pipe e => simp [hpipe]
      | retired => simp [hretired]
      | written => simp [hwritten]
      | list => simp [hq.list_nil]
    refine ⟨s₂, ?_, hT ▸ hproc.queues, fun x => ?_, fun x hx => ?_, fun e => ?_, ?_⟩
    · simp only [processDoneQueue, heval₁, Option.bind_eq_bind, Option.bind_some]
      exact heval₂
    · rw [hproc.inUse, matches_of_content hcontent heds₁, List.mem_reverse, tdInUse_eq, tdInUse_eq,
        hcontent]
    · rw [hproc.content x (by simpa using hx), hcontent]
    · have hfinish : finishes s (T .written).reverse e = finishes s₁ (T .written).reverse e := by
        rw [finishes, finishes, foldl_finish_congr fun x _ => congrFun hcontent x, heds₁]
      rw [hfinish]
      exact hproc.eds e
    · rw [hproc.rest, hrest₁]

theorem hcdIrqHandler_queues (hq : Queues s.shape s.written none T) :
    ∃ s', hcdIrqHandler s = some s' ∧ Handled s s' T := by
  by_cases hpending : s.writebackDoneHead = true
  · have hwritten : s.written = s.hccaDoneHead := by rw [Host.written, if_pos hpending]
    rw [hwritten] at hq
    obtain ⟨s₁, heval, hq₁, hinUse, hcontent, heds, hrest⟩ := processDoneQueue_queues hq
    refine ⟨{ s₁ with writebackDoneHead := false }, ?_, hq₁, fun x => ?_, fun x hx => ?_, heds, ?_⟩
    · simp only [hcdIrqHandler, hpending, if_true, heval, Option.map_some]
    · rw [← hinUse]
      cases x <;> rfl
    · rw [← hcontent x hx]
      exact congrFun (content_eq rfl rfl) x
    · rw [hrest]
  · have hwritten : s.written = none := by rw [Host.written, if_neg hpending]
    rw [hwritten] at hq
    have hnil := hq.written_nil
    have hfalse : s.writebackDoneHead = false := Bool.not_eq_true _ ▸ hpending
    refine ⟨s, by simp only [hcdIrqHandler, if_neg hpending], ?_, by simp [hnil], fun _ _ => rfl,
      fun e => by simp [hnil, finishes, SameExceptAddr], ?_⟩
    · rwa [← hnil, Function.update_eq_self]
    · rw [← hfalse]

end Done

end AoaBoard.Usb.Ohci
