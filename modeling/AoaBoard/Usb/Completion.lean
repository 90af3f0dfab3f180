import AoaBoard.Usb.Controller

/-!
# Waiting for a control transfer

`HcdControlTransfer` waits until the interrupt handler changes the status of the
endpoint. Meanwhile the controller takes the stages out of the queue one after
the other, hands them over and interrupts, and the driver serves other pipes.
-/

namespace AoaBoard.Usb.Ohci
open Library Library.Run Library.Links

/-- Nobody else uses the endpoint, apart from the controller. -/
def Leaves (e : Fin maxEd) : Option Machine → Action → Prop
  | _, .retire _ _ _ _ | _, .writeBack | _, .interrupt => True
  | some M, a => ¬touches M a e
  | none, _ => False

def retiredOf (e : Fin maxEd) (events : List Event) : List (Td × ConditionCode) :=
  events.filterMap fun
    | .retired x td code => if x = e then some (td, code) else none
    | _ => none

/-- The status that the stages dealt with have led to: it changes with each one that fails and with
the last one. -/
def Waits (n : ℕ) (handled : List (Td × ConditionCode)) (status : HcdStatus) : Prop :=
  (status = .transferQueued ↔ handled.length < n ∧ ∀ x ∈ handled, x.2 = .ok) ∧
    (status = .ok ↔ handled.length = n ∧ ∀ x ∈ handled.getLast?, x.2 = .ok)

section Status
variable {n : ℕ} {s : Host} {d : Ed} {hd wr : List (Td × ConditionCode)} {td : Td}
  {code : ConditionCode}

theorem updateStatus_failed (d : Ed) (delayInterrupt : UInt8) (hfail : code ≠ .ok) :
    ∃ c, c ≠ .ok ∧ (updateStatus d delayInterrupt code).status = .transfer c := by
  simp only [updateStatus, if_pos hfail]
  split_ifs
  · exact ⟨.stall, by simp, rfl⟩
  · exact ⟨code, hfail, rfl⟩
  · exact ⟨.stall, by simp, rfl⟩
  · exact ⟨code, hfail, rfl⟩

theorem waits_finish (h : Waits n hd d.status) (hlen : hd.length < n)
    (hcode : s.conditionCode td = code)
    (hdelay : s.delayInterrupt td = if hd.length + 1 = n then 0 else tdNoInterruptOnComplete) :
    Waits n (hd ++ [(td, code)]) (finish s d td).status := by
  rw [finish, hcode, hdelay]
  by_cases hok : code = .ok
  · subst hok
    by_cases hlast : hd.length + 1 = n
    · -- the status stage
      have hstatus : (updateStatus d 0 .ok).status = .ok := by
        simp [updateStatus, tdNoInterruptOnComplete]
      rw [if_pos hlast, hstatus]
      refine ⟨iff_of_false (by simp) fun h => ?_, iff_of_true rfl ?_⟩
      · have hlt := h.1
        simp only [List.length_append, List.length_singleton] at hlt
        omega
      · simp [hlast]
    · have hstatus : (updateStatus d tdNoInterruptOnComplete .ok).status = d.status := by
        simp [updateStatus]
      rw [if_neg hlast, hstatus]
      refine ⟨h.1.trans ?_, iff_of_false (fun hdone => ?_) fun hdone => hlast ?_⟩
      · simp only [List.length_append, List.length_singleton, List.forall_mem_append,
          List.forall_mem_singleton, and_true]
        exact and_congr_left fun _ => by omega
      · exact hlen.ne (h.2.mp hdone).1
      · simpa using hdone.1
  · obtain ⟨c, hc, hstatus⟩ := updateStatus_failed d
      (if hd.length + 1 = n then 0 else tdNoInterruptOnComplete) hok
    rw [hstatus]
    refine ⟨iff_of_false (by simp) fun h => hok (h.2 (td, code) (by simp)),
      iff_of_false (fun hdone => hc (HcdStatus.transfer.inj hdone)) fun hdone => hok ?_⟩
    exact hdone.2 (td, code) (by simp)

theorem waits_foldl (h : Waits n hd d.status) (hlen : hd.length + wr.length ≤ n)
    (hcode : ∀ x ∈ wr, s.conditionCode x.1 = x.2)
    (hdelay : ∀ i x, wr[i]? = some x →
      s.delayInterrupt x.1 = if hd.length + i + 1 = n then 0 else tdNoInterruptOnComplete) :
    Waits n (hd ++ wr) ((wr.map Prod.fst).foldl (finish s) d).status := by
  induction wr generalizing hd d with
  | nil => simpa using h
  | cons x wr ih =>
    simp only [List.length_cons] at hlen
    have hx : Waits n (hd ++ [x]) (finish s d x.1).status :=
      waits_finish h (by omega) (hcode x (by simp)) (hdelay 0 x (by simp))
    have hrest := ih hx (by simp; omega) (fun y hy => hcode y (by simp [hy])) fun i y hy => by
      have hi := hdelay (i + 1) y (by simpa using hy)
      rw [hi, List.length_append, List.length_singleton]
      congr 2
      omega
    simpa using hrest

end Status

/-- How far a control transfer has come. Of the stages `st` those in `hd` have been dealt with,
those in `wr` handed over, those in `re` retired, and the rest are in the queue. -/
structure Progress (s : Host) (T : Place → List Td) (e : Fin maxEd) (st : List Td) (t : Td)
    (hd wr re : List (Td × ConditionCode)) : Prop where
  opened : s.opened e = true
  queue : (hd ++ wr ++ re).map Prod.fst ++ T (.pipe e) = st ++ [t]
  written : (T .written).reverse.filter (fun td => s.edIdx td = e) = wr.map Prod.fst
  retired : (T .retired).reverse.filter (fun td => s.edIdx td = e) = re.map Prod.fst
  codes : ∀ x ∈ wr ++ re, s.conditionCode x.1 = x.2
  delays : ∀ k td, st[k]? = some td → hd.length ≤ k →
    s.delayInterrupt td = if k + 1 = st.length then 0 else tdNoInterruptOnComplete
  status : Waits st.length hd (s.eds e).status

section Steps
variable {M : Machine} {s s' : Host} {T T' : Place → List Td} {L : ListHead → List (Fin maxEd)}
  {e : Fin maxEd} {st : List Td} {t : Td} {hd wr re : List (Td × ConditionCode)}

theorem near_pipe (e : Fin maxEd) : Near e (.pipe e) := fun _ heq => (Place.pipe.inj heq).symm

theorem near_written (e : Fin maxEd) : Near e .written := fun _ heq => by cases heq

theorem near_retired (e : Fin maxEd) : Near e .retired := fun _ heq => by cases heq

theorem Progress.length_le (h : Progress s T e st t hd wr re)
    (hq : Queues s.shape s.written none T) : (hd ++ wr ++ re).length ≤ st.length := by
  obtain ⟨q, t', hT, -⟩ := hq.split_tail h.opened
  have hlen := congrArg List.length h.queue
  rw [hT] at hlen
  simp only [List.length_append, List.length_map, List.length_singleton] at hlen ⊢
  omega

theorem Progress.mem_written (h : Progress s T e st t hd wr re) {x : Td × ConditionCode}
    (hx : x ∈ wr) : x.1 ∈ T .written ∧ s.edIdx x.1 = e := by
  have hmem : x.1 ∈ (T .written).reverse.filter fun td => s.edIdx td = e :=
    h.written ▸ List.mem_map_of_mem hx
  simpa using hmem

theorem Progress.mem_retired (h : Progress s T e st t hd wr re) {x : Td × ConditionCode}
    (hx : x ∈ re) : x.1 ∈ T .retired ∧ s.edIdx x.1 = e := by
  have hmem : x.1 ∈ (T .retired).reverse.filter fun td => s.edIdx td = e :=
    h.retired ▸ List.mem_map_of_mem hx
  simpa using hmem

theorem mem_of_split {α : Type*} {u v l : List α} {a b : α} {k : ℕ} (h : u ++ v = l ++ [b])
    (ha : l[k]? = some a) (hk : u.length ≤ k) : a ∈ v := by
  obtain ⟨hlt, -⟩ := List.getElem?_eq_some_iff.mp ha
  rw [← List.getElem?_append_left hlt, ← h, List.getElem?_append_right hk] at ha
  exact List.mem_of_getElem? ha

theorem Progress.mem_behind (h : Progress s T e st t hd wr re) {k : ℕ} {td : Td}
    (htd : st[k]? = some td) (hk : (hd ++ wr).length ≤ k) :
    td ∈ T .retired ∨ td ∈ T (.pipe e) := by
  have hqueue := h.queue
  rw [List.map_append, List.append_assoc] at hqueue
  rcases List.mem_append.mp (mem_of_split hqueue htd (by simpa using hk)) with hmem | hmem
  · obtain ⟨x, hx, rfl⟩ := List.mem_map.mp hmem
    exact Or.inl (h.mem_retired hx).1
  · exact Or.inr hmem

theorem Progress.mem_near (h : Progress s T e st t hd wr re) {k : ℕ} {td : Td}
    (htd : st[k]? = some td) (hk : hd.length ≤ k) : ∃ c, Near e c ∧ td ∈ T c := by
  have hqueue := h.queue
  rw [List.append_assoc, List.map_append, List.append_assoc] at hqueue
  rcases List.mem_append.mp (mem_of_split hqueue htd (by simpa using hk)) with hmem | hmem
  · obtain ⟨x, hx, rfl⟩ := List.mem_map.mp hmem
    rcases List.mem_append.mp hx with hx | hx
    · exact ⟨.written, near_written e, (h.mem_written hx).1⟩
    · exact ⟨.retired, near_retired e, (h.mem_retired hx).1⟩
  · exact ⟨.pipe e, near_pipe e, hmem⟩

theorem Progress.stays (h : Progress s T e st t hd wr re) (hstays : Stays s s' T T' e)
    (hopened : s'.opened e = true) : Progress s' T' e st t hd wr re := by
  have hfilter : ∀ c, Near e c → (T' c).reverse.filter (fun td => s'.edIdx td = e) =
      (T c).reverse.filter fun td => s.edIdx td = e := fun c hc => by
    rw [hstays.lists c hc]
    refine List.filter_congr fun td htd => ?_
    rw [edIdx_of_content (hstays.content c hc td (List.mem_reverse.mp htd))]
  refine ⟨hopened, ?_, ?_, ?_, fun x hx => ?_, fun k td htd hk => ?_, ?_⟩
  · rw [hstays.lists _ (near_pipe e)]
    exact h.queue
  · rw [hfilter _ (near_written e)]
    exact h.written
  · rw [hfilter _ (near_retired e)]
    exact h.retired
  · rw [← h.codes x hx]
    refine conditionCode_of_content ?_
    rcases List.mem_append.mp hx with hx | hx
    · exact hstays.content _ (near_written e) _ (h.mem_written hx).1
    · exact hstays.content _ (near_retired e) _ (h.mem_retired hx).1
  · obtain ⟨c, hc, hmem⟩ := h.mem_near htd hk
    rw [← h.delays k td htd hk, delayInterrupt_of_content (hstays.content c hc td hmem)]
  · rw [hstays.status]
    exact h.status

theorem retireTd_content (s : Host) (x : Fin maxEd) (td : Td) (code : ConditionCode) (cbp : UInt32)
    (toggle : Bool) :
    (∀ y, y ≠ td → (retireTd s x td code cbp toggle).content y = s.content y) ∧
      (retireTd s x td code cbp toggle).conditionCode td = code ∧
      (retireTd s x td code cbp toggle).delayInterrupt td = s.delayInterrupt td ∧
      (retireTd s x td code cbp toggle).edIdx td = s.edIdx td := by
  generalize hs₁ : (s.setEd x { s.eds x with
    headTD := s.nextTD td, halted := !td.isItd && code ≠ .ok, toggleCarry := toggle }) = s₁
  have hs₁content : s₁.content = s.content := by
    rw [← hs₁]
    exact content_eq rfl rfl
  obtain ⟨s₂, heval, hother, hcode, hdelay, hidx⟩ : ∃ s₂ : Host,
      retireTd s x td code cbp toggle =
        { s₂.setNextTD td s.hcDoneHead with hcDoneHead := some td } ∧
      (∀ y, y ≠ td → s₂.content y = s.content y) ∧ s₂.conditionCode td = code ∧
      s₂.delayInterrupt td = s.delayInterrupt td ∧ s₂.edIdx td = s.edIdx td := by
    cases td with
    | gtd i =>
      have hset := (filled_gtd (s := s₁) (e := x) (i := i) (g := { s.gtds i with
        conditionCode := code, currentBufferPointer := cbp }) (by rw [← hs₁]; rfl)).content
      rw [hs₁content] at hset
      exact ⟨_, by rw [← hs₁]; rfl, hset, by simp [Host.conditionCode, Host.setGtd],
        by simp [Host.delayInterrupt, Host.setGtd], by simp [Host.edIdx, Host.setGtd]⟩
    | itd i =>
      have hset := (filled_itd (s := s₁) (e := x) (i := i) (g := { s.itds i with
        conditionCode := code }) (by rw [← hs₁]; rfl)).content
      rw [hs₁content] at hset
      exact ⟨_, by rw [← hs₁]; rfl, hset, by simp [Host.conditionCode, Host.setItd],
        by simp [Host.delayInterrupt, Host.setItd], by simp [Host.edIdx, Host.setItd]⟩
  have hcontent : ∀ y, (retireTd s x td code cbp toggle).content y = s₂.content y := fun y => by
    rw [heval, ← content_setNextTD s₂ td y s.hcDoneHead]
    exact congrFun (content_eq rfl rfl) y
  exact ⟨fun y hy => (hcontent y).trans (hother y hy),
    (conditionCode_of_content (hcontent td)).trans hcode,
    (delayInterrupt_of_content (hcontent td)).trans hdelay,
    (edIdx_of_content (hcontent td)).trans hidx⟩

theorem retireTd_eds (s : Host) (x : Fin maxEd) (td : Td) (code : ConditionCode) (cbp : UInt32)
    (toggle : Bool) : (retireTd s x td code cbp toggle).eds = Function.update s.eds x { s.eds x with
      headTD := s.nextTD td, halted := !td.isItd && code ≠ .ok, toggleCarry := toggle } := by
  cases td <;> rfl

theorem retireTd_edIdx (s : Host) (x : Fin maxEd) (td : Td) (code : ConditionCode) (cbp : UInt32)
    (toggle : Bool) (y : Td) : (retireTd s x td code cbp toggle).edIdx y = s.edIdx y := by
  obtain ⟨hother, -, -, hself⟩ := retireTd_content s x td code cbp toggle
  by_cases hy : y = td
  · rw [hy, hself]
  · exact edIdx_of_content (hother y hy)

theorem Progress.retire (h : Progress s T e st t hd wr re) {x : Fin maxEd} {td : Td} {m : List Td}
    (hq : Queues s.shape s.written none T) (hT : T (.pipe x) = td :: m)
    (code : ConditionCode) (cbp : UInt32) (toggle : Bool) :
    Progress (retireTd s x td code cbp toggle)
      (Function.update (Function.update T (.pipe x) m) .retired (td :: T .retired)) e st t hd wr
      (re ++ retiredOf e [.retired x td code]) := by
  have hmem : td ∈ T (.pipe x) := hT ▸ List.mem_cons_self
  have hidx : s.edIdx td = x := shape_edIdx s td ▸ (hq.members_pipe hmem).2.1
  obtain ⟨hother, hcode, hdelay, -⟩ := retireTd_content s x td code cbp toggle
  have hfilter : ∀ l : List Td,
      l.reverse.filter (fun y => (retireTd s x td code cbp toggle).edIdx y = e) =
        l.reverse.filter fun y => s.edIdx y = e := fun l => by
    simp only [retireTd_edIdx]
  have hretired : (retiredOf e [.retired x td code]).map Prod.fst =
      [td].filter fun y => s.edIdx y = e := by
    by_cases hx : x = e
    · simp [retiredOf, hx, hidx]
    · simp [retiredOf, hx, hidx]
  have hpipe : T (.pipe e) = (retiredOf e [.retired x td code]).map Prod.fst ++
      Function.update T (.pipe x) m (.pipe e) := by
    by_cases hx : x = e
    · subst hx
      simp [retiredOf, hT]
    · rw [Function.update_of_ne (Queues.pipe_ne (Ne.symm hx))]
      simp [retiredOf, hx]
  have hapart : ∀ y c, y ∈ T c → c ≠ .pipe x → y ≠ td := fun y c hy hc heq =>
    hc (hq.chains.apart (heq ▸ hy) hmem)
  refine ⟨?_, ?_, ?_, ?_, fun y hy => ?_, fun k y hy hk => ?_, ?_⟩
  · have hopened := h.opened
    rw [Host.opened, retireTd_eds]
    by_cases hx : e = x
    · subst hx
      rwa [Function.update_self]
    · rwa [Function.update_of_ne hx]
  · have hqueue := h.queue
    rw [hpipe] at hqueue
    rw [Function.update_of_ne (by simp)]
    simpa using hqueue
  · rw [hfilter]
    exact h.written
  · rw [Function.update_self, List.map_append, hretired, ← h.retired, List.reverse_cons,
      List.filter_append, hfilter]
    simp only [retireTd_edIdx]
  · have hold : y ∈ wr ++ re → (retireTd s x td code cbp toggle).conditionCode y.1 = y.2 := by
      intro hy
      rw [← h.codes y hy]
      refine conditionCode_of_content (hother _ ?_)
      rcases List.mem_append.mp hy with hy | hy
      · exact hapart _ _ (h.mem_written hy).1 (by simp)
      · exact hapart _ _ (h.mem_retired hy).1 (by simp)
    rw [← List.append_assoc] at hy
    rcases List.mem_append.mp hy with hy | hy
    · exact hold hy
    · by_cases hx : x = e
      · have hy' : y = (td, code) := by simpa [retiredOf, hx] using hy
        rw [hy', hcode]
      · simp [retiredOf, hx] at hy
  · rw [← h.delays k y hy hk]
    by_cases hytd : y = td
    · rw [hytd, hdelay]
    · exact delayInterrupt_of_content (hother y hytd)
  · have hstatus := h.status
    rw [retireTd_eds]
    by_cases hx : e = x
    · subst hx
      rwa [Function.update_self]
    · rwa [Function.update_of_ne hx]

theorem Progress.writeBack (h : Progress s T e st t hd wr re)
    (hq : Queues s.shape s.written none T) (hpending : s.writebackDoneHead = false) :
    wr = [] ∧ Progress (Ohci.writeBack s)
      (Function.update (Function.update T .retired []) .written (T .retired)) e st t hd re [] := by
  have hnone : s.written = none := by
    rw [Host.written, hpending]
    rfl
  have hwr : wr = [] := by
    have hq' : Queues s.shape none none T := hnone ▸ hq
    have hwritten := h.written
    rw [hq'.written_nil] at hwritten
    exact List.map_eq_nil_iff.mp hwritten.symm
  subst hwr
  have hcontent : (Ohci.writeBack s).content = s.content := content_eq rfl rfl
  have hidx : ∀ x, (Ohci.writeBack s).edIdx x = s.edIdx x := fun x =>
    edIdx_of_content (congrFun hcontent x)
  refine ⟨rfl, h.opened, ?_, ?_, by simp, fun x hx => ?_, fun k td htd hk => ?_, h.status⟩
  · simpa using h.queue
  · rw [Function.update_self]
    simpa only [hidx] using h.retired
  · rw [conditionCode_of_content (congrFun hcontent x.1)]
    exact h.codes x (by simpa using hx)
  · rw [delayInterrupt_of_content (congrFun hcontent td)]
    exact h.delays k td htd hk

theorem Progress.interrupt (h : Progress s T e st t hd wr re)
    (hq : Queues s.shape s.written none T) (hhandled : Handled s s' T) :
    Progress s' (Function.update T .written []) e st t (hd ++ wr) [] re := by
  have hapart : ∀ c, c ≠ .written → ∀ x ∈ T c, s'.content x = s.content x := fun c hc x hx =>
    hhandled.content x fun hmem => hc (hq.chains.apart hx hmem)
  refine ⟨?_, ?_, by simp, ?_, fun x hx => ?_, fun k td htd hk => ?_, ?_⟩
  · rw [← opened_shape, shape_eds, hhandled.endpoint]
    exact h.opened
  · simpa using h.queue
  · rw [← h.retired, Function.update_of_ne (by simp)]
    refine List.filter_congr fun x hx => ?_
    rw [edIdx_of_content (hapart .retired (by simp) x (List.mem_reverse.mp hx))]
  · have hx' : x ∈ re := by simpa using hx
    rw [conditionCode_of_content (hapart .retired (by simp) x.1 (h.mem_retired hx').1)]
    exact h.codes x (List.mem_append_right wr hx')
  · rw [← h.delays k td htd (by simp at hk; omega)]
    refine delayInterrupt_of_content ?_
    rcases h.mem_behind htd hk with hmem | hmem
    · exact hapart .retired (by simp) td hmem
    · exact hapart (.pipe e) (by simp) td hmem
  · have hlen := h.length_le hq
    simp only [List.length_append] at hlen
    have hfold : (s'.eds e).status = ((wr.map Prod.fst).foldl (finish s) (s.eds e)).status := by
      have hsame := hhandled.eds e
      rw [SameExceptAddr] at hsame
      rw [hsame, ← h.written]
      rfl
    rw [hfold]
    refine waits_foldl h.status (by omega) (fun x hx => h.codes x (List.mem_append_left re hx))
      fun i x hx => h.delays _ x.1 ?_ (by omega)
    obtain ⟨hi, hxi⟩ := List.getElem?_eq_some_iff.mp hx
    have hget : (st ++ [t])[hd.length + i]? = some x.1 := by
      rw [← h.queue, List.append_assoc, List.map_append, List.append_assoc,
        List.getElem?_append_right (by simp)]
      simp [List.getElem?_append_left, hi, hxi]
    rwa [List.getElem?_append_left (by omega)] at hget

theorem retiredOf_append (e : Fin maxEd) (l l' : List Event) :
    retiredOf e (l ++ l') = retiredOf e l ++ retiredOf e l' := List.filterMap_append

theorem retiredOf_report (r : Option (Host × HcdStatus)) : retiredOf e (report M r).2 = [] := by
  cases r <;> rfl

theorem retiredOf_driver {a : Action} (ha : ∀ x code cbp toggle, a ≠ .retire x code cbp toggle) :
    retiredOf e (stepMachine M a).2 = [] := by
  cases a with
  | openPipe a =>
    simp only [stepMachine]
    split <;> rfl
  | closePipe handle sof =>
    simp only [stepMachine]
    split
    · rfl
    · exact retiredOf_report _
  | cancelTransfer handle sof => exact retiredOf_report _
  | clearEndpointHalt handle => rfl
  | controlTransfer handle r buffer => exact retiredOf_report _
  | dataTransfer handle buffer length count => exact retiredOf_report _
  | retire x code cbp toggle => exact absurd rfl (ha x code cbp toggle)
  | writeBack => rfl
  | frame n => rfl
  | interrupt => rfl
  | initDriver => rfl

def Waiting (e : Fin maxEd) (st : List Td) (t : Td) (events : List Event) (m : Option Machine) :
    Prop :=
  ∃ M T L hd wr re, m = some M ∧ Inv M T L ∧ Progress M.host T e st t hd wr re ∧
    hd ++ wr ++ re = retiredOf e events

theorem waiting_driver {events : List Event} {a : Action} (hinv : Inv M T L)
    (hprogress : Progress M.host T e st t hd wr re) (hevents : hd ++ wr ++ re = retiredOf e events)
    (ha : Legal (some M) a) (hleaves : ¬touches M a e) :
    Waiting e st t (events ++ (step (some M) a).2) (step (some M) a).1 := by
  have hinit : a ≠ .initDriver := fun h => hleaves (h ▸ trivial)
  have hdriver : ∀ x code cbp toggle, a ≠ .retire x code cbp toggle := fun _ _ _ _ h =>
    hleaves (h ▸ trivial)
  obtain ⟨M', heval, T', L', hinv', -, hstays⟩ := step_keeps hinv ha hinit
  have hstays := hstays e hprogress.opened hleaves
  have hopened : M'.host.opened e = true := by
    by_contra hclosed
    rw [Bool.not_eq_true] at hclosed
    obtain ⟨q, t', hT, -⟩ := hinv.queues.split_tail hprogress.opened
    have hnil := hinv'.queues.unopened hclosed
    rw [hstays.lists _ (near_pipe e), hT] at hnil
    simp at hnil
  refine ⟨{ M' with lost := lostAfter M a }, T', L', hd, wr, re, ?_, hinv'.lost _,
    hprogress.stays hstays hopened, ?_⟩
  · simp only [step, heval, Option.map_some]
  · have hquiet : retiredOf e (step (some M) a).2 = [] := retiredOf_driver hdriver
    rw [hevents, retiredOf_append, hquiet, List.append_nil]

theorem waiting_step (events : List Event) (m : Option Machine) (a : Action)
    (hm : Waiting e st t events m) (ha : Legal m a ∧ Leaves e m a) :
    Waiting e st t (events ++ (step m a).2) (step m a).1 := by
  obtain ⟨M, T, L, hd, wr, re, rfl, hinv, hprogress, hevents⟩ := hm
  obtain ⟨hlegal, hleaves⟩ := ha
  cases a with
  | retire x code cbp toggle =>
    obtain ⟨td, m, hm, hT, hhead⟩ := busy_queue hinv hlegal.1 hlegal.2
    have hstep : step (some M) (.retire x code cbp toggle) =
        (some { M with
          host := retireTd M.host x td code cbp toggle
          lost := lostAfter M (.retire x code cbp toggle) }, [.retired x td code]) := by
      simp only [step, stepMachine, hhead, Option.map_some]
    rw [hstep]
    refine ⟨_, _, L, hd, wr, re ++ retiredOf e [.retired x td code], rfl,
      (retire_moved hinv hlegal.1 hT hm code cbp toggle).inv.lost _,
      hprogress.retire hinv.queues hT code cbp toggle, ?_⟩
    rw [← List.append_assoc, hevents, retiredOf_append]
  | writeBack =>
    obtain ⟨rfl, hnext⟩ := hprogress.writeBack hinv.queues hlegal
    have hstep : step (some M) .writeBack =
        (some { M with host := Ohci.writeBack M.host, lost := lostAfter M .writeBack }, []) := rfl
    rw [hstep]
    refine ⟨_, _, L, hd, re, [], rfl, (writeBack_moved hinv hlegal).inv.lost _, hnext, ?_⟩
    simpa using hevents
  | interrupt =>
    obtain ⟨s', heval, hhandled, hmoved⟩ := interrupt_moved hinv
    have hstep : step (some M) .interrupt =
        (some { M with host := s', lost := lostAfter M .interrupt }, []) := by
      simp only [step, stepMachine, heval, Option.map_some]
    rw [hstep]
    refine ⟨_, _, L, hd ++ wr, [], re, rfl, hmoved.inv.lost _,
      hprogress.interrupt hinv.queues hhandled, ?_⟩
    simpa using hevents
  | openPipe a => exact waiting_driver hinv hprogress hevents hlegal hleaves
  | closePipe handle sof => exact waiting_driver hinv hprogress hevents hlegal hleaves
  | cancelTransfer handle sof => exact waiting_driver hinv hprogress hevents hlegal hleaves
  | clearEndpointHalt handle => exact waiting_driver hinv hprogress hevents hlegal hleaves
  | controlTransfer handle r buffer => exact waiting_driver hinv hprogress hevents hlegal hleaves
  | dataTransfer handle buffer length count =>
    exact waiting_driver hinv hprogress hevents hlegal hleaves
  | frame n => exact waiting_driver hinv hprogress hevents hlegal hleaves
  | initDriver => exact absurd trivial hleaves

theorem stages_ioc (r : Request) (buffer : UInt32) {k : ℕ} {P : Piece}
    (hP : (stages r buffer)[k]? = some P) : P.ioc = decide (k + 1 = (stages r buffer).length) := by
  by_cases hlen : r.wLength ≠ 0
  · simp only [stages, if_pos hlen, List.cons_append, List.nil_append] at hP ⊢
    rcases k with _ | _ | _ | k
    · obtain rfl := Option.some.inj hP
      rfl
    · obtain rfl := Option.some.inj hP
      rfl
    · obtain rfl := Option.some.inj hP
      rfl
    · simp at hP
  · simp only [stages, if_neg hlen, List.cons_append, List.nil_append] at hP ⊢
    rcases k with _ | _ | k
    · obtain rfl := Option.some.inj hP
      rfl
    · obtain rfl := Option.some.inj hP
      rfl
    · simp at hP

theorem Progress.begins {s₁ : Host} {m : List Td} {ps : List Piece} (hinv : Inv M T L)
    (he : M.host.opened e = true) (hidle : ∀ td ∈ T .retired ++ T .written, M.host.edIdx td ≠ e)
    (hlist : QueuesList M.host s₁ M.host.written none T e [] t ps m) (hlen : m.length = ps.length)
    (hpos : 0 < ps.length)
    (hioc : ∀ k P, ps[k]? = some P → P.ioc = decide (k + 1 = ps.length))
    (hfresh : ∀ P ∈ ps.head?, P.ioc = true → M.host.delayInterrupt t = 0)
    (hshape : s'.shape = s₁.shape) (hwritten : s'.written = s₁.written)
    (hcontent : s'.content = s₁.content) (hstatus : (s'.eds e).status = .transferQueued) :
    ∃ T' st t', Inv { M with host := s' } T' L ∧ Progress s' T' e st t' [] [] [] ∧
      st.length = ps.length := by
  obtain ⟨st, t', hqueue, hst, hholds⟩ := hlist.holds
  have hholds := hholds hfresh
  rw [hlen, List.take_length] at hholds
  have hmoved := append_moved hinv he hlist.appends
  have hnone : ∀ c, c ≠ .pipe e → (∀ td ∈ T c, M.host.edIdx td ≠ e) →
      (Function.update T (.pipe e) (T (.pipe e) ++ m) c).reverse.filter
        (fun td => s'.edIdx td = e) = [] := fun c hc hother => by
    rw [Function.update_of_ne hc]
    refine List.filter_eq_nil_iff.mpr fun td htd => ?_
    have hmem := List.mem_reverse.mp htd
    have huse : M.host.tdInUse td = true := by
      rw [← shape_inUse]
      exact (hinv.queues.members c td hmem).1
    rw [edIdx_of_content (congrFun hcontent td), edIdx_of_content (hlist.appends.other huse
      fun hpipe => hc (hinv.queues.chains.apart hmem hpipe))]
    simpa using hother td hmem
  refine ⟨_, st, t', hmoved.inv.of_shape hshape hwritten rfl,
    ⟨?_, ?_, ?_, ?_, by simp, fun k td htd _ => ?_, ?_⟩, hst.trans hlen⟩
  · rw [← opened_shape, hshape]
    exact hlist.appends.opened
  · simpa using hqueue
  · exact hnone .written (by simp) fun td htd => hidle td (List.mem_append_right _ htd)
  · exact hnone .retired (by simp) fun td htd => hidle td (List.mem_append_left _ htd)
  · obtain ⟨hk, hget⟩ := List.getElem?_eq_some_iff.mp htd
    have hk' : k < ps.length := hholds.length_eq ▸ hk
    have hhold : Holds s₁ td ps[k] := hget ▸ hholds.get hk hk'
    rw [delayInterrupt_of_content (congrFun hcontent td), hhold.delayInterrupt,
      hioc k _ (List.getElem?_eq_getElem hk'), hholds.length_eq]
    simp
  · rw [hstatus]
    have hsome : 0 < st.length := by
      rw [hst, hlen]
      exact hpos
    exact ⟨iff_of_true rfl ⟨hsome, by simp⟩,
      iff_of_false (by simp) fun h => (ne_of_lt hsome) h.1⟩

end Steps

def Idle (s : Host) (e : Fin maxEd) : Prop :=
  (s.chain (.pipe e)).length = 1 ∧ ∀ td ∈ s.chain .retired ++ s.chain .written, s.edIdx td ≠ e

instance (s : Host) (e : Fin maxEd) : Decidable (Idle s e) :=
  inferInstanceAs (Decidable (_ ∧ ∀ _ ∈ _, _ ≠ _))

instance (e : Fin maxEd) : (m : Option Machine) → (a : Action) → Decidable (Leaves e m a)
  | none, .retire _ _ _ _ | none, .writeBack | none, .interrupt
  | some _, .retire _ _ _ _ | some _, .writeBack | some _, .interrupt =>
    inferInstanceAs (Decidable True)
  | some _, .openPipe _ | some _, .frame _ => inferInstanceAs (Decidable ¬False)
  | some _, .initDriver => inferInstanceAs (Decidable ¬True)
  | some _, .closePipe _ _ | some _, .cancelTransfer _ _ | some _, .clearEndpointHalt _
  | some _, .controlTransfer _ _ _ | some _, .dataTransfer _ _ _ _ =>
    inferInstanceAs (Decidable ¬_ = _)
  | none, .openPipe _ | none, .frame _ | none, .initDriver | none, .closePipe _ _
  | none, .cancelTransfer _ _ | none, .clearEndpointHalt _ | none, .controlTransfer _ _ _
  | none, .dataTransfer _ _ _ _ => inferInstanceAs (Decidable False)

theorem report_ok {M M₁ : Machine} {a : Action} {r : Option (Host × HcdStatus)}
    (hstep : stepMachine M a = report M r)
    (hcall : step (some M) a = (some M₁, [.status .ok])) :
    ∃ s', r = some (s', .ok) ∧ M₁ = { M with host := s', lost := lostAfter M a } := by
  simp only [step, hstep] at hcall
  cases r with
  | none => cases hcall
  | some result =>
    simp only [report, Option.map_some, Prod.mk.injEq, Option.some.injEq, List.cons.injEq,
      Event.status.injEq, and_true] at hcall
    obtain ⟨rfl, hok⟩ := hcall
    exact ⟨result.1, congrArg some (Prod.ext rfl hok), rfl⟩

theorem waitForTransferComplete_none (s : Host) (e : Fin maxEd) :
    waitForTransferComplete s e = none ↔ (s.eds e).status = .transferQueued := by
  simp [waitForTransferComplete]

theorem waitForTransferComplete_ok (s : Host) (e : Fin maxEd) :
    waitForTransferComplete s e = some .ok ↔ (s.eds e).status = .ok := by
  simp only [waitForTransferComplete]
  split_ifs with hqueued
  · simp [hqueued]
  · rw [Option.some_inj]

def Host.tdsOf (s : Host) (e : Fin maxEd) (c : Place) : List Td :=
  (s.chain c).reverse.filter fun td => s.edIdx td = e

/-- The driver has dealt with all the TDs of the endpoint that the controller has retired, but for
those handed over and those still to be handed over. -/
structure Dealt (n : ℕ) (e : Fin maxEd) (retired handled : List (Td × ConditionCode)) (s : Host) :
    Prop where
  begun : handled <+: retired
  bound : retired.length ≤ n
  rest : (retired.drop handled.length).map Prod.fst = s.tdsOf e .written ++ s.tdsOf e .retired

theorem Progress.dealt {M : Machine} {T : Place → List Td} {L : ListHead → List (Fin maxEd)}
    {e : Fin maxEd} {st : List Td} {t : Td} {hd wr re : List (Td × ConditionCode)}
    (h : Progress M.host T e st t hd wr re) (hinv : Inv M T L) :
    Dealt st.length e (hd ++ wr ++ re) hd M.host where
  begun := by
    rw [List.append_assoc]
    exact List.prefix_append _ _
  bound := h.length_le hinv.queues
  rest := by
    rw [List.append_assoc, List.drop_left, List.map_append, Host.tdsOf, Host.tdsOf,
      hinv.queues.chain_eq, hinv.queues.chain_eq, h.written, h.retired]

theorem interrupt_empties {M : Machine} {T : Place → List Td} {L : ListHead → List (Fin maxEd)}
    (hinv : Inv M T L) : ∃ M', (step (some M) .interrupt).1 = some M' ∧
      M'.host.chain .written = [] := by
  obtain ⟨s', heval, -, hmoved⟩ := interrupt_moved hinv
  refine ⟨{ M with host := s', lost := lostAfter M .interrupt }, ?_, ?_⟩
  · simp only [step, stepMachine, heval, Option.map_some]
  · exact (hmoved.inv.queues.chain_eq .written).trans (Function.update_self _ _ _)

theorem waiting_run {M : Machine} {T : Place → List Td} {L : ListHead → List (Fin maxEd)}
    {e : Fin maxEd} {st : List Td} {t : Td} (hinv : Inv M T L)
    (hprogress : Progress M.host T e st t [] [] []) {as : List Action}
    (has : Along step (fun m a => Legal m a ∧ Leaves e m a) (some M) as) :
    ∃ M' handled, after step (some M) as = some M' ∧ M'.host.opened e = true ∧
      Dealt st.length e (retiredOf e (outputs step (some M) as)) handled M'.host ∧
      (as.getLast? = some .interrupt → M'.host.chain .written = []) ∧
      Waits st.length handled (M'.host.eds e).status := by
  have hwaiting : Waiting e st t [] (some M) := ⟨_, T, L, [], [], [], rfl, hinv, hprogress, rfl⟩
  obtain ⟨M', T', L', hd, wr, re, hrun, hinv', hprogress', hevents⟩ :=
    history_invariant waiting_step hwaiting has
  rw [List.nil_append] at hevents
  rw [← hevents]
  refine ⟨M', hd, hrun, hprogress'.opened, hprogress'.dealt hinv', fun hlast => ?_,
    hprogress'.status⟩
  obtain ⟨as, rfl⟩ := List.getLast?_eq_some_iff.mp hlast
  obtain ⟨M₁, T₁, L₁, -, -, -, hrun₁, hinv₁, -⟩ :=
    history_invariant waiting_step hwaiting ((along_append _ _ _).mp has).1
  obtain ⟨M₂, hM₂, hempty⟩ := interrupt_empties hinv₁
  rw [after_append, hrun₁, after_cons, after_nil, hM₂] at hrun
  obtain rfl := Option.some.inj hrun
  exact hempty

def someSetup : List Action := [.openPipe ⟨0, 1, .full, 0, .control, .setup, 64, 0⟩]

def someRequest : Request := ⟨0x20080000, 0x80, 18⟩

def someStages : List Action :=
  [.retire firstEd .ok 0 false, .openPipe ⟨0, 1, .full, 1, .bulk, .in, 64, 0⟩, .writeBack,
    .interrupt, .retire firstEd .ok 0 false, .retire firstEd .ok 0 false, .writeBack, .interrupt]

theorem someSetup_isSome : (after step (started zeroHost) someSetup).isSome = true := by
  decide +kernel

def idleMachine : Machine := (after step (started zeroHost) someSetup).get someSetup_isSome

theorem someCall_isSome :
    (step (some idleMachine) (.controlTransfer 0 someRequest 0x20080100)).1.isSome = true := by
  decide +kernel

def busyMachine : Machine :=
  (step (some idleMachine) (.controlTransfer 0 someRequest 0x20080100)).1.get someCall_isSome

theorem someCall : step (some idleMachine) (.controlTransfer 0 someRequest 0x20080100) =
    (some busyMachine, [.status .ok]) :=
  Prod.ext (Option.some_get someCall_isSome).symm (by decide +kernel)

-- The setup stage fails, but the driver lets the other two go on.
example : (after step (some busyMachine) [.retire firstEd .stall 0 false, .writeBack, .interrupt,
    .retire firstEd .ok 0 false, .retire firstEd .ok 0 false, .writeBack, .interrupt]).map
      (fun M => waitForTransferComplete M.host firstEd) = some (some .ok) := by decide +kernel

theorem parse_opened {s s' : Host} {handle : UInt32} {e : Fin maxEd}
    (hparse : pipehandleParse s handle = some e) (hopened : s'.opened e = true) :
    pipehandleParse s' handle = some e := by
  simp only [pipehandleParse] at hparse ⊢
  split_ifs at hparse with hcore hlt huse
  obtain rfl := Option.some.inj hparse
  rw [Host.opened, Bool.and_eq_true] at hopened
  rw [if_neg hcore, dif_pos hlt, if_pos hopened.1]

theorem segments_pos {direction : UInt8} {fuel : ℕ} {dataBuff xferLen : UInt32}
    (h : xferLen ≠ 0) : 0 < (segments direction (fuel + 1) dataBuff xferLen).length := by
  simp [segments, h]

def someBulk : List Action := [.openPipe ⟨0, 1, .full, 1, .bulk, .in, 64, 0⟩]

theorem someBulk_isSome : (after step (started zeroHost) someBulk).isSome = true := by
  decide +kernel

def bulkMachine : Machine := (after step (started zeroHost) someBulk).get someBulk_isSome

theorem bulkCall_isSome :
    (step (some bulkMachine) (.dataTransfer 0 0x20080F00 20000 none)).1.isSome = true := by
  decide +kernel

def bulkBusy : Machine :=
  (step (some bulkMachine) (.dataTransfer 0 0x20080F00 20000 none)).1.get bulkCall_isSome

theorem bulkCall : step (some bulkMachine) (.dataTransfer 0 0x20080F00 20000 none) =
    (some bulkBusy, [.status .ok]) :=
  Prod.ext (Option.some_get bulkCall_isSome).symm (by decide +kernel)

def someFailure : List Action := [.retire firstEd .stall 0x20080F40 false, .writeBack, .interrupt]

def bulkPieces : List Piece :=
  segments 0 (maxGtd + 1) 0x20080F00 (expectedLength bulkMachine.host firstEd 20000)

end AoaBoard.Usb.Ohci
