import AoaBoard.Usb.Endpoints
import AoaBoard.Usb.Queueing

/-!
# Opening, canceling and closing a pipe

What `HcdOpenPipe`, `HcdCancelTransfer` and `HcdClosePipe` do to the lists and
queues, to the TDs in use, and which of the TDs they leave behind.
-/

namespace AoaBoard.Usb.Ohci
open Library.Links

section Free
variable {s s' : Host} {w p : Option Td} {T : Place → List Td} {e : Fin maxEd} {q m : List Td}
  {t td : Td}

structure Frees (s s' : Host) (l : List Td) : Prop where
  free : ∀ x ∈ l, s'.tdInUse x = false
  inUse : ∀ x, x ∉ l → s'.tdInUse x = s.tdInUse x
  content : ∀ x, x ∉ l → s'.content x = s.content x

theorem Frees.nil (hcontent : s'.content = s.content) : Frees s s' [] where
  free := by simp
  inUse := fun x _ => by rw [tdInUse_eq, tdInUse_eq, hcontent]
  content := fun x _ => congrFun hcontent x

theorem Frees.cons {s₁ : Host} {l : List Td} (h : Frees s s₁ [td]) (h' : Frees s₁ s' l) :
    Frees s s' (td :: l) where
  free := fun x hx => by
    by_cases hl : x ∈ l
    · exact h'.free x hl
    · rw [h'.inUse x hl]
      exact h.free x (by simpa [hl] using hx)
  inUse := fun x hx => by
    rw [List.mem_cons, not_or] at hx
    rw [h'.inUse x hx.2, h.inUse x (by simpa using hx.1)]
  content := fun x hx => by
    rw [List.mem_cons, not_or] at hx
    rw [h'.content x hx.2, h.content x (by simpa using hx.1)]

theorem freeTd_frees (hkind : td.isItd = (s.eds e).format) :
    (freeTd s e td).shape = s.shape.setTd td { s.shape.tds td with inUse := false } ∧
      Frees s (freeTd s e td) [td] ∧ freeTd s e td =
        { s with gtds := (freeTd s e td).gtds, itds := (freeTd s e td).itds } := by
  cases td with
  | gtd i =>
    have hfree : freeTd s e (.gtd i) = s.setGtd i { s.gtds i with inUse := false } := by
      simp only [freeTd, isIsoEndpoint, ← hkind, Td.isItd]
      rfl
    rw [hfree]
    refine ⟨shape_setGtd s i _, ⟨fun x hx => ?_, fun x hx => ?_, fun x hx => ?_⟩, rfl⟩
    · simp [List.mem_singleton.mp hx, Host.tdInUse, Host.setGtd]
    · cases x with
      | gtd j => simp_all [Host.tdInUse, Host.setGtd]
      | itd j => rfl
    · cases x with
      | gtd j => simp_all [Host.content, Host.setGtd]
      | itd j => rfl
  | itd i =>
    have hfree : freeTd s e (.itd i) = s.setItd i { s.itds i with inUse := false } := by
      simp only [freeTd, isIsoEndpoint, ← hkind, Td.isItd]
      rfl
    rw [hfree]
    refine ⟨shape_setItd s i _, ⟨fun x hx => ?_, fun x hx => ?_, fun x hx => ?_⟩, rfl⟩
    · simp [List.mem_singleton.mp hx, Host.tdInUse, Host.setItd]
    · cases x with
      | gtd j => rfl
      | itd j => simp_all [Host.tdInUse, Host.setItd]
    · cases x with
      | gtd j => rfl
      | itd j => simp_all [Host.content, Host.setItd]

def Restarted (s s' : Host) (e : Fin maxEd) : Prop :=
  ∃ p halted toggleCarry skip, s'.eds = Function.update s.eds e { s.eds e with
    headTD := p, halted := halted, toggleCarry := toggleCarry, skip := skip }

theorem Restarted.refl (s : Host) (e : Fin maxEd) : Restarted s s e :=
  ⟨_, _, _, _, (Function.update_eq_self e s.eds).symm⟩

theorem Restarted.trans {s₁ s₂ : Host} (h : Restarted s s₁ e) (h' : Restarted s₁ s₂ e) :
    Restarted s s₂ e := by
  obtain ⟨p, b, c, d, h⟩ := h
  obtain ⟨p', b', c', d', h'⟩ := h'
  exact ⟨p', b', c', d', by rw [h', h, Function.update_idem, Function.update_self]⟩

theorem start_of_opened {d : Endpoint} (h : d.opened = true) : d.start = d.headTD := by
  rw [Endpoint.start, if_pos h]

theorem start_of_unopened {d : Endpoint} (h : d.opened = false) : d.start = none := by
  rw [Endpoint.start, if_neg (by simp [h])]

theorem pop_queues (hq : Queues s.shape w p T) (he : (s.shape.eds e).opened = true)
    (hT : T (.pipe e) = td :: m) (hm : m ≠ []) {d : Ed}
    (hd : d.endpoint = { (s.eds e).endpoint with headTD := s.nextTD td }) :
    Queues (s.setEd e d).shape w p (Function.update T (.pipe e) m) ∧
      ∀ c, td ∉ Function.update T (.pipe e) m c := by
  have hopened : d.endpoint.opened = true := by rw [hd]; exact he
  have hlinked := hq.chains.linked (.pipe e)
  rw [hT] at hlinked
  have hnodup := hq.chains.nodup (.pipe e)
  rw [hT] at hnodup
  refine ⟨?_, fun c hc => ?_⟩
  · rw [shape_setEd]
    refine hq.restart ?_ (hT ▸ List.subset_cons_self td m) (by rw [hd]; rfl) fun _ => ?_
    · rw [start_of_opened hopened, hd]
      exact shape_next s td ▸ hlinked.2
    · have htail := hq.tail e he
      rw [hT, List.getLast?_cons_of_ne_nil hm] at htail
      rw [htail, hd]
      rfl
  · rcases Queues.mem_update hc with ⟨-, hc⟩ | ⟨hne, hc⟩
    · exact (List.nodup_cons.mp hnodup).1 hc
    · exact hne (hq.chains.apart hc (hT ▸ List.mem_cons_self))

theorem freeQueue_queues (fuel : ℕ) (hq : Queues s.shape w p T) (he : (s.shape.eds e).opened = true)
    (hT : T (.pipe e) = q ++ [t]) (hfuel : q.length < fuel) :
    ∃ s', freeQueue e fuel s = some s' ∧
      Queues s'.shape w p (Function.update T (.pipe e) [t]) ∧ Frees s s' q ∧ Restarted s s' e ∧
      s' = { s with eds := s'.eds, gtds := s'.gtds, itds := s'.itds } := by
  induction q generalizing s T fuel with
  | nil =>
    obtain ⟨k, rfl⟩ : ∃ k, fuel = k + 1 := ⟨fuel - 1, by simp at hfuel; omega⟩
    have hhead : (s.eds e).headTD = some t := hq.headTD_eq he hT
    have htail : (s.eds e).tailP = some t :=
      (hq.tail e he).symm.trans (by rw [hT, List.getLast?_concat])
    have heval : freeQueue e (k + 1) s = some s := by
      simp only [freeQueue, hhead, htail, if_true]
    refine ⟨s, heval, ?_, .nil rfl, .refl s e, rfl⟩
    rwa [show [t] = T (.pipe e) from hT.symm, Function.update_eq_self]
  | cons td q ih =>
    obtain ⟨k, rfl⟩ : ∃ k, fuel = k + 1 := ⟨fuel - 1, by simp at hfuel; omega⟩
    have hhead : (s.eds e).headTD = some td := hq.headTD_eq he hT
    have htail : (s.eds e).tailP = some t :=
      (hq.tail e he).symm.trans (by rw [hT, List.getLast?_concat])
    have hnodup := hq.chains.nodup (.pipe e)
    rw [hT] at hnodup
    have hne : some td ≠ some t := fun heq =>
      (List.nodup_cons.mp hnodup).1 (by simp [Option.some.inj heq])
    have hkind : td.isItd = (s.eds e).format :=
      (hq.members_pipe (e := e) (hT ▸ List.mem_cons_self)).2.2
    generalize hs₀ : s.setEd e (setHeadTD (s.eds e) (s.nextTD td)) = s₀
    have hed₀ : s₀.eds e = setHeadTD (s.eds e) (s.nextTD td) := by
      rw [← hs₀]
      exact Function.update_self _ _ _
    obtain ⟨hq₀, hnot⟩ := pop_queues hq he hT (m := q ++ [t]) (by simp)
      (d := setHeadTD (s.eds e) (s.nextTD td)) rfl
    rw [hs₀] at hq₀
    have hkind₀ : td.isItd = (s₀.eds e).format := by
      rw [hed₀]
      exact hkind
    obtain ⟨hshape, hfrees, hrest⟩ := freeTd_frees hkind₀
    have hq₁ : Queues (freeTd s₀ e td).shape w p (Function.update T (.pipe e) (q ++ [t])) :=
      hshape ▸ hq₀.setTd hnot
    have he₁ : ((freeTd s₀ e td).shape.eds e).opened = true := by
      rw [hshape, Shape.setTd_eds, shape_eds, hed₀]
      exact he
    obtain ⟨s', heval, hq', hfrees', hrestart, hrest'⟩ := ih k hq₁ he₁ (Function.update_self _ _ _)
      (by simpa using hfuel)
    have heval' : freeQueue e (k + 1) s = some s' := by
      simp only [freeQueue, hhead, htail, if_neg hne, hs₀]
      exact heval
    rw [Function.update_idem] at hq'
    have hfrees₁ : Frees s (freeTd s₀ e td) [td] := by
      rw [← hs₀] at hfrees ⊢
      exact ⟨hfrees.free, hfrees.inUse, hfrees.content⟩
    refine ⟨s', heval', hq', hfrees₁.cons hfrees', ?_, ?_⟩
    · refine Restarted.trans ⟨s.nextTD td, false, false, (s.eds e).skip, ?_⟩ hrestart
      rw [hrest, ← hs₀]
      rfl
    · rw [hrest', hrest, ← hs₀]
      rfl

def Td.index : Td → Fin (maxGtd + maxItd)
  | .gtd i => Fin.castAdd maxItd i
  | .itd i => Fin.natAdd maxGtd i

theorem Td.index_injective : Function.Injective Td.index := by
  intro x y h
  have hval := congrArg Fin.val h
  cases x with
  | gtd i =>
    cases y with
    | gtd j => exact congrArg Td.gtd (Fin.ext hval)
    | itd j =>
      simp only [Td.index, Fin.val_castAdd, Fin.val_natAdd] at hval
      omega
  | itd i =>
    cases y with
    | gtd j =>
      simp only [Td.index, Fin.val_castAdd, Fin.val_natAdd] at hval
      omega
    | itd j =>
      simp only [Td.index, Fin.val_natAdd] at hval
      exact congrArg Td.itd (Fin.ext (by omega))

theorem length_le_tds {l : List Td} (h : l.Nodup) : l.length ≤ maxGtd + maxItd := by
  have hcard := (h.map Td.index_injective).length_le_card
  rwa [List.length_map, Fintype.card_fin] at hcard

theorem Frees.append {s₁ : Host} {l l' : List Td} (h : Frees s s₁ l) (h' : Frees s₁ s' l') :
    Frees s s' (l ++ l') where
  free := fun x hx => by
    by_cases hl : x ∈ l'
    · exact h'.free x hl
    · rw [h'.inUse x hl]
      exact h.free x ((List.mem_append.mp hx).resolve_right hl)
  inUse := fun x hx => by
    rw [List.mem_append, not_or] at hx
    rw [h'.inUse x hx.2, h.inUse x hx.1]
  content := fun x hx => by
    rw [List.mem_append, not_or] at hx
    rw [h'.content x hx.2, h.content x hx.1]

/-- Canceling leaves the place holder alone in the queue. If the frame has already begun the TDs
before it are not freed. -/
theorem cancelTransfer_queues (hq : Queues s.shape w p T) (he : (s.shape.eds e).opened = true)
    (hT : T (.pipe e) = q ++ [t]) (sof : Bool) :
    ∃ s', cancelTransfer s e sof = some s' ∧
      Queues s'.shape w p (Function.update T (.pipe e) [t]) ∧
      Frees s s' (if sof then [] else q) ∧ Restarted s s' e ∧
      s' = { s with eds := s'.eds, gtds := s'.gtds, itds := s'.itds } := by
  generalize hs₀ : s.setEd e { s.eds e with skip := true } = s₀
  have hq₀ : Queues s₀.shape w p T := by
    rw [← hs₀, shape_setEd]
    exact hq.setEd rfl (Or.inl rfl) fun h => ⟨h, rfl⟩
  have hed₀ : s₀.eds e = { s.eds e with skip := true } := by
    rw [← hs₀]
    exact Function.update_self _ _ _
  have he₀ : (s₀.shape.eds e).opened = true := by
    rw [shape_eds, hed₀]
    exact he
  have hrestart₀ : Restarted s s₀ e :=
    ⟨(s.eds e).headTD, (s.eds e).halted, (s.eds e).toggleCarry, true, hs₀ ▸ rfl⟩
  obtain ⟨s₁, T₁, q₁, heval, hq₁, he₁, hT₁, hset, hfrees, hrestart, hrest⟩ : ∃ s₁ T₁ q₁,
      (if sof then some s₀ else freeQueue e (maxGtd + maxItd + 1) s₀) = some s₁ ∧
      Queues s₁.shape w p T₁ ∧ (s₁.shape.eds e).opened = true ∧ T₁ (.pipe e) = q₁ ++ [t] ∧
      Function.update T₁ (.pipe e) [t] = Function.update T (.pipe e) [t] ∧
      Frees s s₁ (if sof then [] else q) ∧ Restarted s s₁ e ∧
      s₁ = { s with eds := s₁.eds, gtds := s₁.gtds, itds := s₁.itds } := by
    cases sof with
    | true =>
      exact ⟨s₀, T, q, rfl, hq₀, he₀, hT, rfl, .nil (by rw [← hs₀]; rfl), hrestart₀,
        by rw [← hs₀]; rfl⟩
    | false =>
      have hlen := length_le_tds (hq.chains.nodup (.pipe e))
      rw [hT, List.length_append, List.length_singleton] at hlen
      obtain ⟨s₁, heval, hq₁, hfrees, hrestart, hrest⟩ :=
        freeQueue_queues (maxGtd + maxItd + 1) hq₀ he₀ hT (by omega)
      have hrestart₁ := hrestart₀.trans hrestart
      refine ⟨s₁, _, [], heval, hq₁, ?_, Function.update_self _ _ _, Function.update_idem _ _ _,
        ?_, hrestart₁, ?_⟩
      · obtain ⟨p', b, c, d, heds⟩ := hrestart
        rw [shape_eds, heds, Function.update_self]
        exact he₀
      · have hnil : Frees s s₀ [] := .nil (by rw [← hs₀]; rfl)
        exact hnil.append hfrees
      · rw [hrest, ← hs₀]
        rfl
  have htail : (s₁.eds e).tailP = some t :=
    (hq₁.tail e he₁).symm.trans (by rw [hT₁, List.getLast?_concat])
  refine ⟨s₁.setEd e { setHeadTD (s₁.eds e) (s₁.eds e).tailP with skip := false },
    ?_, ?_, ?_, ?_, ?_⟩
  · simp only [cancelTransfer, hs₀, heval, Option.map_some]
  · rw [shape_setEd, ← hset]
    have hlinked := hq₁.chains.linked (.pipe e)
    rw [hT₁] at hlinked
    refine hq₁.restart ?_ (by rw [hT₁]; simp) rfl fun _ => ?_
    · rw [start_of_opened (by exact he₁)]
      exact (show (s₁.eds e).tailP = some t from htail) ▸ hlinked.suffix
    · exact (List.getLast?_singleton).trans htail.symm
  · rw [show (if sof then [] else q) = (if sof then [] else q) ++ [] by rw [List.append_nil]]
    exact hfrees.append (.nil rfl)
  · exact hrestart.trans ⟨(s₁.eds e).tailP, false, false, false, rfl⟩
  · rw [hrest]
    rfl

theorem shape_tds_eq {s s' : Host} (hgtds : s'.gtds = s.gtds) (hitds : s'.itds = s.itds) :
    s'.shape.tds = s.shape.tds := by
  funext x
  cases x with
  | gtd i => rw [shape_gtd, shape_gtd, hgtds]
  | itd i => rw [shape_itd, shape_itd, hitds]

theorem content_eq {s s' : Host} (hgtds : s'.gtds = s.gtds) (hitds : s'.itds = s.itds) :
    s'.content = s.content := by
  funext x
  cases x with
  | gtd i => simp only [Host.content, hgtds]
  | itd i => simp only [Host.content, hitds]

variable {L : ListHead → List (Fin maxEd)}

def SameBut (d d' : Ed) : Prop := d' = { d with nextED := d'.nextED }

theorem SameBut.refl (d : Ed) : SameBut d d := rfl

theorem SameBut.queues {S S' : Shape} (hq : Queues S w p T) (htds : S'.tds = S.tds)
    (hdone : S'.hcDoneHead = S.hcDoneHead)
    (heds : ∀ x, S'.eds x = { S.eds x with nextED := (S'.eds x).nextED }) : Queues S' w p T := by
  refine hq.congr htds hdone fun x => ?_
  rw [heds x]
  exact ⟨rfl, rfl, fun h => ⟨h, rfl⟩⟩

theorem freeED_queues (hq : Queues s.shape w p T) (he : (s.shape.eds e).opened = true)
    (hT : T (.pipe e) = [t]) :
    ∃ s', freeED s e = some s' ∧ Queues s'.shape w p (Function.update T (.pipe e) []) ∧
      Frees s s' [t] ∧ s'.eds = Function.update s.eds e
        { s.eds e with status := .transfer .notAccessed, inUse := false } ∧
      s' = { s with eds := s'.eds, gtds := s'.gtds, itds := s'.itds } := by
  have htail : (s.eds e).tailP = some t := (hq.tail e he).symm.trans (by rw [hT]; rfl)
  have hkind : t.isItd = (s.eds e).format :=
    (hq.members_pipe (e := e) (hT ▸ List.mem_cons_self)).2.2
  obtain ⟨hshape, hfrees, hrest⟩ := freeTd_frees hkind
  have heds : (freeTd s e t).eds = s.eds := by rw [hrest]
  generalize hd : ({ s.eds e with status := .transfer .notAccessed, inUse := false } : Ed) = d
  have heval : freeED s e = some ((freeTd s e t).setEd e d) := by
    rw [← hd]
    simp only [freeED, htail, heds]
  have hclosed : d.endpoint.opened = false := by
    rw [← hd]
    rfl
  have hstart : d.endpoint.start = none := by simp [Endpoint.start, hclosed]
  refine ⟨_, heval, ?_, ⟨hfrees.free, hfrees.inUse, hfrees.content⟩, ?_, ?_⟩
  · have hq' := hq.restart (e := e) (d := d.endpoint) (m := []) (hstart ▸ rfl) (List.nil_subset _)
      (hd ▸ rfl) fun h => absurd h (by simp [hclosed])
    have hnot : ∀ c, t ∉ Function.update T (.pipe e) [] c := fun c hc => by
      rcases Queues.mem_update hc with ⟨-, hc⟩ | ⟨hne, hc⟩
      · exact List.not_mem_nil hc
      · exact hne (hq.chains.apart hc (hT ▸ List.mem_cons_self))
    rw [shape_setEd, hshape]
    exact hq'.setTd hnot
  · rw [← heds]
    rfl
  · rw [hrest]
    rfl

theorem hcdClosePipe_queues (hq : Queues s.shape w p T) (hL : Lists s.shape L)
    (he : (s.shape.eds e).opened = true) (hT : T (.pipe e) = q ++ [t]) {handle : UInt32}
    (hparse : pipehandleParse s handle = some e) (sof : Bool) :
    ∃ s' u m, hcdClosePipe s handle sof = some (s', .ok) ∧
      L (s.eds e).listIndex = u ++ e :: m ∧ e ∉ u ++ m ∧
      Queues s'.shape w p (Function.update T (.pipe e) []) ∧
      Lists s'.shape (Function.update L (s.eds e).listIndex (u ++ m)) ∧
      Frees s s' ((if sof then [] else q) ++ [t]) ∧ (s'.eds e).inUse = false ∧
      (∀ x, x ≠ e → SameBut (s.eds x) (s'.eds x)) ∧
      s' = { s with
        eds := s'.eds, gtds := s'.gtds, itds := s'.itds, staticEDs := s'.staticEDs } := by
  obtain ⟨s₁, hcancel, hq₁, hfrees₁, hrestart, hrest₁⟩ := cancelTransfer_queues hq he hT sof
  obtain ⟨p', b, c, d, heds₁⟩ := hrestart
  generalize hs₂ : s₁.setEd e { s₁.eds e with skip := true } = s₂
  have heds₂ : s₂.eds = Function.update s.eds e
      { s.eds e with headTD := p', halted := b, toggleCarry := c, skip := true } := by
    rw [← hs₂, Host.setEd, heds₁, Function.update_idem, Function.update_self]
  have hed₂ : s₂.eds e =
      { s.eds e with headTD := p', halted := b, toggleCarry := c, skip := true } := by
    rw [heds₂, Function.update_self]
  have hother₂ : ∀ x, x ≠ e → s₂.eds x = s.eds x := fun x hx => by
    rw [heds₂, Function.update_of_ne hx]
  have hq₂ : Queues s₂.shape w p (Function.update T (.pipe e) [t]) := by
    rw [← hs₂, shape_setEd]
    exact hq₁.setEd rfl (Or.inl rfl) fun h => ⟨h, rfl⟩
  have hsame₂ : ∀ x, (s₂.shape.eds x).opened = (s.shape.eds x).opened ∧
      ((s.shape.eds x).opened = true → (s₂.shape.eds x).nextED = (s.shape.eds x).nextED ∧
      (s₂.shape.eds x).listIndex = (s.shape.eds x).listIndex) := fun x => by
    by_cases hx : x = e
    · subst hx
      rw [shape_eds, hed₂]
      exact ⟨rfl, fun _ => ⟨rfl, rfl⟩⟩
    · rw [shape_eds, hother₂ x hx]
      exact ⟨rfl, fun _ => ⟨rfl, rfl⟩⟩
  have hL₂ : Lists s₂.shape L := by
    refine hL.congr ?_ hsame₂
    rw [← hs₂, show (s₁.setEd e { s₁.eds e with skip := true }).shape.staticEDs = s₁.staticEDs
        from rfl, hrest₁]
    rfl
  have he₂ : (s₂.shape.eds e).opened = true := (hsame₂ e).1.trans he
  have hindex : (s₂.eds e).listIndex = (s.eds e).listIndex := by rw [hed₂]
  obtain ⟨s₃, u, m, hremove, hum, hnot, hchains, hrest₃, heds₃⟩ := removeEndpoint_eq hL₂ he₂
  have hgtds : s₃.gtds = s₂.gtds := by rw [hrest₃]
  have hitds : s₃.itds = s₂.itds := by rw [hrest₃]
  have hdone : s₃.shape.hcDoneHead = s₂.shape.hcDoneHead := by
    rw [hrest₃]
    rfl
  rw [hindex] at hum hchains
  have hq₃ : Queues s₃.shape w p (Function.update T (.pipe e) [t]) := by
    refine SameBut.queues hq₂ (shape_tds_eq hgtds hitds) hdone fun x => ?_
    rw [shape_eds, shape_eds, heds₃ x]
    rfl
  have hopened₃ : ∀ x, (s₃.shape.eds x).opened = (s₂.shape.eds x).opened ∧
      (s₃.shape.eds x).listIndex = (s₂.shape.eds x).listIndex := fun x => by
    rw [shape_eds, heds₃ x]
    exact ⟨rfl, rfl⟩
  obtain ⟨s₄, hfree, hq₄, hfrees₄, heds₄, hrest₄⟩ := freeED_queues hq₃
    ((hopened₃ e).1.trans he₂) (Function.update_self _ _ _)
  have hL₄ : Lists s₄.shape (Function.update L (s.eds e).listIndex (u ++ m)) := by
    have hclosed : (s₄.eds e).endpoint.opened = false := by
      rw [heds₄, Function.update_self]
      rfl
    have hindex₂ : (s₂.shape.eds e).listIndex = (s.eds e).listIndex := hindex
    have hum₂ : L (s₂.shape.eds e).listIndex = u ++ e :: m := by rw [hindex₂, hum]
    have hchains₂ : Chains (fun x => (s₃.shape.eds x).nextED) s₃.shape.staticEDs
        (Function.update L (s₂.shape.eds e).listIndex (u ++ m)) := by
      rw [hindex₂]
      exact hchains
    have hL₃ := hL₂.close he₂ hum₂ hnot hchains₂ hopened₃ hclosed
    rw [hindex₂] at hL₃
    refine hL₃.congr ?_ fun x => ?_
    · rw [hrest₄]
      rfl
    · rw [Shape.setEd_eds, shape_eds, heds₄]
      by_cases hx : x = e
      · subst hx
        simp
      · simp [hx]
  refine ⟨s₄, u, m, ?_, hum, hnot, ?_, hL₄, ?_, ?_, fun x hx => ?_, ?_⟩
  · simp only [hcdClosePipe, hparse, hcancel, hs₂, hremove, hfree, Option.bind_eq_bind,
      Option.bind_some, Option.pure_def]
  · rw [Function.update_idem] at hq₄
    exact hq₄
  · have hnil : Frees s₁ s₃ [] := .nil (content_eq (hgtds.trans (by rw [← hs₂]; rfl))
      (hitds.trans (by rw [← hs₂]; rfl)))
    have hfrees := (hfrees₁.append hnil).append hfrees₄
    rwa [List.append_nil] at hfrees
  · rw [heds₄, Function.update_self]
  · rw [heds₄, Function.update_of_ne hx, SameBut, heds₃ x, hother₂ x hx]
  · rw [hrest₄, hrest₃, ← hs₂, hrest₁]
    rfl

inductive Opens (s : Host) (w p : Option Td) (T : Place → List Td)
    (L : ListHead → List (Fin maxEd)) (a : OpenPipe) : Host × Except HcdStatus UInt32 → Prop
  | refused (status : HcdStatus) : Opens s w p T L a (s, .error status)
  | leaked (e : Fin maxEd) (status : HcdStatus) (hfree : (s.eds e).inUse = false)
    (hfull : ∀ td : Td, td.isItd = (newEd a).format → s.tdInUse td = true) :
    Opens s w p T L a (s.setEd e (newEd a), .error status)
  | opened {s' : Host} (e : Fin maxEd) (td : Td) (hhost : a.hostID.toNat < maxUsbCore)
    (hfree : (s.eds e).inUse = false) (htd : s.tdInUse td = false)
      (hkind : td.isItd = (newEd a).format)
    (heds : s'.eds = Function.update s.eds e { newEd a with
      headTD := some td, tailP := some td, listIndex := listOf a.transferType,
      nextED := s.staticEDs (listOf a.transferType) })
    (hrest : s' = { s with
      eds := s'.eds, gtds := s'.gtds, itds := s'.itds, staticEDs := s'.staticEDs })
    (hcontent : ∀ x, x ≠ td → s'.content x = s.content x) (hinUse : s'.tdInUse td = true)
    (hq : Queues s'.shape w p (Function.update T (.pipe e) [td]))
    (hL : Lists s'.shape (Function.update L (listOf a.transferType)
      (e :: L (listOf a.transferType)))) :
    Opens s w p T L a (s', .ok (pipehandleCreate a.hostID e))

theorem unused_unopened (h : (s.eds e).inUse = false) : (s.shape.eds e).opened = false := by
  simp [Endpoint.opened, Ed.endpoint, h]

theorem allocEd_cases (s : Host) (a : OpenPipe) :
    (∃ status, allocEd s a = (s, .error status)) ∨
      ∃ e, (s.eds e).inUse = false ∧
        ((∃ s₁ td, Cleared (s.setEd e (newEd a)) s₁ e td ∧ td.isItd = (newEd a).format ∧
          allocEd s a = (linkTd s₁ e td, .ok e)) ∨
        ∃ status, (∀ td : Td, td.isItd = (newEd a).format → s.tdInUse td = true) ∧
          allocEd s a = (s.setEd e (newEd a), .error status)) := by
  cases hfirst : firstFree fun e => (s.eds e).inUse with
  | none => exact Or.inl ⟨.notEnoughEndpoint, by simp only [allocEd, hfirst]⟩
  | some e =>
    refine Or.inr ⟨e, firstFree_some hfirst, ?_⟩
    obtain ⟨r, halloc, heval⟩ : ∃ r, Alloc (s.setEd e (newEd a)) e (newEd a).format r ∧
        allocEd s a = if r.2 = .ok then (r.1, .ok e) else (r.1, .error r.2) := by
      by_cases hiso : a.transferType = .isochronous
      · refine ⟨allocItdForEd (s.setEd e (newEd a)) e, ?_, ?_⟩
        · rw [show (newEd a).format = true by simp [newEd, hiso]]
          exact allocItdForEd_alloc _ e
        · simp only [allocEd, hfirst, hiso, ne_eq, not_true_eq_false, if_false]
      · refine ⟨allocGtdForEd (s.setEd e (newEd a)) e, ?_, ?_⟩
        · rw [show (newEd a).format = false by simp [newEd, hiso]]
          exact allocGtdForEd_alloc _ e
        · simp only [allocEd, hfirst, hiso, ne_eq, not_false_eq_true, if_true]
    rw [heval]
    rcases halloc.cases with ⟨s₁, td, hclear, hkind, rfl⟩ | ⟨hsame, hstatus, hfull⟩
    · exact Or.inl ⟨s₁, td, hclear, hkind, if_pos rfl⟩
    · rw [if_neg hstatus, hsame]
      refine Or.inr ⟨r.2, fun td htd => ?_, rfl⟩
      have huse := hfull td htd
      cases td <;> exact huse

theorem hostID_lt {a : OpenPipe} (h : ¬ openPipeVerifyParameters a 0 ≠ .ok) :
    a.hostID.toNat < maxUsbCore := by
  by_contra hge
  refine h ?_
  rw [openPipeVerifyParameters, if_pos (Or.inl (not_lt.mp hge))]
  simp

theorem hcdOpenPipe_opens (hq : Queues s.shape w p T) (hL : Lists s.shape L) (a : OpenPipe) :
    Opens s w p T L a (hcdOpenPipe s a) := by
  simp only [hcdOpenPipe]
  split_ifs with hverify
  · exact .refused _
  · rcases allocEd_cases s a with
      ⟨status, heval⟩ | ⟨e, hfree, ⟨s₁, td, hclear, hkind, heval⟩ | ⟨status, hfull, heval⟩⟩
    · rw [heval]
      exact .refused _
    · rw [heval]
      have hunopened := unused_unopened hfree
      have hq₀ : Queues (s.setEd e (newEd a)).shape w p T := by
        rw [shape_setEd]
        refine hq.setEd ?_ (Or.inr (hq.unopened hunopened)) fun h => by cases h
        rw [start_of_unopened hunopened]
        rfl
      obtain ⟨hnot, hq₁⟩ := hclear.queues hq₀
      have hed₁ : s₁.eds e = newEd a := by
        rw [hclear.eds]
        exact Function.update_self _ _ _
      have hlink : linkTd s₁ e td =
          s₁.setEd e { setHeadTD (newEd a) (some td) with tailP := some td } := by
        rw [linkTd_none (by rw [hed₁]; rfl), hed₁]
      generalize hd : ({ newEd a with
        headTD := some td, tailP := some td, listIndex := listOf a.transferType,
        nextED := s.staticEDs (listOf a.transferType) } : Ed) = d
      have hrest₁ := hclear.rest
      have hfinal : insertEndpoint ((linkTd s₁ e td).setEd e
          { (linkTd s₁ e td).eds e with listIndex := listOf a.transferType }) e
            (listOf a.transferType) =
          { s with
            eds := Function.update s.eds e d, gtds := s₁.gtds, itds := s₁.itds
            staticEDs := Function.update s.staticEDs (listOf a.transferType) (some e) } := by
        rw [hlink, hrest₁, ← hd]
        simp [insertEndpoint, Host.setEd, setHeadTD, newEd, zeroEd]
      change Opens s w p T L a (insertEndpoint ((linkTd s₁ e td).setEd e
        { (linkTd s₁ e td).eds e with listIndex := listOf a.transferType }) e
          (listOf a.transferType), .ok (pipehandleCreate a.hostID e))
      rw [hfinal]
      have hindex : d.endpoint.listIndex = listOf a.transferType := hd ▸ rfl
      have hopened : d.endpoint.opened = true := hd ▸ rfl
      have hother : ∀ x, x ≠ e → s₁.eds x = s.eds x := fun x hx => by
        rw [hclear.eds]
        exact Function.update_of_ne hx _ _
      refine .opened e td (hostID_lt hverify) hfree ?_ hkind (by rw [hd]) rfl (fun x hx => ?_)
        ?_ ?_ ?_
      · have hfree' := hclear.free
        cases td <;> exact hfree'
      · rw [show Host.content { s with
            eds := Function.update s.eds e d, gtds := s₁.gtds, itds := s₁.itds
            staticEDs := Function.update s.staticEDs (listOf a.transferType) (some e) } =
          s₁.content from content_eq rfl rfl, hclear.other x hx]
        exact congrFun (content_eq rfl rfl) x
      · rw [← shape_inUse]
        have hcell := hclear.cell
        have htds : (Host.shape { s with
            eds := Function.update s.eds e d, gtds := s₁.gtds, itds := s₁.itds
            staticEDs := Function.update s.staticEDs (listOf a.transferType) (some e) }).tds =
          s₁.shape.tds := shape_tds_eq rfl rfl
        rw [htds, hcell]
      · have hstart : d.endpoint.start = some td := by
          rw [start_of_opened hopened, ← hd]
          rfl
        have hunopened₁ : (s₁.shape.eds e).opened = false := by
          rw [shape_eds, hed₁]
          rfl
        refine (hq₁.enter (d := d.endpoint) hunopened₁ hnot hclear.cell hstart
          (hkind.trans (hd ▸ rfl)) (hd ▸ rfl)).congr (shape_tds_eq rfl rfl) ?_ fun x => ?_
        · rw [hrest₁]
          rfl
        · by_cases hx : x = e
          · subst hx
            simp
          · simp [hx, hother x hx]
      · rw [← hindex]
        refine (hL.insert hunopened hopened ?_).congr ?_ fun x => ?_
        · rw [hindex, ← hd]
          rfl
        · rfl
        · by_cases hx : x = e
          · subst hx
            simp
          · simp [hx]
    · rw [heval]
      exact .leaked e status hfree hfull

end Free

end AoaBoard.Usb.Ohci
