import AoaBoard.Library.Run
import AoaBoard.Usb.DoneQueue
import AoaBoard.Usb.Transfers

/-!
# The driver and the controller at work

The application opens and closes pipes and queues transfers; the controller
retires the first TD of a queue, hands over its done queue and interrupts; all
of it in any order.
-/

namespace AoaBoard.Usb.Ohci
open Library Library.Run Library.Links

inductive Action
  | openPipe (a : OpenPipe)
  | closePipe (handle : UInt32) (sof : Bool)
  | cancelTransfer (handle : UInt32) (sof : Bool)
  | clearEndpointHalt (handle : UInt32)
  | controlTransfer (handle : UInt32) (r : Request) (buffer : UInt32)
  | dataTransfer (handle buffer length : UInt32) (count : Option ℕ)
  | retire (e : Fin maxEd) (code : ConditionCode) (currentBufferPointer : UInt32)
    (toggleCarry : Bool)
  | writeBack
  | frame (n : UInt16)
  | interrupt
  | initDriver

inductive Event
  | opened (handle : UInt32)
  | status (status : HcdStatus)
  | retired (e : Fin maxEd) (td : Td) (code : ConditionCode)
  deriving DecidableEq

/-- `pipes` are the pipes opened and not closed, `lost` the TDs that steps have left in use but in
no list, since the initialisation of the driver. -/
structure Machine where
  host : Host
  pipes : List (UInt32 × TransferType)
  lost : List Td

/-- The controller is done with the first TD of a queue: it goes to the head of the done queue. A
general TD that failed halts its endpoint. -/
def retireTd (s : Host) (e : Fin maxEd) (td : Td) (code : ConditionCode)
    (currentBufferPointer : UInt32) (toggleCarry : Bool) : Host :=
  let s₁ := s.setEd e { s.eds e with
    headTD := s.nextTD td, halted := !td.isItd && code ≠ .ok, toggleCarry := toggleCarry }
  let s₂ := match td with
    | .gtd i => s₁.setGtd i { s.gtds i with
        conditionCode := code, currentBufferPointer := currentBufferPointer }
    | .itd i => s₁.setItd i { s.itds i with conditionCode := code }
  { s₂.setNextTD td s.hcDoneHead with hcDoneHead := some td }

def writeBack (s : Host) : Host :=
  { s with hccaDoneHead := s.hcDoneHead, hcDoneHead := none, writebackDoneHead := true }

def edOf (handle : UInt32) : ℕ := (handle &&& 0xFF).toNat

def report (M : Machine) (r : Option (Host × HcdStatus)) : Option Machine × List Event :=
  match r with
  | some (s, status) => (some { M with host := s }, [.status status])
  | none => (none, [])

def stepMachine (M : Machine) : Action → Option Machine × List Event
  | .openPipe a =>
    match hcdOpenPipe M.host a with
    | (s, .ok handle) =>
      (some { M with host := s, pipes := (handle, a.transferType) :: M.pipes }, [.opened handle])
    | (s, .error status) => (some { M with host := s }, [.status status])
  | .closePipe handle sof =>
    match hcdClosePipe M.host handle sof with
    | some (s, .ok) =>
      (some { M with host := s, pipes := M.pipes.filter fun q => edOf q.1 ≠ edOf handle },
        [.status .ok])
    | r => report M r
  | .cancelTransfer handle sof => report M (hcdCancelTransfer M.host handle sof)
  | .clearEndpointHalt handle => report M (some (hcdClearEndpointHalt M.host handle))
  | .controlTransfer handle r buffer => report M (hcdControlTransfer M.host handle r buffer)
  | .dataTransfer handle buffer length count =>
    report M (hcdDataTransfer M.host handle buffer length count)
  | .retire e code currentBufferPointer toggleCarry =>
    match (M.host.eds e).headTD with
    | some td => (some { M with
        host := retireTd M.host e td code currentBufferPointer toggleCarry }, [.retired e td code])
    | none => (some M, [])
  | .writeBack => (some { M with host := Ohci.writeBack M.host }, [])
  | .frame n => (some { M with host := { M.host with hccaFrameNumber := n } }, [])
  | .interrupt => ((hcdIrqHandler M.host).map fun s => { M with host := s }, [])
  | .initDriver => (some ⟨hcdInitDriver M.host, [], []⟩, [])

def Host.opened (s : Host) (e : Fin maxEd) : Bool := (s.eds e).inUse && (s.eds e).tailP.isSome

/-- A handle that the driver accepts belongs to a pipe that is open, perhaps another one than it
was given out for. -/
def HandleOpen (s : Host) (handle : UInt32) : Prop :=
  ∀ e, pipehandleParse s handle = some e → s.opened e = true

/-- Control transfers go to pipes that are not isochronous. The controller retires TDs of open
endpoints only, and hands over when the driver has dealt with what it handed over before. -/
def Legal : Option Machine → Action → Prop
  | none, _ => False
  | some M, .closePipe handle _ | some M, .cancelTransfer handle _
  | some M, .clearEndpointHalt handle | some M, .dataTransfer handle _ _ _ =>
    HandleOpen M.host handle
  | some M, .controlTransfer handle _ _ => HandleOpen M.host handle ∧
    ∀ e, pipehandleParse M.host handle = some e → (M.host.eds e).format = false
  | some M, .retire e _ _ _ => M.host.opened e = true ∧ (M.host.eds e).headTD ≠ (M.host.eds e).tailP
  | some M, .writeBack => M.host.writebackDoneHead = false
  | some _, _ => True

instance (s : Host) (handle : UInt32) : Decidable (HandleOpen s handle) :=
  inferInstanceAs (Decidable (∀ _, _ → _))

instance : (m : Option Machine) → (a : Action) → Decidable (Legal m a)
  | none, _ => inferInstanceAs (Decidable False)
  | some _, .closePipe _ _ | some _, .cancelTransfer _ _ | some _, .clearEndpointHalt _
  | some _, .dataTransfer _ _ _ _ => inferInstanceAs (Decidable (HandleOpen _ _))
  | some _, .controlTransfer _ _ _ => inferInstanceAs (Decidable (HandleOpen _ _ ∧ ∀ _, _ → _))
  | some _, .retire _ _ _ _ => inferInstanceAs (Decidable (_ ∧ _ ≠ _))
  | some _, .writeBack => inferInstanceAs (Decidable (_ = _))
  | some _, .openPipe _ | some _, .frame _ | some _, .interrupt | some _, .initDriver =>
    inferInstanceAs (Decidable True)

def Host.start (s : Host) (c : Place) : Option Td := s.shape.start s.written none c

def Host.chain (s : Host) (c : Place) : List Td :=
  follow s.nextTD (maxGtd + maxItd) (s.start c)

structure Inv (M : Machine) (T : Place → List Td) (L : ListHead → List (Fin maxEd)) : Prop where
  queues : Queues M.host.shape M.host.written none T
  lists : Lists M.host.shape L
  pipes : ∀ h, (L h).map Fin.val = (M.pipes.filter fun q => listOf q.2 = h).map fun q => edOf q.1
  handles : ∀ q ∈ M.pipes, q.1.toNat < maxEd

theorem Queues.chain_eq {s : Host} {T : Place → List Td}
    (hq : Queues s.shape s.written none T) (c : Place) : s.chain c = T c := by
  have hnext : s.shape.next = s.nextTD := funext (shape_next s)
  rw [Host.chain, Host.start, ← hnext]
  exact (hq.chains.linked c).follow_eq (length_le_tds (hq.chains.nodup c))

def LostIn (s : Host) (T : Place → List Td) (td : Td) : Prop :=
  s.tdInUse td = true ∧ ∀ c, td ∉ T c

/-- The TDs that a step leaves in use but in no list. -/
def dropped (M : Machine) : Action → List Td
  | .closePipe handle true | .cancelTransfer handle true =>
    match pipehandleParse M.host handle with
    | some e => (M.host.chain (.pipe e)).dropLast
    | none => []
  | .interrupt => (M.host.chain .written).filter fun td =>
      td.isItd ≠ (M.host.eds (M.host.edIdx td)).format
  | _ => []

def lostAfter (M : Machine) : Action → List Td
  | .initDriver => []
  | a => M.lost ++ dropped M a

def step (M : Option Machine) (a : Action) : Option Machine × List Event :=
  match M with
  | some M =>
    ((stepMachine M a).1.map fun M' => { M' with lost := lostAfter M a }, (stepMachine M a).2)
  | none => (none, [])

def Near (e : Fin maxEd) (c : Place) : Prop := ∀ x, c = .pipe x → x = e

structure Stays (s s' : Host) (T T' : Place → List Td) (e : Fin maxEd) : Prop where
  lists : ∀ c, Near e c → T' c = T c
  content : ∀ c, Near e c → ∀ td ∈ T c, s'.content td = s.content td
  status : (s'.eds e).status = (s.eds e).status

/-- A step keeps the lists in order and loses the TDs given and no others. Nothing happens to the
endpoints that it does not touch. -/
def Keeps (M M' : Machine) (T : Place → List Td) (touched : Fin maxEd → Prop) (drop : List Td) :
    Prop :=
  ∃ T' L', Inv M' T' L' ∧ (∀ td, LostIn M'.host T' td ↔ LostIn M.host T td ∨ td ∈ drop) ∧
    ∀ e, M.host.opened e = true → ¬touched e → Stays M.host M'.host T T' e

structure Moved (M M' : Machine) (T T' : Place → List Td) (L : ListHead → List (Fin maxEd))
    (drop : List Td) : Prop where
  inv : Inv M' T' L
  lost : ∀ td, LostIn M'.host T' td ↔ LostIn M.host T td ∨ td ∈ drop

def touches (M : Machine) : Action → Fin maxEd → Prop
  | .openPipe _, _ | .frame _, _ => False
  | .closePipe handle _, e | .cancelTransfer handle _, e | .clearEndpointHalt handle, e
  | .controlTransfer handle _ _, e | .dataTransfer handle _ _ _, e =>
    pipehandleParse M.host handle = some e
  | .retire _ _ _ _, _ | .writeBack, _ | .interrupt, _ | .initDriver, _ => True

section Steps
variable {M : Machine} {s s' : Host} {T : Place → List Td} {L : ListHead → List (Fin maxEd)}
  {e : Fin maxEd} {td t : Td} {q m : List Td} {handle : UInt32}

theorem stays_refl (s : Host) (T : Place → List Td) (e : Fin maxEd) : Stays s s T T e :=
  ⟨fun _ _ => rfl, fun _ _ _ _ => rfl, rfl⟩

theorem keeps_refl (hinv : Inv M T L) (touched : Fin maxEd → Prop) : Keeps M M T touched [] :=
  ⟨T, L, hinv, fun td => by simp, fun e _ _ => stays_refl M.host T e⟩

theorem Moved.keeps {M' : Machine} {T' : Place → List Td} {drop : List Td}
    (h : Moved M M' T T' L drop) : Keeps M M' T (fun _ => True) drop :=
  ⟨T', L, h.inv, h.lost, fun _ _ htouched => absurd trivial htouched⟩

theorem Keeps.mono {M' : Machine} {touched touched' : Fin maxEd → Prop} {drop : List Td}
    (h : Keeps M M' T touched drop) (himp : ∀ e, touched e → touched' e) :
    Keeps M M' T touched' drop := by
  obtain ⟨T', L', hinv, hlost, hstays⟩ := h
  exact ⟨T', L', hinv, hlost, fun e he htouched => hstays e he fun h => htouched (himp e h)⟩

theorem tdInUse_of_shape (h : s'.shape = s.shape) (x : Td) : s'.tdInUse x = s.tdInUse x := by
  rw [← shape_inUse, h, shape_inUse]

theorem Inv.of_shape {M' : Machine} (h : Inv M T L) (hshape : M'.host.shape = M.host.shape)
    (hwritten : M'.host.written = M.host.written) (hpipes : M'.pipes = M.pipes) : Inv M' T L where
  queues := by
    rw [hshape, hwritten]
    exact h.queues
  lists := by
    rw [hshape]
    exact h.lists
  pipes := by
    rw [hpipes]
    exact h.pipes
  handles := by
    rw [hpipes]
    exact h.handles

theorem Keeps.of_shape {M' M'' : Machine} {touched : Fin maxEd → Prop} {drop : List Td}
    (h : Keeps M M' T touched drop) (hshape : M''.host.shape = M'.host.shape)
    (hwritten : M''.host.written = M'.host.written) (hpipes : M''.pipes = M'.pipes)
    (hcontent : M''.host.content = M'.host.content)
    (hstatus : ∀ e, ¬touched e → (M''.host.eds e).status = (M'.host.eds e).status) :
    Keeps M M'' T touched drop := by
  obtain ⟨T', L', hinv, hlost, hstays⟩ := h
  refine ⟨T', L', hinv.of_shape hshape hwritten hpipes, fun td => ?_, fun e he htouched =>
    ⟨(hstays e he htouched).lists, fun c hc td htd => ?_, ?_⟩⟩
  · rw [← hlost, LostIn, LostIn, tdInUse_of_shape hshape]
  · rw [hcontent]
    exact (hstays e he htouched).content c hc td htd
  · rw [hstatus e htouched]
    exact (hstays e he htouched).status

theorem near_ne {x : Fin maxEd} {c : Place} (hc : Near x c) (hx : x ≠ e) : c ≠ .pipe e :=
  fun h => hx (hc e h).symm

theorem stays_update {x : Fin maxEd} (hq : Queues s.shape s.written none T) (hx : x ≠ e)
    (hcontent : ∀ td, s.tdInUse td = true → td ∉ T (.pipe e) → s'.content td = s.content td)
    (hstatus : (s'.eds x).status = (s.eds x).status) :
    Stays s s' T (Function.update T (.pipe e) m) x where
  lists := fun c hc => Function.update_of_ne (near_ne hc hx) _ _
  content := fun c hc td htd => by
    refine hcontent td ?_ fun hmem => near_ne hc hx (hq.chains.apart htd hmem)
    rw [← shape_inUse]
    exact (hq.members c td htd).1
  status := hstatus

theorem opened_shape (s : Host) (e : Fin maxEd) : (s.shape.eds e).opened = s.opened e := rfl

theorem pipehandleCreate_toNat (hostID : UInt8) (e : Fin maxEd) :
    (pipehandleCreate hostID e).toNat = hostID.toNat * 256 + e.val := by
  have hhost := hostID.toNat_lt
  have hlt := e.isLt
  simp only [maxEd] at hlt
  have hshift : (hostID.toUInt32 <<< 8).toNat = hostID.toNat * 256 := by
    rw [UInt32.toNat_shiftLeft, UInt8.toNat_toUInt32, show (8 : UInt32).toNat % 32 = 8 from rfl,
      Nat.shiftLeft_eq, Nat.mod_eq_of_lt (by omega)]
  have he : (UInt32.ofNat e.val).toNat = e.val := by
    rw [UInt32.toNat_ofNat']
    omega
  rw [pipehandleCreate, UInt32.toNat_add, hshift, he]
  omega

theorem edOf_eq (handle : UInt32) : edOf handle = handle.toNat % 256 := by
  rw [edOf, UInt32.toNat_and, show (0xFF : UInt32).toNat = 2 ^ 8 - 1 from rfl,
    Nat.and_two_pow_sub_one_eq_mod]

theorem edOf_pipehandleCreate (hostID : UInt8) (e : Fin maxEd) :
    edOf (pipehandleCreate hostID e) = e.val := by
  have hlt := e.isLt
  simp only [maxEd] at hlt
  rw [edOf_eq, pipehandleCreate_toNat]
  omega

theorem parse_eq (hhandle : handle.toNat < maxEd) (he : edOf handle = e.val)
    (huse : (s.eds e).inUse = true) : pipehandleParse s handle = some e := by
  have hcore : ¬(handle >>> 8).toUInt8.toNat ≥ maxUsbCore := by
    rw [UInt32.toNat_toUInt8, UInt32.toNat_shiftRight, show (8 : UInt32).toNat % 32 = 8 from rfl,
      Nat.shiftRight_eq_div_pow, Nat.div_eq_of_lt (by simp only [maxEd] at hhandle; omega)]
    decide
  have hval : (handle &&& 0xFF).toNat = e.val := he
  have hlt : (handle &&& 0xFF).toNat < maxEd := by
    rw [hval]
    exact e.isLt
  have hfin : (⟨(handle &&& 0xFF).toNat, hlt⟩ : Fin maxEd) = e := Fin.ext hval
  rw [pipehandleParse, if_neg hcore, dif_pos hlt, hfin, if_pos huse]

theorem edOf_of_parse (h : pipehandleParse s handle = some e) : edOf handle = e.val := by
  simp only [pipehandleParse] at h
  split_ifs at h with hcore hlt huse
  rw [← Option.some.inj h]
  rfl

theorem append_moved (hinv : Inv M T L) (he : M.host.opened e = true)
    (happ : Appends M.host s' M.host.written none T e m) :
    Moved M { M with host := s' } T (Function.update T (.pipe e) (T (.pipe e) ++ m)) L [] := by
  have hwritten : s'.written = M.host.written := by rw [happ.rest]; rfl
  refine ⟨⟨?_, ?_, hinv.pipes, hinv.handles⟩, fun td => ?_⟩
  · rw [hwritten]
    exact happ.queues
  · refine hinv.lists.congr ?_ fun x => ?_
    · rw [happ.rest]
      rfl
    · rw [shape_eds, happ.eds]
      by_cases hx : x = e
      · subst hx
        have hopened := happ.opened
        rw [shape_eds, happ.eds, Function.update_self] at hopened
        rw [Function.update_self]
        exact ⟨hopened.trans he.symm, fun _ => ⟨rfl, rfl⟩⟩
      · rw [Function.update_of_ne hx]
        exact ⟨rfl, fun _ => ⟨rfl, rfl⟩⟩
  · rw [LostIn, LostIn, happ.inUse, or_iff_left List.not_mem_nil]
    constructor
    · rintro ⟨huse, hnot⟩
      have hpipe := hnot (.pipe e)
      rw [Function.update_self, List.mem_append, not_or] at hpipe
      refine ⟨huse.resolve_right hpipe.2, fun c hc => ?_⟩
      by_cases hce : c = .pipe e
      · exact hpipe.1 (hce ▸ hc)
      · exact hnot c (by rwa [Function.update_of_ne hce])
    · rintro ⟨huse, hnot⟩
      refine ⟨Or.inl huse, fun c hc => ?_⟩
      rcases Queues.mem_update hc with ⟨-, hc⟩ | ⟨-, hc⟩
      · rcases List.mem_append.mp hc with hc | hc
        · exact hnot _ hc
        · rw [happ.fresh td hc] at huse
          cases huse
      · exact hnot c hc

theorem Appends.other {w p : Option Td} (happ : Appends s s' w p T e m) {x : Td}
    (huse : s.tdInUse x = true) (hx : x ∉ T (.pipe e)) : s'.content x = s.content x := by
  refine happ.content x hx fun hm => ?_
  rw [happ.fresh x hm] at huse
  cases huse

theorem keeps_append (hinv : Inv M T L) (he : M.host.opened e = true)
    (happ : Appends M.host s' M.host.written none T e m) :
    Keeps M { M with host := s' } T (fun x => x = e) [] :=
  have hmoved := append_moved hinv he happ
  ⟨_, L, hmoved.inv, hmoved.lost, fun _ _ hx => stays_update hinv.queues hx
    (fun _ huse hnot => happ.other huse hnot) (by rw [happ.eds, Function.update_of_ne hx])⟩

theorem lost_requeue (hq : Queues s.shape s.written none T) {l drop : List Td}
    (hfrees : Frees s s' l) (hsplit : ∀ x, x ∈ T (.pipe e) ↔ x ∈ m ∨ x ∈ l ∨ x ∈ drop)
    (hm : ∀ x ∈ m, x ∉ drop) (hl : ∀ x ∈ l, x ∉ drop) (x : Td) :
    LostIn s' (Function.update T (.pipe e) m) x ↔ LostIn s T x ∨ x ∈ drop := by
  have huse : ∀ x ∈ T (.pipe e), s.tdInUse x = true := fun x hx => by
    rw [← shape_inUse]
    exact (hq.members _ x hx).1
  constructor
  · rintro ⟨huse', hnot⟩
    have hxl : x ∉ l := fun hmem => by
      rw [hfrees.free x hmem] at huse'
      cases huse'
    have hxm : x ∉ m := fun hmem => hnot (.pipe e) (by rwa [Function.update_self])
    by_cases hx : x ∈ T (.pipe e)
    · exact Or.inr (((hsplit x).mp hx).resolve_left hxm |>.resolve_left hxl)
    · refine Or.inl ⟨(hfrees.inUse x hxl) ▸ huse', fun c hc => ?_⟩
      by_cases hce : c = .pipe e
      · exact hx (hce ▸ hc)
      · exact hnot c (by rwa [Function.update_of_ne hce])
  · have hother : ∀ c, x ∈ Function.update T (.pipe e) m c → x ∈ m ∨ c ≠ .pipe e ∧ x ∈ T c :=
      fun c hc => (Queues.mem_update hc).imp And.right id
    rintro (⟨huse', hnot⟩ | hdrop)
    · have hx : x ∉ T (.pipe e) := hnot _
      rw [hsplit, not_or, not_or] at hx
      refine ⟨(hfrees.inUse x hx.2.1).trans huse', fun c hc => ?_⟩
      rcases hother c hc with hc | ⟨-, hc⟩
      · exact hx.1 hc
      · exact hnot c hc
    · have hx : x ∈ T (.pipe e) := (hsplit x).mpr (Or.inr (Or.inr hdrop))
      have hxl : x ∉ l := fun hmem => hl x hmem hdrop
      refine ⟨(hfrees.inUse x hxl).trans (huse x hx), fun c hc => ?_⟩
      rcases hother c hc with hc | ⟨hce, hc⟩
      · exact hm x hc hdrop
      · exact hce (hq.chains.apart hc hx)

theorem mem_split (hq : Queues s.shape s.written none T) (hT : T (.pipe e) = q ++ [t]) :
    t ∉ q := by
  have hnodup := hq.chains.nodup (.pipe e)
  rw [hT] at hnodup
  exact fun hmem => (List.nodup_append.mp hnodup).2.2 t hmem t (by simp) rfl

theorem keeps_cancel (hinv : Inv M T L) (he : M.host.opened e = true)
    (hT : T (.pipe e) = q ++ [t]) (sof : Bool) :
    ∃ s', cancelTransfer M.host e sof = some s' ∧
      Keeps M { M with host := s' } T (fun x => x = e) (if sof then q else []) := by
  obtain ⟨s', heval, hq, hfrees, ⟨p, b, c, d, heds⟩, hrest⟩ :=
    cancelTransfer_queues hinv.queues he hT sof
  have hwritten : s'.written = M.host.written := by rw [hrest]; rfl
  have ht := mem_split hinv.queues hT
  refine ⟨s', heval, _, L, ⟨hwritten.symm ▸ hq, ?_, hinv.pipes, hinv.handles⟩,
    lost_requeue hinv.queues hfrees (fun x => ?_) (fun x hx => ?_) fun x hx => ?_,
    fun x _ hx => stays_update hinv.queues hx (fun td _ hnot => hfrees.content td fun hmem => ?_)
      (by rw [heds, Function.update_of_ne hx])⟩
  · refine hinv.lists.congr ?_ fun x => ?_
    · rw [hrest]
      rfl
    · rw [shape_eds, heds]
      by_cases hx : x = e
      · subst hx
        rw [Function.update_self]
        exact ⟨rfl, fun _ => ⟨rfl, rfl⟩⟩
      · rw [Function.update_of_ne hx]
        exact ⟨rfl, fun _ => ⟨rfl, rfl⟩⟩
  · cases sof <;> simp [hT, or_comm]
  · cases sof
    · exact List.not_mem_nil
    · rw [List.mem_singleton.mp hx]
      exact ht
  · cases sof
    · exact List.not_mem_nil
    · exact absurd hx List.not_mem_nil
  · cases sof
    · exact hnot (hT ▸ List.mem_append_left [t] hmem)
    · cases hmem

theorem filter_ne_of_split {l u v : List (Fin maxEd)} (h : l = u ++ e :: v) (hnot : e ∉ u ++ v) :
    l.filter (fun x => x ≠ e) = u ++ v := by
  rw [List.mem_append, not_or] at hnot
  have hne : ∀ w : List (Fin maxEd), e ∉ w → w.filter (fun x => x ≠ e) = w := fun w hw =>
    List.filter_eq_self.mpr fun x hx => by simpa using fun heq : x = e => hw (heq ▸ hx)
  rw [h, List.filter_append, List.filter_cons_of_neg (by simp), hne u hnot.1, hne v hnot.2]

theorem keeps_close (hinv : Inv M T L) (he : M.host.opened e = true)
    (hT : T (.pipe e) = q ++ [t]) (hparse : pipehandleParse M.host handle = some e) (sof : Bool) :
    ∃ s', hcdClosePipe M.host handle sof = some (s', .ok) ∧

        Keeps M { M with host := s', pipes := M.pipes.filter fun a => edOf a.1 ≠ edOf handle } T
          (fun x => x = e) (if sof then q else []) := by
  obtain ⟨s', u, v, heval, huv, hnot, hq, hL, hfrees, -, hother, hrest⟩ :=
    hcdClosePipe_queues hinv.queues hinv.lists he hT hparse sof
  have hwritten : s'.written = M.host.written := by rw [hrest]; rfl
  have ht := mem_split hinv.queues hT
  refine ⟨s', heval, _, _, ⟨hwritten.symm ▸ hq, hL, fun h => ?_,
      fun a ha => hinv.handles a (List.mem_of_mem_filter ha)⟩,
    lost_requeue hinv.queues hfrees (fun x => ?_) (fun x hx => ?_) fun x hx => ?_,
    fun x _ hx => stays_update hinv.queues hx (fun td _ hnot => hfrees.content td fun hmem => ?_)
      (by rw [hother x hx])⟩
  · have hlist : Function.update L (M.host.eds e).listIndex (u ++ v) h =
        (L h).filter fun x => x ≠ e := by
      by_cases hh : h = (M.host.eds e).listIndex
      · rw [hh, Function.update_self, filter_ne_of_split huv hnot]
      · rw [Function.update_of_ne hh]
        refine (List.filter_eq_self.mpr fun x hx => ?_).symm
        have hne : x ≠ e := fun heq =>
          hh (hinv.lists.chains.apart (heq ▸ hx) (huv ▸ by simp : e ∈ L (M.host.eds e).listIndex))
        simpa using hne
    rw [hlist, List.filter_filter, edOf_of_parse hparse]
    have hpipes := hinv.pipes h
    have hfilter := congrArg (List.filter fun n => n ≠ e.val) hpipes
    rw [List.filter_map, List.filter_map, List.filter_filter] at hfilter
    have hcongr : (L h).filter (fun x => x ≠ e) = (L h).filter ((fun n => n ≠ e.val) ∘ Fin.val) :=
      List.filter_congr fun x _ => by simp [Fin.ext_iff]
    rw [hcongr]
    exact hfilter.trans (congrArg _ (List.filter_congr fun a _ => Bool.and_comm _ _))
  · cases sof <;> simp [hT, or_comm]
  · exact absurd hx List.not_mem_nil
  · cases sof
    · simp
    · simp only [if_true, List.nil_append, List.mem_singleton] at hx
      rw [hx]
      exact ht
  · refine hnot (hT ▸ ?_)
    cases sof
    · exact hmem
    · exact List.mem_append_right q hmem

theorem keeps_open (hinv : Inv M T L) (a : OpenPipe) :
    ∃ M', (stepMachine M (.openPipe a)).1 = some M' ∧ Keeps M M' T (fun _ => False) [] := by
  simp only [stepMachine]
  have hopens := hcdOpenPipe_opens hinv.queues hinv.lists a
  generalize hcdOpenPipe M.host a = r at hopens
  cases hopens with
  | refused status => exact ⟨_, rfl, keeps_refl hinv _⟩
  | leaked e status hfree hfull =>
    have hunopened := unused_unopened hfree
    have hne : ∀ x, M.host.opened x = true → x ≠ e := fun x hx heq => by
      rw [heq, ← opened_shape, hunopened] at hx
      cases hx
    refine ⟨_, rfl, T, L, ⟨?_, ?_, hinv.pipes, hinv.handles⟩, fun td => ?_, fun x hx _ =>
      ⟨fun _ _ => rfl, fun _ _ td _ => congrFun (content_eq rfl rfl) td,
        congrArg Ed.status (Function.update_of_ne (hne x hx) _ _)⟩⟩
    · rw [shape_setEd]
      refine hinv.queues.setEd ?_ (Or.inr (hinv.queues.unopened hunopened)) fun h => by cases h
      rw [start_of_unopened hunopened]
      rfl
    · rw [shape_setEd]
      exact hinv.lists.setEd hunopened.symm fun h => by rw [hunopened] at h; cases h
    · rw [or_iff_left List.not_mem_nil]
      cases td <;> exact Iff.rfl
  | @opened s' e td hhost hfree htd hkind heds hrest hcontent hinUse hq hL =>
    have hwritten : s'.written = M.host.written := by rw [hrest]; rfl
    have hnil := hinv.queues.unopened (unused_unopened hfree)
    have hhandle : (pipehandleCreate a.hostID e).toNat < maxEd := by
      rw [pipehandleCreate_toNat, Nat.lt_one_iff.mp hhost, Nat.zero_mul, Nat.zero_add]
      exact e.isLt
    have hne : ∀ x, M.host.opened x = true → x ≠ e := fun x hx heq => by
      rw [heq, ← opened_shape, unused_unopened hfree] at hx
      cases hx
    refine ⟨_, rfl, _, _, ⟨hwritten.symm ▸ hq, hL, fun h => ?_, fun q hq => ?_⟩, fun x => ?_,
      fun x hx _ => stays_update hinv.queues (hne x hx) (fun y hy _ => hcontent y fun heq => ?_)
        (by rw [heds, Function.update_of_ne (hne x hx)])⟩
    · by_cases hh : h = listOf a.transferType
      · subst hh
        rw [Function.update_self, List.filter_cons_of_pos (by simp), List.map_cons, List.map_cons,
          hinv.pipes, edOf_pipehandleCreate]
      · rw [Function.update_of_ne hh, List.filter_cons_of_neg (by simpa using Ne.symm hh)]
        exact hinv.pipes h
    · rcases List.mem_cons.mp hq with rfl | hq
      · exact hhandle
      · exact hinv.handles q hq
    · rw [or_iff_left List.not_mem_nil, LostIn, LostIn]
      by_cases hx : x = td
      · subst hx
        refine iff_of_false (fun h => h.2 (.pipe e) (by simp)) fun h => ?_
        rw [htd] at h
        cases h.1
      · have hsame : s'.tdInUse x = M.host.tdInUse x := by
          rw [tdInUse_eq, tdInUse_eq, hcontent x hx]
        rw [hsame]
        refine and_congr_right fun _ => forall_congr' fun c => not_congr ?_
        by_cases hc : c = .pipe e
        · rw [hc, Function.update_self, hnil]
          simp [hx]
        · rw [Function.update_of_ne hc]
    · rw [heq, htd] at hy
      cases hy

theorem retireTd_shape (s : Host) (e : Fin maxEd) (td : Td) (code : ConditionCode)
    (cbp : UInt32) (toggle : Bool) :
    (retireTd s e td code cbp toggle).shape =
      { (s.shape.setEd e { s.shape.eds e with headTD := s.nextTD td }).setNext td s.hcDoneHead with
        hcDoneHead := some td } := by
  have hnext : ∀ s₂ : Host, s₂.shape = s.shape.setEd e
      { s.shape.eds e with headTD := s.nextTD td } →
      ({ s₂.setNextTD td s.hcDoneHead with hcDoneHead := some td } : Host).shape =
        { (s.shape.setEd e { s.shape.eds e with headTD := s.nextTD td }).setNext td s.hcDoneHead
            with hcDoneHead := some td } := fun s₂ h => by
    rw [← h, Shape.setNext, ← shape_setNextTD]
    rfl
  refine hnext _ ?_
  cases td with
  | gtd i =>
    rw [shape_setGtd, shape_setEd]
    exact Shape.setTd_self _ rfl
  | itd i =>
    rw [shape_setItd, shape_setEd]
    exact Shape.setTd_self _ rfl

theorem retire_moved (hinv : Inv M T L) (he : M.host.opened e = true)
    (hT : T (.pipe e) = td :: m) (hm : m ≠ []) (code : ConditionCode) (cbp : UInt32)
    (toggle : Bool) :
    Moved M { M with host := retireTd M.host e td code cbp toggle } T
      (Function.update (Function.update T (.pipe e) m) .retired (td :: T .retired)) L [] := by
  have hshape := retireTd_shape M.host e td code cbp toggle
  obtain ⟨hpop, hnot⟩ := pop_queues hinv.queues he hT hm
    (d := { M.host.eds e with headTD := M.host.nextTD td }) rfl
  rw [shape_setEd] at hpop
  have huse : M.host.tdInUse td = true := by
    rw [← shape_inUse]
    exact (hinv.queues.members (.pipe e) td (by simp [hT])).1
  have huse₁ : ((M.host.shape.setEd e
      { M.host.shape.eds e with headTD := M.host.nextTD td }).tds td).inUse = true := by
    rw [Shape.setEd_tds, shape_inUse]
    exact huse
  have hretire := hpop.retire hnot huse₁
  have hsame : Function.update T (.pipe e) m .retired = T .retired := rfl
  rw [hsame] at hretire
  generalize hT' : Function.update (Function.update T (.pipe e) m) .retired (td :: T .retired) = T'
    at hretire ⊢
  have hmem : ∀ x, (∃ c, x ∈ T' c) ↔ ∃ c, x ∈ T c := fun x => by
    have hpipe : ∀ c, x ∈ Function.update T (.pipe e) m c → ∃ c, x ∈ T c := fun c hc => by
      rcases Queues.mem_update hc with ⟨-, hc⟩ | ⟨-, hc⟩
      · exact ⟨.pipe e, hT ▸ List.mem_cons_of_mem td hc⟩
      · exact ⟨c, hc⟩
    rw [← hT']
    constructor
    · rintro ⟨c, hc⟩
      rcases Queues.mem_update hc with ⟨-, hc⟩ | ⟨-, hc⟩
      · rcases List.mem_cons.mp hc with rfl | hc
        · exact ⟨.pipe e, hT ▸ List.mem_cons_self⟩
        · exact ⟨.retired, hc⟩
      · exact hpipe c hc
    · rintro ⟨c, hc⟩
      by_cases hx : x = td
      · exact ⟨.retired, by simp [hx]⟩
      · by_cases hce : c = .pipe e
        · subst hce
          rw [hT] at hc
          exact ⟨.pipe e, by simpa using (List.mem_cons.mp hc).resolve_left hx⟩
        · by_cases hcr : c = .retired
          · exact ⟨.retired, by simp [← hcr, hc]⟩
          · exact ⟨c, by simpa [hcr, hce] using hc⟩
  refine ⟨⟨?_, ?_, hinv.pipes, hinv.handles⟩, fun x => ?_⟩
  · have hwritten : (retireTd M.host e td code cbp toggle).written = M.host.written := by
      cases td <;> rfl
    rw [hwritten, hshape]
    exact hretire
  · refine hinv.lists.congr (by rw [hshape]; rfl) fun x => ?_
    rw [hshape]
    by_cases hx : x = e
    · subst hx
      simp [Shape.setNext, Endpoint.opened]
    · simp [Shape.setNext, hx]
  · have hsame : (retireTd M.host e td code cbp toggle).tdInUse x = M.host.tdInUse x := by
      rw [← shape_inUse, hshape, ← shape_inUse]
      by_cases hx : x = td
      · subst hx
        simp [Shape.setNext]
      · simp [Shape.setNext, hx]
    rw [LostIn, LostIn, or_iff_left List.not_mem_nil, hsame, ← not_exists, ← not_exists, hmem]

theorem writeBack_moved (hinv : Inv M T L) (hpending : M.host.writebackDoneHead = false) :
    Moved M { M with host := writeBack M.host } T
      (Function.update (Function.update T .retired []) .written (T .retired)) L [] := by
  have hwritten : M.host.written = none := by
    rw [Host.written, hpending]
    rfl
  have hnil : T .written = [] := Queues.written_nil (hwritten ▸ hinv.queues)
  have hq := hinv.queues.writeBack
  generalize hT' : Function.update (Function.update T .retired []) .written (T .retired) = T'
    at hq ⊢
  have hmem : ∀ x, (∃ c, x ∈ T' c) ↔ ∃ c, x ∈ T c := fun x => by
    rw [← hT']
    constructor
    · rintro ⟨c, hc⟩
      rcases Queues.mem_update hc with ⟨-, hc⟩ | ⟨-, hc⟩
      · exact ⟨.retired, hc⟩
      · rcases Queues.mem_update hc with ⟨-, hc⟩ | ⟨-, hc⟩
        · cases hc
        · exact ⟨c, hc⟩
    · rintro ⟨c, hc⟩
      by_cases hcr : c = .retired
      · exact ⟨.written, by simpa [hcr] using hc⟩
      · by_cases hcw : c = .written
        · rw [hcw, hnil] at hc
          cases hc
        · exact ⟨c, by simpa [hcr, hcw] using hc⟩
  refine ⟨⟨hq, hinv.lists.congr rfl fun x => ⟨rfl, fun _ => ⟨rfl, rfl⟩⟩, hinv.pipes,
    hinv.handles⟩, fun x => ?_⟩
  have hsame : (writeBack M.host).tdInUse x = M.host.tdInUse x := by cases x <;> rfl
  rw [LostIn, LostIn, or_iff_left List.not_mem_nil, hsame, ← not_exists, ← not_exists, hmem]

theorem finishes_endpoint (s : Host) (l : List Td) (e : Fin maxEd) :
    (finishes s l e).endpoint = (s.eds e).endpoint := by
  have hfold : ∀ (l : List Td) (d : Ed), (l.foldl (finish s) d).endpoint = d.endpoint := by
    intro l
    induction l with
    | nil => exact fun d => rfl
    | cons td l ih => exact fun d => (ih _).trans (updateStatus_endpoint d _ _)
  exact hfold _ _

theorem Handled.endpoint (h : Handled s s' T) (x : Fin maxEd) :
    (s'.eds x).endpoint = (s.eds x).endpoint := by
  have hsame := h.eds x
  rw [SameExceptAddr] at hsame
  rw [hsame]
  exact finishes_endpoint s _ x

theorem interrupt_moved (hinv : Inv M T L) :
    ∃ s', hcdIrqHandler M.host = some s' ∧ Handled M.host s' T ∧
      Moved M { M with host := s' } T (Function.update T .written []) L ((T .written).filter
        fun td => td.isItd ≠ (M.host.eds (M.host.edIdx td)).format) := by
  obtain ⟨s', heval, hhandled⟩ := hcdIrqHandler_queues hinv.queues
  have hwritten : s'.written = none := by
    rw [hhandled.rest]
    rfl
  refine ⟨s', heval, hhandled, ⟨?_, ?_, hinv.pipes, hinv.handles⟩, fun x => ?_⟩
  · rw [hwritten]
    exact hhandled.queues
  · refine hinv.lists.congr (by rw [hhandled.rest]; rfl) fun x => ?_
    rw [shape_eds, hhandled.endpoint]
    exact ⟨rfl, fun _ => ⟨rfl, rfl⟩⟩
  · have huse : ∀ c, x ∈ T c → M.host.tdInUse x = true := fun c hc => by
      rw [← shape_inUse]
      exact (hinv.queues.members c x hc).1
    have hother : ∀ c, x ∈ Function.update T .written [] c ↔ c ≠ .written ∧ x ∈ T c := fun c => by
      by_cases hc : c = .written
      · simp [hc]
      · simp [hc]
    simp only [LostIn, hhandled.inUse, hother, List.mem_filter, decide_eq_true_eq]
    constructor
    · rintro ⟨⟨hx, hmatch⟩, hnot⟩
      by_cases hw : x ∈ T .written
      · exact Or.inr ⟨hw, hmatch hw⟩
      · refine Or.inl ⟨hx, fun c hc => hnot c ⟨fun heq => hw (heq ▸ hc), hc⟩⟩
    · rintro (⟨hx, hnot⟩ | ⟨hw, hmatch⟩)
      · exact ⟨⟨hx, fun hw => absurd hw (hnot _)⟩, fun c hc => hnot c hc.2⟩
      · exact ⟨⟨huse _ hw, fun _ => hmatch⟩,
          fun c hc => hc.1 (hinv.queues.chains.apart hc.2 hw)⟩

theorem keeps_transfer {result : Host × HcdStatus} (hinv : Inv M T L)
    (hopen : HandleOpen M.host handle)
    (h : Transfers M.host M.host.written none T handle result) :
    Keeps M { M with host := result.1 } T (fun x => pipehandleParse M.host handle = some x) [] := by
  cases h with
  | refused status => exact keeps_refl hinv _
  | @queued s₁ s' e m status hparse happends hshape heds hrest =>
    refine ((keeps_append hinv (hopen e hparse) happends).mono fun x hx => hx ▸ hparse).of_shape
      hshape (by rw [hrest]; rfl) rfl (content_eq (by rw [hrest]) (by rw [hrest])) fun x hx => ?_
    have hne : x ≠ e := fun heq => hx (heq ▸ hparse)
    exact congrArg Ed.status (heds x hne)

theorem keeps_control (hinv : Inv M T L) (r : Request) (buffer : UInt32)
    (ha : Legal (some M) (.controlTransfer handle r buffer)) :
    ∃ M', (stepMachine M (.controlTransfer handle r buffer)).1 = some M' ∧
      Keeps M M' T (touches M (.controlTransfer handle r buffer)) [] := by
  obtain ⟨result, heval, htransfers⟩ := hcdControlTransfer_transfers hinv.queues
    (fun e he => ⟨ha.1 e he, ha.2 e he⟩) r buffer
  refine ⟨{ M with host := result.1 }, ?_, keeps_transfer hinv ha.1 htransfers⟩
  simp only [stepMachine, heval, report]

theorem keeps_data (hinv : Inv M T L) (buffer length : UInt32) (count : Option ℕ)
    (ha : HandleOpen M.host handle) :
    ∃ M', (stepMachine M (.dataTransfer handle buffer length count)).1 = some M' ∧
      Keeps M M' T (touches M (.dataTransfer handle buffer length count)) [] := by
  obtain ⟨result, heval, htransfers⟩ := hcdDataTransfer_transfers hinv.queues
    (fun e he => ha e he) buffer length count
  refine ⟨{ M with host := result.1 }, ?_, keeps_transfer hinv ha htransfers⟩
  simp only [stepMachine, heval, report]

theorem keeps_clear (hinv : Inv M T L) :
    Keeps M { M with host := (hcdClearEndpointHalt M.host handle).1 } T
      (touches M (.clearEndpointHalt handle)) [] := by
  cases hparse : pipehandleParse M.host handle with
  | none =>
    simp only [hcdClearEndpointHalt, hparse]
    exact keeps_refl hinv _
  | some e =>
    simp only [hcdClearEndpointHalt, hparse]
    refine (keeps_refl hinv _).of_shape ?_ rfl rfl (content_eq rfl rfl) fun x hx => ?_
    · rw [shape_setEd]
      exact Shape.setEd_self _ rfl
    · have hne : x ≠ e := fun heq => hx (heq ▸ hparse)
      exact congrArg Ed.status (Function.update_of_ne hne _ _)

theorem dropped_queue (hinv : Inv M T L) (hT : T (.pipe e) = q ++ [t]) :
    (M.host.chain (.pipe e)).dropLast = q := by
  rw [hinv.queues.chain_eq, hT, List.dropLast_concat]

theorem busy_queue (hinv : Inv M T L) (he : M.host.opened e = true)
    (hbusy : (M.host.eds e).headTD ≠ (M.host.eds e).tailP) :
    ∃ td m, m ≠ [] ∧ T (.pipe e) = td :: m ∧ (M.host.eds e).headTD = some td := by
  obtain ⟨q, t, hT, htail⟩ := hinv.queues.split_tail he
  cases q with
  | nil => exact absurd ((hinv.queues.headTD_eq he hT).trans htail.symm) hbusy
  | cons td q => exact ⟨td, q ++ [t], by simp, hT, hinv.queues.headTD_eq he hT⟩

theorem step_keeps (hinv : Inv M T L) {a : Action} (ha : Legal (some M) a)
    (hinit : a ≠ .initDriver) :
    ∃ M', (stepMachine M a).1 = some M' ∧ Keeps M M' T (touches M a) (dropped M a) := by
  cases a with
  | openPipe a => exact keeps_open hinv a
  | closePipe handle sof =>
    cases hparse : pipehandleParse M.host handle with
    | none =>
      refine ⟨M, ?_, ?_⟩
      · simp only [stepMachine, hcdClosePipe, hparse, report]
      · cases sof <;> simpa only [dropped, hparse] using keeps_refl hinv _
    | some e =>
      obtain ⟨q, t, hT, -⟩ := hinv.queues.split_tail (ha e hparse)
      obtain ⟨s', heval, hkeeps⟩ := keeps_close hinv (ha e hparse) hT hparse sof
      refine ⟨{ M with host := s', pipes := M.pipes.filter fun a => edOf a.1 ≠ edOf handle },
        ?_, ?_⟩
      · simp only [stepMachine, heval]
      · have hkeeps' := hkeeps.mono fun x hx => hx ▸ hparse
        cases sof
        · exact hkeeps'
        · have hdrop : dropped M (.closePipe handle true) = q := by
            simp only [dropped, hparse, dropped_queue hinv hT]
          rw [hdrop]
          exact hkeeps'
  | cancelTransfer handle sof =>
    cases hparse : pipehandleParse M.host handle with
    | none =>
      refine ⟨M, ?_, ?_⟩
      · simp only [stepMachine, hcdCancelTransfer, hparse, report]
      · cases sof <;> simpa only [dropped, hparse] using keeps_refl hinv _
    | some e =>
      obtain ⟨q, t, hT, -⟩ := hinv.queues.split_tail (ha e hparse)
      obtain ⟨s', heval, hkeeps⟩ := keeps_cancel hinv (ha e hparse) hT sof
      refine ⟨{ M with host := s' }, ?_, ?_⟩
      · simp only [stepMachine, hcdCancelTransfer, hparse, heval, Option.map_some, report]
      · have hkeeps' := hkeeps.mono fun x hx => hx ▸ hparse
        cases sof
        · exact hkeeps'
        · have hdrop : dropped M (.cancelTransfer handle true) = q := by
            simp only [dropped, hparse, dropped_queue hinv hT]
          rw [hdrop]
          exact hkeeps'
  | clearEndpointHalt handle => exact ⟨_, rfl, keeps_clear hinv⟩
  | controlTransfer handle r buffer => exact keeps_control hinv r buffer ha
  | dataTransfer handle buffer length count => exact keeps_data hinv buffer length count ha
  | retire e code cbp toggle =>
    obtain ⟨td, m, hm, hT, hhead⟩ := busy_queue hinv ha.1 ha.2
    refine ⟨_, ?_, (retire_moved hinv ha.1 hT hm code cbp toggle).keeps⟩
    simp only [stepMachine, hhead]
  | writeBack => exact ⟨_, rfl, (writeBack_moved hinv ha).keeps⟩
  | frame n =>
    exact ⟨_, rfl, (keeps_refl hinv _).of_shape rfl rfl rfl (content_eq rfl rfl) fun _ _ => rfl⟩
  | interrupt =>
    obtain ⟨s', heval, -, hmoved⟩ := interrupt_moved hinv
    refine ⟨{ M with host := s' }, ?_, ?_⟩
    · simp only [stepMachine, heval, Option.map_some]
    · simp only [dropped, hinv.queues.chain_eq]
      exact hmoved.keeps
  | initDriver => exact absurd rfl hinit

theorem inv_init (s : Host) : Inv ⟨hcdInitDriver s, [], []⟩ (fun _ => []) fun _ => [] where
  queues :=
    { chains := ⟨fun c => by cases c <;> rfl, fun h => absurd h List.not_mem_nil⟩
      members := fun _ _ h => absurd h List.not_mem_nil
      tail := fun _ h => by cases h }
  lists :=
    { chains := ⟨fun _ => rfl, fun h => absurd h List.not_mem_nil⟩
      mem := fun _ _ => iff_of_false List.not_mem_nil fun h => by cases h.1 }
  pipes := fun _ => rfl
  handles := fun _ h => absurd h List.not_mem_nil

end Steps

def zeroHost : Host :=
  ⟨fun _ => zeroEd, fun _ => zeroGtd, fun _ => zeroItd, fun _ => none, false, false, none, none,
    false, 0, fun _ => 0⟩

def started (s : Host) : Option Machine := some ⟨hcdInitDriver s, [], []⟩

def Reached (m : Option Machine) : Prop :=
  ∃ M T L, m = some M ∧ Inv M T L ∧ ∀ td, LostIn M.host T td ↔ td ∈ M.lost

theorem lostAfter_eq (M : Machine) {a : Action} (hinit : a ≠ .initDriver) :
    lostAfter M a = M.lost ++ dropped M a := by
  cases a <;> first | rfl | exact absurd rfl hinit

theorem reached_started (s : Host) : Reached (started s) := by
  refine ⟨_, _, _, rfl, inv_init s, fun td => iff_of_false (fun h => ?_) List.not_mem_nil⟩
  have hfree : (hcdInitDriver s).tdInUse td = false := by cases td <;> rfl
  rw [LostIn, hfree] at h
  cases h.1

theorem Inv.lost {M : Machine} {T : Place → List Td} {L : ListHead → List (Fin maxEd)}
    (h : Inv M T L) (l : List Td) : Inv { M with lost := l } T L :=
  ⟨h.queues, h.lists, h.pipes, h.handles⟩

theorem reached_step (m : Option Machine) (a : Action) (hm : Reached m) (ha : Legal m a) :
    Reached (step m a).1 := by
  obtain ⟨M, T, L, rfl, hinv, hlost⟩ := hm
  by_cases hinit : a = .initDriver
  · subst hinit
    exact reached_started M.host
  · obtain ⟨M', heval, T', L', hinv', hlost', -⟩ := step_keeps hinv ha hinit
    refine ⟨{ M' with lost := lostAfter M a }, T', L', ?_, hinv'.lost _, fun td => ?_⟩
    · simp only [step, heval, Option.map_some]
    · rw [hlost', hlost, lostAfter_eq M hinit, List.mem_append]

theorem reached_run {s : Host} {as : List Action} (has : Along step Legal (started s) as) :
    Reached (after step (started s) as) :=
  after_invariant reached_step (reached_started s) has

theorem pipes_listed {M : Machine} {T : Place → List Td} {L : ListHead → List (Fin maxEd)}
    (hinv : Inv M T L) (h : ListHead) :
    (follow (fun e => (M.host.eds e).nextED) maxEd (M.host.staticEDs h)).map Fin.val =
      (M.pipes.filter fun q => listOf q.2 = h).map fun q => edOf q.1 := by
  have hlen : (L h).length ≤ maxEd := by
    simpa using (hinv.lists.chains.nodup h).length_le_card
  rw [← hinv.pipes]
  exact congrArg _ ((hinv.lists.chains.linked h).follow_eq hlen)

theorem pipe_parses {M : Machine} {T : Place → List Td} {L : ListHead → List (Fin maxEd)}
    (hinv : Inv M T L) {q : UInt32 × TransferType} (hq : q ∈ M.pipes) :
    ∃ e, pipehandleParse M.host q.1 = some e ∧ M.host.opened e = true ∧
      (M.host.eds e).listIndex = listOf q.2 := by
  have hmem : edOf q.1 ∈ (L (listOf q.2)).map Fin.val := by
    rw [hinv.pipes]
    exact List.mem_map_of_mem (List.mem_filter.mpr ⟨hq, by simp⟩)
  obtain ⟨e, he, hval⟩ := List.mem_map.mp hmem
  obtain ⟨hopened, hlist⟩ := (hinv.lists.mem _ e).mp he
  refine ⟨e, parse_eq (hinv.handles q hq) hval.symm ?_, hopened, hlist⟩
  rw [opened_shape, Host.opened, Bool.and_eq_true] at hopened
  exact hopened.1

/-- The lists of EDs hold the pipes that are open and no others, and the driver knows each pipe by
its handle. -/
theorem run_pipes (s : Host) (as : List Action) (has : Along step Legal (started s) as) :
    ∃ M, after step (started s) as = some M ∧
      (∀ h, (follow (fun e => (M.host.eds e).nextED) maxEd (M.host.staticEDs h)).map Fin.val =
        (M.pipes.filter fun q => listOf q.2 = h).map fun q => edOf q.1) ∧
      ∀ q ∈ M.pipes, ∃ e, pipehandleParse M.host q.1 = some e ∧ M.host.opened e = true ∧
        (M.host.eds e).listIndex = listOf q.2 := by
  obtain ⟨M, T, L, heval, hinv, -⟩ := reached_run has
  exact ⟨M, heval, pipes_listed hinv, fun q hq => pipe_parses hinv hq⟩

def somePipes : List Action :=
  [.openPipe ⟨0, 1, .full, 0, .control, .setup, 64, 0⟩,
    .openPipe ⟨0, 1, .full, 1, .bulk, .in, 64, 0⟩,
    .openPipe ⟨0, 1, .full, 2, .bulk, .out, 64, 0⟩, .closePipe 1 false]

theorem run_pipes_closed : ∃ M, after step (started zeroHost) somePipes = some M ∧
    (∀ h, (follow (fun e => (M.host.eds e).nextED) maxEd (M.host.staticEDs h)).map Fin.val =
      (M.pipes.filter fun q => listOf q.2 = h).map fun q => edOf q.1) ∧
    ∀ q ∈ M.pipes, ∃ e, pipehandleParse M.host q.1 = some e ∧ M.host.opened e = true ∧
      (M.host.eds e).listIndex = listOf q.2 :=
  run_pipes zeroHost somePipes (by decide +kernel)

/-- A TD in use is in exactly one of the lists, or has been lost. -/
theorem run_lost (s : Host) (as : List Action) (has : Along step Legal (started s) as) :
    ∃ M, after step (started s) as = some M ∧
      Chains M.host.nextTD M.host.start M.host.chain ∧
      (∀ e, ∀ td ∈ M.host.chain (.pipe e), M.host.edIdx td = e) ∧
      ∀ td, (M.host.tdInUse td = true ↔ (∃ c, td ∈ M.host.chain c) ∨ td ∈ M.lost) ∧
        (td ∈ M.lost → ∀ c, td ∉ M.host.chain c) := by
  obtain ⟨M, T, L, heval, hinv, hlost⟩ := reached_run has
  have hchain : M.host.chain = T := funext hinv.queues.chain_eq
  have hnext : M.host.shape.next = M.host.nextTD := funext (shape_next M.host)
  refine ⟨M, heval, ?_, fun e td htd => ?_, fun td => ⟨?_, fun htd c => ?_⟩⟩
  · rw [hchain, ← hnext]
    exact hinv.queues.chains
  · rw [hchain] at htd
    rw [← shape_edIdx]
    exact (hinv.queues.members_pipe htd).2.1
  · rw [hchain]
    constructor
    · intro huse
      by_cases hmem : ∃ c, td ∈ T c
      · exact Or.inl hmem
      · exact Or.inr ((hlost td).mp ⟨huse, fun c hc => hmem ⟨c, hc⟩⟩)
    · rintro (⟨c, hc⟩ | hmem)
      · rw [← shape_inUse]
        exact (hinv.queues.members c td hc).1
      · exact ((hlost td).mpr hmem).1
  · rw [hchain]
    exact ((hlost td).mpr htd).2 c

def someCancel : List Action :=
  [.openPipe ⟨0, 1, .full, 0, .control, .setup, 64, 0⟩,
    .controlTransfer 0 ⟨0x20080000, 0x80, 18⟩ 0x20080100, .retire firstEd .ok 0 false,
    .writeBack, .interrupt, .cancelTransfer 0 true, .closePipe 0 false]

theorem run_lost_canceled : ∃ M, after step (started zeroHost) someCancel = some M ∧
    Chains M.host.nextTD M.host.start M.host.chain ∧
    (∀ e, ∀ td ∈ M.host.chain (.pipe e), M.host.edIdx td = e) ∧
    ∀ td, (M.host.tdInUse td = true ↔ (∃ c, td ∈ M.host.chain c) ∨ td ∈ M.lost) ∧
      (td ∈ M.lost → ∀ c, td ∉ M.host.chain c) :=
  run_lost zeroHost someCancel (by decide +kernel)

example : (after step (started zeroHost) someCancel).map Machine.lost =
    some [.gtd ⟨1, by decide⟩, .gtd ⟨2, by decide⟩] := by decide +kernel

end AoaBoard.Usb.Ohci
