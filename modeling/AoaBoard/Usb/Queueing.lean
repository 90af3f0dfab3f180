import AoaBoard.Usb.Queues
import Mathlib.Data.Finset.Card
import Mathlib.Data.Fintype.Card

/-!
# TDs taken from the pools

`AllocGtdForEd` and `AllocItdForEd` take a free TD and make it the place holder
of the endpoint; `QueueOneGTD` fills the place holder that there was before. A
transfer is a sequence of such steps and ends early when no TD is free.
-/

namespace AoaBoard.Usb.Ohci
open Library.Links

def Host.content (s : Host) : Td → Gtd ⊕ Itd
  | .gtd i => .inl { s.gtds i with nextTD := none }
  | .itd i => .inr { s.itds i with nextTD := none }

section Alloc
variable {s : Host} {e : Fin maxEd} {td t : Td}

theorem firstFree_some {n : ℕ} {inUse : Fin n → Bool} {i : Fin n} (h : firstFree inUse = some i) :
    inUse i = false := by
  simpa using List.find?_some h

theorem firstFree_none {n : ℕ} {inUse : Fin n → Bool} (h : firstFree inUse = none) (i : Fin n) :
    inUse i = true := by
  simpa using List.find?_eq_none.mp h i (List.mem_finRange i)

def freshGtd (e : Fin maxEd) : Gtd :=
  { zeroGtd with inUse := true, edIdx := e, bufferRounding := true, conditionCode := .notAccessed }

def freshItd (e : Fin maxEd) : Itd :=
  { zeroItd with inUse := true, edIdx := e, conditionCode := .notAccessed }

inductive Alloc (s : Host) (e : Fin maxEd) : Bool → Host × HcdStatus → Prop
  | gtd (i : Fin maxGtd) (hfree : (s.gtds i).inUse = false) :
    Alloc s e false (linkTd (s.setGtd i (freshGtd e)) e (.gtd i), .ok)
  | itd (i : Fin maxItd) (hfree : (s.itds i).inUse = false) :
    Alloc s e true (linkTd (s.setItd i (freshItd e)) e (.itd i), .ok)
  | noGtd (hfull : ∀ i, (s.gtds i).inUse = true) : Alloc s e false (s, .notEnoughGtd)
  | noItd (hfull : ∀ i, (s.itds i).inUse = true) : Alloc s e true (s, .notEnoughItd)

theorem allocGtdForEd_alloc (s : Host) (e : Fin maxEd) : Alloc s e false (allocGtdForEd s e) := by
  simp only [allocGtdForEd]
  cases h : firstFree fun i => (s.gtds i).inUse with
  | none => exact .noGtd (firstFree_none h)
  | some i => exact .gtd i (firstFree_some h)

theorem allocItdForEd_alloc (s : Host) (e : Fin maxEd) : Alloc s e true (allocItdForEd s e) := by
  simp only [allocItdForEd]
  cases h : firstFree fun i => (s.itds i).inUse with
  | none => exact .noItd (firstFree_none h)
  | some i => exact .itd i (firstFree_some h)

structure Cleared (s s₁ : Host) (e : Fin maxEd) (td : Td) : Prop where
  free : s.tdInUse td = false
  rest : s₁ = { s with gtds := s₁.gtds, itds := s₁.itds }
  shape : s₁.shape = s.shape.setTd td ⟨none, true, e⟩
  other : ∀ x, x ≠ td → s₁.content x = s.content x
  delayInterrupt : s₁.delayInterrupt td = 0

theorem cleared_gtd {i : Fin maxGtd} (hfree : (s.gtds i).inUse = false) :
    Cleared s (s.setGtd i (freshGtd e)) e (.gtd i) where
  free := hfree
  rest := rfl
  shape := shape_setGtd s i _
  other := fun x hx => by
    cases x with
    | gtd j =>
      have hne : j ≠ i := fun heq => hx (heq ▸ rfl)
      simp [Host.content, Host.setGtd, hne]
    | itd j => rfl
  delayInterrupt := by simp [Host.delayInterrupt, Host.setGtd, freshGtd, zeroGtd]

theorem cleared_itd {i : Fin maxItd} (hfree : (s.itds i).inUse = false) :
    Cleared s (s.setItd i (freshItd e)) e (.itd i) where
  free := hfree
  rest := rfl
  shape := shape_setItd s i _
  other := fun x hx => by
    cases x with
    | gtd j => rfl
    | itd j =>
      have hne : j ≠ i := fun heq => hx (heq ▸ rfl)
      simp [Host.content, Host.setItd, hne]
  delayInterrupt := by simp [Host.delayInterrupt, Host.setItd, freshItd, zeroItd]

theorem Alloc.cases {kind : Bool} {r : Host × HcdStatus} (h : Alloc s e kind r) :
    (∃ s₁ td, Cleared s s₁ e td ∧ td.isItd = kind ∧ r = (linkTd s₁ e td, .ok)) ∨
      (r.1 = s ∧ r.2 ≠ .ok ∧ ∀ td : Td, td.isItd = kind → s.tdInUse td = true) := by
  cases h with
  | gtd i hfree => exact Or.inl ⟨_, _, cleared_gtd hfree, rfl, rfl⟩
  | itd i hfree => exact Or.inl ⟨_, _, cleared_itd hfree, rfl, rfl⟩
  | noGtd hfull =>
    refine Or.inr ⟨rfl, by simp, fun td htd => ?_⟩
    cases td with
    | gtd i => exact hfull i
    | itd i => cases htd
  | noItd hfull =>
    refine Or.inr ⟨rfl, by simp, fun td htd => ?_⟩
    cases td with
    | gtd i => cases htd
    | itd i => exact hfull i

theorem content_setNextTD (s : Host) (td x : Td) (p : Option Td) :
    (s.setNextTD td p).content x = s.content x := by
  cases td with
  | gtd i =>
    cases x with
    | gtd j =>
      by_cases hj : j = i
      · subst hj
        simp [Host.content, Host.setNextTD, Host.setGtd]
      · simp [Host.content, Host.setNextTD, Host.setGtd, hj]
    | itd j => rfl
  | itd i =>
    cases x with
    | gtd j => rfl
    | itd j =>
      by_cases hj : j = i
      · subst hj
        simp [Host.content, Host.setNextTD, Host.setItd]
      · simp [Host.content, Host.setNextTD, Host.setItd, hj]

structure LinkedIn (s s' : Host) (e : Fin maxEd) (d : Ed) : Prop where
  rest : s' = { s with eds := Function.update s.eds e d, gtds := s'.gtds, itds := s'.itds }
  content : ∀ x, s'.content x = s.content x

theorem setNextTD_rest (s : Host) (td : Td) (p : Option Td) :
    s.setNextTD td p =
      { s with gtds := (s.setNextTD td p).gtds, itds := (s.setNextTD td p).itds } := by
  cases td <;> rfl

theorem linkTd_some (td : Td) (h : (s.eds e).tailP = some t) :
    (linkTd s e td).shape = (s.shape.setNext t (some td)).setEd e
        { s.shape.eds e with tailP := some td } ∧
      LinkedIn s (linkTd s e td) e { s.eds e with tailP := some td } := by
  have heds : (s.setNextTD t (some td)).eds = s.eds := by cases t <;> rfl
  have hlink : linkTd s e td =
      (s.setNextTD t (some td)).setEd e { s.eds e with tailP := some td } := by
    simp only [linkTd, h, heds]
  refine ⟨?_, ?_, fun x => ?_⟩
  · rw [hlink, shape_setEd, shape_setNextTD]
    rfl
  · rw [hlink, setNextTD_rest]
    rfl
  · rw [hlink]
    exact content_setNextTD s t x (some td)

theorem linkTd_none (h : (s.eds e).tailP = none) :
    linkTd s e td = s.setEd e { setHeadTD (s.eds e) (some td) with tailP := some td } := by
  simp only [linkTd, h]
  simp [Host.setEd]

variable {w p : Option Td} {T : Place → List Td} {q : List Td} {kind : Bool} {s₁ : Host}

theorem Cleared.queues (h : Cleared s s₁ e td) (hq : Queues s.shape w p T) :
    (∀ c, td ∉ T c) ∧ Queues s₁.shape w p T := by
  have hnot : ∀ c, td ∉ T c := hq.not_mem (by rw [shape_inUse]; exact h.free)
  exact ⟨hnot, h.shape ▸ hq.setTd hnot⟩

theorem Cleared.cell (h : Cleared s s₁ e td) : s₁.shape.tds td = ⟨none, true, e⟩ := by
  rw [h.shape]
  exact Function.update_self _ _ _

theorem Cleared.eds (h : Cleared s s₁ e td) : s₁.eds = s.eds := by rw [h.rest]

structure Appended (s s' : Host) (e : Fin maxEd) (td : Td) : Prop where
  free : s.tdInUse td = false
  rest : s' = { s with
    eds := Function.update s.eds e { s.eds e with tailP := some td }
    gtds := s'.gtds
    itds := s'.itds }
  content : ∀ x, x ≠ td → s'.content x = s.content x
  delayInterrupt : s'.delayInterrupt td = 0

theorem delayInterrupt_eq (s : Host) (x : Td) :
    s.delayInterrupt x = (s.content x).elim Gtd.delayInterrupt Itd.delayInterrupt := by
  cases x <;> rfl

theorem conditionCode_eq (s : Host) (x : Td) :
    s.conditionCode x = (s.content x).elim Gtd.conditionCode Itd.conditionCode := by
  cases x <;> rfl

theorem edIdx_eq (s : Host) (x : Td) :
    s.edIdx x = (s.content x).elim Gtd.edIdx Itd.edIdx := by
  cases x <;> rfl

theorem delayInterrupt_of_content {s s' : Host} {x : Td} (h : s'.content x = s.content x) :
    s'.delayInterrupt x = s.delayInterrupt x := by
  rw [delayInterrupt_eq, delayInterrupt_eq, h]

theorem conditionCode_of_content {s s' : Host} {x : Td} (h : s'.content x = s.content x) :
    s'.conditionCode x = s.conditionCode x := by
  rw [conditionCode_eq, conditionCode_eq, h]

theorem edIdx_of_content {s s' : Host} {x : Td} (h : s'.content x = s.content x) :
    s'.edIdx x = s.edIdx x := by
  rw [edIdx_eq, edIdx_eq, h]

theorem alloc_extend {r : Host × HcdStatus} (h : Alloc s e kind r) (hq : Queues s.shape w p T)
    (he : (s.shape.eds e).opened = true) (hT : T (.pipe e) = q ++ [t])
    (hkind : (s.eds e).format = kind) :
    (∃ td, r.2 = .ok ∧ td.isItd = kind ∧ Appended s r.1 e td ∧
        Queues r.1.shape w p (Function.update T (.pipe e) (q ++ [t, td]))) ∨
      (r.1 = s ∧ r.2 ≠ .ok ∧ ∀ td : Td, td.isItd = kind → s.tdInUse td = true) := by
  rcases h.cases with ⟨s₁, td, hclear, hisItd, rfl⟩ | hnone
  · refine Or.inl ⟨td, rfl, hisItd, ?_, ?_⟩
    · have htail : (s₁.eds e).tailP = some t := by
        rw [hclear.eds]
        exact (hq.tail e he).symm.trans (by simp [hT])
      obtain ⟨-, hlinked⟩ := linkTd_some td htail
      refine ⟨hclear.free, ?_, fun x hx => (hlinked.content x).trans (hclear.other x hx), ?_⟩
      · rw [hlinked.rest, hclear.rest]
      · rw [delayInterrupt_of_content (hlinked.content td)]
        exact hclear.delayInterrupt
    · obtain ⟨hnot, hq₁⟩ := hclear.queues hq
      have heds : s₁.shape.eds e = s.shape.eds e := by rw [shape_eds, shape_eds, hclear.eds]
      have htail : (s₁.eds e).tailP = some t := by
        rw [hclear.eds]
        exact (hq.tail e he).symm.trans (by simp [hT])
      rw [(linkTd_some td htail).1]
      refine hq₁.extend (heds ▸ he) hT hnot hclear.cell ?_
      rw [heds, hisItd]
      exact hkind.symm
  · exact Or.inr hnone

end Alloc

/-- TDs come behind the queue of an open endpoint. The place holder there was is filled on the way;
everything else stays. -/
structure Appends (s s' : Host) (w p : Option Td) (T : Place → List Td) (e : Fin maxEd)
    (m : List Td) : Prop where
  queues : Queues s'.shape w p (Function.update T (.pipe e) (T (.pipe e) ++ m))
  eds : s'.eds = Function.update s.eds e { s.eds e with tailP := (s'.eds e).tailP }
  rest : s' = { s with eds := s'.eds, gtds := s'.gtds, itds := s'.itds }
  opened : (s'.shape.eds e).opened = true
  fresh : ∀ x ∈ m, s.tdInUse x = false
  inUse : ∀ x, s'.tdInUse x = true ↔ s.tdInUse x = true ∨ x ∈ m
  content : ∀ x, x ∉ T (.pipe e) → x ∉ m → s'.content x = s.content x
  earlier : ∀ x ∈ (T (.pipe e)).dropLast, s'.content x = s.content x

section Queueing
variable {s s' : Host} {w p : Option Td} {T : Place → List Td} {e : Fin maxEd} {q m : List Td}
  {t td : Td}

theorem tdInUse_eq (s : Host) (x : Td) :
    s.tdInUse x = (s.content x).elim Gtd.inUse Itd.inUse := by
  cases x <;> rfl

theorem Appends.refl (hq : Queues s.shape w p T) (he : (s.shape.eds e).opened = true) :
    Appends s s w p T e [] where
  queues := by
    rw [List.append_nil, Function.update_eq_self]
    exact hq
  eds := by simp
  rest := rfl
  opened := he
  fresh := by simp
  inUse := by simp
  content := fun _ _ _ => rfl
  earlier := fun _ _ => rfl

structure Filled (s s₀ : Host) (e : Fin maxEd) (t : Td) : Prop where
  shape : s₀.shape = s.shape
  rest : s₀ = { s with gtds := s₀.gtds, itds := s₀.itds }
  content : ∀ x, x ≠ t → s₀.content x = s.content x

theorem filled_gtd {i : Fin maxGtd} {g : Gtd} (hg : g.cell = (s.gtds i).cell) :
    Filled s (s.setGtd i g) e (.gtd i) where
  shape := by
    rw [shape_setGtd]
    exact s.shape.setTd_self hg
  rest := rfl
  content := fun x hx => by
    cases x with
    | gtd j =>
      have hne : j ≠ i := fun heq => hx (heq ▸ rfl)
      simp [Host.content, Host.setGtd, hne]
    | itd j => rfl

theorem filled_itd {i : Fin maxItd} {g : Itd} (hg : g.cell = (s.itds i).cell) :
    Filled s (s.setItd i g) e (.itd i) where
  shape := by
    rw [shape_setItd]
    exact s.shape.setTd_self hg
  rest := rfl
  content := fun x hx => by
    cases x with
    | gtd j => rfl
    | itd j =>
      have hne : j ≠ i := fun heq => hx (heq ▸ rfl)
      simp [Host.content, Host.setItd, hne]

theorem Filled.tdInUse {s₀ : Host} (h : Filled s s₀ e t) (x : Td) : s₀.tdInUse x = s.tdInUse x := by
  rw [← shape_inUse, h.shape, shape_inUse]

theorem Filled.appends {s₀ : Host} (h : Filled s s₀ e t) (hq : Queues s.shape w p T)
    (he : (s.shape.eds e).opened = true) (hT : T (.pipe e) = q ++ [t]) :
    Appends s s₀ w p T e [] where
  queues := by
    rw [h.shape, List.append_nil, Function.update_eq_self]
    exact hq
  eds := by
    have heds : s₀.eds = s.eds := by rw [h.rest]
    rw [heds]
    simp
  rest := by
    rw [h.rest]
  opened := h.shape ▸ he
  fresh := by simp
  inUse := fun x => by simp [h.tdInUse]
  content := fun x hx _ => h.content x fun heq => hx (hT ▸ by simp [heq])
  earlier := fun x hx => h.content x fun heq => by
    have hnodup := hq.chains.nodup (.pipe e)
    rw [hT] at hx hnodup
    rw [List.dropLast_concat] at hx
    exact (List.nodup_append.mp hnodup).2.2 x hx t (by simp) heq

theorem Appended.appends (h : Appended s s' e td) (he : (s.shape.eds e).opened = true)
    (hT : T (.pipe e) = q ++ [t])
    (hq : Queues s'.shape w p (Function.update T (.pipe e) (q ++ [t, td]))) :
    Appends s s' w p T e [td] := by
  have hcell : ∀ x, x ≠ td → s'.tdInUse x = s.tdInUse x := fun x hx => by
    rw [tdInUse_eq, tdInUse_eq, h.content x hx]
  have hself : s'.tdInUse td = true := by
    rw [← shape_inUse]
    exact (hq.members (.pipe e) td (by simp)).1
  have heds : s'.eds = Function.update s.eds e { s.eds e with tailP := some td } := by rw [h.rest]
  refine ⟨?_, ?_, ?_, ?_, ?_, fun x => ?_, fun x _ hx => h.content x (by simpa using hx),
    fun x hx => ?_⟩
  · rw [hT, List.append_assoc]
    exact hq
  · have htail : (s'.eds e).tailP = some td := by rw [heds, Function.update_self]
    rw [htail]
    exact heds
  · rw [h.rest]
  · have hinUse : (s.eds e).inUse = true := (Bool.and_eq_true _ _ ▸ he).1
    rw [shape_eds, heds, Function.update_self]
    simp [Endpoint.opened, Ed.endpoint, hinUse]
  · intro x hx
    rw [List.mem_singleton.mp hx]
    exact h.free
  · by_cases hx : x = td
    · subst hx
      simp [hself]
    · simp [hcell x hx, hx]
  · refine h.content x fun heq => ?_
    have hnodup := hq.chains.nodup (.pipe e)
    rw [Function.update_self] at hnodup
    rw [hT, List.dropLast_concat] at hx
    exact (List.nodup_append.mp hnodup).2.2 x hx td (by simp) heq

theorem mem_dropLast_append {l m : List Td} {x : Td} (h : x ∈ l.dropLast) :
    x ∈ (l ++ m).dropLast := by
  cases m using List.reverseRecOn with
  | nil => rwa [List.append_nil]
  | append_singleton m a =>
    rw [← List.append_assoc, List.dropLast_concat]
    exact List.mem_append_left m (List.dropLast_subset l h)

theorem Appends.trans {s₁ s₂ : Host} {m₁ m₂ : List Td} (h : Appends s s₁ w p T e m₁)
    (h' : Appends s₁ s₂ w p (Function.update T (.pipe e) (T (.pipe e) ++ m₁)) e m₂) :
    Appends s s₂ w p T e (m₁ ++ m₂) where
  queues := by
    have hq := h'.queues
    rw [Function.update_self, Function.update_idem, List.append_assoc] at hq
    exact hq
  eds := by
    rw [h'.eds, h.eds, Function.update_idem, Function.update_self]
    simp
  rest := h'.rest.trans (by rw [h.rest])
  opened := h'.opened
  fresh := fun x hx => by
    rcases List.mem_append.mp hx with hx | hx
    · exact h.fresh x hx
    · have hfree := h'.fresh x hx
      by_contra huse
      rw [Bool.not_eq_false] at huse
      rw [(h.inUse x).mpr (Or.inl huse)] at hfree
      cases hfree
  inUse := fun x => by
    rw [h'.inUse, h.inUse, List.mem_append, or_assoc]
  content := fun x hx hm => by
    rw [List.mem_append, not_or] at hm
    refine (h'.content x ?_ hm.2).trans (h.content x hx hm.1)
    rw [Function.update_self, List.mem_append, not_or]
    exact ⟨hx, hm.1⟩
  earlier := fun x hx => by
    refine (h'.earlier x ?_).trans (h.earlier x hx)
    rw [Function.update_self]
    exact mem_dropLast_append hx

inductive QueuesOne (s : Host) (w p : Option Td) (T : Place → List Td) (e : Fin maxEd)
    (kind : Bool) (t : Td) (filled : Gtd ⊕ Itd) : Host × HcdStatus → Prop
  | done {s' : Host} (td : Td) (hkind : td.isItd = kind) (happends : Appends s s' w p T e [td])
    (hfilled : s'.content t = filled) (hfresh : s'.delayInterrupt td = 0) :
    QueuesOne s w p T e kind t filled (s', .ok)
  | full {s' : Host} {status : HcdStatus} (hstatus : status ≠ .ok)
    (hfull : ∀ td : Td, td.isItd = kind → s.tdInUse td = true)
      (happends : Appends s s' w p T e []) : QueuesOne s w p T e kind t filled (s', status)

theorem queuesOne_of_alloc {s₀ : Host} {kind : Bool} {r : Host × HcdStatus} (h : Filled s s₀ e t)
    (halloc : Alloc s₀ e kind r) (hq : Queues s.shape w p T)
    (he : (s.shape.eds e).opened = true) (hT : T (.pipe e) = q ++ [t])
    (hkind : (s.eds e).format = kind) : QueuesOne s w p T e kind t (s₀.content t) r := by
  have hfilled := h.appends hq he hT
  have hq₀ : Queues s₀.shape w p T := h.shape ▸ hq
  have he₀ : (s₀.shape.eds e).opened = true := h.shape ▸ he
  have hkind₀ : (s₀.eds e).format = kind := by rw [h.rest]; exact hkind
  rcases alloc_extend halloc hq₀ he₀ hT hkind₀ with
    ⟨td, hok, hisItd, happended, hqueues⟩ | ⟨hsame, hstatus, hfull⟩
  · obtain ⟨s', status⟩ := r
    obtain rfl : status = .ok := hok
    have hne : t ≠ td := fun heq => by
      have hnodup := hqueues.chains.nodup (.pipe e)
      rw [Function.update_self] at hnodup
      exact (List.nodup_cons.mp (List.nodup_append.mp hnodup).2.1).1 (by simp [heq])
    refine .done td hisItd ?_ (happended.content t hne) happended.delayInterrupt
    have hT' : Function.update T (.pipe e) (T (.pipe e) ++ []) = T := by
      rw [List.append_nil, Function.update_eq_self]
    have happ := happended.appends he₀ hT hqueues
    rw [← hT'] at happ
    exact hfilled.trans happ
  · obtain ⟨s', status⟩ := r
    obtain rfl : s' = s₀ := hsame
    refine .full hstatus (fun td htd => ?_) hfilled
    rw [← h.tdInUse]
    exact hfull td htd

theorem tailP_gtd (hq : Queues s.shape w p T) (he : (s.shape.eds e).opened = true)
    (hT : T (.pipe e) = q ++ [t]) (hkind : (s.eds e).format = false) :
    ∃ i, t = .gtd i ∧ (s.eds e).tailP = some (.gtd i) := by
  have htail : (s.eds e).tailP = some t := (hq.tail e he).symm.trans (by simp [hT])
  have hisItd := (hq.members_pipe (e := e) (x := t) (hT ▸ by simp)).2.2
  cases t with
  | gtd i => exact ⟨i, rfl, htail⟩
  | itd i =>
    rw [shape_eds, show (s.eds e).endpoint.format = (s.eds e).format from rfl, hkind] at hisItd
    cases hisItd

theorem tailP_itd (hq : Queues s.shape w p T) (he : (s.shape.eds e).opened = true)
    (hT : T (.pipe e) = q ++ [t]) (hkind : (s.eds e).format = true) :
    ∃ i, t = .itd i ∧ (s.eds e).tailP = some (.itd i) := by
  have htail : (s.eds e).tailP = some t := (hq.tail e he).symm.trans (by simp [hT])
  have hisItd := (hq.members_pipe (e := e) (x := t) (hT ▸ by simp)).2.2
  cases t with
  | itd i => exact ⟨i, rfl, htail⟩
  | gtd i =>
    rw [shape_eds, show (s.eds e).endpoint.format = (s.eds e).format from rfl, hkind] at hisItd
    cases hisItd

theorem queueOneGTD_queues (hq : Queues s.shape w p T) (he : (s.shape.eds e).opened = true)
    (hT : T (.pipe e) = q ++ [t]) (hkind : (s.eds e).format = false)
    (buf len : UInt32) (pid toggle : UInt8) (ioc : Bool) :
    ∃ i r, t = .gtd i ∧ queueOneGTD s e buf len pid toggle ioc = some r ∧
      QueuesOne s w p T e false t
        (.inl { fillGtd (s.gtds i) buf len pid toggle ioc with nextTD := none }) r := by
  obtain ⟨i, rfl, htail⟩ := tailP_gtd hq he hT hkind
  have heval : queueOneGTD s e buf len pid toggle ioc = some (allocGtdForEd (s.setGtd i
      (fillGtd (s.gtds i) buf len pid toggle ioc)) e) := by simp only [queueOneGTD, htail]
  have hone := queuesOne_of_alloc (filled_gtd (s := s) (e := e) (i := i)
    (g := fillGtd (s.gtds i) buf len pid toggle ioc) rfl) (allocGtdForEd_alloc _ e) hq he hT hkind
  exact ⟨i, _, rfl, heval, by simpa [Host.content, Host.setGtd] using hone⟩

theorem queueOneITD_queues (hq : Queues s.shape w p T) (he : (s.shape.eds e).opened = true)
    (hT : T (.pipe e) = q ++ [t]) (hkind : (s.eds e).format = true)
    (buf len : UInt32) (frame : UInt16) :
    ∃ i r, t = .itd i ∧ queueOneITD s e buf len frame = some r ∧
      QueuesOne s w p T e true t (.inr { fillItd (s.itds i) (s.eds e).maxPackageSize.toUInt32
          buf len frame with nextTD := none }) r := by
  obtain ⟨i, rfl, htail⟩ := tailP_itd hq he hT hkind
  have heval : queueOneITD s e buf len frame = some (allocItdForEd (s.setItd i
      (fillItd (s.itds i) (s.eds e).maxPackageSize.toUInt32 buf len frame)) e) := by
    simp only [queueOneITD, htail]
  have hone := queuesOne_of_alloc (filled_itd (s := s) (e := e) (i := i)
    (g := fillItd (s.itds i) (s.eds e).maxPackageSize.toUInt32 buf len frame) rfl)
    (allocItdForEd_alloc _ e) hq he hT hkind
  exact ⟨i, _, rfl, heval, by simpa [Host.content, Host.setItd] using hone⟩

end Queueing

structure Piece where
  currentBufferPointer : UInt32
  xferLen : UInt32
  directionPID : UInt8
  dataToggle : UInt8
  ioc : Bool

def queueList (e : Fin maxEd) : List Piece → Host → Option (Host × HcdStatus)
  | [], s => some (s, .ok)
  | P :: ps, s =>
    andThen (queueOneGTD s e P.currentBufferPointer P.xferLen P.directionPID P.dataToggle P.ioc)
      (queueList e ps)

def stages (r : Request) (buffer : UInt32) : List Piece :=
  ⟨r.address, 8, 0, 2, false⟩ ::
    (if r.wLength ≠ 0 then
      [⟨buffer, r.wLength.toUInt32, if toHost r then 2 else 1, 3, false⟩] else []) ++
    [⟨0, 0, if toHost r then 1 else 2, 3, true⟩]

@[simp] theorem andThen_ok (s : Host) (f : Host → Option (Host × HcdStatus)) :
    andThen (some (s, .ok)) f = f s := rfl

theorem andThen_error {s : Host} {status : HcdStatus} (h : status ≠ .ok)
    (f : Host → Option (Host × HcdStatus)) : andThen (some (s, status)) f = some (s, status) := by
  simp [andThen, h]

theorem queueList_singleton (s : Host) (e : Fin maxEd) (P : Piece) :
    queueList e [P] s =
      queueOneGTD s e P.currentBufferPointer P.xferLen P.directionPID P.dataToggle P.ioc := by
  simp only [queueList]
  cases queueOneGTD s e P.currentBufferPointer P.xferLen P.directionPID P.dataToggle P.ioc with
  | none => rfl
  | some r =>
    by_cases h : r.2 = .ok
    · simp [andThen, h, Prod.ext_iff]
    · simp [andThen, h]

theorem queueStages_eq (s : Host) (e : Fin maxEd) (r : Request) (buffer : UInt32) :
    queueStages s e r buffer = queueList e (stages r buffer) s := by
  simp only [queueStages, stages, List.cons_append, queueList]
  congr 1
  funext s'
  by_cases hlen : r.wLength = 0
  · simp [hlen, queueList_singleton]
  · rw [if_pos hlen, if_pos hlen, List.cons_append, List.nil_append, queueList]
    congr 1
    funext s''
    rw [queueList_singleton]

/-- The TD stands for the piece; with `ioc` the field of a fresh TD asks for an interrupt. -/
structure Holds (s : Host) (td : Td) (P : Piece) : Prop where
  gtd : ∃ i, td = .gtd i ∧ (s.gtds i).directionPID = P.directionPID ∧
    (s.gtds i).dataToggle = P.dataToggle ∧
    (s.gtds i).currentBufferPointer = P.currentBufferPointer ∧
    (s.gtds i).bufferEnd =
      (if P.xferLen ≠ 0 then P.currentBufferPointer + P.xferLen - 1 else 0) ∧
    (s.gtds i).transferCount = P.xferLen.toUInt16
  delayInterrupt : s.delayInterrupt td = if P.ioc then 0 else tdNoInterruptOnComplete

section Sequences
variable {s s' : Host} {w p : Option Td} {T : Place → List Td} {e : Fin maxEd} {q m : List Td}
  {t td : Td} {P : Piece} {ps : List Piece}

theorem Holds.congr (h : Holds s td P) (hcontent : s'.content td = s.content td) :
    Holds s' td P := by
  refine ⟨?_, (delayInterrupt_of_content hcontent).trans h.delayInterrupt⟩
  obtain ⟨i, rfl, h₁, h₂, h₃, h₄, h₅⟩ := h.gtd
  have hg := Sum.inl.inj hcontent
  exact ⟨i, rfl, (congrArg Gtd.directionPID hg).trans h₁, (congrArg Gtd.dataToggle hg).trans h₂,
    (congrArg Gtd.currentBufferPointer hg).trans h₃, (congrArg Gtd.bufferEnd hg).trans h₄,
    (congrArg Gtd.transferCount hg).trans h₅⟩

theorem holds_of_filled {i : Fin maxGtd} {g : Gtd}
    (h : s'.content (.gtd i) = .inl { fillGtd g P.currentBufferPointer P.xferLen P.directionPID
      P.dataToggle P.ioc with nextTD := none })
    (hfresh : P.ioc = true → g.delayInterrupt = 0) : Holds s' (.gtd i) P := by
  have hg := Sum.inl.inj h
  refine ⟨⟨i, rfl, congrArg Gtd.directionPID hg, congrArg Gtd.dataToggle hg,
    congrArg Gtd.currentBufferPointer hg, congrArg Gtd.bufferEnd hg, congrArg Gtd.transferCount hg⟩,
    (congrArg Gtd.delayInterrupt hg).trans ?_⟩
  by_cases hioc : P.ioc = true
  · simp [fillGtd, hioc, hfresh hioc]
  · simp [fillGtd, hioc]

def tds : Bool → Finset Td
  | false => Finset.univ.image Td.gtd
  | true => Finset.univ.image Td.itd

theorem mem_tds (td : Td) (kind : Bool) : td ∈ tds kind ↔ td.isItd = kind := by
  cases kind <;> cases td <;> simp [tds, Td.isItd]

def capacity : Bool → ℕ
  | false => maxGtd
  | true => maxItd

theorem card_tds (kind : Bool) : (tds kind).card = capacity kind := by
  cases kind with
  | false =>
    rw [tds, Finset.card_image_of_injective _ fun i j h => Td.gtd.inj h, Finset.card_univ,
      Fintype.card_fin, capacity]
  | true =>
    rw [tds, Finset.card_image_of_injective _ fun i j h => Td.itd.inj h, Finset.card_univ,
      Fintype.card_fin, capacity]

def used (s : Host) (kind : Bool) : ℕ := ((tds kind).filter fun td => s.tdInUse td = true).card

theorem used_le (s : Host) (kind : Bool) : used s kind ≤ capacity kind :=
  card_tds kind ▸ Finset.card_filter_le _ _

theorem used_append (h : Appends s s' w p T e [td]) :
    used s' td.isItd = used s td.isItd + 1 := by
  have hset : ((tds td.isItd).filter fun x => s'.tdInUse x = true) =
      insert td ((tds td.isItd).filter fun x => s.tdInUse x = true) := by
    ext x
    rw [Finset.mem_insert, Finset.mem_filter, Finset.mem_filter, h.inUse, List.mem_singleton,
      mem_tds]
    by_cases hx : x = td
    · simp [hx]
    · simp [hx]
  have hfree := h.fresh td (by simp)
  rw [used, hset, Finset.card_insert_of_notMem, used]
  simp [hfree]

theorem used_none (h : Appends s s' w p T e []) (kind : Bool) : used s' kind = used s kind := by
  have hsame : ∀ x, s'.tdInUse x = true ↔ s.tdInUse x = true := fun x => by simpa using h.inUse x
  simp only [used, hsame]

theorem used_full {kind : Bool} (h : ∀ td : Td, td.isItd = kind → s.tdInUse td = true) :
    used s kind = capacity kind := by
  rw [used, Finset.filter_true_of_mem fun td htd => h td ((mem_tds td kind).mp htd), card_tds]

/-- The pieces come to stand in the queue one after another, until there is no TD left for the
next place holder. The interrupt is asked for if the place holder that was there has not been
filled before. -/
structure QueuesList (s s' : Host) (w p : Option Td) (T : Place → List Td) (e : Fin maxEd)
    (q : List Td) (t : Td) (ps : List Piece) (m : List Td) : Prop where
  appends : Appends s s' w p T e m
  used : used s' false = used s false + m.length
  holds : ∃ done t', T (.pipe e) ++ m = q ++ done ++ [t'] ∧ done.length = m.length ∧
    ((∀ P ∈ ps.head?, P.ioc = true → s.delayInterrupt t = 0) →
      List.Forall₂ (Holds s') done (ps.take m.length))

theorem queueList_queues (ps : List Piece) (hq : Queues s.shape w p T)
    (he : (s.shape.eds e).opened = true) (hT : T (.pipe e) = q ++ [t])
    (hkind : (s.eds e).format = false) :
    ∃ s' status m, queueList e ps s = some (s', status) ∧ QueuesList s s' w p T e q t ps m ∧
      (status = .ok ∧ m.length = ps.length ∨
        status ≠ .ok ∧ m.length < ps.length ∧ used s' false = maxGtd) := by
  induction ps generalizing s T q t with
  | nil =>
    exact ⟨s, .ok, [], rfl, ⟨.refl hq he, by simp, [], t, by simp [hT], rfl,
      fun _ => List.Forall₂.nil⟩, Or.inl ⟨rfl, rfl⟩⟩
  | cons P ps ih =>
    obtain ⟨i, r, rfl, heval, hone⟩ := queueOneGTD_queues hq he hT hkind P.currentBufferPointer
      P.xferLen P.directionPID P.dataToggle P.ioc
    cases hone with
    | @done s₁ td htd happends hfilled hfresh₁ =>
      have hT₁ : Function.update T (.pipe e) (T (.pipe e) ++ [td]) (.pipe e) =
          (q ++ [.gtd i]) ++ [td] := by rw [Function.update_self, hT]
      have hkind₁ : (s₁.eds e).format = false := by
        rw [happends.eds, Function.update_self]
        exact hkind
      obtain ⟨s', status, m, hlist, hqueues, hcases⟩ :=
        ih happends.queues happends.opened hT₁ hkind₁
      obtain ⟨done, t', hsplit, hlen, hholds⟩ := hqueues.holds
      have hused : used s₁ false = used s false + 1 := htd ▸ used_append happends
      have hearlier : s'.content (.gtd i) = s₁.content (.gtd i) := by
        refine hqueues.appends.earlier _ ?_
        rw [hT₁, List.dropLast_concat]
        simp
      refine ⟨s', status, td :: m, ?_, ⟨happends.trans hqueues.appends, ?_, .gtd i :: done, t',
        ?_, by simp [hlen], ?_⟩, ?_⟩
      · rw [queueList, heval, andThen_ok]
        exact hlist
      · rw [hqueues.used, hused, List.length_cons]
        omega
      · rw [hT₁] at hsplit
        rw [hT]
        simpa using hsplit
      · exact fun hfresh => List.Forall₂.cons
          ((holds_of_filled hfilled (hfresh P (by simp))).congr hearlier)
          (hholds fun _ _ _ => hfresh₁)
      · simp only [List.length_cons]
        rcases hcases with ⟨hok, hm⟩ | ⟨hstatus, hm, hfull⟩
        · exact Or.inl ⟨hok, by omega⟩
        · exact Or.inr ⟨hstatus, by omega, hfull⟩
    | @full s' status hstatus hfull happends =>
      refine ⟨s', status, [], ?_, ⟨happends, used_none happends false, [], .gtd i, by simp [hT],
          rfl, fun _ => List.Forall₂.nil⟩, Or.inr ⟨hstatus, by simp, ?_⟩⟩
      · rw [queueList, heval, andThen_error hstatus]
      · rw [used_none happends, used_full hfull, capacity]

end Sequences

end AoaBoard.Usb.Ohci
