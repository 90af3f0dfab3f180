import AoaBoard.Library.Links
import AoaBoard.Usb.Ohci

/-!
# The lists and queues of the OHCI driver

The shape of the driver's memory is what its links depend on. In it stand the
lists of endpoints, the queue of TDs of each open endpoint, the done queue of
the controller and the one it has handed over, all null-terminated and without a
common cell. Each change that the driver or the controller makes to the links
has a rule here that says which lists there are afterwards.
-/

namespace AoaBoard.Usb.Ohci
open Library.Links

structure Endpoint where
  inUse : Bool
  tailP : Option Td
  headTD : Option Td
  format : Bool
  nextED : Option (Fin maxEd)
  listIndex : ListHead

structure Cell where
  nextTD : Option Td
  inUse : Bool
  edIdx : Fin maxEd

structure Shape where
  eds : Fin maxEd → Endpoint
  tds : Td → Cell
  staticEDs : ListHead → Option (Fin maxEd)
  hcDoneHead : Option Td

def Ed.endpoint (d : Ed) : Endpoint :=
  ⟨d.inUse, d.tailP, d.headTD, d.format, d.nextED, d.listIndex⟩

def Gtd.cell (g : Gtd) : Cell := ⟨g.nextTD, g.inUse, g.edIdx⟩

def Itd.cell (t : Itd) : Cell := ⟨t.nextTD, t.inUse, t.edIdx⟩

def Host.cell (s : Host) : Td → Cell
  | .gtd i => (s.gtds i).cell
  | .itd i => (s.itds i).cell

def Host.shape (s : Host) : Shape :=
  ⟨fun e => (s.eds e).endpoint, s.cell, s.staticEDs, s.hcDoneHead⟩

def Endpoint.opened (d : Endpoint) : Bool := d.inUse && d.tailP.isSome

namespace Shape
variable (S : Shape)

def setEd (e : Fin maxEd) (d : Endpoint) : Shape := { S with eds := Function.update S.eds e d }

def setTd (td : Td) (c : Cell) : Shape := { S with tds := Function.update S.tds td c }

def next (td : Td) : Option Td := (S.tds td).nextTD

@[simp] theorem setEd_eds (e : Fin maxEd) (d : Endpoint) :
    (S.setEd e d).eds = Function.update S.eds e d := rfl

@[simp] theorem setEd_tds (e : Fin maxEd) (d : Endpoint) : (S.setEd e d).tds = S.tds := rfl

@[simp] theorem setEd_next (e : Fin maxEd) (d : Endpoint) : (S.setEd e d).next = S.next := rfl

@[simp] theorem setTd_eds (td : Td) (c : Cell) : (S.setTd td c).eds = S.eds := rfl

@[simp] theorem setTd_tds (td : Td) (c : Cell) :
    (S.setTd td c).tds = Function.update S.tds td c := rfl

@[simp] theorem setTd_next (td : Td) (c : Cell) :
    (S.setTd td c).next = Function.update S.next td c.nextTD := by
  funext x
  by_cases hx : x = td
  · subst hx
    simp [next]
  · simp [next, hx]

theorem setEd_self {e : Fin maxEd} {d : Endpoint} (h : d = S.eds e) : S.setEd e d = S := by
  rw [h, setEd, Function.update_eq_self]

theorem setTd_self {td : Td} {c : Cell} (h : c = S.tds td) : S.setTd td c = S := by
  rw [h, setTd, Function.update_eq_self]

end Shape

section Shapes
variable (s : Host)

@[simp] theorem shape_eds (e : Fin maxEd) : s.shape.eds e = (s.eds e).endpoint := rfl

@[simp] theorem shape_gtd (i : Fin maxGtd) : s.shape.tds (.gtd i) = (s.gtds i).cell := rfl

@[simp] theorem shape_itd (i : Fin maxItd) : s.shape.tds (.itd i) = (s.itds i).cell := rfl

theorem shape_next (td : Td) : s.shape.next td = s.nextTD td := by cases td <;> rfl

theorem shape_inUse (td : Td) : (s.shape.tds td).inUse = s.tdInUse td := by cases td <;> rfl

theorem shape_edIdx (td : Td) : (s.shape.tds td).edIdx = s.edIdx td := by cases td <;> rfl

theorem shape_setEd (e : Fin maxEd) (d : Ed) :
    (s.setEd e d).shape = s.shape.setEd e d.endpoint := by
  have heds : (fun x => (Function.update s.eds e d x).endpoint) =
      Function.update (fun x => (s.eds x).endpoint) e d.endpoint := by
    funext x
    by_cases hx : x = e
    · subst hx
      simp
    · simp [hx]
  simp only [Host.shape, Shape.setEd, Host.setEd, heds]
  rfl

theorem shape_setGtd (i : Fin maxGtd) (g : Gtd) :
    (s.setGtd i g).shape = s.shape.setTd (.gtd i) g.cell := by
  have htds : (s.setGtd i g).cell = Function.update s.cell (.gtd i) g.cell := by
    funext x
    cases x with
    | gtd j =>
      by_cases hj : j = i
      · subst hj
        simp [Host.cell, Host.setGtd]
      · simp [Host.cell, Host.setGtd, hj]
    | itd j => simp [Host.cell, Host.setGtd]
  simp only [Host.shape, Shape.setTd, htds]
  rfl

theorem shape_setItd (i : Fin maxItd) (t : Itd) :
    (s.setItd i t).shape = s.shape.setTd (.itd i) t.cell := by
  have htds : (s.setItd i t).cell = Function.update s.cell (.itd i) t.cell := by
    funext x
    cases x with
    | itd j =>
      by_cases hj : j = i
      · subst hj
        simp [Host.cell, Host.setItd]
      · simp [Host.cell, Host.setItd, hj]
    | gtd j => simp [Host.cell, Host.setItd]
  simp only [Host.shape, Shape.setTd, htds]
  rfl

theorem shape_setNextTD (td : Td) (p : Option Td) :
    (s.setNextTD td p).shape = s.shape.setTd td { s.shape.tds td with nextTD := p } := by
  cases td with
  | gtd i => exact shape_setGtd s i _
  | itd i => exact shape_setItd s i _

end Shapes

/-- The lists of TDs: the queues of the endpoints, what the controller has retired, what it has
handed over, and the list that `ProcessDoneQueue` makes of it. -/
inductive Place
  | pipe (e : Fin maxEd)
  | retired
  | written
  | list
  deriving DecidableEq

def Endpoint.start (d : Endpoint) : Option Td := if d.opened then d.headTD else none

def Shape.start (S : Shape) (written list : Option Td) : Place → Option Td
  | .pipe e => (S.eds e).start
  | .retired => S.hcDoneHead
  | .written => written
  | .list => list

/-- A TD of a list is in use, one of a queue belongs to the endpoint. -/
def Member (S : Shape) (c : Place) (td : Td) : Prop :=
  (S.tds td).inUse = true ∧
    ∀ e, c = .pipe e → (S.tds td).edIdx = e ∧ td.isItd = (S.eds e).format

structure Queues (S : Shape) (written list : Option Td) (T : Place → List Td) : Prop where
  chains : Chains S.next (S.start written list) T
  members : ∀ c, ∀ td ∈ T c, Member S c td
  tail : ∀ e, (S.eds e).opened = true → (T (.pipe e)).getLast? = (S.eds e).tailP

structure Lists (S : Shape) (L : ListHead → List (Fin maxEd)) : Prop where
  chains : Chains (fun e => (S.eds e).nextED) S.staticEDs L
  mem : ∀ h e, e ∈ L h ↔ (S.eds e).opened = true ∧ (S.eds e).listIndex = h

section Starts
variable (S : Shape) (w p : Option Td)

theorem start_setTd (td : Td) (c : Cell) : (S.setTd td c).start w p = S.start w p := by
  funext x
  cases x <;> rfl

theorem start_setEd (e : Fin maxEd) (d : Endpoint) :
    (S.setEd e d).start w p = Function.update (S.start w p) (.pipe e) d.start := by
  funext x
  cases x with
  | pipe e' =>
    by_cases he : e' = e
    · subst he
      simp [Shape.start, Shape.setEd]
    · simp [Shape.start, Shape.setEd, he]
  | _ => rfl

end Starts

theorem Member.congr {S S' : Shape} {c : Place} {td : Td} (h : Member S c td)
    (hcell : (S'.tds td).inUse = (S.tds td).inUse ∧ (S'.tds td).edIdx = (S.tds td).edIdx)
    (hformat : ∀ e, c = .pipe e → (S'.eds e).format = (S.eds e).format) : Member S' c td := by
  refine ⟨hcell.1.trans h.1, fun e he => ?_⟩
  rw [hcell.2, hformat e he]
  exact h.2 e he

def Shape.setNext (S : Shape) (td : Td) (p : Option Td) : Shape :=
  S.setTd td { S.tds td with nextTD := p }

section SetNext
variable (S : Shape) (td : Td) (q : Option Td)

theorem setNext_next : (S.setNext td q).next = Function.update S.next td q := S.setTd_next td _

theorem setNext_start (w p : Option Td) : (S.setNext td q).start w p = S.start w p :=
  start_setTd S w p td _

end SetNext

structure Relinked (S S' : Shape) : Prop where
  eds : S'.eds = S.eds
  cell : ∀ x, (S'.tds x).inUse = (S.tds x).inUse ∧ (S'.tds x).edIdx = (S.tds x).edIdx

theorem Relinked.refl (S : Shape) : Relinked S S := ⟨rfl, fun _ => ⟨rfl, rfl⟩⟩

theorem relinked_setNext (S : Shape) (td : Td) (q : Option Td) : Relinked S (S.setNext td q) where
  eds := rfl
  cell := fun x => by
    by_cases hx : x = td
    · subst hx
      simp [Shape.setNext]
    · simp [Shape.setNext, hx]

namespace Queues
variable {S : Shape} {w p : Option Td} {T : Place → List Td} {e : Fin maxEd} {d : Endpoint}
  {td t : Td} {c : Cell} {q rest m : List Td}

theorem not_mem (h : Queues S w p T) (htd : (S.tds td).inUse = false) (c : Place) : td ∉ T c :=
  fun hmem => by simp [(h.members c td hmem).1] at htd

theorem unopened (h : Queues S w p T) (he : (S.eds e).opened = false) : T (.pipe e) = [] := by
  have hlinked := h.chains.linked (.pipe e)
  rw [Shape.start, Endpoint.start, if_neg (by simp [he])] at hlinked
  exact hlinked.start_none

theorem headTD_eq (h : Queues S w p T) (he : (S.eds e).opened = true)
    (hT : T (.pipe e) = td :: rest) : (S.eds e).headTD = some td := by
  have hlinked := h.chains.linked (.pipe e)
  rw [Shape.start, Endpoint.start, if_pos he, hT] at hlinked
  exact hlinked.1

theorem split_tail (h : Queues S w p T) (he : (S.eds e).opened = true) :
    ∃ q t, T (.pipe e) = q ++ [t] ∧ (S.eds e).tailP = some t := by
  have htail := h.tail e he
  rw [Endpoint.opened, Bool.and_eq_true] at he
  obtain ⟨t, ht⟩ := Option.isSome_iff_exists.mp he.2
  rw [ht] at htail
  obtain ⟨q, hq⟩ := List.getLast?_eq_some_iff.mp htail
  exact ⟨q, t, hq, ht⟩

theorem congr {S' : Shape} (h : Queues S w p T) (htds : S'.tds = S.tds)
    (hdone : S'.hcDoneHead = S.hcDoneHead)
    (heds : ∀ e, (S'.eds e).start = (S.eds e).start ∧ (S'.eds e).format = (S.eds e).format ∧
      ((S'.eds e).opened = true → (S.eds e).opened = true ∧ (S'.eds e).tailP = (S.eds e).tailP)) :
    Queues S' w p T where
  chains := by
    have hnext : S'.next = S.next := by
      funext x
      rw [Shape.next, Shape.next, htds]
    have hstart : S'.start w p = S.start w p := by
      funext c
      cases c with
      | pipe e => exact (heds e).1
      | retired => exact hdone
      | _ => rfl
    rw [hnext, hstart]
    exact h.chains
  members := fun c td htd => (h.members c td htd).congr (by rw [htds]; exact ⟨rfl, rfl⟩)
    fun e _ => (heds e).2.1
  tail := fun e he => by
    obtain ⟨hopened, htail⟩ := (heds e).2.2 he
    rw [htail]
    exact h.tail e hopened

theorem pipe_ne {e e' : Fin maxEd} (h : e' ≠ e) : Place.pipe e' ≠ .pipe e :=
  fun heq => h (Place.pipe.inj heq)

theorem mem_update {x : Td} {a b : Place} (hx : x ∈ Function.update T b m a) :
    a = b ∧ x ∈ m ∨ a ≠ b ∧ x ∈ T a := by
  by_cases ha : a = b
  · subst ha
    rw [Function.update_self] at hx
    exact Or.inl ⟨rfl, hx⟩
  · rw [Function.update_of_ne ha] at hx
    exact Or.inr ⟨ha, hx⟩

theorem setTd (h : Queues S w p T) (htd : ∀ c, td ∉ T c) : Queues (S.setTd td c) w p T where
  chains := by
    rw [start_setTd, Shape.setTd_next]
    exact h.chains.update htd
  members := fun a x hx => by
    have hne : x ≠ td := fun heq => htd a (heq ▸ hx)
    refine (h.members a x hx).congr ?_ fun _ _ => rfl
    rw [Shape.setTd_tds, Function.update_of_ne hne]
    exact ⟨rfl, rfl⟩
  tail := h.tail

theorem requeue {S' : Shape} (h : Queues S w p T) (hS : Relinked S S')
    (hchains : Chains S'.next (Function.update (S'.start w p) (.pipe e) d.start)
      (Function.update T (.pipe e) m))
    (hm : ∀ x ∈ m, (S.tds x).inUse = true ∧ (S.tds x).edIdx = e ∧ x.isItd = d.format)
    (htail : d.opened = true → m.getLast? = d.tailP) :
    Queues (S'.setEd e d) w p (Function.update T (.pipe e) m) where
  chains := by
    rw [start_setEd]
    exact hchains
  members := fun a x hx => by
    by_cases ha : a = .pipe e
    · subst ha
      rw [Function.update_self] at hx
      obtain ⟨huse, hed, hkind⟩ := hm x hx
      refine ⟨(hS.cell x).1.trans huse, fun e' he' => ?_⟩
      obtain rfl := Place.pipe.inj he'
      rw [Shape.setEd_eds, Function.update_self]
      exact ⟨(hS.cell x).2.trans hed, hkind⟩
    · rw [Function.update_of_ne ha] at hx
      refine (h.members a x hx).congr (hS.cell x) fun e' he' => ?_
      have hne : e' ≠ e := fun heq => ha (heq ▸ he')
      rw [Shape.setEd_eds, Function.update_of_ne hne, hS.eds]
  tail := fun e' hopened => by
    rw [Shape.setEd_eds] at hopened ⊢
    by_cases he : e' = e
    · subst he
      rw [Function.update_self] at hopened
      rw [Function.update_self, Function.update_self]
      exact htail hopened
    · rw [Function.update_of_ne he, hS.eds] at hopened
      rw [Function.update_of_ne he, Function.update_of_ne (pipe_ne he), hS.eds]
      exact h.tail e' hopened

theorem members_pipe (h : Queues S w p T) {x : Td} (hx : x ∈ T (.pipe e)) :
    (S.tds x).inUse = true ∧ (S.tds x).edIdx = e ∧ x.isItd = (S.eds e).format :=
  ⟨(h.members _ x hx).1, (h.members _ x hx).2 e rfl⟩

theorem setEd (h : Queues S w p T) (hstart : d.start = (S.eds e).start)
    (hformat : d.format = (S.eds e).format ∨ T (.pipe e) = [])
    (htail : d.opened = true → (S.eds e).opened = true ∧ d.tailP = (S.eds e).tailP) :
    Queues (S.setEd e d) w p T := by
  have hT : Function.update T (.pipe e) (T (.pipe e)) = T := Function.update_eq_self _ _
  rw [← hT]
  refine h.requeue (.refl S) ?_ (fun x hx => ?_) fun hopened => ?_
  · rw [hT, hstart]
    have hs : Function.update (S.start w p) (.pipe e) (S.eds e).start = S.start w p :=
      Function.update_eq_self _ _
    rw [hs]
    exact h.chains
  · rcases hformat with hformat | hnil
    · rw [hformat]
      exact h.members_pipe hx
    · rw [hnil] at hx
      exact absurd hx List.not_mem_nil
  · obtain ⟨he, htl⟩ := htail hopened
    rw [htl]
    exact h.tail e he

theorem restart (h : Queues S w p T) (hlinked : Linked S.next d.start m) (hm : m ⊆ T (.pipe e))
    (hformat : d.format = (S.eds e).format)
    (htail : d.opened = true → m.getLast? = d.tailP) :
    Queues (S.setEd e d) w p (Function.update T (.pipe e) m) := by
  refine h.requeue (.refl S) (h.chains.restart hlinked hm) (fun x hx => ?_) htail
  rw [hformat]
  exact h.members_pipe (hm hx)

theorem enter (h : Queues S w p T) (he : (S.eds e).opened = false) (htd : ∀ c, td ∉ T c)
    (hcell : S.tds td = ⟨none, true, e⟩) (hstart : d.start = some td)
    (hformat : td.isItd = d.format) (htail : d.tailP = some td) :
    Queues (S.setEd e d) w p (Function.update T (.pipe e) [td]) := by
  have hnil := h.unopened he
  have hnone : S.start w p (.pipe e) = none := by
    rw [Shape.start, Endpoint.start, if_neg (by simp [he])]
  have hchains := h.chains.push (c := .pipe e) htd
  have hlink : Function.update S.next td none = S.next :=
    Function.update_eq_self_iff.mpr (by rw [Shape.next, hcell])
  rw [hnone, hnil, hlink] at hchains
  refine h.requeue (.refl S) (hstart ▸ hchains) (fun x hx => ?_) fun _ => htail ▸ rfl
  rw [List.mem_singleton.mp hx, hcell]
  exact ⟨rfl, rfl, hformat⟩

theorem extend (h : Queues S w p T) (he : (S.eds e).opened = true)
    (hT : T (.pipe e) = q ++ [t]) (htd : ∀ c, td ∉ T c) (hcell : S.tds td = ⟨none, true, e⟩)
    (hkind : td.isItd = (S.eds e).format) :
    Queues ((S.setNext t (some td)).setEd e { S.eds e with tailP := some td }) w p
      (Function.update T (.pipe e) (q ++ [t, td])) := by
  have hopened : ({ S.eds e with tailP := some td } : Endpoint).opened = true := by
    simp [Endpoint.opened, (Bool.and_eq_true _ _ ▸ he).1]
  refine h.requeue (relinked_setNext S t (some td)) ?_ (fun x hx => ?_) fun _ => by simp
  · have hstart : ({ S.eds e with tailP := some td } : Endpoint).start = S.start w p (.pipe e) := by
      simp only [Endpoint.start, Shape.start, hopened, he]
    have hnone : Function.update S.next td none = S.next :=
      Function.update_eq_self_iff.mpr (by rw [Shape.next, hcell])
    have hchains := h.chains.extend hT htd
    rw [hnone] at hchains
    rw [setNext_next, setNext_start, hstart, Function.update_eq_self]
    exact hchains
  · have hx' : x ∈ T (.pipe e) ∨ x = td := by
      rw [hT]
      simpa [or_assoc] using hx
    rcases hx' with hx | rfl
    · exact h.members_pipe hx
    · rw [hcell]
      exact ⟨rfl, rfl, hkind⟩

theorem retire (h : Queues S w p T) (htd : ∀ c, td ∉ T c) (huse : (S.tds td).inUse = true) :
    Queues { S.setNext td S.hcDoneHead with hcDoneHead := some td } w p
      (Function.update T .retired (td :: T .retired)) where
  chains := by
    have hstart : Shape.start { S.setNext td S.hcDoneHead with hcDoneHead := some td } w p =
        Function.update (S.start w p) .retired (some td) := by
      funext a
      cases a <;> rfl
    have hchains := h.chains.push (c := .retired) htd
    rw [hstart]
    exact (setNext_next S td S.hcDoneHead).symm ▸ hchains
  members := fun a x hx => by
    have hcell := (relinked_setNext S td S.hcDoneHead).cell x
    rcases mem_update hx with ⟨rfl, hx⟩ | ⟨-, hx⟩
    · rcases List.mem_cons.mp hx with rfl | hx
      · exact ⟨hcell.1.trans huse, fun e he => by cases he⟩
      · exact (h.members _ x hx).congr hcell fun e he => by cases he
    · exact (h.members a x hx).congr hcell fun _ _ => rfl
  tail := h.tail

theorem writeBack (h : Queues S w p T) :
    Queues { S with hcDoneHead := none } S.hcDoneHead p
      (Function.update (Function.update T .retired []) .written (T .retired)) where
  chains := by
    have hstart : Shape.start { S with hcDoneHead := none } S.hcDoneHead p =
        Function.update (Function.update (S.start w p) .retired none) .written S.hcDoneHead := by
      funext a
      cases a <;> rfl
    rw [hstart]
    exact h.chains.handOver
  members := fun a x hx => by
    rcases mem_update hx with ⟨rfl, hx⟩ | ⟨-, hx⟩
    · exact ⟨(h.members _ x hx).1, fun e he => by cases he⟩
    · rcases mem_update hx with ⟨-, hx⟩ | ⟨-, hx⟩
      · exact absurd hx List.not_mem_nil
      · exact (h.members a x hx).congr ⟨rfl, rfl⟩ fun _ _ => rfl
  tail := h.tail

theorem turn (h : Queues S w p T) (hT : T .written = td :: rest) :
    Queues (S.setNext td p) (S.next td) (some td)
      (Function.update (Function.update T .written rest) .list (td :: T .list)) where
  chains := by
    have hstart : (S.setNext td p).start (S.next td) (some td) =
        Function.update (Function.update (S.start w p) .written (S.next td)) .list (some td) := by
      funext a
      cases a <;> rfl
    have hchains := h.chains.move (d := .list) hT (fun heq => by cases heq)
    rw [hstart, setNext_next]
    exact hchains
  members := fun a x hx => by
    have hcell := (relinked_setNext S td p).cell x
    have huse : a = .list → x ∈ td :: T .list → Member (S.setNext td p) a x := by
      rintro rfl hx
      refine ⟨hcell.1.trans ?_, fun e he => by cases he⟩
      rcases List.mem_cons.mp hx with rfl | hx
      · exact (h.members .written _ (hT ▸ List.mem_cons_self)).1
      · exact (h.members .list x hx).1
    rcases mem_update hx with ⟨ha, hx⟩ | ⟨-, hx⟩
    · exact huse ha hx
    · rcases mem_update hx with ⟨rfl, hx⟩ | ⟨-, hx⟩
      · exact (h.members _ x (hT ▸ List.mem_cons_of_mem td hx)).congr hcell fun _ he => by cases he
      · exact (h.members a x hx).congr hcell fun _ _ => rfl
  tail := h.tail

theorem next (h : Queues S w p T) (hT : T .list = td :: rest) :
    Queues S w (S.next td) (Function.update T .list rest) where
  chains := by
    have hstart : S.start w (S.next td) = Function.update (S.start w p) .list (S.next td) := by
      funext a
      cases a <;> rfl
    rw [hstart]
    exact h.chains.pop hT
  members := fun a x hx => by
    rcases mem_update hx with ⟨rfl, hx⟩ | ⟨-, hx⟩
    · exact h.members _ x (hT ▸ List.mem_cons_of_mem td hx)
    · exact h.members a x hx
  tail := h.tail

end Queues

end AoaBoard.Usb.Ohci
