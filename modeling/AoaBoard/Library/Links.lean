import Mathlib.Data.List.Basic
import Mathlib.Data.List.Nodup
import Mathlib.Logic.Function.Basic

/-!
# Linked lists that share a memory of links

`next` is the memory: one link for each cell. A list is what the links visit
from a start to a null link, so it visits no cell twice. Several lists in one
memory that have no cell in common are a family of chains; each operation
rewrites one or two links and one or two starts, and its rule says which lists
the family holds then.
-/

namespace AoaBoard.Library.Links

variable {α κ : Type*}

/-- The links lead from `p` through the cells of the list and end there. -/
def Linked (next : α → Option α) : Option α → List α → Prop
  | p, [] => p = none
  | p, a :: l => p = some a ∧ Linked next (next a) l

def follow (next : α → Option α) : ℕ → Option α → List α
  | _, none => []
  | 0, some _ => []
  | fuel + 1, some a => a :: follow next fuel (next a)

section Single
variable {next next' : α → Option α} {p q : Option α} {l m : List α} {a b t : α}

@[simp] theorem linked_nil : Linked next p [] ↔ p = none := Iff.rfl

@[simp] theorem linked_cons :
    Linked next p (a :: l) ↔ p = some a ∧ Linked next (next a) l := Iff.rfl

theorem Linked.start_none (h : Linked next none l) : l = [] := by
  cases l with
  | nil => rfl
  | cons b l => cases h.1

theorem Linked.start_some (h : Linked next (some a) l) :
    ∃ m, l = a :: m ∧ Linked next (next a) m := by
  cases l with
  | nil => cases h
  | cons b l =>
    obtain ⟨heq, hl⟩ := h
    obtain rfl := Option.some.inj heq
    exact ⟨l, rfl, hl⟩

theorem Linked.unique (h : Linked next p l) (h' : Linked next p m) : l = m := by
  induction l generalizing p m with
  | nil =>
    obtain rfl : p = none := h
    exact h'.start_none.symm
  | cons a l ih =>
    obtain ⟨rfl, hl⟩ := h
    obtain ⟨m, rfl, hm⟩ := h'.start_some
    rw [ih hl hm]

theorem Linked.follow_eq {fuel : ℕ} (h : Linked next p l) (hfuel : l.length ≤ fuel) :
    follow next fuel p = l := by
  induction l generalizing p fuel with
  | nil =>
    obtain rfl : p = none := h
    cases fuel <;> rfl
  | cons a l ih =>
    obtain ⟨k, rfl⟩ : ∃ k, fuel = k + 1 := ⟨fuel - 1, by simp at hfuel; omega⟩
    obtain ⟨rfl, hl⟩ := h
    rw [follow, ih hl (by simpa using hfuel)]

theorem Linked.suffix (h : Linked next p (l ++ a :: m)) : Linked next (some a) (a :: m) := by
  induction l generalizing p with
  | nil => exact ⟨rfl, h.2⟩
  | cons b l ih => exact ih h.2

/-- A cell that came up twice would lead to the same rest both times. -/
theorem Linked.nodup (h : Linked next p l) : l.Nodup := by
  induction l generalizing p with
  | nil => exact List.nodup_nil
  | cons a l ih =>
    refine List.nodup_cons.mpr ⟨fun hmem => ?_, ih h.2⟩
    obtain ⟨l₁, l₂, rfl⟩ := List.append_of_mem hmem
    have hlen := congrArg List.length (h.2.suffix.2.unique h.2)
    simp only [List.length_append, List.length_cons] at hlen
    omega

theorem Linked.congr (h : Linked next p l) (heq : ∀ a ∈ l, next' a = next a) :
    Linked next' p l := by
  induction l generalizing p with
  | nil => exact h
  | cons a l ih =>
    refine ⟨h.1, ?_⟩
    rw [heq a List.mem_cons_self]
    exact ih h.2 fun b hb => heq b (List.mem_cons_of_mem a hb)

variable [DecidableEq α]

theorem Linked.update (h : Linked next p l) (ha : a ∉ l) :
    Linked (Function.update next a q) p l :=
  h.congr fun b hb => Function.update_of_ne (fun heq : b = a => ha (heq ▸ hb)) _ _

theorem Linked.extend (h : Linked next p (l ++ [t])) (ha : a ∉ l ++ [t]) :
    Linked (Function.update (Function.update next a none) t (some a)) p (l ++ [t, a]) := by
  have hnodup := h.nodup
  have hne : a ≠ t := fun heq => ha (heq ▸ by simp)
  induction l generalizing p with
  | nil =>
    refine ⟨h.1, ?_⟩
    rw [Function.update_self]
    refine ⟨rfl, ?_⟩
    rw [Function.update_of_ne hne, Function.update_self]
    rfl
  | cons b l ih =>
    obtain ⟨hb, hrest⟩ := List.nodup_cons.mp hnodup
    have hbt : b ≠ t := fun heq => hb (heq ▸ by simp)
    have hba : b ≠ a := fun heq => ha (heq ▸ by simp)
    refine ⟨h.1, ?_⟩
    rw [Function.update_of_ne hbt, Function.update_of_ne hba]
    exact ih h.2 (fun hmem => ha (List.mem_cons_of_mem b hmem)) hrest

theorem Linked.unlink (h : Linked next p (l ++ b :: a :: m)) :
    Linked (Function.update next b (next a)) p (l ++ b :: m) := by
  have hnodup := h.nodup
  induction l generalizing p with
  | nil =>
    obtain ⟨hb, hrest⟩ := List.nodup_cons.mp hnodup
    refine ⟨h.1, ?_⟩
    rw [Function.update_self]
    exact h.2.2.update fun hmem => hb (List.mem_cons_of_mem a hmem)
  | cons c l ih =>
    obtain ⟨hc, hrest⟩ := List.nodup_cons.mp hnodup
    have hcb : c ≠ b := fun heq => hc (heq ▸ by simp)
    refine ⟨h.1, ?_⟩
    rw [Function.update_of_ne hcb]
    exact ih h.2 hrest

theorem Linked.turn (h : Linked next p (a :: l)) (h' : Linked next q m) (ha : a ∉ m) :
    Linked (Function.update next a q) (next a) l ∧
      Linked (Function.update next a q) (some a) (a :: m) := by
  refine ⟨h.2.update (List.nodup_cons.mp h.nodup).1, rfl, ?_⟩
  rw [Function.update_self]
  exact h'.update ha

end Single

/-- Lists in one memory, no two of which have a cell in common. -/
structure Chains (next : α → Option α) (start : κ → Option α) (l : κ → List α) : Prop where
  linked : ∀ c, Linked next (start c) (l c)
  apart : ∀ {c d a}, a ∈ l c → a ∈ l d → c = d

namespace Chains
variable {next next' : α → Option α} {start start' : κ → Option α} {l : κ → List α} {c d : κ}
  {a b t : α} {p : Option α} {m u : List α}

theorem nodup (h : Chains next start l) (c : κ) : (l c).Nodup := (h.linked c).nodup

theorem unique (h : Chains next start l) {l' : κ → List α} (h' : Chains next start l') : l = l' :=
  funext fun c => (h.linked c).unique (h'.linked c)

theorem empty : Chains next (fun _ : κ => none) fun _ => [] where
  linked := fun _ => rfl
  apart := fun h => absurd h List.not_mem_nil

theorem congr (h : Chains next start l) (heq : ∀ c, ∀ a ∈ l c, next' a = next a) :
    Chains next' start l where
  linked := fun c => (h.linked c).congr (heq c)
  apart := h.apart

theorem update [DecidableEq α] (h : Chains next start l) (ha : ∀ c, a ∉ l c) :
    Chains (Function.update next a p) start l where
  linked := fun c => (h.linked c).update (ha c)
  apart := h.apart

variable [DecidableEq κ]

theorem apart_update (h : Chains next start l) (hm : ∀ a ∈ m, ∀ d, a ∈ l d → d = c)
    {x y : κ} (hx : a ∈ Function.update l c m x) (hy : a ∈ Function.update l c m y) : x = y := by
  by_cases hxc : x = c
  · by_cases hyc : y = c
    · rw [hxc, hyc]
    · rw [hxc, Function.update_self] at hx
      rw [Function.update_of_ne hyc] at hy
      exact hxc.trans (hm a hx y hy).symm
  · rw [Function.update_of_ne hxc] at hx
    by_cases hyc : y = c
    · rw [hyc, Function.update_self] at hy
      exact (hm a hy x hx).trans hyc.symm
    · rw [Function.update_of_ne hyc] at hy
      exact h.apart hx hy

theorem replace (h : Chains next start l) (hlinked : Linked next' p m)
    (hother : ∀ d, d ≠ c → Linked next' (start d) (l d))
    (hm : ∀ a ∈ m, ∀ d, a ∈ l d → d = c) :
    Chains next' (Function.update start c p) (Function.update l c m) where
  linked := fun d => by
    by_cases hd : d = c
    · subst hd
      rw [Function.update_self, Function.update_self]
      exact hlinked
    · rw [Function.update_of_ne hd, Function.update_of_ne hd]
      exact hother d hd
  apart := h.apart_update hm

theorem restart (h : Chains next start l) (hlinked : Linked next p m) (hm : m ⊆ l c) :
    Chains next (Function.update start c p) (Function.update l c m) :=
  h.replace hlinked (fun d _ => h.linked d) fun _ ha _ hd => h.apart hd (hm ha)

theorem pop (h : Chains next start l) (hl : l c = a :: m) :
    Chains next (Function.update start c (next a)) (Function.update l c m) := by
  have hlinked := h.linked c
  rw [hl] at hlinked
  exact h.restart hlinked.2 (hl ▸ List.subset_cons_self a m)

/-- A whole list goes over to another start, whose own list is forgotten. -/
theorem handOver (h : Chains next start l) :
    Chains next (Function.update (Function.update start c none) d (start c))
      (Function.update (Function.update l c []) d (l c)) := by
  have hempty := h.restart (c := c) (p := none) (m := []) rfl (List.nil_subset _)
  refine hempty.replace (h.linked c) (fun x _ => hempty.linked x) fun a ha x hx => ?_
  by_cases hxc : x = c
  · rw [hxc, Function.update_self] at hx
    exact absurd hx List.not_mem_nil
  · rw [Function.update_of_ne hxc] at hx
    exact absurd (h.apart hx ha) hxc

variable [DecidableEq α]

theorem push (h : Chains next start l) (ha : ∀ d, a ∉ l d) :
    Chains (Function.update next a (start c)) (Function.update start c (some a))
      (Function.update l c (a :: l c)) := by
  refine h.replace ⟨rfl, ?_⟩ (fun d _ => (h.linked d).update (ha d)) fun b hb d hd => ?_
  · rw [Function.update_self]
    exact (h.linked c).update (ha c)
  · rcases List.mem_cons.mp hb with rfl | hb
    · exact absurd hd (ha d)
    · exact h.apart hd hb

theorem move (h : Chains next start l) (hl : l c = a :: m) (hcd : d ≠ c) :
    Chains (Function.update next a (start d))
      (Function.update (Function.update start c (next a)) d (some a))
      (Function.update (Function.update l c m) d (a :: l d)) := by
  have ha : a ∈ l c := hl ▸ List.mem_cons_self
  have hnodup := h.nodup c
  rw [hl] at hnodup
  have hnew := (h.pop hl).push (c := d) (a := a) fun x hx => ?_
  · rwa [Function.update_of_ne hcd, Function.update_of_ne hcd] at hnew
  · by_cases hxc : x = c
    · rw [hxc, Function.update_self] at hx
      exact (List.nodup_cons.mp hnodup).1 hx
    · rw [Function.update_of_ne hxc] at hx
      exact hxc (h.apart hx ha)

theorem extend (h : Chains next start l) (hl : l c = m ++ [t]) (ha : ∀ d, a ∉ l d) :
    Chains (Function.update (Function.update next a none) t (some a)) start
      (Function.update l c (m ++ [t, a])) := by
  have ht : t ∈ l c := hl ▸ by simp
  have hlinked := h.linked c
  rw [hl] at hlinked
  have hnew := h.replace (c := c) (hlinked.extend (hl ▸ ha c))
    (fun d hd => ((h.linked d).update (ha d)).update fun hmem => hd (h.apart hmem ht))
    fun b hb d hd => ?_
  · rwa [Function.update_eq_self] at hnew
  · have hb' : b ∈ m ++ [t] ∨ b = a := by
      rcases List.mem_append.mp hb with hb | hb
      · exact Or.inl (List.mem_append_left _ hb)
      · rcases List.mem_cons.mp hb with rfl | hb
        · exact Or.inl (by simp)
        · exact Or.inr (List.mem_singleton.mp hb)
    rcases hb' with hb' | rfl
    · exact h.apart hd (hl ▸ hb')
    · exact absurd hd (ha d)

theorem unlink (h : Chains next start l) (hl : l c = u ++ b :: a :: m) :
    Chains (Function.update next b (next a)) start (Function.update l c (u ++ b :: m)) := by
  have hb : b ∈ l c := hl ▸ by simp
  have hlinked := h.linked c
  rw [hl] at hlinked
  have hnew := h.replace (c := c) hlinked.unlink
    (fun d hd => (h.linked d).update fun hmem => hd (h.apart hmem hb)) fun x hx d hd => ?_
  · rwa [Function.update_eq_self] at hnew
  · refine h.apart hd (hl ▸ ?_)
    rcases List.mem_append.mp hx with hx | hx
    · exact List.mem_append_left _ hx
    · refine List.mem_append_right _ ?_
      rcases List.mem_cons.mp hx with rfl | hx
      · exact List.mem_cons_self
      · exact List.mem_cons_of_mem b (List.mem_cons_of_mem a hx)

end Chains

end AoaBoard.Library.Links
