import AoaBoard.Library.Registry
import Mathlib.Data.List.FinRange
import Mathlib.Data.List.Nodup

/-!
# Tables with a fixed number of slots

A table maps each of `n` slots to what it holds, if anything. `entries` lists
what is held in the order of the slots. Filling a free slot adds one entry,
clearing a slot removes one, and a table of `n` slots is full when `n` entries
are held.
-/

namespace AoaBoard.Library.Slots
open Library.Registry

variable {α : Type*} {n : ℕ}

def entries (f : Fin n → Option α) : List α := (List.finRange n).filterMap f

theorem mem_entries {f : Fin n → Option α} {a : α} : a ∈ entries f ↔ ∃ i, f i = some a := by
  simp [entries]

theorem entries_of_empty {f : Fin n → Option α} (h : ∀ i, f i = none) : entries f = [] := by
  rw [entries, List.filterMap_eq_nil_iff]
  exact fun i _ => h i

theorem entries_nodup {f : Fin n → Option α} (h : Distinct f) : (entries f).Nodup :=
  (List.nodup_finRange n).filterMap fun i j a hi hj => h i j a hi hj

theorem filterMap_update_of_notMem {f : Fin n → Option α} {i : Fin n} {l : List (Fin n)}
    (hi : i ∉ l) (o : Option α) : l.filterMap (Function.update f i o) = l.filterMap f := by
  apply List.filterMap_congr
  intro j hj
  have hne : j ≠ i := fun hji => hi (hji ▸ hj)
  exact Function.update_of_ne hne o f

theorem filterMap_fill {f : Fin n → Option α} {i : Fin n} (hfree : f i = none) (a : α)
    {l : List (Fin n)} (hl : l.Nodup) (hi : i ∈ l) :
    (l.filterMap (Function.update f i (some a))).Perm (a :: l.filterMap f) := by
  induction l with
  | nil => simp at hi
  | cons j l ih =>
    obtain ⟨hj, hl'⟩ := List.nodup_cons.mp hl
    by_cases hij : i = j
    · subst hij
      rw [List.filterMap_cons_some (Function.update_self i (some a) f),
        List.filterMap_cons_none hfree, filterMap_update_of_notMem hj]
    · have hrest := ih hl' (List.mem_of_ne_of_mem hij hi)
      have hother : Function.update f i (some a) j = f j :=
        Function.update_of_ne (Ne.symm hij) (some a) f
      cases hfj : f j with
      | none =>
        rw [List.filterMap_cons_none (hother.trans hfj), List.filterMap_cons_none hfj]
        exact hrest
      | some b =>
        rw [List.filterMap_cons_some (hother.trans hfj), List.filterMap_cons_some hfj]
        exact (hrest.cons b).trans (List.Perm.swap a b _)

theorem entries_fill {f : Fin n → Option α} {i : Fin n} (hfree : f i = none) (a : α) :
    (entries (Function.update f i (some a))).Perm (a :: entries f) :=
  filterMap_fill hfree a (List.nodup_finRange n) (List.mem_finRange i)

theorem entries_clear {f : Fin n → Option α} {i : Fin n} {a : α} (htaken : f i = some a) :
    (entries f).Perm (a :: entries (Function.update f i none)) := by
  have hfill :=
    entries_fill (f := Function.update f i none) (i := i) (Function.update_self i none f) a
  rwa [Function.update_idem, ← htaken, Function.update_eq_self] at hfill

theorem entries_length_le (f : Fin n → Option α) : (entries f).length ≤ n := by
  have hle := List.length_filterMap_le f (List.finRange n)
  rwa [List.length_finRange] at hle

theorem entries_length_lt {f : Fin n → Option α} {i : Fin n} (hfree : f i = none) (a : α) :
    (entries f).length < n := by
  have hlen := (entries_fill hfree a).length_eq
  have hle := entries_length_le (Function.update f i (some a))
  rw [List.length_cons] at hlen
  omega

theorem entries_length_full {f : Fin n → Option α} (h : ∀ i, f i ≠ none) :
    (entries f).length = n := by
  have hmap : (entries f).map some = (List.finRange n).map f := by
    rw [entries, List.map_filterMap]
    refine (List.filterMap_eq_map_iff_forall_eq_some.mpr fun i _ => ?_)
    obtain ⟨a, ha⟩ := Option.ne_none_iff_exists'.mp (h i)
    simp [ha]
  have hlen := congrArg List.length hmap
  rwa [List.length_map, List.length_map, List.length_finRange] at hlen

theorem filterMap_mask_length_le (p : Fin n → Prop) [DecidablePred p] (f : Fin n → Option α)
    (l : List (Fin n)) :
    (l.filterMap fun i => if p i then none else f i).length ≤ (l.filterMap f).length := by
  induction l with
  | nil => exact le_refl 0
  | cons i l ih =>
    rw [List.filterMap_cons, List.filterMap_cons]
    split_ifs
    · cases f i with
      | none => exact ih
      | some a => exact ih.trans (Nat.le_succ _)
    · cases f i with
      | none => exact ih
      | some a => exact Nat.succ_le_succ ih

theorem entries_mask_length_lt {p : Fin n → Prop} [DecidablePred p] {f : Fin n → Option α}
    {i : Fin n} (hp : p i) {a : α} (htaken : f i = some a) :
    (entries fun j => if p j then none else f j).length < (entries f).length := by
  have hmask : (fun j => if p j then none else f j) =
      fun j => if p j then none else Function.update f i none j := by
    funext j
    by_cases hj : j = i
    · simp [hj, hp]
    · simp [hj]
  have hlen := (entries_clear htaken).length_eq
  have hle := filterMap_mask_length_le p (Function.update f i none) (List.finRange n)
  rw [hmask, hlen, List.length_cons]
  exact Nat.lt_succ_of_le hle

theorem entries_map {β : Type*} (f : Fin n → Option α) (g : α → β) :
    (entries f).map g = entries fun i => (f i).map g := by
  rw [entries, List.map_filterMap]
  rfl

theorem entries_filter {p : Fin n → Prop} [DecidablePred p] (g : Fin n → α) :
    entries (fun i => if p i then some (g i) else none) =
      ((List.finRange n).filter fun i => p i).map g := by
  rw [entries]
  induction List.finRange n with
  | nil => rfl
  | cons i is ih =>
    by_cases hp : p i
    · rw [List.filterMap_cons_some (by rw [if_pos hp]), List.filter_cons_of_pos (by simpa using hp),
        List.map_cons, ih]
    · rw [List.filterMap_cons_none (by rw [if_neg hp]), List.filter_cons_of_neg (by simpa using hp),
        ih]

/-- A loop that collects what it is looking for into a buffer of `cap` entries. -/
theorem foldl_collect {α β : Type*} (p : α → Prop) [DecidablePred p] (f : α → β) (cap : ℕ)
    (is : List α) (acc : List β) (hroom : acc.length + (is.filter p).length ≤ cap) :
    is.foldl (fun ids i => if p i ∧ ids.length < cap then ids ++ [f i] else ids) acc =
      acc ++ (is.filter p).map f := by
  induction is generalizing acc with
  | nil => simp
  | cons i is ih =>
    by_cases hp : p i
    · rw [List.filter_cons_of_pos (by simpa using hp)] at hroom ⊢
      rw [List.length_cons] at hroom
      have hlt : acc.length < cap := by omega
      rw [List.foldl_cons, if_pos ⟨hp, hlt⟩, ih (acc ++ [f i]) (by simp; omega), List.map_cons]
      simp
    · rw [List.filter_cons_of_neg (by simpa using hp)] at hroom ⊢
      rw [List.foldl_cons, if_neg fun h => hp h.1, ih acc hroom]

theorem takeWhile_finRange (n m : ℕ) :
    (List.finRange n).takeWhile (fun i => i.val < m) = (List.finRange n).take m := by
  induction n generalizing m with
  | zero => simp
  | succ n ih =>
    cases m with
    | zero => simp [List.finRange_succ]
    | succ m =>
      rw [List.finRange_succ, List.takeWhile_cons, List.take_succ_cons, List.takeWhile_map,
        ← List.map_take, ← ih m]
      simp [Function.comp_def]

end AoaBoard.Library.Slots
