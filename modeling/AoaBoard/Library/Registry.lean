import Mathlib.Logic.Function.Basic
import Mathlib.Data.List.Basic

/-!
# Registries: slots that are taken and freed

A registry maps slots to the key each of them holds, if any. A key is attached
only to a free slot and only while no slot holds it, and only a taken slot is
detached. Along a trace of such actions the marks left for one slot alternate,
the taken slots are those whose last mark is an attach, distinct slots hold
distinct keys, and a slot keeps its key until it is detached.
-/

namespace AoaBoard.Library.Registry

variable {ι α : Type*} [DecidableEq ι]

inductive Act (ι α : Type*)
  | attach (i : ι) (a : α)
  | detach (i : ι)

def Act.apply (t : ι → Option α) : Act ι α → ι → Option α
  | .attach i a => Function.update t i (some a)
  | .detach i => Function.update t i none

def Act.Valid (t : ι → Option α) : Act ι α → Prop
  | .attach i a => t i = none ∧ ∀ j, t j ≠ some a
  | .detach i => t i ≠ none

def Act.mark (i : ι) : Act ι α → Option Bool
  | .attach j _ => if j = i then some true else none
  | .detach j => if j = i then some false else none

inductive Trace : (ι → Option α) → List (Act ι α) → (ι → Option α) → Prop
  | nil {t : ι → Option α} : Trace t [] t
  | cons {t u : ι → Option α} {e : Act ι α} {es : List (Act ι α)} (he : e.Valid t)
      (hes : Trace (e.apply t) es u) : Trace t (e :: es) u

def Alternates : Bool → List Bool → Prop
  | _, [] => True
  | b, x :: l => x = b ∧ Alternates (!b) l

def Distinct (t : ι → Option α) : Prop := ∀ i j a, t i = some a → t j = some a → i = j

variable {t u v : ι → Option α} {es fs : List (Act ι α)}

theorem Trace.append (h : Trace t es u) (h' : Trace u fs v) : Trace t (es ++ fs) v := by
  induction h with
  | nil => exact h'
  | cons he _ ih => exact .cons he (ih h')

theorem Trace.single {e : Act ι α} (he : e.Valid t) : Trace t [e] (e.apply t) := .cons he .nil

theorem Act.apply_unmarked {e : Act ι α} {i : ι} (h : e.mark i = none) : e.apply t i = t i := by
  cases e with
  | attach j a =>
    have hj : i ≠ j := by
      rintro rfl
      simp [Act.mark] at h
    exact Function.update_of_ne hj ..
  | detach j =>
    have hj : i ≠ j := by
      rintro rfl
      simp [Act.mark] at h
    exact Function.update_of_ne hj ..

theorem Act.Valid.isNone_marked {e : Act ι α} (he : e.Valid t) {i : ι} {b : Bool}
    (h : e.mark i = some b) : (t i).isNone = b ∧ (e.apply t i).isNone = !b := by
  cases e with
  | attach j a =>
    simp only [Act.mark, Option.ite_none_right_eq_some, Option.some.injEq] at h
    obtain ⟨rfl, rfl⟩ := h
    simp [he.1, Act.apply]
  | detach j =>
    simp only [Act.mark, Option.ite_none_right_eq_some, Option.some.injEq] at h
    obtain ⟨rfl, rfl⟩ := h
    have htaken : t j ≠ none := he
    simp [Act.apply, Option.isNone_eq_false_iff, Option.isSome_iff_ne_none, htaken]

/-- The marks of a slot alternate, beginning with an attach exactly if the slot is free, and
the last one tells whether it is free at the end. -/
theorem Trace.marks (h : Trace t es u) (i : ι) :
    Alternates (t i).isNone (es.filterMap (Act.mark i)) ∧
      (u i).isNone = ((es.filterMap (Act.mark i)).getLast?.map not).getD (t i).isNone := by
  induction h with
  | nil => exact ⟨trivial, rfl⟩
  | @cons t u e es he _ ih =>
    cases hmark : e.mark i with
    | none =>
      rw [Act.apply_unmarked hmark] at ih
      simpa only [List.filterMap_cons, hmark] using ih
    | some b =>
      obtain ⟨hbefore, hafter⟩ := he.isNone_marked hmark
      rw [hafter] at ih
      simp only [List.filterMap_cons, hmark, hbefore, Alternates, List.getLast?_cons]
      refine ⟨⟨trivial, ih.1⟩, ih.2.trans ?_⟩
      cases (es.filterMap (Act.mark i)).getLast? <;> rfl

theorem Trace.taken_iff (h : Trace t es u) {i : ι} (hi : t i = none) :
    (es.filterMap (Act.mark i)).getLast? = some true ↔ u i ≠ none := by
  have hlast := (h.marks i).2
  rw [hi] at hlast
  rw [← Option.isSome_iff_ne_none, ← Option.not_isNone, hlast]
  cases (es.filterMap (Act.mark i)).getLast? with
  | none => simp
  | some b => cases b <;> simp

theorem Distinct.apply (h : Distinct t) {e : Act ι α} (he : e.Valid t) : Distinct (e.apply t) := by
  intro i j a hi hj
  cases e with
  | attach k b =>
    by_cases hik : i = k
    · by_cases hjk : j = k
      · rw [hik, hjk]
      · subst hik
        simp only [Act.apply, Function.update_self, Option.some.injEq] at hi
        simp only [Act.apply, Function.update_of_ne hjk] at hj
        exact absurd hj (hi ▸ he.2 j)
    · by_cases hjk : j = k
      · subst hjk
        simp only [Act.apply, Function.update_self, Option.some.injEq] at hj
        simp only [Act.apply, Function.update_of_ne hik] at hi
        exact absurd hi (hj ▸ he.2 i)
      · simp only [Act.apply, Function.update_of_ne hik] at hi
        simp only [Act.apply, Function.update_of_ne hjk] at hj
        exact h i j a hi hj
  | detach k =>
    have hne {l : ι} (hl : (Act.detach k : Act ι α).apply t l = some a) : l ≠ k := by
      rintro rfl
      simp [Act.apply] at hl
    have hi' := hi
    have hj' := hj
    simp only [Act.apply, Function.update_of_ne (hne hi)] at hi'
    simp only [Act.apply, Function.update_of_ne (hne hj)] at hj'
    exact h i j a hi' hj'

theorem Trace.distinct (h : Trace t es u) (ht : Distinct t) : Distinct u := by
  induction h with
  | nil => exact ht
  | cons he _ ih => exact ih (ht.apply he)

theorem Trace.kept (h : Trace t es u) {i : ι} {a : α} (hi : t i = some a)
    (hes : false ∉ es.filterMap (Act.mark i)) : u i = some a := by
  induction h with
  | nil => exact hi
  | @cons t u e es he _ ih =>
    have hmark : e.mark i = none := by
      cases hb : e.mark i with
      | none => rfl
      | some b =>
        cases b with
        | true =>
          have hfree := (he.isNone_marked hb).1
          rw [hi] at hfree
          cases hfree
        | false => exact absurd (by simp [hb]) hes
    apply ih
    · rw [Act.apply_unmarked hmark, hi]
    · simpa only [List.filterMap_cons, hmark] using hes

end AoaBoard.Library.Registry
