import Mathlib.Logic.Function.Basic
import Mathlib.Data.List.Basic
import Mathlib.Data.Nat.ModEq

/-!
# Circular windows of an indexed store

A ring of `n` cells is a store whose cells are addressed modulo `n`. The window
of length `k` at index `o` lists the cells met by walking `k` cells from `o`.
With a write index `i` and a read index `o` below `n`, the window of length
`held n i o` at `o` is the content of the queue that the two indices delimit.
-/

namespace AoaBoard.Library.Ring

variable {α : Type*}

def window (cell : ℕ → α) (n o k : ℕ) : List α :=
  (List.range k).map fun i => cell ((o + i) % n)

def held (n i o : ℕ) : ℕ := (i + n - o) % n

@[simp] theorem window_length (cell : ℕ → α) (n o k : ℕ) :
    (window cell n o k).length = k := by simp [window]

theorem window_succ (cell : ℕ → α) (n o k : ℕ) :
    window cell n o (k + 1) = window cell n o k ++ [cell ((o + k) % n)] := by
  simp [window, List.range_succ]

theorem window_cons (cell : ℕ → α) (n o k : ℕ) :
    window cell n o (k + 1) = cell (o % n) :: window cell n ((o + 1) % n) k := by
  simp only [window, List.range_succ_eq_map, List.map_cons, List.map_map, Nat.add_zero]
  congr 1
  apply List.map_congr_left
  intro i _
  simp only [Function.comp_apply, Nat.succ_eq_add_one, Nat.mod_add_mod]
  congr 2
  omega

theorem window_congr {cell cell' : ℕ → α} {n o k : ℕ}
    (h : ∀ i < k, cell ((o + i) % n) = cell' ((o + i) % n)) :
    window cell n o k = window cell' n o k := by
  apply List.map_congr_left
  intro i hi
  exact h i (List.mem_range.mp hi)

theorem index_ne {n o i k : ℕ} (hik : i < k) (hk : k < n) : (o + i) % n ≠ (o + k) % n := by
  intro h
  have hd : (o + i) ≡ (o + k) [MOD n] := h
  have hi : i ≡ k [MOD n] := Nat.ModEq.add_left_cancel' o hd
  have : i = k := by
    simpa [Nat.ModEq, Nat.mod_eq_of_lt (hik.trans hk), Nat.mod_eq_of_lt hk] using hi
  omega

theorem window_push (cell : ℕ → α) (d : α) {n o k : ℕ} (hk : k < n) :
    window (Function.update cell ((o + k) % n) d) n o (k + 1) = window cell n o k ++ [d] := by
  rw [window_succ, Function.update_self]
  congr 1
  apply window_congr
  intro i hi
  exact Function.update_of_ne (index_ne hi hk) _ _

theorem held_lt {n : ℕ} (hn : 0 < n) (i o : ℕ) : held n i o < n := Nat.mod_lt _ hn

theorem held_of_lt {n i o : ℕ} (h : i < o) (ho : o ≤ n) : held n i o = i + n - o := by
  rw [held, Nat.mod_eq_of_lt (by omega)]

theorem held_of_ge {n i o : ℕ} (hi : i < n) (h : o ≤ i) : held n i o = i - o := by
  rw [held, Nat.mod_eq_sub_mod (by omega), Nat.mod_eq_of_lt (by omega)]
  omega

theorem held_eq_zero_iff {n i o : ℕ} (hi : i < n) (ho : o < n) : held n i o = 0 ↔ i = o := by
  rcases Nat.lt_or_ge i o with h | h
  · rw [held_of_lt h ho.le]
    omega
  · rw [held_of_ge hi h]
    omega

theorem add_held {n i o : ℕ} (hi : i < n) (ho : o < n) : (o + held n i o) % n = i := by
  unfold held
  rw [Nat.add_mod_mod, show o + (i + n - o) = i + n by omega, Nat.add_mod_right,
    Nat.mod_eq_of_lt hi]

theorem held_push {n i o : ℕ} (hi : i < n) (ho : o < n) (hfull : o ≠ (i + 1) % n) :
    held n ((i + 1) % n) o = held n i o + 1 := by
  rcases Nat.lt_or_ge (i + 1) n with h | h
  · rw [Nat.mod_eq_of_lt h] at hfull ⊢
    rcases Nat.lt_or_ge i o with h' | h'
    · rw [held_of_lt (by omega) ho.le, held_of_lt h' ho.le]
      omega
    · rw [held_of_ge h (by omega), held_of_ge hi h']
      omega
  · rw [show i + 1 = n by omega, Nat.mod_self] at hfull ⊢
    rw [held_of_lt (by omega) ho.le, held_of_ge hi (by omega)]
    omega

theorem held_full {n i o : ℕ} (hi : i < n) (hfull : o = (i + 1) % n) : held n i o = n - 1 := by
  subst hfull
  rcases Nat.lt_or_ge (i + 1) n with h | h
  · rw [Nat.mod_eq_of_lt h, held_of_lt (Nat.lt_succ_self i) h.le]
    omega
  · rw [show i + 1 = n by omega, Nat.mod_self, held_of_ge hi (Nat.zero_le i)]
    omega

theorem held_pop {n i o : ℕ} (hi : i < n) (ho : o < n) (hne : i ≠ o) :
    held n i o = held n i ((o + 1) % n) + 1 := by
  rcases Nat.lt_or_ge (o + 1) n with h | h
  · rw [Nat.mod_eq_of_lt h]
    rcases Nat.lt_or_ge i o with h' | h'
    · rw [held_of_lt h' ho.le, held_of_lt (by omega) h.le]
      omega
    · rw [held_of_ge hi h', held_of_ge hi (by omega)]
      omega
  · rw [show o + 1 = n by omega, Nat.mod_self, held_of_lt (by omega) ho.le,
      held_of_ge hi (Nat.zero_le i)]
    omega

def content (cell : ℕ → α) (n i o : ℕ) : List α := window cell n o (held n i o)

@[simp] theorem content_length (cell : ℕ → α) (n i o : ℕ) :
    (content cell n i o).length = held n i o := window_length _ _ _ _

theorem content_eq_nil_iff (cell : ℕ → α) {n i o : ℕ} (hi : i < n) (ho : o < n) :
    content cell n i o = [] ↔ i = o := by
  rw [← List.length_eq_zero_iff, content_length, held_eq_zero_iff hi ho]

theorem content_push (cell : ℕ → α) (d : α) {n i o : ℕ} (hi : i < n) (ho : o < n)
    (hfull : o ≠ (i + 1) % n) :
    content (Function.update cell i d) n ((i + 1) % n) o = content cell n i o ++ [d] := by
  have hlt : held n i o < n := held_lt (by omega) i o
  have hpush := window_push cell d (o := o) hlt
  rw [add_held hi ho] at hpush
  rw [content, held_push hi ho hfull, hpush, content]

theorem content_pop (cell : ℕ → α) {n i o : ℕ} (hi : i < n) (ho : o < n) (hne : i ≠ o) :
    content cell n i o = cell o :: content cell n i ((o + 1) % n) := by
  rw [content, held_pop hi ho hne, window_cons, Nat.mod_eq_of_lt ho, content]

end AoaBoard.Library.Ring
