import Mathlib.Logic.Function.Iterate
import Mathlib.Order.Monotone.Basic

/-!
# Walking over records that begin with their size

A memory of `n` cells is walked from cell `0`: a record at `o` says its size, and
the walk goes on behind it, but never past `n`. `position k` is where the walk
stands after `k` steps. A record of size zero holds the walk for ever, and a walk
that meets none reaches `n`.
-/

namespace AoaBoard.Library.Records

variable (size : ℕ → ℕ) (n : ℕ)

def next (o : ℕ) : ℕ := o + min (size o) (n - o)

def position (k : ℕ) : ℕ := (next size n)^[k] 0

variable {size n}

theorem position_succ (k : ℕ) : position size n (k + 1) = next size n (position size n k) :=
  Function.iterate_succ_apply' _ _ _

theorem next_le {o : ℕ} (h : o ≤ n) : next size n o ≤ n := by
  unfold next
  omega

theorem next_of_zero {o : ℕ} (h : size o = 0) : next size n o = o := by
  rw [next, h, Nat.zero_min, Nat.add_zero]

theorem lt_next_iff {o : ℕ} (ho : o < n) : o < next size n o ↔ size o ≠ 0 := by
  unfold next
  omega

theorem next_of_lt {o : ℕ} (h : next size n o < n) : next size n o = o + size o := by
  unfold next at h ⊢
  omega

theorem position_le (k : ℕ) : position size n k ≤ n := by
  induction k with
  | zero => exact Nat.zero_le n
  | succ k ih =>
    rw [position_succ]
    exact next_le ih

theorem position_mono : Monotone (position size n) := by
  refine monotone_nat_of_le_succ fun k => ?_
  rw [position_succ]
  exact Nat.le_add_right _ _

theorem position_stuck {k : ℕ} (h : size (position size n k) = 0) {j : ℕ} (hj : k ≤ j) :
    position size n j = position size n k := by
  induction j, hj using Nat.le_induction with
  | base => rfl
  | succ j _ ih => rw [position_succ, ih, next_of_zero h]

/-- Each step over a record that is not empty gains a cell. -/
theorem position_gain {k : ℕ}
    (h : ∀ j < k, position size n j < n ∧ size (position size n j) ≠ 0) {i j : ℕ} (hij : i ≤ j)
    (hj : j ≤ k) : position size n i + (j - i) ≤ position size n j := by
  induction j, hij using Nat.le_induction with
  | base => omega
  | succ j hij ih =>
    have hprev := ih (by omega)
    obtain ⟨hlt, hsize⟩ := h j (by omega)
    have hstep := (lt_next_iff hlt).mpr hsize
    rw [position_succ]
    omega

theorem position_reaches (h : ∀ j, position size n j < n → size (position size n j) ≠ 0) :
    position size n n = n := by
  by_contra hne
  have hlt := lt_of_le_of_ne (position_le n) hne
  have hbefore (j : ℕ) (hj : j < n) : position size n j < n ∧ size (position size n j) ≠ 0 := by
    have hj := (position_mono hj.le).trans_lt hlt
    exact ⟨hj, h j hj⟩
  have hgain := position_gain hbefore (Nat.zero_le n) le_rfl
  omega

end AoaBoard.Library.Records
