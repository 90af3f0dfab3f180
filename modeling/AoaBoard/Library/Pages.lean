import AoaBoard.Library.Bytes
import Mathlib.Algebra.BigOperators.Group.List.Basic

/-!
# Writes to a memory of pages

`store` writes from an address on and goes on at the beginning of the page when
it reaches the end of the page. `pieces` cuts a range of bytes at the borders of
the pages. Storing the pieces one after the other is a plain write of the range.
-/

namespace AoaBoard.Library.Pages
open Bytes

variable {α : Type*}

def next (page a : ℕ) : ℕ := a / page * page + (a % page + 1) % page

def store (page : ℕ) (mem : ℕ → α) : ℕ → List α → ℕ → α
  | _, [] => mem
  | a, x :: l => store page (Function.update mem a x) (next page a) l

def InPage (page a n : ℕ) : Prop := a % page + n ≤ page

theorem next_of_lt {page a : ℕ} (h : a % page + 1 < page) : next page a = a + 1 := by
  rw [next, Nat.mod_eq_of_lt h, ← Nat.add_assoc, Nat.div_add_mod']

theorem add_one_mod {page a : ℕ} (h : a % page + 1 < page) : (a + 1) % page = a % page + 1 := by
  rw [Nat.add_mod, Nat.mod_eq_of_lt (by omega : 1 < page), Nat.mod_eq_of_lt h]

theorem store_eq_fill {page a : ℕ} (mem : ℕ → α) {l : List α} (h : InPage page a l.length) :
    store page mem a l = fill mem a l := by
  induction l generalizing mem a with
  | nil => rfl
  | cons x l ih =>
    rw [InPage, List.length_cons] at h
    rw [store, fill]
    cases l with
    | nil => rfl
    | cons y l =>
      have hroom : a % page + 1 < page := by
        rw [List.length_cons] at h
        omega
      rw [next_of_lt hroom]
      refine ih _ ?_
      rw [InPage, add_one_mod hroom]
      omega

theorem add_to_page_end {page : ℕ} (hpage : 0 < page) (off : ℕ) :
    off + (page - off % page) = page * (off / page + 1) := by
  have hlt := Nat.mod_lt off hpage
  have hsplit := Nat.div_add_mod off page
  rw [Nat.mul_add, Nat.mul_one]
  omega

theorem next_piece {page : ℕ} (hpage : 0 < page) (off len : ℕ) :
    min page (len - min (page - off % page) len) =
      min (page - (off + min (page - off % page) len) % page)
        (len - min (page - off % page) len) := by
  by_cases hfits : len ≤ page - off % page
  · rw [min_eq_right hfits, Nat.sub_self, Nat.min_zero, Nat.min_zero]
  · rw [min_eq_left (Nat.le_of_not_le hfits), add_to_page_end hpage, Nat.mul_mod_right,
      Nat.sub_zero]

def pieces (page : ℕ) : ℕ → ℕ → List α → List (ℕ × List α)
  | 0, _, _ => []
  | fuel + 1, off, data =>
    if data.isEmpty then []
    else
      let n := min (page - off % page) data.length
      (off, data.take n) :: pieces page fuel (off + n) (data.drop n)

@[simp] theorem pieces_nil (page fuel off : ℕ) : pieces page fuel off ([] : List α) = [] := by
  cases fuel <;> rfl

theorem pieces_of_ne_nil (page fuel off : ℕ) {data : List α} (h : data ≠ []) :
    pieces page (fuel + 1) off data =
      (off, data.take (min (page - off % page) data.length)) ::
        pieces page fuel (off + min (page - off % page) data.length)
          (data.drop (min (page - off % page) data.length)) := by
  rw [pieces, if_neg (by simpa using h)]

theorem pieces_inPage {page : ℕ} (hpage : 0 < page) (fuel off : ℕ) (data : List α) :
    ∀ q ∈ pieces page fuel off data, InPage page q.1 q.2.length := by
  induction fuel generalizing off data with
  | zero => simp [pieces]
  | succ fuel ih =>
    by_cases hdata : data = []
    · simp [hdata]
    · have hlt := Nat.mod_lt off hpage
      rw [pieces_of_ne_nil page fuel off hdata]
      refine List.forall_mem_cons.mpr ⟨?_, ih _ _⟩
      have hlen := List.length_take_le (min (page - off % page) data.length) data
      simp only [InPage]
      omega

theorem piece_bounds {page : ℕ} (hpage : 0 < page) (off : ℕ) {data : List α} (h : data ≠ []) :
    0 < min (page - off % page) data.length ∧
      min (page - off % page) data.length ≤ data.length := by
  have hlt := Nat.mod_lt off hpage
  have hpos := List.length_pos_iff.mpr h
  omega

theorem pieces_within {page : ℕ} (hpage : 0 < page) (fuel off : ℕ) (data : List α) :
    ∀ q ∈ pieces page fuel off data, 0 < q.2.length ∧ q.1 + q.2.length ≤ off + data.length := by
  induction fuel generalizing off data with
  | zero => simp [pieces]
  | succ fuel ih =>
    by_cases hdata : data = []
    · simp [hdata]
    · obtain ⟨hpos, hle⟩ := piece_bounds hpage off hdata
      rw [pieces_of_ne_nil page fuel off hdata]
      refine List.forall_mem_cons.mpr ⟨?_, fun q hq => ?_⟩
      · simp only [List.length_take, min_eq_left hle]
        omega
      · have hrest := ih _ _ q hq
        rw [List.length_drop] at hrest
        omega

theorem pieces_slice (page fuel off : ℕ) (buf : ℕ → α) (n : ℕ) :
    ∀ q ∈ pieces page fuel off (slice buf n),
      off ≤ q.1 ∧ q.2 = slice (shift buf (q.1 - off)) q.2.length := by
  induction fuel generalizing off buf n with
  | zero => simp [pieces]
  | succ fuel ih =>
    by_cases hn : n = 0
    · subst hn
      simp
    · have hdata : slice buf n ≠ [] := by
        rw [← List.length_pos_iff, slice_length]
        omega
      rw [pieces_of_ne_nil page fuel off hdata, slice_length]
      generalize hk : min (page - off % page) n = k
      have hle : k ≤ n := hk ▸ min_le_right _ _
      rw [take_slice, min_eq_left hle, drop_slice buf hle]
      refine List.forall_mem_cons.mpr ⟨⟨Nat.le_refl off, ?_⟩, fun q hq => ?_⟩
      · have hshift : shift buf 0 = buf := by
          funext i
          rw [shift, Nat.zero_add]
        rw [Nat.sub_self, hshift, slice_length]
      · obtain ⟨hstart, heq⟩ := ih _ _ _ q hq
        have hshift : shift (shift buf k) (q.1 - (off + k)) = shift buf (q.1 - off) := by
          funext i
          rw [shift, shift, shift]
          congr 1
          omega
        rw [hshift] at heq
        exact ⟨Nat.le_of_add_right_le hstart, heq⟩

theorem pieces_store {page : ℕ} (hpage : 0 < page) {fuel : ℕ} (off : ℕ) {data : List α}
    (hfuel : data.length ≤ fuel) (mem : ℕ → α) :
    (pieces page fuel off data).foldl (fun m q => store page m q.1 q.2) mem =
      fill mem off data := by
  induction fuel generalizing off data mem with
  | zero =>
    rw [List.length_eq_zero_iff.mp (Nat.le_zero.mp hfuel)]
    rfl
  | succ fuel ih =>
    by_cases hdata : data = []
    · subst hdata
      rfl
    · obtain ⟨hpos, hle⟩ := piece_bounds hpage off hdata
      have hin := pieces_inPage hpage (fuel + 1) off data
      rw [pieces_of_ne_nil page fuel off hdata] at hin ⊢
      have hfirst := (List.forall_mem_cons.mp hin).1
      rw [List.foldl_cons, store_eq_fill mem hfirst, ih]
      · have happend := fill_append mem off (data.take (min (page - off % page) data.length))
          (data.drop (min (page - off % page) data.length))
        rw [List.take_append_drop, List.length_take, min_eq_left hle] at happend
        exact happend.symm
      · rw [List.length_drop]
        omega

theorem pieces_total {page : ℕ} (hpage : 0 < page) {fuel : ℕ} (off : ℕ) {data : List α}
    (hfuel : data.length ≤ fuel) :
    ((pieces page fuel off data).map fun q => q.2.length).sum = data.length := by
  induction fuel generalizing off data with
  | zero =>
    rw [List.length_eq_zero_iff.mp (Nat.le_zero.mp hfuel)]
    rfl
  | succ fuel ih =>
    by_cases hdata : data = []
    · subst hdata
      rfl
    · obtain ⟨hpos, hle⟩ := piece_bounds hpage off hdata
      rw [pieces_of_ne_nil page fuel off hdata, List.map_cons, List.sum_cons, ih]
      · rw [List.length_take, List.length_drop]
        omega
      · rw [List.length_drop]
        omega

def touched (page off len : ℕ) : ℕ :=
  if len = 0 then 0 else (off + len - 1) / page - off / page + 1

theorem touched_of_fits {page off len : ℕ} (hlen : len ≠ 0) (h : InPage page off len) :
    touched page off len = 1 := by
  have hsame : (off + len - 1) / page = off / page := by
    rw [InPage] at h
    have hsplit := Nat.div_add_mod off page
    refine Nat.div_eq_of_lt_le ?_ ?_
    · rw [Nat.mul_comm]
      omega
    · rw [Nat.succ_mul, Nat.mul_comm]
      omega
  rw [touched, if_neg hlen, hsame, Nat.sub_self]

theorem touched_of_crosses {page off len : ℕ} (hpage : 0 < page)
    (h : ¬ InPage page off len) :
    touched page off len =
      touched page (off + (page - off % page)) (len - (page - off % page)) + 1 := by
  have hlt := Nat.mod_lt off hpage
  have hnext := add_to_page_end hpage off
  rw [InPage] at h
  obtain ⟨k, hk⟩ : ∃ k, len = page - off % page + (k + 1) :=
    ⟨len - (page - off % page) - 1, by omega⟩
  have hend : off + len - 1 = page * (off / page + 1) + k := by omega
  have hrest : page * (off / page + 1) + (len - (page - off % page)) - 1 =
      page * (off / page + 1) + k := by omega
  rw [touched, touched, if_neg (by omega), if_neg (by omega), hnext, hrest, hend,
    Nat.mul_div_cancel_left _ hpage, Nat.mul_add_div hpage, Nat.add_sub_cancel_left,
    Nat.add_assoc (off / page), Nat.add_sub_cancel_left]
  omega

theorem pieces_length {page : ℕ} (hpage : 0 < page) {fuel : ℕ} (off : ℕ) {data : List α}
    (hfuel : data.length ≤ fuel) :
    (pieces page fuel off data).length = touched page off data.length := by
  induction fuel generalizing off data with
  | zero =>
    rw [List.length_eq_zero_iff.mp (Nat.le_zero.mp hfuel)]
    rfl
  | succ fuel ih =>
    by_cases hdata : data = []
    · subst hdata
      rfl
    · obtain ⟨hpos, hle⟩ := piece_bounds hpage off hdata
      rw [pieces_of_ne_nil page fuel off hdata, List.length_cons, ih, List.length_drop]
      · by_cases hfits : InPage page off data.length
        · have hall : min (page - off % page) data.length = data.length := by
            rw [InPage] at hfits
            omega
          rw [hall, Nat.sub_self, touched_of_fits (by omega) hfits]
          rfl
        · have hpart : min (page - off % page) data.length = page - off % page := by
            rw [InPage] at hfits
            omega
          rw [hpart, touched_of_crosses hpage hfits]
      · rw [List.length_drop]
        omega

end AoaBoard.Library.Pages
