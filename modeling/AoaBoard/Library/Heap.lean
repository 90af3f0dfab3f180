import Mathlib.Data.List.Chain

/-!
# A heap of adjacent blocks

A region of cells is tiled by blocks, each a header cell and the cells behind
it. `take` hands out the first free block that is large enough and cuts off
what is not needed, `give` takes a block back and joins it with its free
neighbours. `pieces` are the blocks that are handed out. The results say what
the two operations do to the pieces, that the tiling stays complete and without
two free neighbours, and how little room a failed `take` leaves.
-/

namespace AoaBoard.Library.Heap

structure Block where
  size : ℕ
  free : Bool
  deriving DecidableEq

def Block.cells (b : Block) : ℕ := b.size + 1

structure Piece where
  start : ℕ
  size : ℕ
  deriving DecidableEq

def extent : List Block → ℕ
  | [] => 0
  | b :: bs => b.cells + extent bs

def pieces (a : ℕ) : List Block → List Piece
  | [] => []
  | b :: bs =>
    if b.free then pieces (a + b.cells) bs else ⟨a + 1, b.size⟩ :: pieces (a + b.cells) bs

def headers (a : ℕ) : List Block → List ℕ
  | [] => []
  | b :: bs => a :: headers (a + b.cells) bs

/-- No two neighbours are both free. -/
def Packed (bs : List Block) : Prop := bs.IsChain fun b c => ¬(b.free ∧ c.free)

/-- A rest that would hold nothing but its header is not cut off. -/
def cut (n : ℕ) (b : Block) : List Block :=
  if b.size ≤ n + 1 then [⟨b.size, false⟩] else [⟨n, false⟩, ⟨b.size - (n + 1), true⟩]

def Fits (n : ℕ) (b : Block) : Prop := b.free ∧ n ≤ b.size

instance (n : ℕ) (b : Block) : Decidable (Fits n b) :=
  inferInstanceAs (Decidable (_ ∧ _))

def take (n a : ℕ) : List Block → Option (ℕ × List Block)
  | [] => none
  | b :: bs =>
    if Fits n b then some (a + 1, cut n b ++ bs)
    else (take n (a + b.cells) bs).map fun r => (r.1, b :: r.2)

def join (b : Block) : List Block → List Block
  | [] => [b]
  | c :: bs => if b.free ∧ c.free then ⟨b.size + c.size + 1, true⟩ :: bs else b :: c :: bs

def give (p a : ℕ) : List Block → List Block
  | [] => []
  | b :: bs =>
    if a + 1 = p then join ⟨b.size, true⟩ bs else join b (give p (a + b.cells) bs)

@[simp] theorem extent_nil : extent [] = 0 := rfl

@[simp] theorem extent_cons (b : Block) (bs : List Block) :
    extent (b :: bs) = b.cells + extent bs := rfl

@[simp] theorem extent_append (bs cs : List Block) :
    extent (bs ++ cs) = extent bs + extent cs := by
  induction bs with
  | nil => simp
  | cons b bs ih => simp [ih, Nat.add_assoc]

theorem length_le_extent (bs : List Block) : bs.length ≤ extent bs := by
  induction bs with
  | nil => simp
  | cons b bs ih =>
    simp only [List.length_cons, extent_cons, Block.cells]
    omega

theorem cells_le_extent {b : Block} {bs : List Block} (h : b ∈ bs) : b.cells ≤ extent bs := by
  induction bs with
  | nil => simp at h
  | cons c bs ih =>
    rw [extent_cons]
    rcases List.mem_cons.mp h with rfl | h
    · exact Nat.le_add_right _ _
    · exact (ih h).trans (Nat.le_add_left _ _)

@[simp] theorem pieces_append (a : ℕ) (bs cs : List Block) :
    pieces a (bs ++ cs) = pieces a bs ++ pieces (a + extent bs) cs := by
  induction bs generalizing a with
  | nil => simp [pieces]
  | cons b bs ih =>
    rw [List.cons_append, pieces, pieces, ih, extent_cons, Nat.add_assoc]
    split_ifs <;> rfl

@[simp] theorem headers_append (a : ℕ) (bs cs : List Block) :
    headers a (bs ++ cs) = headers a bs ++ headers (a + extent bs) cs := by
  induction bs generalizing a with
  | nil => simp [headers]
  | cons b bs ih =>
    rw [List.cons_append, headers, headers, ih, extent_cons, Nat.add_assoc, List.cons_append]

theorem pieces_bounds {a : ℕ} {bs : List Block} {q : Piece} (h : q ∈ pieces a bs) :
    a < q.start ∧ q.start + q.size ≤ a + extent bs := by
  induction bs generalizing a with
  | nil => simp [pieces] at h
  | cons b bs ih =>
    rw [pieces] at h
    rw [extent_cons]
    have hrest : q ∈ pieces (a + b.cells) bs →
        a < q.start ∧ q.start + q.size ≤ a + (b.cells + extent bs) := by
      intro hq
      have := ih hq
      omega
    split_ifs at h with hfree
    · exact hrest h
    · rcases List.mem_cons.mp h with rfl | h
      · simp only [Block.cells]
        omega
      · exact hrest h

theorem headers_bounds {a w : ℕ} {bs : List Block} (h : w ∈ headers a bs) :
    a ≤ w ∧ w < a + extent bs := by
  induction bs generalizing a with
  | nil => simp [headers] at h
  | cons b bs ih =>
    rw [extent_cons]
    rcases List.mem_cons.mp h with rfl | h
    · simp only [Block.cells]
      omega
    · have := ih h
      omega

theorem pieces_separate (a : ℕ) (bs : List Block) :
    (pieces a bs).Pairwise fun q r => q.start + q.size < r.start := by
  induction bs generalizing a with
  | nil => exact List.Pairwise.nil
  | cons b bs ih =>
    rw [pieces]
    split_ifs with hfree
    · exact ih _
    · refine List.pairwise_cons.mpr ⟨fun r hr => ?_, ih _⟩
      have := (pieces_bounds hr).1
      simp only [Block.cells] at this
      simp only
      omega

theorem not_mem_headers {a : ℕ} {bs : List Block} {q : Piece} (hq : q ∈ pieces a bs) {k : ℕ}
    (hk : k < q.size) : q.start + k ∉ headers a bs := by
  induction bs generalizing a with
  | nil => simp [pieces] at hq
  | cons b bs ih =>
    rw [headers, List.mem_cons, not_or]
    have hrest : q ∈ pieces (a + b.cells) bs →
        q.start + k ≠ a ∧ q.start + k ∉ headers (a + b.cells) bs := by
      intro hq
      have := (pieces_bounds hq).1
      exact ⟨by omega, ih hq⟩
    rw [pieces] at hq
    split_ifs at hq with hfree
    · exact hrest hq
    · rcases List.mem_cons.mp hq with rfl | hq
      · simp only at hk ⊢
        refine ⟨by omega, fun hw => ?_⟩
        have := (headers_bounds hw).1
        simp only [Block.cells] at this
        omega
      · exact hrest hq

theorem take_eq_some {n a p : ℕ} {bs bs' : List Block} (h : take n a bs = some (p, bs')) :
    ∃ us b vs, bs = us ++ b :: vs ∧ (∀ u ∈ us, ¬Fits n u) ∧ Fits n b ∧ p = a + extent us + 1 ∧
      bs' = us ++ (cut n b ++ vs) := by
  induction bs generalizing a bs' with
  | nil => simp [take] at h
  | cons b bs ih =>
    rw [take] at h
    split_ifs at h with hfits
    · obtain ⟨rfl, rfl⟩ := Prod.mk.injEq .. ▸ Option.some.inj h
      exact ⟨[], b, bs, rfl, by simp, hfits, rfl, rfl⟩
    · obtain ⟨⟨p', cs⟩, hcs, heq⟩ := Option.map_eq_some_iff.mp h
      obtain ⟨rfl, rfl⟩ := Prod.mk.injEq .. ▸ heq
      obtain ⟨us, c, vs, rfl, hus, hc, rfl, rfl⟩ := ih hcs
      refine ⟨b :: us, c, vs, rfl, ?_, hc, ?_, rfl⟩
      · exact List.forall_mem_cons.mpr ⟨hfits, hus⟩
      · rw [extent_cons, Nat.add_assoc a]

theorem take_append {n a : ℕ} {us vs : List Block} {b : Block} (hus : ∀ u ∈ us, ¬Fits n u)
    (hb : Fits n b) :
    take n a (us ++ b :: vs) = some (a + extent us + 1, us ++ (cut n b ++ vs)) := by
  induction us generalizing a with
  | nil => rw [List.nil_append, take, if_pos hb]; rfl
  | cons u us ih =>
    obtain ⟨hu, hus⟩ := List.forall_mem_cons.mp hus
    rw [List.cons_append, take, if_neg hu, ih hus, Option.map_some, extent_cons, Nat.add_assoc a]
    rfl

theorem take_eq_none_iff {n a : ℕ} {bs : List Block} :
    take n a bs = none ↔ ∀ b ∈ bs, ¬Fits n b := by
  induction bs generalizing a with
  | nil => simp [take]
  | cons b bs ih =>
    rw [take, List.forall_mem_cons]
    split_ifs with hfits
    · simp [hfits]
    · rw [Option.map_eq_none_iff, ih, and_iff_right hfits]

theorem extent_cut {n : ℕ} {b : Block} (h : n ≤ b.size) : extent (cut n b) = b.cells := by
  unfold cut
  split_ifs with hsmall
  · simp [Block.cells]
  · have hsplit : n + (b.size - n) = b.size := Nat.add_sub_of_le h
    simp only [extent_cons, extent_nil, Block.cells]
    omega

theorem extent_take {n a p : ℕ} {bs bs' : List Block} (h : take n a bs = some (p, bs')) :
    extent bs' = extent bs := by
  obtain ⟨us, b, vs, rfl, -, hfits, -, rfl⟩ := take_eq_some h
  rw [extent_append, extent_append, extent_append, extent_cut hfits.2, extent_cons]

theorem pieces_cut {n : ℕ} {b : Block} (a : ℕ) (h : n ≤ b.size) :
    ∃ m, n ≤ m ∧ m ≤ n + 1 ∧ pieces a (cut n b) = [⟨a + 1, m⟩] := by
  unfold cut
  split_ifs with hsmall
  · exact ⟨b.size, h, hsmall, rfl⟩
  · exact ⟨n, le_rfl, Nat.le_succ n, rfl⟩

theorem pieces_take {n a p : ℕ} {bs bs' : List Block} (h : take n a bs = some (p, bs')) :
    ∃ qs rs m, pieces a bs = qs ++ rs ∧ pieces a bs' = qs ++ ⟨p, m⟩ :: rs ∧ n ≤ m ∧
      m ≤ n + 1 := by
  obtain ⟨us, b, vs, rfl, -, hfits, rfl, rfl⟩ := take_eq_some h
  obtain ⟨m, hnm, hmn, hcut⟩ := pieces_cut (a + extent us) hfits.2
  refine ⟨pieces a us, pieces (a + extent us + b.cells) vs, m, ?_, ?_, hnm, hmn⟩
  · rw [pieces_append, pieces, if_pos hfits.1]
  · rw [pieces_append, pieces_append, extent_cut hfits.2, hcut, List.singleton_append]

theorem packed_take {n a p : ℕ} {bs bs' : List Block} (hpacked : Packed bs)
    (h : take n a bs = some (p, bs')) : Packed bs' := by
  obtain ⟨us, b, vs, rfl, -, hfits, -, rfl⟩ := take_eq_some h
  obtain ⟨hus, hbvs, -⟩ := List.isChain_append.mp hpacked
  obtain ⟨hb, hvs⟩ := List.isChain_cons.mp hbvs
  have hcut : Packed (cut n b ++ vs) := by
    unfold cut
    split_ifs with hsmall
    · exact List.isChain_cons.mpr ⟨by simp, hvs⟩
    · refine List.isChain_cons.mpr ⟨by simp, List.isChain_cons.mpr ⟨fun c hc => ?_, hvs⟩⟩
      simpa [hfits.1] using hb c hc
  refine List.isChain_append.mpr ⟨hus, hcut, fun u _ c hc => ?_⟩
  have hc' : c.free = false := by
    unfold cut at hc
    split_ifs at hc <;> simp at hc <;> rw [← hc]
  simp [hc']

@[simp] theorem extent_join (b : Block) (bs : List Block) :
    extent (join b bs) = b.cells + extent bs := by
  cases bs with
  | nil => rfl
  | cons c bs =>
    rw [join]
    split_ifs
    · simp only [extent_cons, Block.cells]
      omega
    · rfl

theorem pieces_join (a : ℕ) (b : Block) (bs : List Block) :
    pieces a (join b bs) = pieces a (b :: bs) := by
  cases bs with
  | nil => rfl
  | cons c bs =>
    rw [join]
    split_ifs with hfree
    · simp only [pieces, hfree.1, hfree.2, if_true, Block.cells]
      congr 1
      omega
    · rfl

theorem packed_join {b : Block} {bs : List Block} (h : Packed bs) : Packed (join b bs) := by
  cases bs with
  | nil => exact List.isChain_singleton b
  | cons c bs =>
    obtain ⟨hc, hbs⟩ := List.isChain_cons.mp h
    rw [join]
    split_ifs with hfree
    · exact List.isChain_cons.mpr ⟨fun d hd => by simpa [hfree.2] using hc d hd, hbs⟩
    · exact List.isChain_cons_cons.mpr ⟨hfree, h⟩

@[simp] theorem extent_give (p a : ℕ) (bs : List Block) : extent (give p a bs) = extent bs := by
  induction bs generalizing a with
  | nil => rfl
  | cons b bs ih =>
    rw [give]
    split_ifs
    · rw [extent_join]; rfl
    · rw [extent_join, ih]; rfl

theorem packed_give (p a : ℕ) {bs : List Block} (h : Packed bs) : Packed (give p a bs) := by
  induction bs generalizing a with
  | nil => exact h
  | cons b bs ih =>
    have hbs : Packed bs := (List.isChain_cons.mp h).2
    rw [give]
    split_ifs
    · exact packed_join hbs
    · exact packed_join (ih _ hbs)

theorem pieces_give (p a : ℕ) (bs : List Block) :
    pieces a (give p a bs) = (pieces a bs).filter fun q => q.start ≠ p := by
  induction bs generalizing a with
  | nil => rfl
  | cons b bs ih =>
    rw [give]
    split_ifs with hp
    · have hother : ∀ q ∈ pieces (a + b.cells) bs, decide (q.start ≠ p) = true := by
        intro q hq
        have := (pieces_bounds hq).1
        simp only [Block.cells] at this
        exact decide_eq_true (by omega)
      rw [pieces_join, pieces, pieces, if_pos rfl]
      split_ifs
      · exact (List.filter_eq_self.mpr hother).symm
      · rw [List.filter_cons_of_neg (by simp [hp])]
        exact (List.filter_eq_self.mpr hother).symm
    · rw [pieces_join, pieces, pieces, ih]
      split_ifs
      · rfl
      · rw [List.filter_cons_of_pos (by simp [hp])]

theorem join_head (b : Block) (bs : List Block) : ∃ m cs, join b bs = ⟨m, b.free⟩ :: cs := by
  cases bs with
  | nil => exact ⟨b.size, [], rfl⟩
  | cons c bs =>
    rw [join]
    split_ifs with hfree
    · exact ⟨b.size + c.size + 1, bs, by rw [hfree.1]⟩
    · exact ⟨b.size, c :: bs, rfl⟩

theorem join_eq_cons {b c : Block} {bs : List Block} (h : ¬(b.free ∧ c.free)) :
    join b (c :: bs) = b :: c :: bs := if_neg h

theorem give_head (a : ℕ) (b : Block) (bs : List Block) :
    give (a + 1) a (b :: bs) = join ⟨b.size, true⟩ bs := if_pos rfl

theorem give_append {p a : ℕ} {us vs : List Block} {u b : Block}
    (h : Packed (us ++ u :: b :: vs)) (hp : a + extent us + u.cells + 1 = p) :
    give p a (us ++ u :: b :: vs) = us ++ join u (join ⟨b.size, true⟩ vs) := by
  induction us generalizing a with
  | nil =>
    have hne : a + 1 ≠ p := by
      simp only [extent_nil, Block.cells] at hp
      omega
    have hself : a + u.cells + 1 = p := hp
    rw [List.nil_append, List.nil_append, give, if_neg hne, ← hself, give_head]
  | cons w us ih =>
    obtain ⟨hw, hus⟩ := List.isChain_cons.mp h
    have hne : a + 1 ≠ p := by
      simp only [extent_cons, Block.cells] at hp
      omega
    rw [List.cons_append, give, if_neg hne, ih hus (by rw [← hp, extent_cons, Nat.add_assoc a])]
    cases us with
    | nil =>
      obtain ⟨m, cs, hjoin⟩ := join_head u (join ⟨b.size, true⟩ vs)
      have hwu : ¬(w.free ∧ (⟨m, u.free⟩ : Block).free) := hw u rfl
      rw [List.nil_append, List.cons_append, List.nil_append, hjoin, join_eq_cons hwu]
    | cons x us =>
      have hwx : ¬(w.free ∧ x.free) := hw x rfl
      rw [List.cons_append, join_eq_cons hwx]
      rfl

theorem mem_pieces {a : ℕ} {bs : List Block} {q : Piece} (h : q ∈ pieces a bs) :
    ∃ us vs, bs = us ++ ⟨q.size, false⟩ :: vs ∧ q.start = a + extent us + 1 := by
  induction bs generalizing a with
  | nil => simp [pieces] at h
  | cons b bs ih =>
    have hrest : q ∈ pieces (a + b.cells) bs →
        ∃ us vs, b :: bs = us ++ ⟨q.size, false⟩ :: vs ∧ q.start = a + extent us + 1 := by
      intro hq
      obtain ⟨us, vs, rfl, hstart⟩ := ih hq
      exact ⟨b :: us, vs, rfl, by rw [hstart, extent_cons, Nat.add_assoc a]⟩
    rw [pieces] at h
    split_ifs at h with hfree
    · exact hrest h
    · rcases List.mem_cons.mp h with rfl | h
      · refine ⟨[], bs, ?_, rfl⟩
        rw [Bool.not_eq_true] at hfree
        rw [List.nil_append, ← hfree]
      · exact hrest h

theorem eq_singleton {a : ℕ} {bs : List Block} (hne : bs ≠ []) (hpacked : Packed bs)
    (h : pieces a bs = []) : bs = [⟨extent bs - 1, true⟩] := by
  have hfree : ∀ (a : ℕ) (cs : List Block), pieces a cs = [] → ∀ c ∈ cs, c.free = true := by
    intro a cs hcs
    induction cs generalizing a with
    | nil => simp
    | cons c cs ih =>
      rw [pieces] at hcs
      split_ifs at hcs with hc
      · exact List.forall_mem_cons.mpr ⟨hc, ih _ hcs⟩
  have hbs := hfree a bs h
  match bs, hne with
  | [b], _ =>
    have hb := hbs b List.mem_cons_self
    simp only [extent_cons, extent_nil, Block.cells, Nat.add_zero, Nat.add_sub_cancel, ← hb]
  | b :: c :: bs, _ =>
    exact absurd ⟨hbs b (by simp), hbs c (by simp)⟩ (List.isChain_cons_cons.mp hpacked).1

def occupied : List Piece → ℕ
  | [] => 0
  | q :: qs => q.size + 1 + occupied qs

@[simp] theorem occupied_cons (q : Piece) (qs : List Piece) :
    occupied (q :: qs) = q.size + 1 + occupied qs := rfl

theorem occupied_perm {qs rs : List Piece} (h : qs.Perm rs) : occupied qs = occupied rs := by
  induction h with
  | nil => rfl
  | cons q _ ih => rw [occupied_cons, occupied_cons, ih]
  | swap q r qs =>
    simp only [occupied_cons]
    omega
  | trans _ _ ih ih' => exact ih.trans ih'

/-- A heap without room for `n`: before each piece a gap of at most `n` cells, and one more
at the end unless the first block is handed out. -/
theorem gaps_le {n a : ℕ} {bs : List Block} (hpacked : Packed bs) (h : ∀ b ∈ bs, ¬Fits n b) :
    extent bs + (if bs.head?.any Block.free then 0 else n) ≤
      occupied (pieces a bs) + ((pieces a bs).length + 1) * n := by
  induction bs generalizing a with
  | nil => simp [pieces, occupied]
  | cons b bs ih =>
    obtain ⟨hb, hbs⟩ := List.isChain_cons.mp hpacked
    obtain ⟨hn, hrest⟩ := List.forall_mem_cons.mp h
    have hle := ih (a := a + b.cells) hbs hrest
    rw [pieces, extent_cons, List.head?_cons, Option.any_some]
    by_cases hfree : b.free
    · -- the next block is handed out, so that a gap is still to come
      have hsmall : b.cells ≤ n := by
        by_contra hlt
        exact hn ⟨hfree, by rw [Block.cells] at hlt; omega⟩
      have hnext : bs.head?.any Block.free = false := by
        cases bs with
        | nil => rfl
        | cons c bs => simpa [hfree] using hb c rfl
      rw [hnext, if_neg Bool.false_ne_true] at hle
      rw [if_pos hfree, if_pos hfree]
      omega
    · have hgap : extent bs ≤ occupied (pieces (a + b.cells) bs) +
          ((pieces (a + b.cells) bs).length + 1) * n := (Nat.le_add_right _ _).trans hle
      rw [if_neg hfree, if_neg hfree, occupied_cons, List.length_cons, Nat.succ_mul _ n]
      simp only [Block.cells] at hgap ⊢
      omega

theorem extent_le_of_take_eq_none {n a : ℕ} {bs : List Block} (hpacked : Packed bs)
    (h : take n a bs = none) :
    extent bs ≤ occupied (pieces a bs) + ((pieces a bs).length + 1) * n :=
  (Nat.le_add_right _ _).trans (gaps_le hpacked (take_eq_none_iff.mp h))

end AoaBoard.Library.Heap
