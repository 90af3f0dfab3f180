import AoaBoard.Library.Run
import AoaBoard.Usb.Memory
import Mathlib.Data.List.Forall2

/-!
# Runs over the USB memory pool

The callers of the pool ask for blocks, give back blocks they were given, and
write the words of the blocks they hold. Over every such run the blocks that
are lent lie apart, keep what their holders wrote, and come together again when
they are given back.
-/

namespace AoaBoard.Usb
open Library.Heap Library.Run

structure Lent where
  ptr : ℕ
  size : UInt32

def words (size : UInt32) : ℕ := (size.toNat + 3) / 4

/-- `lent` is not part of the source: the blocks given out and not given back. -/
structure Pool where
  memory : Memory
  lent : List Lent

inductive Call
  | alloc (size : UInt32)
  | free (ptr : Option ℕ)
  | write (word : ℕ) (value : MemBlockInfo)

/-- Shows what an allocation returns. No state follows a walk that never ends. -/
def call : Option Pool → Call → Option Pool × List (Option ℕ)
  | none, _ => (none, [])
  | some s, .alloc size =>
    match usbMemoryAlloc s.memory size with
    | none => (none, [])
    | some (m, none) => (some ⟨m, s.lent⟩, [none])
    | some (m, some ptr) => (some ⟨m, ⟨ptr, size⟩ :: s.lent⟩, [some ptr])
  | some s, .free ptr =>
    ((usbMemoryFree s.memory ptr).map fun m => ⟨m, s.lent.filter fun l => some l.ptr ≠ ptr⟩, [])
  | some s, .write word value => (some ⟨Function.update s.memory word value, s.lent⟩, [])

/-- A holder writes within the bytes it asked for, and only what is lent is given back. -/
def Legal : Option Pool → Call → Prop
  | none, _ => False
  | some _, .alloc size => size.toNat ≤ 2 ^ 32 - 4
  | some s, .free ptr => ∀ p, ptr = some p → ∃ l ∈ s.lent, l.ptr = p
  | some s, .write word _ => ∃ l ∈ s.lent, ∃ k < words l.size, word = l.ptr + k

instance decidableLegal : ∀ s e, Decidable (Legal s e)
  | none, _ => inferInstanceAs (Decidable False)
  | some _, .alloc size => inferInstanceAs (Decidable (size.toNat ≤ 2 ^ 32 - 4))
  | some _, .free none => .isTrue fun _ h => nomatch h
  | some s, .free (some p) =>
    decidable_of_iff (∃ l ∈ s.lent, l.ptr = p)
      ⟨fun h _ heq => Option.some.inj heq ▸ h, fun h => h p rfl⟩
  | some s, .write word _ =>
    inferInstanceAs (Decidable (∃ l ∈ s.lent, ∃ k < words l.size, word = l.ptr + k))

def Spares (l : Lent) : Call → Prop
  | .alloc _ => True
  | .free ptr => ptr ≠ some l.ptr
  | .write word _ => ∀ k < words l.size, word ≠ l.ptr + k

def start (m : Memory) (memoryPoolSize : UInt32) : Option Pool :=
  some ⟨usbMemoryInit m memoryPoolSize, []⟩

def Apart (l r : Lent) : Prop :=
  l.ptr + words l.size < r.ptr ∨ r.ptr + words r.size < l.ptr

def Holds (l : Lent) (q : Piece) : Prop :=
  q.start = l.ptr ∧ words l.size ≤ q.size ∧ q.size ≤ words l.size + 1

structure Backed (total : ℕ) (s : Pool) (bs : List Block) (qs : List Piece) : Prop where
  tiles : Tiles s.memory 0 0 bs
  extent : extent bs = total
  packed : Packed bs
  nonempty : bs ≠ []
  perm : qs.Perm (pieces 0 bs)
  holds : List.Forall₂ Holds s.lent qs

theorem alignSize_words {size : UInt32} (h : size.toNat ≤ 2 ^ 32 - 4) :
    (alignSize size).toNat = 4 * words size := by
  rw [alignSize_toNat, if_pos h, words]

variable {total : ℕ} {s t : Pool} {bs : List Block} {qs : List Piece} {l : Lent} {e : Call}
  {es fs : List Call} {m : Memory} {memoryPoolSize size : UInt32}

theorem start_backed (m : Memory) (hmin : 4 ≤ memoryPoolSize.toNat)
    (hmax : memoryPoolSize.toNat ≤ 2 ^ 15) :
    Backed (memoryPoolSize.toNat / 4) ⟨usbMemoryInit m memoryPoolSize, []⟩
      [⟨memoryPoolSize.toNat / 4 - 1, true⟩] [] where
  tiles := usbMemoryInit_tiles m hmin hmax
  extent := by
    simp only [extent_cons, extent_nil, Block.cells]
    omega
  packed := List.isChain_singleton _
  nonempty := by simp
  perm := .nil
  holds := .nil

theorem exists_holds {ls : List Lent} (hholds : List.Forall₂ Holds ls qs) (hl : l ∈ ls) :
    ∃ q ∈ qs, Holds l q := by
  induction hholds with
  | nil => simp at hl
  | cons hlq _ ih =>
    rcases List.mem_cons.mp hl with rfl | hl
    · exact ⟨_, List.mem_cons_self, hlq⟩
    · obtain ⟨q, hq, hlq⟩ := ih hl
      exact ⟨q, List.mem_cons_of_mem _ hq, hlq⟩

theorem Backed.lent_piece (h : Backed total s bs qs) (hl : l ∈ s.lent) :
    ∃ q ∈ pieces 0 bs, Holds l q := by
  obtain ⟨q, hq, hlq⟩ := exists_holds h.holds hl
  exact ⟨q, h.perm.mem_iff.mp hq, hlq⟩

theorem Backed.keeps (h : Backed total s bs qs) {m' : Memory} (hkeep : Keeps s.memory m' bs)
    (hl : l ∈ s.lent) {k : ℕ} (hk : k < words l.size) :
    m' (l.ptr + k) = s.memory (l.ptr + k) := by
  obtain ⟨q, hq, hstart, hle, -⟩ := h.lent_piece hl
  rw [← hstart]
  exact hkeep q hq k (hk.trans_le hle)

def Carries (s t : Pool) (e : Call) : Prop :=
  ∀ l ∈ s.lent, Spares l e → l ∈ t.lent ∧ ∀ k < words l.size,
    t.memory (l.ptr + k) = s.memory (l.ptr + k)

theorem alloc_backed (h : Backed total s bs qs) (htotal : total ≤ maxWords)
    (hsize : size.toNat ≤ 2 ^ 32 - 4) : ∃ t bs' qs', (call (some s) (.alloc size)).1 = some t ∧
      Backed total t bs' qs' ∧ Carries s t (.alloc size) := by
  have hext : extent bs ≤ maxWords := h.extent ▸ htotal
  cases htake : take (words size) 0 bs with
  | none =>
    have hnone := usbMemoryAlloc_none h.tiles hext h.nonempty (alignSize_words hsize) htake
    refine ⟨s, bs, qs, ?_, h, fun l hl _ => ⟨hl, fun k _ => rfl⟩⟩
    simp only [call, hnone]
  | some r =>
    obtain ⟨p, bs'⟩ := r
    obtain ⟨m', hsome, htiles, hkeep⟩ :=
      usbMemoryAlloc_some h.tiles hext (alignSize_words hsize) htake
    obtain ⟨rs, rs', n, hbefore, hafter, hle, hge⟩ := pieces_take htake
    refine ⟨⟨m', ⟨p, size⟩ :: s.lent⟩, bs', ⟨p, n⟩ :: qs, ?_, ?_, fun l hl _ => ?_⟩
    · simp only [call, hsome]
    · refine ⟨htiles, (extent_take htake).trans h.extent, packed_take h.packed htake, ?_, ?_, ?_⟩
      · rintro rfl
        simp [pieces] at hafter
      · rw [hafter]
        exact ((h.perm.trans (.of_eq hbefore)).cons _).trans List.perm_middle.symm
      · exact .cons ⟨rfl, hle, hge⟩ h.holds
    · exact ⟨List.mem_cons_of_mem _ hl, fun k hk => h.keeps hkeep hl hk⟩

theorem free_backed {ptr : Option ℕ} (h : Backed total s bs qs) (htotal : total ≤ maxWords)
    (hlegal : Legal (some s) (.free ptr)) : ∃ t bs' qs', (call (some s) (.free ptr)).1 = some t ∧
      Backed total t bs' qs' ∧ Carries s t (.free ptr) := by
  cases ptr with
  | none =>
    have hall : s.lent.filter (fun l => some l.ptr ≠ none) = s.lent :=
      List.filter_eq_self.mpr fun l _ => rfl
    refine ⟨s, bs, qs, ?_, h, fun l hl _ => ⟨hl, fun k _ => rfl⟩⟩
    simp only [call, usbMemoryFree, Option.map_some, hall]
  | some p =>
    obtain ⟨l, hl, rfl⟩ := hlegal p rfl
    obtain ⟨q, hq, hstart, -⟩ := h.lent_piece hl
    obtain ⟨m', hfree, htiles, hkeep⟩ := usbMemoryFree_tiles h.tiles (h.extent ▸ htotal) h.packed hq
    rw [hstart] at hfree htiles
    refine ⟨⟨m', s.lent.filter fun l' => some l'.ptr ≠ some l.ptr⟩, give l.ptr 0 bs,
      qs.filter fun q => q.start ≠ l.ptr, ?_, ?_, fun l' hl' hspares => ?_⟩
    · simp only [call, hfree, Option.map_some]
    · refine ⟨htiles, (extent_give _ _ _).trans h.extent, packed_give _ _ h.packed, ?_, ?_, ?_⟩
      · intro hnil
        have hzero : extent bs = 0 := by rw [← extent_give l.ptr 0, hnil, extent_nil]
        have := length_le_extent bs
        exact h.nonempty (List.eq_nil_of_length_eq_zero (by omega))
      · rw [pieces_give]
        exact h.perm.filter _
      · refine List.rel_filter (fun l' q' hheld => ?_) h.holds
        simp only [hheld.1, ne_eq, Option.some.injEq]
    · refine ⟨List.mem_filter.mpr ⟨hl', ?_⟩, fun k hk => h.keeps hkeep hl' hk⟩
      exact decide_eq_true hspares.symm

theorem write_backed {word : ℕ} {value : MemBlockInfo} (h : Backed total s bs qs)
    (hlegal : Legal (some s) (.write word value)) : ∃ t bs' qs',
      (call (some s) (.write word value)).1 = some t ∧ Backed total t bs' qs' ∧
        Carries s t (.write word value) := by
  obtain ⟨l, hl, k, hk, rfl⟩ := hlegal
  obtain ⟨q, hq, hstart, hle, -⟩ := h.lent_piece hl
  have hword : l.ptr + k ∉ headers 0 bs := hstart ▸ not_mem_headers hq (hk.trans_le hle)
  refine ⟨_, bs, qs, rfl, ⟨?_, h.extent, h.packed, h.nonempty, h.perm, h.holds⟩, ?_⟩
  · refine h.tiles.congr fun w hw => Function.update_of_ne (fun heq => ?_) _ _
    exact hword (heq ▸ hw)
  · exact fun l' hl' hspares => ⟨hl', fun j hj => Function.update_of_ne (hspares j hj).symm _ _⟩

theorem call_backed (h : Backed total s bs qs) (htotal : total ≤ maxWords)
    (hlegal : Legal (some s) e) : ∃ t bs' qs', (call (some s) e).1 = some t ∧
      Backed total t bs' qs' ∧ Carries s t e := by
  cases e with
  | alloc size => exact alloc_backed h htotal hlegal
  | free ptr => exact free_backed h htotal hlegal
  | write word value => exact write_backed h hlegal

theorem calls_backed (h : Backed total s bs qs) (htotal : total ≤ maxWords)
    (hes : Along call Legal (some s) es) : ∃ t bs' qs', after call (some s) es = some t ∧
      Backed total t bs' qs' ∧ ∀ l ∈ s.lent, (∀ e ∈ es, Spares l e) → l ∈ t.lent ∧
        ∀ k < words l.size, t.memory (l.ptr + k) = s.memory (l.ptr + k) := by
  induction es generalizing s bs qs with
  | nil => exact ⟨s, bs, qs, rfl, h, fun l hl _ => ⟨hl, fun k _ => rfl⟩⟩
  | cons e es ih =>
    obtain ⟨he, hrest⟩ := hes
    obtain ⟨u, cs, rs, hstep, hu, hcarry⟩ := call_backed h htotal he
    rw [hstep] at hrest
    obtain ⟨t, bs', qs', hafter, ht, hcarries⟩ := ih hu hrest
    refine ⟨t, bs', qs', by rw [after_cons, hstep, hafter], ht, fun l hl hspares => ?_⟩
    obtain ⟨hspare, hspares⟩ := List.forall_mem_cons.mp hspares
    obtain ⟨hlu, hfirst⟩ := hcarry l hl hspare
    obtain ⟨hlt, hlast⟩ := hcarries l hlu hspares
    exact ⟨hlt, fun k hk => (hlast k hk).trans (hfirst k hk)⟩

theorem pool_le {memoryPoolSize : UInt32} (hmax : memoryPoolSize.toNat ≤ 2 ^ 15) :
    memoryPoolSize.toNat / 4 ≤ maxWords := by
  rw [maxWords]
  omega

theorem pool_backed (hmin : 4 ≤ memoryPoolSize.toNat) (hmax : memoryPoolSize.toNat ≤ 2 ^ 15)
    (hes : Along call Legal (start m memoryPoolSize) es) : ∃ t bs' qs',
      after call (start m memoryPoolSize) es = some t ∧
        Backed (memoryPoolSize.toNat / 4) t bs' qs' := by
  obtain ⟨t, bs', qs', hafter, ht, -⟩ := calls_backed (start_backed m hmin hmax) (pool_le hmax) hes
  exact ⟨t, bs', qs', hafter, ht⟩

theorem pairwise_of_holds {ls : List Lent} (hholds : List.Forall₂ Holds ls qs)
    (hsep : qs.Pairwise fun q r => q.start + q.size < r.start ∨ r.start + r.size < q.start) :
    ls.Pairwise Apart := by
  induction hholds with
  | nil => exact .nil
  | @cons l q ls qs hlq hrest ih =>
    obtain ⟨hq, hqs⟩ := List.pairwise_cons.mp hsep
    refine List.pairwise_cons.mpr ⟨fun l' hl' => ?_, ih hqs⟩
    obtain ⟨q', hq', hlq'⟩ := exists_holds hrest hl'
    have hapart := hq q' hq'
    obtain ⟨hstart, hle, -⟩ := hlq
    obtain ⟨hstart', hle', -⟩ := hlq'
    unfold Apart
    omega

/-- Whatever is asked for, given back and written, in any order: the blocks that are lent lie
inside the pool, with a word or more between any two. -/
theorem lent_apart (hmin : 4 ≤ memoryPoolSize.toNat) (hmax : memoryPoolSize.toNat ≤ 2 ^ 15)
    (hes : Along call Legal (start m memoryPoolSize) es) : ∃ t,
      after call (start m memoryPoolSize) es = some t ∧ t.lent.Pairwise Apart ∧
        ∀ l ∈ t.lent, 0 < l.ptr ∧ 4 * (l.ptr + words l.size) ≤ memoryPoolSize.toNat := by
  obtain ⟨t, bs, qs, hafter, ht⟩ := pool_backed hmin hmax hes
  refine ⟨t, hafter, pairwise_of_holds ht.holds ?_, fun l hl => ?_⟩
  · exact ht.perm.symm.pairwise ((pieces_separate 0 bs).imp Or.inl) fun h => h.symm
  · obtain ⟨q, hq, hstart, hle, -⟩ := ht.lent_piece hl
    have hbounds := pieces_bounds hq
    rw [ht.extent] at hbounds
    omega

theorem lent_apart_pipes : ∃ t,
    after call (start (fun _ => ⟨0, false, 0⟩) 2048)
        [.alloc 512, .alloc 64, .write 130 ⟨7, true, 9⟩, .free (some 1), .alloc 8] = some t ∧
      t.lent.Pairwise Apart ∧ ∀ l ∈ t.lent, 0 < l.ptr ∧ 4 * (l.ptr + words l.size) ≤ 2048 :=
  lent_apart (by decide) (by decide) (by decide +kernel)

/-- What a holder wrote stays as it is while others ask for blocks, give back theirs and write
into them. -/
theorem contents_kept (hmin : 4 ≤ memoryPoolSize.toNat) (hmax : memoryPoolSize.toNat ≤ 2 ^ 15)
    (hes : Along call Legal (start m memoryPoolSize) (es ++ fs)) : ∃ s t,
      after call (start m memoryPoolSize) es = some s ∧
        after call (start m memoryPoolSize) (es ++ fs) = some t ∧
          ∀ l ∈ s.lent, (∀ e ∈ fs, Spares l e) → l ∈ t.lent ∧
            ∀ k < words l.size, t.memory (l.ptr + k) = s.memory (l.ptr + k) := by
  obtain ⟨hes, hfs⟩ := (along_append _ _ _).mp hes
  obtain ⟨s, bs, qs, hafter, hs⟩ := pool_backed hmin hmax hes
  rw [hafter] at hfs
  obtain ⟨t, bs', qs', hafter', -, hkept⟩ := calls_backed hs (pool_le hmax) hfs
  exact ⟨s, t, hafter, by rw [after_append, hafter, hafter'], hkept⟩

theorem contents_kept_pipes : ∃ s t,
    after call (start (fun _ => ⟨0, false, 0⟩) 2048)
        [.alloc 512, .alloc 64, .write 130 ⟨7, true, 9⟩] = some s ∧
      after call (start (fun _ => ⟨0, false, 0⟩) 2048)
        ([.alloc 512, .alloc 64, .write 130 ⟨7, true, 9⟩] ++ [.free (some 1), .alloc 8]) = some t ∧
        ∀ l ∈ s.lent, (∀ e ∈ [.free (some 1), .alloc 8], Spares l e) → l ∈ t.lent ∧
          ∀ k < words l.size, t.memory (l.ptr + k) = s.memory (l.ptr + k) :=
  contents_kept (by decide) (by decide) (by decide +kernel)

theorem occupied_le {ls : List Lent} (h : List.Forall₂ Holds ls qs) :
    occupied qs ≤ (ls.map fun l => words l.size + 2).sum := by
  induction h with
  | nil => simp [occupied]
  | cons hlq _ ih =>
    have := hlq.2.2
    rw [occupied_cons, List.map_cons, List.sum_cons]
    omega

theorem call_alloc_none (h : Backed total s bs qs) (htotal : total ≤ maxWords)
    (hsize : size.toNat ≤ 2 ^ 32 - 4) (hnull : (call (some s) (.alloc size)).2 = [none]) :
    take (words size) 0 bs = none := by
  cases htake : take (words size) 0 bs with
  | none => rfl
  | some r =>
    obtain ⟨m', hsome, -⟩ := usbMemoryAlloc_some h.tiles (h.extent ▸ htotal)
      (alignSize_words hsize) htake
    simp only [call, hsome] at hnull
    exact absurd (List.cons.inj hnull).1 nofun

/-- An allocation fails only where the pool, taken apart by the blocks that are lent, leaves
gaps that are all too small: what these blocks need and one gap more than there are blocks. -/
theorem null_bound (hmin : 4 ≤ memoryPoolSize.toNat) (hmax : memoryPoolSize.toNat ≤ 2 ^ 15)
    (hes : Along call Legal (start m memoryPoolSize) es) (hsize : size.toNat ≤ 2 ^ 32 - 4)
    (hnull : (call (after call (start m memoryPoolSize) es) (.alloc size)).2 = [none]) :
    ∃ t, after call (start m memoryPoolSize) es = some t ∧
      memoryPoolSize.toNat / 4 ≤
        (t.lent.map fun l => words l.size + 2).sum + (t.lent.length + 1) * words size := by
  obtain ⟨t, bs, qs, hafter, ht⟩ := pool_backed hmin hmax hes
  rw [hafter] at hnull
  refine ⟨t, hafter, ?_⟩
  have hgaps := extent_le_of_take_eq_none ht.packed (call_alloc_none ht (pool_le hmax) hsize hnull)
  have hlen : (pieces 0 bs).length = t.lent.length := by
    rw [← ht.perm.length_eq, ht.holds.length_eq]
  have hocc := occupied_le ht.holds
  rw [ht.extent, ← occupied_perm ht.perm, hlen] at hgaps
  omega

theorem null_bound_full : ∃ t,
    after call (start (fun _ => ⟨0, false, 0⟩) 2048) [.alloc 1024] = some t ∧
      2048 / 4 ≤ (t.lent.map fun l => words l.size + 2).sum + (t.lent.length + 1) * words 1024 :=
  null_bound (by decide) (by decide) (by decide +kernel) (by decide) (by decide +kernel)

/-- Once every block is given back the pool is again the one free block it began with. -/
theorem all_returned (hmin : 4 ≤ memoryPoolSize.toNat) (hmax : memoryPoolSize.toNat ≤ 2 ^ 15)
    (hes : Along call Legal (start m memoryPoolSize) es) {t : Pool}
    (hafter : after call (start m memoryPoolSize) es = some t) (hlent : t.lent = []) :
    t.memory 0 = usbMemoryInit m memoryPoolSize 0 ∧
      ∀ size : UInt32, size.toNat ≤ memoryPoolSize.toNat / 4 * 4 - 4 →
        (call (some t) (.alloc size)).2 = [some 1] := by
  obtain ⟨t', bs, qs, hafter', ht⟩ := pool_backed hmin hmax hes
  obtain rfl : t = t' := Option.some.inj (hafter.symm.trans hafter')
  have hpieces : pieces 0 bs = [] := by
    have hnil := ht.holds
    rw [hlent] at hnil
    rw [List.forall₂_nil_left_iff.mp hnil] at ht
    exact List.nil_perm.mp ht.perm
  have hbs := eq_singleton ht.nonempty ht.packed hpieces
  rw [ht.extent] at hbs
  subst hbs
  refine ⟨ht.tiles.1.trans (usbMemoryInit_tiles m hmin hmax).1.symm, fun size hsize => ?_⟩
  have hsmall : size.toNat ≤ 2 ^ 32 - 4 := by omega
  have hfits : Fits (words size) ⟨memoryPoolSize.toNat / 4 - 1, true⟩ := by
    refine ⟨rfl, ?_⟩
    simp only [words]
    omega
  have htake := @take_append (words size) 0 [] [] _ (by simp) hfits
  obtain ⟨m', hsome, -⟩ := usbMemoryAlloc_some ht.tiles (ht.extent ▸ pool_le hmax)
    (alignSize_words hsmall) htake
  simp only [call, hsome, extent_nil, Nat.zero_add]

theorem all_returned_pipe : ∃ t,
    after call (start (fun _ => ⟨0, false, 0⟩) 2048) [.alloc 512, .alloc 64, .free (some 1),
        .free (some 130)] = some t ∧
      t.memory 0 = usbMemoryInit (fun _ => ⟨0, false, 0⟩) 2048 0 ∧
        ∀ size : UInt32, size.toNat ≤ 2048 / 4 * 4 - 4 →
          (call (some t) (.alloc size)).2 = [some 1] :=
  have hes : Along call Legal (start (fun _ => ⟨0, false, 0⟩) 2048)
      [.alloc 512, .alloc 64, .free (some 1), .free (some 130)] := by decide +kernel
  ⟨_, rfl, all_returned (by decide) (by decide) hes rfl rfl⟩

theorem alloc_room {n p : ℕ} {bs' : List Block} (h : Backed total s bs qs)
    (htotal : total ≤ maxWords) (hsize : (alignSize size).toNat = 4 * n)
    (htake : take n 0 bs = some (p, bs')) : ∃ t, call (some s) (.alloc size) = (some t, [some p]) ∧
      4 * n ≤ (t.memory (p - 1)).size.toNat ∧ (t.memory (p - 1)).size.toNat ≤ 4 * (n + 1) := by
  have hext : extent bs' ≤ maxWords := (extent_take htake).symm ▸ h.extent ▸ htotal
  obtain ⟨m', hsome, htiles, -⟩ := usbMemoryAlloc_some h.tiles (h.extent ▸ htotal) hsize htake
  refine ⟨⟨m', ⟨p, size⟩ :: s.lent⟩, by simp only [call, hsome], ?_⟩
  obtain ⟨us, b, vs, -, -, hfits, rfl, rfl⟩ := take_eq_some htake
  obtain ⟨c, cs, hcut, hle, hge⟩ : ∃ c cs, cut n b = c :: cs ∧ n ≤ c.size ∧ c.size ≤ n + 1 := by
    unfold cut
    split_ifs with hsmall
    · exact ⟨_, _, rfl, hfits.2, hsmall⟩
    · exact ⟨_, _, rfl, le_rfl, Nat.le_succ n⟩
  rw [hcut] at htiles hext
  have hhead := (tiles_append.mp htiles).2.1
  have hcells : c.cells ≤ maxWords := (cells_le_extent (by simp)).trans hext
  simp only [Nat.zero_add, Nat.add_sub_cancel] at hhead ⊢
  rw [hhead, header_size _ hcells]
  omega

/-- Where a pointer is returned there is room behind it for what was asked for, except for the
three sizes that overflow when they are rounded up. -/
theorem alloc_room_iff (hmin : 4 ≤ memoryPoolSize.toNat) (hmax : memoryPoolSize.toNat ≤ 2 ^ 15)
    (hes : Along call Legal (start m memoryPoolSize) es) {t : Option Pool} {p : ℕ}
    (hcall : call (after call (start m memoryPoolSize) es) (.alloc size) = (t, [some p])) :
    ∃ u, t = some u ∧ (size.toNat ≤ (u.memory (p - 1)).size.toNat ↔ size.toNat ≤ 2 ^ 32 - 4) := by
  obtain ⟨s, bs, qs, hafter, hs⟩ := pool_backed hmin hmax hes
  rw [hafter] at hcall
  obtain ⟨n, hn⟩ : ∃ n, (alignSize size).toNat = 4 * n := by
    rw [alignSize_toNat]
    split_ifs
    · exact ⟨_, rfl⟩
    · exact ⟨0, rfl⟩
  cases htake : take n 0 bs with
  | none =>
    have hnone := usbMemoryAlloc_none hs.tiles (hs.extent ▸ pool_le hmax) hs.nonempty hn htake
    simp only [call, hnone] at hcall
    exact absurd (List.cons.inj (Prod.mk.inj hcall).2).1 nofun
  | some r =>
    obtain ⟨u, hu, hlow, hhigh⟩ := alloc_room hs (pool_le hmax) hn htake
    rw [hu] at hcall
    obtain ⟨rfl, hp⟩ := Prod.mk.inj hcall
    obtain rfl : r.1 = p := Option.some.inj (List.cons.inj hp).1
    refine ⟨u, rfl, ?_⟩
    rw [alignSize_toNat] at hn
    split_ifs at hn with hsmall
    · exact iff_of_true (by omega) hsmall
    · exact iff_of_false (by omega) hsmall

theorem alloc_room_iff_overflow : ∃ u,
    (call (after call (start (fun _ => ⟨0, false, 0⟩) 2048) [.alloc 512])
        (.alloc 4294967295)).1 = some u ∧
      ((4294967295 : UInt32).toNat ≤ (u.memory (130 - 1)).size.toNat ↔
        (4294967295 : UInt32).toNat ≤ 2 ^ 32 - 4) :=
  have hes : Along call Legal (start (fun _ => ⟨0, false, 0⟩) 2048) [.alloc 512] := by
    decide +kernel
  alloc_room_iff (by decide) (by decide) hes rfl

end AoaBoard.Usb
