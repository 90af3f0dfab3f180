import AoaBoard.Library.Bytes
import AoaBoard.Can.Discovery
import Mathlib.Data.List.TakeWhile

/-!
# The capabilities of the CAN nodes

A publish message packs two capabilities into each byte, and the list ends with
the first zero. `handlePublish` writes no zero behind a list that fills its
bytes, so what the entry held for an earlier node can follow. `published` is the
payload of the message that registered the node of each entry.
-/

namespace AoaBoard.Can.Discovery
open Library Library.Run Library.Registry Library.Slots Library.Bytes

def nibbles (payload : List UInt8) : List UInt8 :=
  payload.flatMap fun b => [b &&& 0xF0, (b &&& 0x0F) <<< 4]

def unpack (payload : List UInt8) : List UInt8 :=
  ((nibbles payload).takeWhile (· ≠ 0)).take nodeMaxCaps

def Publish.payload (p : Publish) : List UInt8 := slice p.buf p.len.toNat

structure Traced where
  state : State
  published : Fin nodeMaxNum → List UInt8

def publishedAfter (t : Traced) (e : Event) : Fin nodeMaxNum → List UInt8 :=
  match publishOf e with
  | some p =>
    match newSlot t.state.nodes p.reqId with
    | some i => Function.update t.published i p.payload
    | none => t.published
  | none => t.published

def tracedStep (t : Traced) (e : Event) : Traced × List Out :=
  (⟨(step t.state e).1, publishedAfter t e⟩, (step t.state e).2)

def traced (s : State) : Traced := ⟨s, fun _ => []⟩

def RoundTrip (t : Traced) : Prop :=
  ∀ i, (t.state.nodes i).reqId ≠ 0 → ∀ len : UInt8, nodeMaxCaps ≤ len.toNat →
    canptGetNodeCaps t.state.toCanpt false (t.state.nodes i).reqId len =
      (.ok, some (unpack (t.published i)))

def ValidLength (e : Event) : Prop :=
  ∀ p ∈ publishOf e, 0 < p.len.toNat ∧ p.len.toNat ≤ maxPayload

/-- The list of capabilities ends: it fills `caps`, it contains a zero, or what `caps` holds
behind it is zero. -/
def Ends (payload : List UInt8) (caps : Fin nodeMaxCaps → UInt8) : Prop :=
  payload.length = maxPayload ∨ 0 ∈ nibbles payload ∨
    ∃ k : Fin nodeMaxCaps, k.val = 2 * payload.length ∧ caps k = 0

def EndsList (t : Traced) (e : Event) : Prop :=
  ∀ p ∈ publishOf e, ∀ i ∈ newSlot t.state.nodes p.reqId, Ends p.payload (t.state.nodes i).caps

def nibble (buf : ℕ → UInt8) (k : ℕ) : UInt8 :=
  if k % 2 = 0 then buf (k / 2) &&& 0xF0 else (buf (k / 2) &&& 0x0F) <<< 4

theorem nibbles_slice (buf : ℕ → UInt8) (n : ℕ) :
    nibbles (slice buf n) = slice (nibble buf) (2 * n) := by
  induction n with
  | zero => rfl
  | succ n ih =>
    have hhigh : nibble buf (2 * n) = buf n &&& 0xF0 := by
      rw [nibble, if_pos (by omega), Nat.mul_div_cancel_left n (by omega)]
    have hlow : nibble buf (2 * n + 1) = (buf n &&& 0x0F) <<< 4 := by
      rw [nibble, if_neg (by omega), show (2 * n + 1) / 2 = n by omega]
    rw [slice_succ, nibbles, List.flatMap_append, ← nibbles, ih, Nat.mul_succ, slice_succ,
      slice_succ, hhigh, hlow]
    simp

theorem storeCaps_fold (buf : ℕ → UInt8) (caps : Fin nodeMaxCaps → UInt8) {n : ℕ}
    (hn : n ≤ maxPayload) (k : Fin nodeMaxCaps) :
    (List.range n).foldl (storeCaps buf) caps k =
      if k.val < 2 * n then nibble buf k else caps k := by
  have hmax : maxPayload = 6 ∧ nodeMaxCaps = 12 := ⟨rfl, rfl⟩
  induction n with
  | zero => rfl
  | succ n ih =>
    rw [List.range_succ, List.foldl_append, List.foldl_cons, List.foldl_nil, storeCaps,
      if_neg (by omega)]
    simp only [if_neg (show ¬ nodeMaxCaps ≤ n + 1 by omega), setCap]
    rcases Nat.lt_trichotomy k.val (2 * n) with hlt | heq | hgt
    · rw [if_neg (by omega), if_neg (by omega), ih (by omega), if_pos hlt, if_pos (by omega)]
    · rw [if_neg (by omega), if_pos (by omega), if_pos (by omega), nibble, if_pos (by omega), heq,
        Nat.mul_div_cancel_left n (by omega)]
    · by_cases hlow : k.val = 2 * n + 1
      · rw [if_pos (by omega), if_pos (by omega), nibble, if_neg (by omega), hlow,
          show (2 * n + 1) / 2 = n by omega]
      · rw [if_neg (by omega), if_neg (by omega), ih (by omega), if_neg (by omega),
          if_neg (by omega)]

theorem stored_list (buf : ℕ → UInt8) (caps : Fin nodeMaxCaps → UInt8) {n : ℕ}
    (hn : n ≤ maxPayload) :
    (List.finRange nodeMaxCaps).map ((List.range n).foldl (storeCaps buf) caps) =
      nibbles (slice buf n) ++ ((List.finRange nodeMaxCaps).map caps).drop (2 * n) := by
  have hmax : maxPayload = 6 ∧ nodeMaxCaps = 12 := ⟨rfl, rfl⟩
  rw [nibbles_slice]
  apply List.ext_getElem
  · rw [List.length_append, List.length_drop, List.length_map, List.length_map, slice_length,
      List.length_finRange]
    omega
  · intro k hk hk'
    have hlt : k < nodeMaxCaps := by simpa using hk
    rw [List.getElem_map, List.getElem_finRange, storeCaps_fold buf caps hn]
    by_cases hfirst : k < 2 * n
    · rw [List.getElem_append_left (by simpa using hfirst)]
      simp [hfirst, slice]
    · rw [List.getElem_append_right (by simpa using hfirst), if_neg (by simpa using hfirst),
        List.getElem_drop, List.getElem_map, List.getElem_finRange]
      refine congrArg caps (Fin.ext ?_)
      simp only [Fin.val_cast, slice_length]
      omega

theorem takeWhile_append_eq_iff {α : Type*} (p : α → Bool) (xs ys : List α) :
    (xs ++ ys).takeWhile p = xs.takeWhile p ↔ (∃ a ∈ xs, p a = false) ∨ ys.takeWhile p = [] := by
  by_cases hall : ∀ a ∈ xs, p a = true
  · have hnone : ¬ ∃ a ∈ xs, p a = false := fun ⟨a, ha, hp⟩ =>
      Bool.false_ne_true (hp.symm.trans (hall a ha))
    rw [List.takeWhile_append_of_pos hall, List.takeWhile_eq_self_iff.mpr hall]
    simp [hnone]
  · have hsome : ∃ a ∈ xs, p a = false := by simpa using hall
    have hshort : (xs.takeWhile p).length ≠ xs.length := fun hlen =>
      hall (List.takeWhile_eq_self_iff.mp ((List.takeWhile_prefix p).eq_of_length hlen))
    rw [List.takeWhile_append, if_neg hshort]
    exact iff_of_true rfl (Or.inl hsome)

theorem leftover_iff (caps : Fin nodeMaxCaps → UInt8) {n : ℕ} (hn : n ≤ maxPayload) :
    (((List.finRange nodeMaxCaps).map caps).drop (2 * n)).takeWhile (· ≠ 0) = [] ↔
      n = maxPayload ∨ ∃ k : Fin nodeMaxCaps, k.val = 2 * n ∧ caps k = 0 := by
  have hmax : maxPayload = 6 ∧ nodeMaxCaps = 12 := ⟨rfl, rfl⟩
  by_cases hfull : n = maxPayload
  · have hnil : ((List.finRange nodeMaxCaps).map caps).drop (2 * n) = [] := by
      apply List.drop_eq_nil_of_le
      rw [List.length_map, List.length_finRange]
      omega
    rw [hnil]
    exact iff_of_true rfl (Or.inl hfull)
  · have hlt : 2 * n < nodeMaxCaps := by omega
    have hlen : 2 * n < ((List.finRange nodeMaxCaps).map caps).length := by
      rwa [List.length_map, List.length_finRange]
    have hget : ((List.finRange nodeMaxCaps).map caps).get ⟨2 * n, hlen⟩ = caps ⟨2 * n, hlt⟩ := by
      simp
    have hcons : ((List.finRange nodeMaxCaps).map caps).drop (2 * n) =
        caps ⟨2 * n, hlt⟩ :: ((List.finRange nodeMaxCaps).map caps).drop (2 * n + 1) := by
      rw [← hget]
      exact List.drop_eq_getElem_cons hlen
    rw [hcons, List.takeWhile_cons]
    constructor
    · intro hnil
      refine Or.inr ⟨⟨2 * n, hlt⟩, rfl, ?_⟩
      by_contra hne
      simp [hne] at hnil
    · rintro (h | ⟨k, hk, hzero⟩)
      · exact absurd h hfull
      · have hindex : k = ⟨2 * n, hlt⟩ := Fin.ext hk
        rw [← hindex, hzero]
        rfl

theorem capList_stored_iff (reqId : UInt8) (buf : ℕ → UInt8) (caps : Fin nodeMaxCaps → UInt8)
    {n : ℕ} (hn : n ≤ maxPayload) :
    capList ⟨reqId, (List.range n).foldl (storeCaps buf) caps⟩ = unpack (slice buf n) ↔
      Ends (slice buf n) caps := by
  have hmax : maxPayload = 6 ∧ nodeMaxCaps = 12 := ⟨rfl, rfl⟩
  have hunpack : unpack (slice buf n) = (nibbles (slice buf n)).takeWhile (· ≠ 0) := by
    have hle := (List.takeWhile_sublist (· ≠ 0) (l := nibbles (slice buf n))).length_le
    rw [nibbles_slice, slice_length] at hle
    rw [unpack, nibbles_slice]
    exact List.take_of_length_le (by omega)
  rw [hunpack, capList, stored_list buf caps hn, takeWhile_append_eq_iff, leftover_iff caps hn,
    Ends, slice_length]
  simp only [ne_eq, decide_not, Bool.not_eq_false', decide_eq_true_eq, exists_eq_right]
  tauto

theorem publish_cases {t : Traced} {e : Event} (he : ValidLength e) :
    (∃ p i, publishOf e = some p ∧ newSlot t.state.nodes p.reqId = some i ∧
      p.len.toNat ≤ maxPayload ∧
      (tracedStep t e).1 = ⟨register t.state i p.reqId p.buf p.len p.now,
        Function.update t.published i p.payload⟩) ∨
    (∀ p ∈ publishOf e, newSlot t.state.nodes p.reqId = none) ∧
      (tracedStep t e).1.published = t.published ∧
      ∀ j, (step t.state e).1.nodes j = t.state.nodes j ∨
        ((step t.state e).1.nodes j).reqId = 0 := by
  rcases message_cases t.state e with ⟨p, hp, heq⟩ | ⟨hnone, hcase⟩
  · cases hslot : newSlot t.state.nodes p.reqId with
    | some i =>
      have hlen := (he p hp).2
      refine Or.inl ⟨p, i, hp, hslot, hlen, ?_⟩
      simp only [tracedStep, publishedAfter, hp, heq, handlePublish, hslot, if_pos hlen]
    | none =>
      refine Or.inr ⟨fun q hq => ?_, ?_, fun j => Or.inl ?_⟩
      · rw [hp] at hq
        rwa [← Option.some.inj hq]
      · simp only [tracedStep, publishedAfter, hp, hslot]
      · simp only [heq, handlePublish, hslot]
  · refine Or.inr ⟨fun p hp => ?_, ?_, ?_⟩
    · rw [hnone] at hp
      cases hp
    · simp only [tracedStep, publishedAfter, hnone]
    · rcases hcase with ⟨now, rfl⟩ | ⟨-, hnodes, -⟩
      · simp only [step]
        exact check_nodes t.state now
      · exact fun j => Or.inl (by rw [hnodes])

theorem validLength_inBounds {s : State} {e : Event} (he : ValidLength e) : InBounds s e :=
  fun p hp _ => (he p hp).2

theorem roundTrip_iff {t : Traced} (hd : Distinct (registered t.state.toCanpt)) :
    RoundTrip t ↔ ∀ i, (t.state.nodes i).reqId ≠ 0 →
      capList (t.state.nodes i) = unpack (t.published i) := by
  constructor
  · intro h i hid
    have hget := h i hid 12 (le_refl 12)
    rw [canptGetNodeCaps_lists hd hid (le_refl 12)] at hget
    exact Option.some.inj (congrArg Prod.snd hget)
  · intro h i hid len hlen
    rw [canptGetNodeCaps_lists hd hid hlen, h i hid]

theorem step_roundTrip_iff {t : Traced} (hd : Distinct (registered t.state.toCanpt))
    (ht : RoundTrip t) {e : Event} (he : ValidLength e) :
    RoundTrip (tracedStep t e).1 ↔ EndsList t e := by
  have hd' : Distinct (registered (tracedStep t e).1.state.toCanpt) :=
    step_distinct hd (validLength_inBounds he)
  rw [roundTrip_iff hd] at ht
  rw [roundTrip_iff hd']
  rcases publish_cases (t := t) he with ⟨p, i, hp, hslot, hlen, heq⟩ | ⟨hnone, hpublished, hnodes⟩
  · have hid := (newSlot_some hslot).2.1
    have hends : EndsList t e ↔ Ends p.payload (t.state.nodes i).caps := by
      simp only [EndsList, hp, hslot, Option.mem_def, Option.some.injEq, forall_eq']
    rw [heq, hends, Publish.payload, ← capList_stored_iff p.reqId p.buf (t.state.nodes i).caps hlen]
    constructor
    · intro h
      have hi := h i (by simpa [register] using hid)
      simpa [register, Publish.payload] using hi
    · intro h j hj
      by_cases hji : j = i
      · subst hji
        simpa [register, Publish.payload] using h
      · simp only [register, Function.update_of_ne hji] at hj ⊢
        exact ht j hj
  · refine iff_of_true (fun j hj => ?_) fun p hp i hi => ?_
    · rcases hnodes j with hsame | hzero
      · rw [hpublished]
        have hstate : (tracedStep t e).1.state.nodes j = t.state.nodes j := hsame
        rw [hstate] at hj ⊢
        exact ht j hj
      · exact absurd hzero hj
    · rw [hnone p hp] at hi
      cases hi

/-- The capabilities of every registered node are those it has published, in every state of a run
of valid publish messages, if and only if each list that registers a node ends by itself or in
front of a zero that the entry already holds. -/
theorem capabilities_round_trip_iff (cb : Callbacks) (es : List Event)
    (hes : ∀ e ∈ es, ValidLength e) :
    (∀ pre, pre <+: es → RoundTrip (after tracedStep (traced (powerUp cb)) pre)) ↔
      Along tracedStep EndsList (traced (powerUp cb)) es := by
  refine reached_iff_along (I := fun t => Distinct (registered t.state.toCanpt)) (P := RoundTrip)
    (c := ValidLength) (fun t e hd _ he _ => step_distinct hd (validLength_inBounds he))
    (fun t e hd ht he => step_roundTrip_iff hd ht he) (powerUp_consistent cb).distinct
    (fun i hid => ?_) hes
  exact absurd rfl hid

instance decidableValidLength (e : Event) : Decidable (ValidLength e) :=
  inferInstanceAs (Decidable (∀ p ∈ publishOf e, 0 < p.len.toNat ∧ p.len.toNat ≤ maxPayload))

instance decidableEnds (payload : List UInt8) (caps : Fin nodeMaxCaps → UInt8) :
    Decidable (Ends payload caps) := inferInstanceAs (Decidable (_ ∨ _ ∨ _))

instance decidableEndsList (t : Traced) (e : Event) : Decidable (EndsList t e) :=
  inferInstanceAs (Decidable (∀ p ∈ publishOf e, ∀ i ∈ newSlot t.state.nodes p.reqId,
    Ends p.payload (t.state.nodes i).caps))

def succession (first second : List UInt8) : List Event :=
  let wild := powerUp ⟨true, true, true, true⟩
  [.common (publishOfNode 5 first) 0 wild, .check fun _ => 4000,
    .common (publishOfNode 6 second) 4000 wild]

theorem capabilities_round_trip_ended :
    RoundTrip (after tracedStep (traced (powerUp ⟨true, true, true, true⟩))
      (succession [0x12, 0x34] [0x30])) :=
  (capabilities_round_trip_iff ⟨true, true, true, true⟩ (succession [0x12, 0x34] [0x30])
    (by decide +kernel)).mpr (by decide +kernel) _ (List.prefix_refl _)

/-- Node `6` has two capabilities and inherits two of node `5`. -/
theorem leftover_capabilities :
    (∀ e ∈ succession [0x12, 0x34] [0x12], ValidLength e) ∧
      ¬ RoundTrip (after tracedStep (traced (powerUp ⟨true, true, true, true⟩))
        (succession [0x12, 0x34] [0x12])) := by
  refine ⟨by decide +kernel, fun h => ?_⟩
  have hget := h ⟨0, by decide⟩ (by decide +kernel) 12 (le_refl 12)
  exact absurd hget (by decide +kernel)

end AoaBoard.Can.Discovery
