import AoaBoard.Xbee.Receiver

/-!
# What the receiver reads of earlier frames

Two receivers that differ in the old contents of `rfBuf` only are run on the
same bytes. The cells of the frame in progress are known: they hold bytes that
both have stored. Every handler stays inside them but one, which takes the
status of a transmission from cell 2 also where the frame is two bytes long.
The pointer that the data callback receives is compared by the bytes it is
given for.
-/

namespace AoaBoard.Xbee
open Library Library.Run Library.Bytes

def shown : Event → Option Event
  | .store _ | .frame _ => none
  | .data addrHi addrLo rssi buf len =>
    some (.data addrHi addrLo rssi (ofList (slice buf len.toNat)) len)
  | e => some e

def Held (x : XbeeState) (k : ℕ) : Prop := x.rfState = .data ∧ k < x.rfPos.toNat

structure AgreeAt (K : ℕ → Prop) (x y : XbeeState) : Prop where
  fields : y = { x with rfBuf := y.rfBuf }
  cells : ∀ k, K k → y.rfBuf k = x.rfBuf k

def SameOutcome (r r' : XbeeState × List Event) : Prop :=
  r'.1 = { r.1 with rfBuf := r'.1.rfBuf } ∧ r'.2.filterMap shown = r.2.filterMap shown

/-- The bytes have the same effect on every receiver that differs in the old contents of
`rfBuf` only. -/
def Independent (x : XbeeState) (bs : List (UInt8 × UInt32)) : Prop :=
  ∀ y, AgreeAt (fun k => Held x k ∨ bufSz ≤ k) x y →
    SameOutcome (after byteStep x bs, outputs byteStep x bs)
      (after byteStep y bs, outputs byteStep y bs)

def StatusMissing (x : XbeeState) (data : UInt8) : Prop :=
  x.cb.txStat = true ∧ x.rfState = .data ∧ x.rfFrameLen = 1 ∧ x.rfPos = 1 ∧
    x.rfBuf 0 = apiIdTxStat ∧ data = 0x76

/-- A status is missing before any of the bytes is stored in the cell it is read from. -/
def ReadsStale : XbeeState → List (UInt8 × UInt32) → Prop
  | _, [] => False
  | x, b :: bs => StatusMissing x b.1 ∨
      ¬ (x.rfState = .data ∧ x.rfPos = 2) ∧ ReadsStale (byteStep x b).1 bs

section Dispatch
variable {buf buf' : ℕ → UInt8} {len : ℕ}

theorem bufTo32bitInt_agree (n : ℕ) (h : AgreeOn len buf buf') (hn : n + 4 ≤ len) :
    bufTo32bitInt (shift buf' n) = bufTo32bitInt (shift buf n) := by
  simp only [bufTo32bitInt, shift]
  rw [h (n + 0) (by omega), h (n + 1) (by omega), h (n + 2) (by omega), h (n + 3) (by omega)]

theorem handleDiscovery_agree (h : AgreeOn len buf buf') (x : XbeeState) (status : UInt8) :
    handleDiscovery x status buf' len = handleDiscovery x status buf len := by
  simp only [handleDiscovery]
  split_ifs with hnode
  · rw [bufTo32bitInt_agree 2 h (by omega), bufTo32bitInt_agree 6 h (by omega), h 10 (by omega)]
  · rfl

theorem handleAtResponse_agree (h : AgreeOn len buf buf') (hlen : 5 ≤ len) (x : XbeeState) :
    handleAtResponse x (shift buf' 2) (buf' 4) (shift buf' 5)
        (if 6 < len then len - 5 - 1 else 0) =
      handleAtResponse x (shift buf 2) (buf 4) (shift buf 5)
        (if 6 < len then len - 5 - 1 else 0) := by
  have hvalue : AgreeOn (if 6 < len then len - 5 - 1 else 0) (shift buf 5) (shift buf' 5) := by
    intro i hi
    split_ifs at hi
    · exact h (5 + i) (by omega)
    · exact absurd hi (Nat.not_lt_zero i)
  have h2 : shift buf' 2 0 = shift buf 2 0 := h 2 (by omega)
  have h3 : shift buf' 2 1 = shift buf 2 1 := h 3 (by omega)
  simp only [handleAtResponse, h2, h3, h 4 (by omega), handleDiscovery_agree hvalue]

theorem processData_agree (h : AgreeOn len buf buf') (hlen : 12 ≤ len) (x : XbeeState) :
    (processData x (bufTo32bitInt (shift buf' 1)) (bufTo32bitInt (shift buf' 5)) (buf' 9)
        (shift buf' 11) (len - 11 - 1)).filterMap shown =
      (processData x (bufTo32bitInt (shift buf 1)) (bufTo32bitInt (shift buf 5)) (buf 9)
        (shift buf 11) (len - 11 - 1)).filterMap shown := by
  rw [bufTo32bitInt_agree 1 h (by omega), bufTo32bitInt_agree 5 h (by omega), h 9 (by omega)]
  have hdata : AgreeOn (UInt8.ofNat (len - 11 - 1)).toNat (shift buf 11) (shift buf' 11) := by
    intro i hi
    rw [UInt8.toNat_ofNat'] at hi
    have hle := Nat.mod_le (len - 11 - 1) (2 ^ 8)
    exact h (11 + i) (by omega)
  simp only [processData]
  split_ifs
  · simp only [List.filterMap_cons, List.filterMap_nil, shown, hdata.slice_eq]
  · rfl

theorem dispatch_agree (h : AgreeOn len buf buf') (hlen : 2 ≤ len) {x : XbeeState}
    (hstatus : x.cb.txStat = true → buf 0 = apiIdTxStat → buf' 2 = buf 2) :
    (dispatch x buf' len).1 = (dispatch x buf len).1 ∧
      (dispatch x buf' len).2.filterMap shown = (dispatch x buf len).2.filterMap shown := by
  simp only [dispatch, h 0 (by omega), h 1 (by omega)]
  by_cases hat : buf 0 = apiIdAtResp
  · simp only [if_pos hat]
    by_cases hshort : len < 5
    · simp only [if_pos hshort, and_self]
    · simp only [if_neg hshort, handleAtResponse_agree h (Nat.not_lt.mp hshort), and_self]
  simp only [if_neg hat]
  by_cases htx : buf 0 = apiIdTxStat
  · simp only [if_pos htx, true_and]
    by_cases hcb : x.cb.txStat = true
    · rw [hstatus hcb htx]
    · simp only [handleTxStatus, if_neg hcb]
  simp only [if_neg htx]
  by_cases hrx : buf 0 = apiIdRx64
  · simp only [if_pos hrx]
    by_cases hshort : len < 12
    · simp only [if_pos hshort, and_self]
    · simp only [if_neg hshort, processData_agree h (Nat.not_lt.mp hshort), and_self]
  simp only [if_neg hrx, and_self]

theorem handleModemStatus_rfBuf (x : XbeeState) (old : ℕ → UInt8) (status : UInt8) :
    handleModemStatus { x with rfBuf := old } status =
      ({ (handleModemStatus x status).1 with rfBuf := old }, (handleModemStatus x status).2) := by
  simp only [handleModemStatus]
  split_ifs <;> rfl

theorem dispatch_rfBuf (x : XbeeState) (old buf : ℕ → UInt8) (len : ℕ) :
    dispatch { x with rfBuf := old } buf len =
      ({ (dispatch x buf len).1 with rfBuf := old }, (dispatch x buf len).2) := by
  rw [dispatch, dispatch]
  by_cases hat : buf 0 = apiIdAtResp
  · rw [if_pos hat, if_pos hat]
    split_ifs <;> rfl
  rw [if_neg hat, if_neg hat]
  by_cases htx : buf 0 = apiIdTxStat
  · rw [if_pos htx, if_pos htx]
    rfl
  rw [if_neg htx, if_neg htx]
  by_cases hrx : buf 0 = apiIdRx64
  · rw [if_pos hrx, if_pos hrx]
    split_ifs <;> rfl
  rw [if_neg hrx, if_neg hrx]
  by_cases hrx16 : buf 0 = apiIdRx16
  · rw [if_pos hrx16, if_pos hrx16]
  rw [if_neg hrx16, if_neg hrx16]
  by_cases hmod : buf 0 = apiIdModStat
  · rw [if_pos hmod, if_pos hmod]
    exact handleModemStatus_rfBuf x old (buf 1)
  · rw [if_neg hmod, if_neg hmod]

theorem missing_checksum (h0 : buf 0 = apiIdTxStat) :
    checksum buf 2 = 0 ↔ buf 1 = 0x76 := by
  rw [checksum_eq_zero_iff, slice_succ, slice_succ, slice_zero, List.nil_append, h0]
  generalize buf 1 = cs
  revert cs
  exact forall_byte (by decide +kernel)

theorem processFrame_agree (h : AgreeOn len buf buf') {x : XbeeState} (old : ℕ → UInt8)
    (hstatus : x.cb.txStat = true → len = 2 → buf 0 = apiIdTxStat → buf 1 = 0x76 →
      buf' 2 = buf 2) :
    SameOutcome (processFrame x buf len) (processFrame { x with rfBuf := old } buf' len) := by
  by_cases hlen : len < 2
  · simp only [processFrame, if_pos hlen]
    exact ⟨rfl, rfl⟩
  have hcheck : checksum buf' len = checksum buf len := by rw [checksum, checksum, h.slice_eq]
  simp only [processFrame, if_neg hlen, hcheck]
  by_cases hsum : checksum buf len = 0
  · rw [if_neg (not_not.mpr hsum), if_neg (not_not.mpr hsum)]
    have hread (hcb : x.cb.txStat = true) (h0 : buf 0 = apiIdTxStat) : buf' 2 = buf 2 := by
      by_cases htwo : len = 2
      · rw [htwo] at hsum
        exact hstatus hcb htwo h0 ((missing_checksum h0).mp hsum)
      · exact h 2 (by omega)
    obtain ⟨hstate, houts⟩ := dispatch_agree h (Nat.not_lt.mp hlen) hread
    have hold := dispatch_rfBuf x old buf' len
    rw [hold, SameOutcome, hstate]
    exact ⟨rfl, houts⟩
  · rw [if_pos hsum, if_pos hsum]
    exact ⟨rfl, rfl⟩

end Dispatch

section Step
variable {K : ℕ → Prop} {x y : XbeeState} {b : UInt8 × UInt32}

theorem processFrame_rfBuf (x : XbeeState) (buf : ℕ → UInt8) (len : ℕ) :
    (processFrame x buf len).1.rfBuf = x.rfBuf := by
  obtain ⟨init, hinit⟩ := (processFrame_frame x buf len).1
  rw [hinit]

theorem byteStep_rfBuf (x : XbeeState) (b : UInt8 × UInt32) (k : ℕ) :
    (byteStep x b).1.rfBuf k =
      if x.rfState = .data ∧ k = x.rfPos.toNat then b.1 else x.rfBuf k := by
  cases hx : x.rfState with
  | frame =>
    simp only [byteStep, processByte, hx]
    split_ifs <;> simp_all
  | length =>
    simp only [byteStep, processByte, hx]
    split_ifs <;> simp_all
  | data =>
    simp only [byteStep, processByte, hx]
    split_ifs <;> simp_all [processFrame_rfBuf]

theorem next_toNat_le (pos : UInt32) : (pos + 1).toNat ≤ pos.toNat + 1 :=
  UInt32.toNat_add .. ▸ Nat.mod_le ..

theorem held_step {k : ℕ} (h : Held (byteStep x b).1 k) :
    Held x k ∨ x.rfState = .data ∧ k = x.rfPos.toNat := by
  obtain ⟨hstate, hk⟩ := h
  cases hx : x.rfState with
  | frame =>
    simp only [byteStep, processByte, hx] at hstate
    split_ifs at hstate
    cases hx.symm.trans hstate
  | length =>
    simp only [byteStep, processByte, hx] at hstate hk
    by_cases hend : x.rfPos + 1 = 2
    · simp only [if_pos hend] at hk
      exact absurd hk (Nat.not_lt_zero k)
    · simp only [if_neg hend] at hstate
      cases hstate
  | data =>
    simp only [byteStep, processByte, hx] at hstate hk
    by_cases hend : x.rfPos + 1 = x.rfFrameLen + 1
    · simp only [if_pos hend, processFrame_rfState] at hstate
      cases hstate
    · simp only [if_neg hend] at hk
      have hnext := next_toNat_le x.rfPos
      by_cases hlast : k = x.rfPos.toNat
      · exact Or.inr ⟨rfl, hlast⟩
      · exact Or.inl ⟨hx, by omega⟩

theorem stored_agree {old : ℕ → UInt8} (hheld : ∀ k, Held x k → K k)
    (hcells : ∀ k, K k → old k = x.rfBuf k) (hx : x.rfState = .data) (data : UInt8) :
    AgreeOn (x.rfPos + 1).toNat (Function.update x.rfBuf x.rfPos.toNat data)
      (Function.update old x.rfPos.toNat data) := by
  intro k hk
  have hnext := next_toNat_le x.rfPos
  by_cases hlast : k = x.rfPos.toNat
  · rw [hlast, Function.update_self, Function.update_self]
  · rw [Function.update_of_ne hlast, Function.update_of_ne hlast]
    exact hcells k (hheld k ⟨hx, by omega⟩)

theorem stored_status {old : ℕ → UInt8} (hcells : ∀ k, K k → old k = x.rfBuf k)
    (hx : x.rfState = .data) (hend : x.rfPos = x.rfFrameLen) {data : UInt8}
    (hsafe : K 2 ∨ ¬ StatusMissing x data) (hcb : x.cb.txStat = true)
    (htwo : (x.rfPos + 1).toNat = 2)
    (h0 : Function.update x.rfBuf x.rfPos.toNat data 0 = apiIdTxStat)
    (h1 : Function.update x.rfBuf x.rfPos.toNat data 1 = 0x76) :
    Function.update old x.rfPos.toNat data 2 = Function.update x.rfBuf x.rfPos.toNat data 2 := by
  have hpos : x.rfPos = 1 := by
    have heq : x.rfPos + 1 = 1 + 1 := UInt32.toNat_inj.mp htwo
    exact (UInt32.add_left_inj 1).mp heq
  have hone : x.rfPos.toNat = 1 := by
    rw [hpos]
    rfl
  rw [hone, Function.update_of_ne (by decide)] at h0
  rw [hone, Function.update_self] at h1
  rw [hone, Function.update_of_ne (by decide), Function.update_of_ne (by decide)]
  rcases hsafe with hknown | hmissing
  · exact hcells 2 hknown
  · exact absurd ⟨hcb, hx, hend ▸ hpos, hpos, h0, h1⟩ hmissing

theorem byteStep_agree (hheld : ∀ k, Held x k → K k) (h : AgreeAt K x y)
    (hsafe : K 2 ∨ ¬ StatusMissing x b.1) : SameOutcome (byteStep x b) (byteStep y b) := by
  obtain ⟨hy, hcells⟩ := h
  generalize y.rfBuf = old at hy hcells
  subst hy
  obtain ⟨cb, rfState, rfFrameLen, rfPos, rfBuf, rfFrameId, rfFrameTimer, coordinator, init⟩ := x
  cases rfState with
  | frame =>
    simp only [byteStep, processByte]
    split_ifs <;> exact ⟨rfl, rfl⟩
  | length =>
    simp only [byteStep, processByte, joinLength]
    split_ifs <;> exact ⟨rfl, rfl⟩
  | data =>
    simp only [byteStep, processByte]
    split_ifs with hlast
    · have hend : rfPos = rfFrameLen := (UInt32.add_left_inj 1).mp hlast
      obtain ⟨hstate, houts⟩ := processFrame_agree
        (x := ⟨cb, .frame, rfFrameLen, rfPos + 1, Function.update rfBuf rfPos.toNat b.1, rfFrameId,
          0, coordinator, init⟩) (stored_agree hheld hcells rfl b.1)
        (Function.update old rfPos.toNat b.1) (stored_status hcells rfl hend hsafe)
      exact ⟨hstate, houts⟩
    · exact ⟨rfl, rfl⟩

theorem AgreeAt.rfState (h : AgreeAt K x y) : y.rfState = x.rfState := by rw [h.fields]

theorem AgreeAt.rfPos (h : AgreeAt K x y) : y.rfPos = x.rfPos := by rw [h.fields]

theorem byteStep_agreeAt (hheld : ∀ k, Held x k → K k) (h : AgreeAt K x y)
    (hsafe : K 2 ∨ ¬ StatusMissing x b.1) :
    AgreeAt (fun k => K k ∨ x.rfState = .data ∧ k = x.rfPos.toNat) (byteStep x b).1
      (byteStep y b).1 := by
  refine ⟨(byteStep_agree hheld h hsafe).1, fun k hk => ?_⟩
  rw [byteStep_rfBuf, byteStep_rfBuf, h.rfState, h.rfPos]
  split_ifs with hstored
  · rfl
  · exact h.cells k (hk.resolve_right hstored)

theorem run_agree (hheld : ∀ k, Held x k → K k) (h : AgreeAt K x y)
    {bs : List (UInt8 × UInt32)} (hsafe : K 2 ∨ ¬ ReadsStale x bs) :
    SameOutcome (after byteStep x bs, outputs byteStep x bs)
      (after byteStep y bs, outputs byteStep y bs) := by
  induction bs generalizing K x y with
  | nil => exact ⟨h.fields, rfl⟩
  | cons b bs ih =>
    have hstep : K 2 ∨ ¬ StatusMissing x b.1 := hsafe.imp_right fun hs hm => hs (Or.inl hm)
    have hrest : (K 2 ∨ x.rfState = .data ∧ 2 = x.rfPos.toNat) ∨
        ¬ ReadsStale (byteStep x b).1 bs := by
      rcases hsafe with hknown | hstale
      · exact Or.inl (Or.inl hknown)
      · by_cases hcell : x.rfState = .data ∧ x.rfPos = 2
        · exact Or.inl (Or.inr ⟨hcell.1, by rw [hcell.2]; rfl⟩)
        · exact Or.inr fun hs => hstale (Or.inr ⟨hcell, hs⟩)
    obtain ⟨hstate, houts⟩ := ih (fun k hk => (held_step hk).imp_left (hheld k))
      (byteStep_agreeAt hheld h hstep) hrest
    refine ⟨hstate, ?_⟩
    simp only [outputs_cons, List.filterMap_append]
    rw [(byteStep_agree hheld h hstep).2]
    exact congrArg _ houts

theorem byteStep_missing (h : StatusMissing x b.1) :
    (byteStep x b).2.filterMap shown = (handleTxStatus x 0x76 (x.rfBuf 2)).filterMap shown := by
  obtain ⟨-, hx, hlen, hpos, h0, hdata⟩ := h
  have hone : x.rfPos.toNat = 1 := by
    rw [hpos]
    rfl
  have hbuf0 : (finished x b.1).rfBuf 0 = apiIdTxStat := by
    simp only [finished, stored, hone, Function.update_of_ne (by decide : 0 ≠ 1), h0]
  have hbuf1 : (finished x b.1).rfBuf 1 = 0x76 := by
    simp only [finished, stored, hone, Function.update_self, hdata]
  have hbuf2 : (finished x b.1).rfBuf 2 = x.rfBuf 2 := by
    simp only [finished, stored, hone, Function.update_of_ne (by decide : 2 ≠ 1)]
  have hsum := (missing_checksum hbuf0).mpr hbuf1
  have hrun : processFrame (finished x b.1) (finished x b.1).rfBuf 2 =
      (finished x b.1, handleTxStatus x 0x76 (x.rfBuf 2)) := by
    rw [processFrame, if_neg (by decide), if_neg (not_not.mpr hsum), dispatch, hbuf0, hbuf1, hbuf2,
      if_neg (by decide), if_pos rfl]
    rfl
  have hlast := processByte_last hx (hpos.trans hlen.symm) b.1 b.2
  rw [hpos, show ((1 : UInt32) + 1).toNat = 2 from rfl, hrun] at hlast
  rw [byteStep, hlast]
  rfl

theorem AgreeAt.statusMissing (h : AgreeAt (· ≠ 2) x y) {data : UInt8}
    (hmiss : StatusMissing x data) : StatusMissing y data := by
  rw [h.fields]
  obtain ⟨hcb, hx, hlen, hpos, h0, hdata⟩ := hmiss
  exact ⟨hcb, hx, hlen, hpos, (h.cells 0 (by decide)).trans h0, hdata⟩

theorem byteStep_spares (hheld : ¬ Held x 2) (h : AgreeAt (· ≠ 2) x y)
    (hmiss : ¬ StatusMissing x b.1) (hother : ¬ (x.rfState = .data ∧ 2 = x.rfPos.toNat)) :
    (byteStep y b).2.filterMap shown = (byteStep x b).2.filterMap shown ∧
      AgreeAt (· ≠ 2) (byteStep x b).1 (byteStep y b).1 ∧
      (byteStep y b).1.rfBuf 2 = y.rfBuf 2 := by
  have hknown : ∀ k, Held x k → k ≠ 2 := fun k hk heq => hheld (heq ▸ hk)
  have hnext := byteStep_agreeAt hknown h (Or.inr hmiss)
  refine ⟨(byteStep_agree hknown h (Or.inr hmiss)).2,
    ⟨hnext.fields, fun k hk => hnext.cells k (Or.inl hk)⟩, ?_⟩
  rw [byteStep_rfBuf, h.rfState, h.rfPos, if_neg hother]

theorem stale_told_apart {z : XbeeState} (hheld : ¬ Held x 2) (hy : AgreeAt (· ≠ 2) x y)
    (hz : AgreeAt (· ≠ 2) x z) (hy2 : y.rfBuf 2 = 0) (hz2 : z.rfBuf 2 = 1)
    {bs : List (UInt8 × UInt32)} (h : ReadsStale x bs) :
    (outputs byteStep y bs).filterMap shown ≠ (outputs byteStep z bs).filterMap shown := by
  induction bs generalizing x y z with
  | nil => exact h.elim
  | cons b bs ih =>
    intro heq
    simp only [outputs_cons, List.filterMap_append] at heq
    by_cases hmiss : StatusMissing x b.1
    · have hmissy := hy.statusMissing hmiss
      have hmissz := hz.statusMissing hmiss
      rw [byteStep_missing hmissy, byteStep_missing hmissz] at heq
      simp [handleTxStatus, hmissy.1, hmissz.1, hy2, hz2, shown] at heq
    · obtain ⟨hcell, hrest⟩ := h.resolve_left hmiss
      have hother : ¬ (x.rfState = .data ∧ 2 = x.rfPos.toNat) :=
        fun hstored => hcell ⟨hstored.1, UInt32.toNat_inj.mp hstored.2.symm⟩
      have hnext : ¬ Held (byteStep x b).1 2 := fun hk => (held_step hk).elim hheld hother
      obtain ⟨hyouts, hystate, hycell⟩ := byteStep_spares hheld hy hmiss hother
      obtain ⟨hzouts, hzstate, hzcell⟩ := byteStep_spares hheld hz hmiss hother
      rw [hyouts, hzouts] at heq
      exact ih hnext hystate hzstate (hycell.trans hy2) (hzcell.trans hz2) hrest
        (List.append_cancel_left heq)

theorem independent_iff (x : XbeeState) (bs : List (UInt8 × UInt32)) :
    Independent x bs ↔ ¬ (¬ Held x 2 ∧ ReadsStale x bs) := by
  constructor
  · rintro hind ⟨hheld, hstale⟩
    have hagree (v : UInt8) : AgreeAt (fun k => Held x k ∨ bufSz ≤ k) x
        { x with rfBuf := Function.update x.rfBuf 2 v } := by
      refine ⟨rfl, fun k hk => Function.update_of_ne (fun heq => ?_) ..⟩
      subst heq
      exact hk.elim hheld (by decide)
    have hother (v : UInt8) :
        AgreeAt (· ≠ 2) x { x with rfBuf := Function.update x.rfBuf 2 v } :=
      ⟨rfl, fun k hk => Function.update_of_ne hk ..⟩
    have hboth := (hind _ (hagree 0)).2.trans (hind _ (hagree 1)).2.symm
    exact stale_told_apart hheld (hother 0) (hother 1) (Function.update_self 2 0 x.rfBuf)
      (Function.update_self 2 1 x.rfBuf) hstale hboth
  · intro hnot y hy
    refine run_agree (fun k hk => Or.inl hk) hy ?_
    by_cases hheld : Held x 2
    · exact Or.inl (Or.inl hheld)
    · exact Or.inr fun hstale => hnot ⟨hheld, hstale⟩

end Step

def frameBytes (body : List UInt8) (cs : UInt8) : List UInt8 :=
  startDel :: UInt8.ofNat (body.length / 2 ^ 8) :: UInt8.ofNat body.length :: (body ++ [cs])

theorem readsStale_next {x : XbeeState} (h : x.rfState = .data → x.rfPos = 0) (b : UInt8 × UInt32)
    (bs : List (UInt8 × UInt32)) : ReadsStale x (b :: bs) ↔ ReadsStale (byteStep x b).1 bs := by
  have hmiss : ¬ StatusMissing x b.1 := by
    rintro ⟨-, hx, -, hone, -⟩
    exact absurd ((h hx).symm.trans hone) (by decide)
  have hcell : ¬ (x.rfState = .data ∧ x.rfPos = 2) := by
    rintro ⟨hx, htwo⟩
    exact absurd ((h hx).symm.trans htwo) (by decide)
  rw [ReadsStale, or_iff_right hmiss, and_iff_right hcell]

theorem byteStep_body {x : XbeeState} (hx : x.rfState = .data)
    (hpos : x.rfPos.toNat < x.rfFrameLen.toNat) (b : UInt8 × UInt32) :
    (byteStep x b).1 = stored x b.1 := by
  rw [byteStep, processByte_body hx hpos]

theorem not_readsStale_long {x : XbeeState} (hx : x.rfState = .data) (hpos : x.rfPos = 0)
    (hlong : 1 < x.rfFrameLen.toNat) (b b' b'' : UInt8 × UInt32) (bs : List (UInt8 × UInt32)) :
    ¬ ReadsStale x (b :: b' :: b'' :: bs) := by
  have hzero : x.rfPos.toNat = 0 := by
    rw [hpos]
    rfl
  have hlen : x.rfFrameLen ≠ 1 := by
    intro hone
    rw [hone] at hlong
    exact absurd hlong (by decide)
  have hstep := byteStep_body hx (by omega) b
  have hsecond : (stored x b.1).rfPos = 1 := by
    rw [stored, hpos]
    rfl
  have hstep' := byteStep_body (x := stored x b.1) hx (by rw [hsecond]; exact hlong) b'
  have hthird : (stored (stored x b.1) b'.1).rfPos = 2 := by
    rw [stored, hsecond]
    rfl
  rw [readsStale_next (fun _ => hpos), hstep]
  rintro (⟨-, -, hone, -⟩ | ⟨-, hrest⟩)
  · exact hlen hone
  · rw [hstep'] at hrest
    rcases hrest with ⟨-, -, -, hone, -⟩ | ⟨hcell, -⟩
    · exact absurd (hthird.symm.trans hone) (by decide)
    · exact hcell ⟨hx, hthird⟩

theorem readsStale_body {x : XbeeState} (hx : x.rfState = .data) (hpos : x.rfPos = 0)
    {body : List UInt8} {cs : UInt8} (hlen : x.rfFrameLen.toNat = body.length)
    {bs : List (UInt8 × UInt32)} (hbs : bs.map Prod.fst = body ++ [cs]) :
    ReadsStale x bs ↔ x.cb.txStat = true ∧ body = [apiIdTxStat] ∧ cs = 0x76 := by
  have hzero : x.rfPos.toNat = 0 := by
    rw [hpos]
    rfl
  match body, hlen, hbs with
  | [], hlen, hbs =>
    obtain ⟨b, rest, rfl, -, hrest⟩ := List.map_eq_cons_iff.mp hbs
    rw [readsStale_next (fun _ => hpos), List.map_eq_nil_iff.mp hrest]
    simp [ReadsStale]
  | [c], hlen, hbs =>
    obtain ⟨b, rest, rfl, hc, hrest⟩ := List.map_eq_cons_iff.mp hbs
    obtain ⟨b', rest', rfl, hcs, hrest'⟩ := List.map_eq_cons_iff.mp hrest
    rw [List.length_singleton] at hlen
    have hstep := byteStep_body hx (by omega) b
    have hone : x.rfFrameLen = 1 := UInt32.toNat_inj.mp hlen
    have hcell : (stored x b.1).rfBuf 0 = c := by
      simp only [stored, hzero, Function.update_self, hc]
    have hnext : (stored x b.1).rfPos = 1 := by
      simp only [stored, hpos, UInt32.zero_add]
    rw [readsStale_next (fun _ => hpos), List.map_eq_nil_iff.mp hrest', hstep]
    simp only [ReadsStale, StatusMissing, hcell, hnext, hcs, List.cons.injEq, and_true, and_false,
      or_false]
    simp only [stored, hx, hone, true_and]
  | c :: c' :: body, hlen, hbs =>
    obtain ⟨b, rest, rfl, hc, hrest⟩ := List.map_eq_cons_iff.mp hbs
    obtain ⟨b', rest', rfl, hc', hrest'⟩ := List.map_eq_cons_iff.mp hrest
    obtain ⟨b'', rest'', rfl⟩ : ∃ b'' rest'', rest' = b'' :: rest'' := by
      cases rest' with
      | nil => simp at hrest'
      | cons b'' rest'' => exact ⟨b'', rest'', rfl⟩
    rw [List.length_cons, List.length_cons] at hlen
    refine iff_of_false (not_readsStale_long hx hpos (by omega) b b' b'' rest'') ?_
    simp

theorem readsStale_frame {x : XbeeState} (hx : x.rfState = .frame) {body : List UInt8} {cs : UInt8}
    (hlen : body.length ≤ bufSz) {bs : List (UInt8 × UInt32)}
    (hbs : bs.map Prod.fst = frameBytes body cs) :
    ReadsStale x bs ↔ x.cb.txStat = true ∧ body = [apiIdTxStat] ∧ cs = 0x76 := by
  have hsz : bufSz = 200 := rfl
  obtain ⟨⟨_, t₀⟩, bs₁, rfl, rfl, hbs₁⟩ := List.map_eq_cons_iff.mp hbs
  obtain ⟨⟨_, t₁⟩, bs₂, rfl, rfl, hbs₂⟩ := List.map_eq_cons_iff.mp hbs₁
  obtain ⟨⟨_, t₂⟩, tail, rfl, rfl, htail⟩ := List.map_eq_cons_iff.mp hbs₂
  have hstart := processByte_start hx t₀
  have hlength : (byteStep x (startDel, t₀)).1.rfState = .length := by rw [byteStep, hstart]
  have hlength' (hi : UInt8) : (byteStep (byteStep x (startDel, t₀)).1 (hi, t₁)).1.rfState =
      .length := by
    have hhigh := processByte_lengthHigh hlength (by rw [byteStep, hstart])
      (by rw [byteStep, hstart]) hi t₁
    rw [byteStep, hhigh, hlength]
  rw [readsStale_next fun hdata => absurd (hx.symm.trans hdata) (by decide),
    readsStale_next fun hdata => absurd (hlength.symm.trans hdata) (by decide),
    readsStale_next fun hdata => absurd ((hlength' _).symm.trans hdata) (by decide)]
  have hheader := (feed_header hx (UInt8.ofNat (body.length / 2 ^ 8)) (UInt8.ofNat body.length)
    t₀ t₁ t₂).1
  simp only [after_cons, after_nil] at hheader
  rw [hheader]
  refine readsStale_body rfl rfl ?_ htail
  rw [clamp_toNat, word16_toNat, UInt8.toNat_ofNat', UInt8.toNat_ofNat']
  omega

/-- Part one is about every receiver, also one inside a frame, and every sequence of bytes. -/
theorem frames_independent_iff (x : XbeeState) :
    (∀ bs, Independent x bs ↔ ¬ (¬ Held x 2 ∧ ReadsStale x bs)) ∧
    (x.rfState = .frame → ∀ (body : List UInt8) (cs : UInt8) (bs : List (UInt8 × UInt32)),
      body.length ≤ bufSz → bs.map Prod.fst = frameBytes body cs →
      (Independent x bs ↔ ¬ (x.cb.txStat = true ∧ body = [apiIdTxStat] ∧ cs = 0x76))) := by
  refine ⟨independent_iff x, fun hx body cs bs hlen hbs => ?_⟩
  have hheld : ¬ Held x 2 := fun hk => absurd (hx.symm.trans hk.1) (by decide)
  rw [independent_iff, readsStale_frame hx hlen hbs, and_iff_right hheld]

def reported (status : UInt8) : XbeeState :=
  after byteStep (start ⟨true, true, true, true⟩ false)
    ((frameBytes [apiIdTxStat, 5, status] (0x71 - status)).map fun b => (b, 0))

theorem frames_independent_modemStatus :
    Independent (reported 0) ((frameBytes [apiIdModStat, 2] 0x73).map fun b => (b, 0)) := by
  have hidle : (reported 0).rfState = .frame := by rfl
  refine ((frames_independent_iff (reported 0)).2 hidle [apiIdModStat, 2] 0x73 _ (by decide)
    rfl).mpr ?_
  simp

def shortStatus : List (UInt8 × UInt32) := (frameBytes [apiIdTxStat] 0x76).map fun b => (b, 0)

theorem short_status_reads_earlier_frame :
    AgreeAt (fun k => Held (reported 0) k ∨ bufSz ≤ k) (reported 0) (reported 1) ∧
      ¬ SameOutcome
        (after byteStep (reported 0) shortStatus, outputs byteStep (reported 0) shortStatus)
        (after byteStep (reported 1) shortStatus, outputs byteStep (reported 1) shortStatus) := by
  constructor
  · refine ⟨by rfl, fun k hk => ?_⟩
    have hidle : (reported 0).rfState = .frame := by rfl
    have hbehind : 4 ≤ k := by
      rcases hk with hheld | hle
      · exact absurd (hidle.symm.trans hheld.1) (by decide)
      · exact (by decide : 4 ≤ bufSz).trans hle
    have hold : (reported 0).rfBuf = fill (fun _ => 0) 0 [apiIdTxStat, 5, 0, 0x71] := by rfl
    have hnew : (reported 1).rfBuf = fill (fun _ => 0) 0 [apiIdTxStat, 5, 1, 0x70] := by rfl
    rw [hold, hnew, fill_apply_behind _ _ _ (by simpa using hbehind),
      fill_apply_behind _ _ _ (by simpa using hbehind)]
  · intro hsame
    have hok : (outputs byteStep (reported 0) shortStatus).filterMap shown =
        [.txStat 0x76 .ok] := by rfl
    have hnoAck : (outputs byteStep (reported 1) shortStatus).filterMap shown =
        [.txStat 0x76 .noAck] := by rfl
    have heq := hnoAck.symm.trans (hsame.2.trans hok)
    simp at heq

end AoaBoard.Xbee
