import AoaBoard.Usb.Enumeration

/-!
# What an accepted accessory rests on, and when the search ends

Every record before the endpoint that completes the pair lies in front of it, so
only its own bytes can stand behind the bytes received. No record is asked
whether it is as long as the descriptor that it is taken for. The search hangs
on records of size zero.
-/

namespace AoaBoard.Usb.Descriptors
open Library.Bytes Library.Records

/-- The record at `o` declares the `size` bytes of its type, and lies inside the first `n` bytes. -/
def Inside (m : ℕ → UInt8) (n size o : ℕ) : Prop :=
  size ≤ (m o).toNat ∧ o + (m o).toNat ≤ n

def interfaceSize : ℕ := 9
def endpointSize : ℕ := 7

structure AccessoryInterface (m : ℕ → UInt8) (n o : ℕ) : Prop where
  inside : Inside m n interfaceSize o
  type : m (o + 1) = dtypeInterface
  interfaceClass : m (o + 5) = androidInterfaceClass
  subClass : m (o + 6) = androidInterfaceSubclass
  protocol : m (o + 7) = androidInterfaceProtocol

structure BulkEndpoint (m : ℕ → UInt8) (o : ℕ) : Prop where
  type : m (o + 1) = dtypeEndpoint
  bulk : m (o + 3) &&& epTypeMask = epTypeBulk

def isIN (m : ℕ → UInt8) (o : ℕ) : Prop := m (o + 2) &&& endpointDirMask = endpointDirIn

/-- The received bytes contain an accessory interface and behind it, before any further
interface, the bulk endpoints at `dataIN` and `dataOUT`. -/
structure Evidence (m : ℕ → UInt8) (n dataIN dataOUT : ℕ) : Prop where
  interface : ∃ a b c, a < b ∧ a < c ∧ AccessoryInterface m n (pos m n a) ∧
    pos m n b = dataIN ∧ pos m n c = dataOUT ∧
    ∀ j, a < j → j ≤ max b c → m (pos m n j + 1) ≠ dtypeInterface
  dataIN : BulkEndpoint m dataIN ∧ isIN m dataIN ∧ Inside m n endpointSize dataIN
  dataOUT : BulkEndpoint m dataOUT ∧ ¬ isIN m dataOUT ∧ Inside m n endpointSize dataOUT

def Meets (m : ℕ → UInt8) (n j : ℕ) : Prop :=
  phase m n j = .seeking ∧ dcompNextAndroidAccessoryInterface m (pos m n (j + 1)) = .found

structure Collected (m : ℕ → UInt8) (n a k : ℕ) (e : Endpoints) : Prop where
  le : a ≤ k
  accessory : ∃ j, a = j + 1 ∧ Meets m n j
  noInterface : ∀ j, a < j → j ≤ k → m (pos m n j + 1) ≠ dtypeInterface
  dataIN : ∀ o, e.dataIN = some o →
    ∃ b, a < b ∧ b ≤ k ∧ pos m n b = o ∧ BulkEndpoint m o ∧ isIN m o
  dataOUT : ∀ o, e.dataOUT = some o →
    ∃ c, a < c ∧ c ≤ k ∧ pos m n c = o ∧ BulkEndpoint m o ∧ ¬ isIN m o

variable {m : ℕ → UInt8} {n a k : ℕ} {e : Endpoints}

theorem bulkEndpoint_of_found {o : ℕ} (h : dcompNextInterfaceBulkEndpoint m o = .found) :
    BulkEndpoint m o := by
  unfold dcompNextInterfaceBulkEndpoint at h
  split_ifs at h with htype hbulk
  exact ⟨htype, hbulk.1⟩

theorem fail_of_type {o : ℕ} (h : m (o + 1) = dtypeInterface) :
    dcompNextInterfaceBulkEndpoint m o = .fail := by
  have hne : ¬ dtypeInterface = dtypeEndpoint := by decide
  rw [dcompNextInterfaceBulkEndpoint, h, if_neg hne, if_pos rfl]

theorem type_of_accessory {o : ℕ} (h : dcompNextAndroidAccessoryInterface m o = .found) :
    m (o + 1) = dtypeInterface ∧ m (o + 5) = androidInterfaceClass ∧
      m (o + 6) = androidInterfaceSubclass ∧ m (o + 7) = androidInterfaceProtocol := by
  unfold dcompNextAndroidAccessoryInterface at h
  split_ifs at h with htype hclass
  exact ⟨htype, hclass⟩

theorem Collected.step (h : Collected m n a k e)
    (hnext : m (pos m n (k + 1) + 1) ≠ dtypeInterface) : Collected m n a (k + 1) e where
  le := h.le.trans (Nat.le_succ k)
  accessory := h.accessory
  noInterface := fun j hj hle => by
    rcases hle.eq_or_lt with rfl | hlt
    · exact hnext
    · exact h.noInterface j hj (Nat.le_of_lt_succ hlt)
  dataIN := fun o ho => by
    obtain ⟨b, hab, hbk, hb⟩ := h.dataIN o ho
    exact ⟨b, hab, hbk.trans (Nat.le_succ k), hb⟩
  dataOUT := fun o ho => by
    obtain ⟨c, hac, hck, hc⟩ := h.dataOUT o ho
    exact ⟨c, hac, hck.trans (Nat.le_succ k), hc⟩

theorem Collected.store (h : Collected m n a k e)
    (hfound : dcompNextInterfaceBulkEndpoint m (pos m n (k + 1)) = .found) :
    Collected m n a (k + 1) (storeEndpoint m e (pos m n (k + 1))) := by
  have hbulk := bulkEndpoint_of_found hfound
  have hne : m (pos m n (k + 1) + 1) ≠ dtypeInterface := by
    rw [hbulk.type]
    decide
  have hstep := h.step hne
  have hlt : a < k + 1 := Nat.lt_succ_of_le h.le
  unfold storeEndpoint
  split_ifs with hin
  · refine ⟨hstep.le, hstep.accessory, hstep.noInterface, fun o ho => ?_, hstep.dataOUT⟩
    cases ho
    exact ⟨k + 1, hlt, le_rfl, rfl, hbulk, hin⟩
  · refine ⟨hstep.le, hstep.accessory, hstep.noInterface, hstep.dataIN, fun o ho => ?_⟩
    cases ho
    exact ⟨k + 1, hlt, le_rfl, rfl, hbulk, hin⟩

theorem settle_eq_collecting {e e' : Endpoints} (h : settle e = .collecting e') : e' = e := by
  rcases settle_cases e with ⟨dataIN, dataOUT, hs⟩ | hs
  · rw [hs] at h
    cases h
  · rw [hs] at h
    cases h
    rfl

theorem settle_eq_done {dataIN dataOUT : ℕ} (h : settle e = .done dataIN dataOUT) :
    e = ⟨some dataIN, some dataOUT⟩ := by
  obtain ⟨_ | i, _ | u⟩ := e
  · cases h
  · cases h
  · cases h
  · cases h
    rfl

theorem collected_of_collecting (h : phase m n k = .collecting e) : ∃ a, Collected m n a k e := by
  induction k generalizing e with
  | zero => cases h
  | succ k ih =>
    rw [phase_succ] at h
    cases hp : phase m n k with
    | seeking =>
      rw [hp] at h
      simp only [advance] at h
      split_ifs at h with hv
      cases h
      refine ⟨k + 1, le_rfl, ⟨k, rfl, hp, hv⟩,
        fun j hj hle => absurd (hj.trans_le hle) (lt_irrefl _),
        fun o ho => ?_, fun o ho => ?_⟩
      · cases ho
      · cases ho
    | collecting e' =>
      obtain ⟨a, ha⟩ := ih hp
      rw [hp] at h
      simp only [advance] at h
      cases hv : dcompNextInterfaceBulkEndpoint m (pos m n (k + 1)) with
      | found =>
        rw [hv] at h
        rw [settle_eq_collecting h]
        exact ⟨a, ha.store hv⟩
      | fail =>
        rw [hv] at h
        cases h
      | notFound =>
        rw [hv] at h
        cases h
        refine ⟨a, ha.step fun htype => ?_⟩
        rw [fail_of_type htype] at hv
        cases hv
    | done dataIN dataOUT =>
      rw [hp] at h
      cases h
    | failed =>
      rw [hp] at h
      cases h

theorem collected_of_done {dataIN dataOUT : ℕ} (hk : GoesOn m n k)
    (h : phase m n (k + 1) = .done dataIN dataOUT) :
    (pos m n (k + 1) = dataIN ∨ pos m n (k + 1) = dataOUT) ∧
      ∃ a, Collected m n a (k + 1) ⟨some dataIN, some dataOUT⟩ := by
  rw [phase_succ] at h
  cases hp : phase m n k with
  | seeking =>
    rw [hp] at h
    simp only [advance] at h
    split_ifs at h
  | collecting e =>
    obtain ⟨a, ha⟩ := collected_of_collecting hp
    rw [hp] at h
    simp only [advance] at h
    cases hv : dcompNextInterfaceBulkEndpoint m (pos m n (k + 1)) with
    | found =>
      rw [hv] at h
      have he := settle_eq_done h
      refine ⟨?_, a, he ▸ ha.store hv⟩
      simp only [storeEndpoint] at he
      split_ifs at he
      · exact .inl (Option.some.inj (congrArg Endpoints.dataIN he))
      · exact .inr (Option.some.inj (congrArg Endpoints.dataOUT he))
    | fail =>
      rw [hv] at h
      cases h
    | notFound =>
      rw [hv] at h
      cases h
  | done dataIN dataOUT => exact absurd hk (not_goesOn_of_inactive hp rfl)
  | failed => exact absurd hk (not_goesOn_of_inactive hp rfl)

theorem GoesOn.prev (h : GoesOn m n (k + 1)) : GoesOn m n k := by
  refine ⟨(position_mono (Nat.le_succ k)).trans_lt h.1, ?_⟩
  have hactive := h.2
  rw [phase_succ] at hactive
  cases hp : phase m n k with
  | seeking => rfl
  | collecting e => rfl
  | done dataIN dataOUT =>
    rw [hp] at hactive
    cases hactive
  | failed =>
    rw [hp] at hactive
    cases hactive

theorem GoesOn.of_le {j : ℕ} (h : GoesOn m n k) (hj : j ≤ k) : GoesOn m n j := by
  induction k, hj using Nat.le_induction with
  | base => exact h
  | succ k _ ih => exact ih h.prev

theorem endsAt_of_not_goesOn (h : ¬ GoesOn m n k) : ∃ K, EndsAt m n 0 K := by
  have hex : ∃ j, ¬ GoesOn m n j := ⟨k, h⟩
  exact ⟨Nat.find hex, Nat.zero_le _, fun _ _ hlt => not_not.mp (Nat.find_min hex hlt),
    Nat.find_spec hex⟩

theorem endsAt_succ (hk : GoesOn m n k) (h : ¬ GoesOn m n (k + 1)) : EndsAt m n 0 (k + 1) :=
  ⟨Nat.zero_le _, fun _ _ hlt => hk.of_le (Nat.le_of_lt_succ hlt), h⟩

theorem storeEndpoint_twice (m : ℕ → UInt8) (e : Endpoints) (o : ℕ) :
    storeEndpoint m (storeEndpoint m e o) o = storeEndpoint m e o := by
  unfold storeEndpoint
  split_ifs <;> rfl

theorem advance_again (p : Phase) (o : ℕ) (hactive : (advance m p o).active = true) :
    advance m (advance m p o) o = advance m p o ∨
      (advance m p o = .collecting ⟨none, none⟩ ∧ m (o + 1) = dtypeInterface ∧
        advance m (advance m p o) o = .failed) := by
  cases p with
  | seeking =>
    by_cases hv : dcompNextAndroidAccessoryInterface m o = .found
    · have htype := (type_of_accessory hv).1
      have hstep : advance m .seeking o = .collecting ⟨none, none⟩ := if_pos hv
      refine .inr ⟨hstep, htype, ?_⟩
      rw [hstep]
      simp only [advance, fail_of_type htype]
    · have hstep : advance m .seeking o = .seeking := if_neg hv
      rw [hstep]
      exact .inl hstep
  | collecting e =>
    refine .inl ?_
    cases hv : dcompNextInterfaceBulkEndpoint m o with
    | found =>
      have hstep (e : Endpoints) : advance m (.collecting e) o = settle (storeEndpoint m e o) := by
        simp only [advance, hv]
      rw [hstep] at hactive ⊢
      rcases settle_cases (storeEndpoint m e o) with ⟨dataIN, dataOUT, hs⟩ | hs
      · rw [hs] at hactive
        cases hactive
      · rw [hs, hstep, storeEndpoint_twice, hs]
    | fail =>
      simp only [advance, hv] at hactive
      cases hactive
    | notFound => simp only [advance, hv]
  | done dataIN dataOUT => cases hactive
  | failed => cases hactive

theorem pos_stuck (hzero : m (pos m n k) = 0) (j : ℕ) (hj : k ≤ j) : pos m n j = pos m n k :=
  @position_stuck (fun o => (m o).toNat) n k (congrArg UInt8.toNat hzero) j hj

/-- The scan does not get on from a record of size zero: it fails there, at the accepted
interface, or stays for ever. -/
theorem stuck (hm : m 1 = dtypeConfiguration) (hzero : m (pos m n k) = 0) (hk : GoesOn m n k) :
    (∀ j, k ≤ j → phase m n j = phase m n k) ∨
      (phase m n k = .collecting ⟨none, none⟩ ∧ m (pos m n k + 1) = dtypeInterface ∧
        phase m n (k + 1) = .failed) := by
  have hpos := pos_stuck hzero
  have hnext : phase m n (k + 1) = advance m (phase m n k) (pos m n k) := by
    rw [phase_succ, hpos _ (Nat.le_succ k)]
  have hstay (hsame : advance m (phase m n k) (pos m n k) = phase m n k) (j : ℕ) (hj : k ≤ j) :
      phase m n j = phase m n k := by
    induction j, hj using Nat.le_induction with
    | base => rfl
    | succ j hj ih => rw [phase_succ, ih, hpos _ (hj.trans (Nat.le_succ j)), hsame]
  cases k with
  | zero =>
    refine .inl (hstay ?_)
    have htype : ¬ m (pos m n 0 + 1) = dtypeInterface := by
      rw [show m (pos m n 0 + 1) = dtypeConfiguration from hm]
      decide
    simp only [phase, advance, dcompNextAndroidAccessoryInterface, if_neg htype]
    rfl
  | succ k =>
    have hthis : phase m n (k + 1) = advance m (phase m n k) (pos m n (k + 1)) := rfl
    have hactive := hk.2
    rw [hthis] at hactive
    rcases advance_again _ _ hactive with hsame | ⟨hcoll, htype, hfail⟩
    · exact .inl (hstay (by rw [hthis, hsame]))
    · exact .inr ⟨hthis.trans hcoll, htype, by rw [hnext, hthis, hfail]⟩

theorem not_goesOn_of_endsAt {K : ℕ} (h : EndsAt m n 0 K) {j : ℕ} (hj : K ≤ j) : ¬ GoesOn m n j :=
  fun hg => h.stops (hg.of_le hj)

theorem EndsAt.lt_of_goesOn {K : ℕ} (h : EndsAt m n 0 K) (hk : GoesOn m n k) : k < K :=
  lt_of_not_ge fun hle => not_goesOn_of_endsAt h hle hk

/-- The scan ends if and only if it meets no record of size zero but the accepted interface. -/
theorem endsAt_iff (hm : m 1 = dtypeConfiguration) :
    (∃ K, EndsAt m n 0 K) ↔ ∀ k, GoesOn m n k → m (pos m n k) = 0 →
      phase m n k = .collecting ⟨none, none⟩ ∧ m (pos m n k + 1) = dtypeInterface := by
  constructor
  · rintro ⟨K, hend⟩ k hk hzero
    rcases stuck hm hzero hk with hstay | ⟨hcoll, htype, -⟩
    · have hle := (hend.lt_of_goesOn hk).le
      refine absurd ⟨?_, ?_⟩ hend.stops
      · rw [pos_stuck hzero K hle]
        exact hk.1
      · rw [hstay K hle]
        exact hk.2
    · exact ⟨hcoll, htype⟩
  · intro h
    by_contra hnone
    have hall (k : ℕ) : GoesOn m n k := by
      by_contra hk
      exact hnone (endsAt_of_not_goesOn hk)
    have hsize (k : ℕ) : m (pos m n k) ≠ 0 := by
      intro hzero
      obtain ⟨hcoll, htype⟩ := h k (hall k) hzero
      have hnext : phase m n (k + 1) = .failed := by
        rw [phase_succ, hcoll, pos_stuck hzero (k + 1) (Nat.le_succ k)]
        simp only [advance, fail_of_type htype]
      exact not_goesOn_of_inactive hnext rfl (hall (k + 1))
    have hreach : pos m n n = n := position_reaches fun j _ hz =>
      hsize j (UInt8.toNat_inj.mp hz)
    exact (hall n).1.ne hreach

theorem sizes_of_done (hm : m 1 = dtypeConfiguration) {K dataIN dataOUT : ℕ}
    (hend : EndsAt m n 0 K) (hdone : phase m n K = .done dataIN dataOUT) (hk : k < K) :
    pos m n k < n ∧ m (pos m n k) ≠ 0 := by
  have hg := hend.before k (Nat.zero_le k) hk
  refine ⟨hg.1, fun hzero => ?_⟩
  have hactive := hg.2
  rcases stuck hm hzero hg with hstay | ⟨-, -, hfail⟩
  · rw [← hstay K hk.le, hdone] at hactive
    cases hactive
  · have hstop : ¬ GoesOn m n (k + 1) := not_goesOn_of_inactive hfail rfl
    have hlast : K = k + 1 := by
      have hle := hend.le
      by_contra hne
      exact hstop (hend.before (k + 1) (Nat.zero_le _) (by omega))
    rw [hlast, hfail] at hdone
    cases hdone

theorem before_last {K : ℕ} (hlast : pos m n K < n) {j : ℕ} (hj : j < K) :
    pos m n j + (m (pos m n j)).toNat ≤ n := by
  have hnext : pos m n (j + 1) ≤ pos m n K := position_mono hj
  have hlt : pos m n (j + 1) < n := hnext.trans_lt hlast
  have hstep : pos m n (j + 1) = pos m n j + (m (pos m n j)).toNat := by
    rw [pos, position_succ] at hlt ⊢
    exact next_of_lt hlt
  omega

/-- The interface and the endpoints of a completed pair declare the bytes of their types, and the
endpoint that completes it lies inside the received bytes. -/
structure PairInside (m : ℕ → UInt8) (n k dataIN dataOUT : ℕ) : Prop where
  interface : ∀ j, Meets m n j → interfaceSize ≤ (m (pos m n (j + 1))).toNat
  dataIN : endpointSize ≤ (m dataIN).toNat
  dataOUT : endpointSize ≤ (m dataOUT).toNat
  last : pos m n k + (m (pos m n k)).toNat ≤ n

theorem evidence_of_done {dataIN dataOUT : ℕ} (hk : GoesOn m n k)
    (hdone : phase m n (k + 1) = .done dataIN dataOUT)
    (hpair : PairInside m n (k + 1) dataIN dataOUT) : Evidence m n dataIN dataOUT := by
  obtain ⟨hends, a, hcoll⟩ := collected_of_done hk hdone
  have hlast : pos m n (k + 1) < n := by
    have hinside := hpair.last
    have hin := hpair.dataIN
    have hout := hpair.dataOUT
    unfold endpointSize at hin hout
    rcases hends with heq | heq
    · rw [heq] at hinside ⊢
      omega
    · rw [heq] at hinside ⊢
      omega
  have hinside {j : ℕ} (hj : j ≤ k + 1) : pos m n j + (m (pos m n j)).toNat ≤ n := by
    rcases hj.eq_or_lt with rfl | hlt
    · exact hpair.last
    · exact before_last hlast hlt
  obtain ⟨j, rfl, hmeets⟩ := hcoll.accessory
  obtain ⟨b, hab, hbk, hb, hbulkIN, hin⟩ := hcoll.dataIN dataIN rfl
  obtain ⟨c, hac, hck, hc, hbulkOUT, hout⟩ := hcoll.dataOUT dataOUT rfl
  have hinterface : Inside m n interfaceSize (pos m n (j + 1)) :=
    ⟨hpair.interface j hmeets, hinside hcoll.le⟩
  obtain ⟨htype, hclass, hsub, hprotocol⟩ := type_of_accessory hmeets.2
  refine ⟨⟨j + 1, b, c, hab, hac, ⟨hinterface, htype, hclass, hsub, hprotocol⟩, hb, hc,
    fun i hi hle => hcoll.noInterface i hi (hle.trans (max_le hbk hck))⟩, ?_, ?_⟩
  · exact ⟨hbulkIN, hin, hpair.dataIN, hb ▸ hinside hbk⟩
  · exact ⟨hbulkOUT, hout, hpair.dataOUT, hc ▸ hinside hck⟩

theorem seeking_prev (h : phase m n (k + 1) = .seeking) : phase m n k = .seeking := by
  rw [phase_succ] at h
  cases hp : phase m n k with
  | seeking => rfl
  | collecting e =>
    rw [hp] at h
    simp only [advance] at h
    cases hv : dcompNextInterfaceBulkEndpoint m (pos m n (k + 1)) with
    | found =>
      rw [hv] at h
      rcases settle_cases (storeEndpoint m e (pos m n (k + 1))) with ⟨i, o, hs⟩ | hs
      · rw [hs] at h
        cases h
      · rw [hs] at h
        cases h
    | fail =>
      rw [hv] at h
      cases h
    | notFound =>
      rw [hv] at h
      cases h
  | done dataIN dataOUT =>
    rw [hp] at h
    cases h
  | failed =>
    rw [hp] at h
    cases h

theorem Meets.unique {i j : ℕ} (hi : Meets m n i) (hj : Meets m n j) : i = j := by
  have hleave {j : ℕ} (hj : Meets m n j) (l : ℕ) (hl : j < l) : phase m n l ≠ .seeking := by
    induction l, hl using Nat.le_induction with
    | base =>
      intro h
      rw [phase_succ, hj.1] at h
      simp only [advance, if_pos hj.2] at h
      cases h
    | succ l _ ih => exact fun h => ih (seeking_prev h)
  rcases lt_trichotomy i j with hlt | heq | hlt
  · exact absurd hj.1 (hleave hi j hlt)
  · exact heq
  · exact absurd hi.1 (hleave hj i hlt)

theorem pos_inj (hsizes : ∀ j ≤ k, pos m n j < n ∧ m (pos m n j) ≠ 0) {i j : ℕ} (hi : i ≤ k)
    (h : pos m n i = pos m n j) : i = j := by
  have hgrows {i : ℕ} (hi : i ≤ k) {j : ℕ} (hij : i < j) : pos m n i < pos m n j := by
    have hstep : pos m n i < pos m n (i + 1) := by
      rw [pos, position_succ]
      exact (lt_next_iff (hsizes i hi).1).mpr fun hz => (hsizes i hi).2 (UInt8.toNat_inj.mp hz)
    exact hstep.trans_le (position_mono hij)
  rcases lt_trichotomy i j with hlt | heq | hlt
  · exact absurd h (hgrows hi hlt).ne
  · exact heq
  · exact absurd h (hgrows (hlt.le.trans hi) hlt).ne'

theorem pair_of_evidence (hm : m 1 = dtypeConfiguration) {dataIN dataOUT : ℕ} (hk : GoesOn m n k)
    (hdone : phase m n (k + 1) = .done dataIN dataOUT) (h : Evidence m n dataIN dataOUT) :
    PairInside m n (k + 1) dataIN dataOUT := by
  have hstop : ¬ GoesOn m n (k + 1) := not_goesOn_of_inactive hdone rfl
  obtain ⟨hends, a, hcoll⟩ := collected_of_done hk hdone
  have hlast : Inside m n endpointSize (pos m n (k + 1)) := by
    rcases hends with heq | heq
    · exact heq ▸ h.dataIN.2.2
    · exact heq ▸ h.dataOUT.2.2
  have hsizes (j : ℕ) (hj : j ≤ k + 1) : pos m n j < n ∧ m (pos m n j) ≠ 0 := by
    rcases hj.eq_or_lt with rfl | hlt
    · obtain ⟨hsize, hle⟩ := hlast
      unfold endpointSize at hsize
      exact ⟨by omega, fun hz => by rw [hz] at hsize; exact absurd hsize (by decide)⟩
    · exact sizes_of_done hm (endsAt_succ hk hstop) hdone hlt
  refine ⟨fun j hj => ?_, h.dataIN.2.2.1, h.dataOUT.2.2.1, hlast.2⟩
  obtain ⟨i, rfl, hmeets⟩ := hcoll.accessory
  obtain rfl := hmeets.unique hj
  obtain ⟨b, hib, hbk, hb, -⟩ := hcoll.dataIN dataIN rfl
  obtain ⟨c, hic, hck, hc, -⟩ := hcoll.dataOUT dataOUT rfl
  obtain ⟨a, b', c', hab, hac, hinterface, hb', hc', hnone⟩ := h.interface
  obtain rfl : b = b' := pos_inj hsizes hbk (hb.trans hb'.symm)
  obtain rfl : c = c' := pos_inj hsizes hck (hc.trans hc'.symm)
  have htype : m (pos m n (i + 1) + 1) = dtypeInterface := (type_of_accessory hmeets.2).1
  -- two interfaces with none between them and the last endpoint are one
  have hsame : a = i + 1 := by
    rcases lt_trichotomy a (i + 1) with hlt | heq | hlt
    · exact absurd htype (hnone (i + 1) hlt (hib.le.trans (le_max_left _ _)))
    · exact heq
    · exact absurd hinterface.type (hcoll.noInterface a hlt (hab.le.trans hbk))
  exact hsame ▸ hinterface.inside.1

def Fetched (device : ℕ → Request → Reply) (buf : ℕ → UInt8) (size : UInt16) (m : ℕ → UInt8) :
    Prop :=
  usbHostGetDeviceConfigDescriptor device 1 buf configBufferSize = .ok (size, m)

section Process
variable {device : ℕ → Request → Reply} {buf : ℕ → UInt8} {size : UInt16}

theorem Fetched.type (h : Fetched device buf size m) : m 1 = dtypeConfiguration := by
  simp only [Fetched, usbHostGetDeviceConfigDescriptor] at h
  split_ifs at h with _ _ _ htype
  cases h
  exact not_not.mp htype

theorem Fetched.process (h : Fetched device buf size m) (fuel : ℕ) :
    processConfigurationDescriptor fuel device buf = processDescriptors fuel size.toNat m := by
  rw [processConfigurationDescriptor, h]

theorem not_fetched (h : ∀ size m, ¬ Fetched device buf size m) : ∃ code, ∀ fuel,
    processConfigurationDescriptor fuel device buf = some ⟨configError code, none, [], []⟩ := by
  cases hget : usbHostGetDeviceConfigDescriptor device 1 buf configBufferSize with
  | error code => exact ⟨code, fun fuel => by rw [processConfigurationDescriptor, hget]⟩
  | ok r => exact absurd hget (h r.1 r.2)

theorem configError_ne (code : UInt8) : configError code ≠ .successfulConfigRead := by
  unfold configError
  split_ifs <;> exact ConfigCode.noConfusion

end Process

/-- A successful configuration rests on the received bytes, and the two pipes are configured from
the endpoints that it rests on. -/
def AcceptedOnEvidence (device : ℕ → Request → Reply) (buf : ℕ → UInt8) : Prop :=
  ∀ fuel r, processConfigurationDescriptor fuel device buf = some r →
    r.code = .successfulConfigRead → ∃ size m dataIN dataOUT, Fetched device buf size m ∧
      r.endpoints = some (dataIN, dataOUT) ∧
      r.pipes = [pipeConfig m androidDataInPipe .in dataIN,
        pipeConfig m androidDataOutPipe .out dataOUT] ∧ Evidence m size.toNat dataIN dataOUT

def answering (bytes : List UInt8) : ℕ → Request → Reply := fun _ _ => ⟨true, ofList bytes⟩

def inOnly : List UInt8 :=
  [9, 2, 25, 0, 1, 1, 0, 0x80, 50] ++ [9, 4, 0, 0, 2, 0xFF, 0xFF, 0x00, 0] ++
    [7, 5, 0x81, 2, 64, 0, 0]

def leftOver : ℕ → UInt8 := fill (fun _ => 0) 25 [7, 5, 0x02, 2, 64, 0, 0]

/-- Records that declare fewer bytes than their types have: an interface of two bytes and an IN
endpoint of four. -/
example : ∃ r, processConfigurationDescriptor 5 (answering ([9, 2, 29, 0, 1, 1, 0, 0x80, 50] ++
      [2, 4] ++ [7, 0x24, 0, 0xFF, 0xFF, 0, 0] ++ [4, 5, 0x81, 2] ++ [7, 5, 2, 2, 64, 0, 0]))
    (fun _ => 0) = some r ∧ r.endpoints = some (18, 22) := ⟨_, rfl, rfl⟩

def Decreasing (m : ℕ → UInt8) (w : Walk) : Prop :=
  (usbGetNextDescriptor m w).bytesRem < w.bytesRem

theorem decreasing_iff (hlt : pos m n k < n) :
    Decreasing m (walkAt m n k) ↔ m (pos m n k) ≠ 0 := by
  have hsucc := pos_succ m n k
  have hzero : m (pos m n k) = 0 ↔ (m (pos m n k)).toNat = 0 := UInt8.toNat_inj.symm
  rw [Decreasing, usbGetNextDescriptor_walkAt, Ne, hzero]
  simp only [walkAt]
  omega

theorem walks_decreasing_iff {K : ℕ} (hend : EndsAt m n 0 K) :
    (∀ w ∈ walks m n 0 K, Decreasing m w) ↔ ∀ k, GoesOn m n k → m (pos m n k) ≠ 0 := by
  simp only [walks, List.mem_map, List.mem_range'_1, zero_add, Nat.zero_le, true_and,
    forall_exists_index, and_imp, forall_apply_eq_imp_iff₂]
  constructor
  · intro h k hk
    exact (decreasing_iff hk.1).mp (h k (hend.lt_of_goesOn hk))
  · intro h k hlt
    have hk := hend.before k (Nat.zero_le k) hlt
    exact (decreasing_iff hk.1).mpr (h k hk)

/-- The search for an accessory ends, each step leaving fewer bytes, if and only if it steps from
no record of size zero; and it ends at all if and only if it meets none but the accepted
interface. -/
theorem enumeration_ends_iff (device : ℕ → Request → Reply) (buf : ℕ → UInt8) :
    ((∃ fuel r, processConfigurationDescriptor fuel device buf = some r ∧
        ∀ size m, Fetched device buf size m → ∀ w ∈ r.steps, Decreasing m w) ↔
      ∀ size m, Fetched device buf size m → ∀ k, GoesOn m size.toNat k →
        m (pos m size.toNat k) ≠ 0) ∧
    ((∃ fuel r, processConfigurationDescriptor fuel device buf = some r) ↔
      ∀ size m, Fetched device buf size m → ∀ k, GoesOn m size.toNat k →
        m (pos m size.toNat k) = 0 → phase m size.toNat k = .collecting ⟨none, none⟩ ∧
          m (pos m size.toNat k + 1) = dtypeInterface) := by
  by_cases hget : ∃ size m, Fetched device buf size m
  · obtain ⟨size, m, hget⟩ := hget
    have honly {P : UInt16 → (ℕ → UInt8) → Prop} :
        (∀ size m, Fetched device buf size m → P size m) ↔ P size m := by
      refine ⟨fun h => h size m hget, fun h size' m' hget' => ?_⟩
      cases hget.symm.trans hget'
      exact h
    have hends := endsAt_iff (n := size.toNat) hget.type
    simp only [honly, hget.process]
    rw [← hends]
    refine ⟨⟨?_, fun hsizes => ?_⟩, ⟨?_, ?_⟩⟩
    · rintro ⟨fuel, r, hr, hsteps⟩
      obtain ⟨K, hend, rfl⟩ := (processDescriptors_some_iff size.toNat m r).mp ⟨fuel, hr⟩
      rw [processed_steps] at hsteps
      exact (walks_decreasing_iff hend).mp hsteps
    · obtain ⟨K, hend⟩ := hends.mpr fun k hk hzero => absurd hzero (hsizes k hk)
      obtain ⟨fuel, hr⟩ := (processDescriptors_some_iff size.toNat m _).mpr ⟨K, hend, rfl⟩
      refine ⟨fuel, _, hr, ?_⟩
      rw [processed_steps]
      exact (walks_decreasing_iff hend).mpr hsizes
    · rintro ⟨fuel, r, hr⟩
      obtain ⟨K, hend, -⟩ := (processDescriptors_some_iff size.toNat m r).mp ⟨fuel, hr⟩
      exact ⟨K, hend⟩
    · rintro ⟨K, hend⟩
      obtain ⟨fuel, hr⟩ := (processDescriptors_some_iff size.toNat m _).mpr ⟨K, hend, rfl⟩
      exact ⟨fuel, _, hr⟩
  · push Not at hget
    obtain ⟨code, hcodes⟩ := not_fetched hget
    refine ⟨⟨fun _ size m h => absurd h (hget size m), fun _ => ⟨0, _, hcodes 0, ?_⟩⟩,
      ⟨fun _ size m h => absurd h (hget size m), fun _ => ⟨0, _, hcodes 0⟩⟩⟩
    exact fun size m h => absurd h (hget size m)

def emptyRecord : List UInt8 := [9, 2, 11, 0, 1, 1, 0, 0x80, 50] ++ [0, 0x24]

theorem empty_record_hangs :
    ¬ ∃ fuel r, processConfigurationDescriptor fuel (answering emptyRecord) (fun _ => 0) =
      some r := by
  rintro ⟨fuel, r, hr⟩
  obtain ⟨m, hget, hm⟩ : ∃ m, Fetched (answering emptyRecord) (fun _ => 0) 11 m ∧
      m = fun k => if k < 11 then ofList emptyRecord k else 0 := ⟨_, rfl, rfl⟩
  rw [hget.process] at hr
  obtain ⟨K, hend, -⟩ := (processDescriptors_some_iff 11 m r).mp ⟨fuel, hr⟩
  have hk : GoesOn m 11 1 := by
    rw [hm]
    decide
  have hzero : m (pos m 11 1) = 0 := by
    rw [hm]
    rfl
  have hseeking : phase m 11 1 = .seeking := by
    rw [hm]
    rfl
  obtain ⟨hcoll, -⟩ := (endsAt_iff hget.type).mp ⟨K, hend⟩ 1 hk hzero
  rw [hseeking] at hcoll
  cases hcoll

end AoaBoard.Usb.Descriptors
