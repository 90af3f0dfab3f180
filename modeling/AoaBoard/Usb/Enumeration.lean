import AoaBoard.Library.Records
import AoaBoard.Usb.Descriptors

/-!
# The search for an accessory, as one scan of the descriptor

The searches of `ProcessConfigurationDescriptor` follow each other without a gap,
so together they scan the positions of one walk. `phase` says what has been found
after `k` steps of it, and `GoesOn` that another step follows. The function ends
with the first step behind which the scan does not go on, and not at all if there
is none.
-/

namespace AoaBoard.Usb.Descriptors
open Library.Bytes Library.Records

def pos (m : ℕ → UInt8) (n : ℕ) : ℕ → ℕ := position (fun o => (m o).toNat) n

inductive Phase
  | seeking
  | collecting (e : Endpoints)
  | done (dataIN dataOUT : ℕ)
  | failed

def Phase.active : Phase → Bool
  | .seeking | .collecting _ => true
  | .done _ _ | .failed => false

def Phase.outcome : Phase → Option (ℕ × ℕ)
  | .done dataIN dataOUT => some (dataIN, dataOUT)
  | _ => none

def settle : Endpoints → Phase
  | ⟨some dataIN, some dataOUT⟩ => .done dataIN dataOUT
  | e => .collecting e

def advance (m : ℕ → UInt8) : Phase → ℕ → Phase
  | .seeking, o =>
    if dcompNextAndroidAccessoryInterface m o = .found then .collecting ⟨none, none⟩ else .seeking
  | .collecting e, o =>
    match dcompNextInterfaceBulkEndpoint m o with
    | .found => settle (storeEndpoint m e o)
    | .fail => .failed
    | .notFound => .collecting e
  | p, _ => p

def phase (m : ℕ → UInt8) (n : ℕ) : ℕ → Phase
  | 0 => .seeking
  | k + 1 => advance m (phase m n k) (pos m n (k + 1))

def GoesOn (m : ℕ → UInt8) (n k : ℕ) : Prop := pos m n k < n ∧ (phase m n k).active = true

instance decidableGoesOn (m : ℕ → UInt8) (n k : ℕ) : Decidable (GoesOn m n k) :=
  inferInstanceAs (Decidable (_ ∧ _))

def walkAt (m : ℕ → UInt8) (n k : ℕ) : Walk := ⟨n - pos m n k, pos m n k⟩

def walks (m : ℕ → UInt8) (n k d : ℕ) : List Walk := (List.range' k d).map (walkAt m n)

structure EndsAt (m : ℕ → UInt8) (n k K : ℕ) : Prop where
  le : k ≤ K
  before : ∀ j, k ≤ j → j < K → GoesOn m n j
  stops : ¬ GoesOn m n K

variable {m : ℕ → UInt8} {n k : ℕ}

theorem EndsAt.cons {K : ℕ} (h : EndsAt m n (k + 1) K) (hk : GoesOn m n k) : EndsAt m n k K where
  le := (Nat.le_succ k).trans h.le
  before := fun j hj hlt => by
    rcases hj.eq_or_lt with rfl | hj
    · exact hk
    · exact h.before j hj hlt
  stops := h.stops

theorem EndsAt.tail {K : ℕ} (h : EndsAt m n k K) (hk : GoesOn m n k) : EndsAt m n (k + 1) K where
  le := by
    rcases h.le.eq_or_lt with rfl | hlt
    · exact absurd hk h.stops
    · exact hlt
  before := fun j hj => h.before j (Nat.le_of_succ_le hj)
  stops := h.stops

theorem EndsAt.here (h : ¬ GoesOn m n k) : EndsAt m n k k :=
  ⟨le_rfl, fun _ hj hlt => absurd (hj.trans_lt hlt) (lt_irrefl k), h⟩

theorem EndsAt.unique {K : ℕ} (h : EndsAt m n k K) (hk : ¬ GoesOn m n k) : K = k := by
  rcases h.le.eq_or_lt with rfl | hlt
  · rfl
  · exact absurd (h.before k le_rfl hlt) hk

theorem walks_cons (m : ℕ → UInt8) (n k d : ℕ) :
    walks m n k (d + 1) = walkAt m n k :: walks m n (k + 1) d := rfl

theorem pos_succ (m : ℕ → UInt8) (n k : ℕ) :
    pos m n (k + 1) = pos m n k + min (m (pos m n k)).toNat (n - pos m n k) :=
  position_succ k

theorem pos_le (m : ℕ → UInt8) (n k : ℕ) : pos m n k ≤ n := position_le k

theorem usbGetNextDescriptor_walkAt (m : ℕ → UInt8) (n k : ℕ) :
    usbGetNextDescriptor m (walkAt m n k) = walkAt m n (k + 1) := by
  have hle := pos_le m n k
  have hsucc := pos_succ m n k
  have hsize : (if n - pos m n k < (m (pos m n k)).toNat then n - pos m n k
      else (m (pos m n k)).toNat) = min (m (pos m n k)).toNat (n - pos m n k) := by
    split_ifs <;> omega
  unfold usbGetNextDescriptor walkAt
  dsimp only
  rw [hsize, hsucc, Nat.sub_sub]

theorem bytesRem_walkAt : (walkAt m n k).bytesRem = 0 ↔ ¬ pos m n k < n := by
  have hle := pos_le m n k
  simp only [walkAt]
  omega

theorem phase_succ (m : ℕ → UInt8) (n k : ℕ) :
    phase m n (k + 1) = advance m (phase m n k) (pos m n (k + 1)) := rfl

def Scans (m : ℕ → UInt8) (n k : ℕ) (o : Option (ℕ × ℕ)) (steps : List Walk) : Prop :=
  ∃ K, EndsAt m n k K ∧ o = (phase m n K).outcome ∧ steps = walks m n k (K - k)

theorem Scans.cons {o : Option (ℕ × ℕ)} {steps : List Walk} (h : Scans m n (k + 1) o steps)
    (hk : GoesOn m n k) : Scans m n k o (walkAt m n k :: steps) := by
  obtain ⟨K, hend, ho, rfl⟩ := h
  have hle := hend.le
  have hsub : K - k = K - (k + 1) + 1 := by omega
  refine ⟨K, hend.cons hk, ho, ?_⟩
  rw [hsub, walks_cons]

theorem Scans.here {p : Phase} (hphase : phase m n k = p) (h : ¬ GoesOn m n k) :
    Scans m n k p.outcome [] := by
  refine ⟨k, .here h, by rw [hphase], ?_⟩
  rw [Nat.sub_self]
  rfl

theorem not_goesOn_of_inactive {p : Phase} (hphase : phase m n k = p) (hp : p.active = false) :
    ¬ GoesOn m n k := by
  rw [GoesOn, hphase, hp]
  exact fun hg => Bool.false_ne_true hg.2

section Search
variable {γ : Type} {comparator : ℕ → Comparison} {c : Searched → Option γ} {h : Walk → γ → γ}

theorem search_end (fuel : ℕ) (hend : ¬ pos m n k < n) :
    usbGetNextDescriptorComp m comparator fuel (walkAt m n k) =
      some ⟨.endOfDescriptor, walkAt m n k, []⟩ := by
  have hzero := bytesRem_walkAt.mpr hend
  cases fuel with
  | zero => exact if_pos hzero
  | succ fuel => exact if_pos hzero

theorem search_bind (hcons : ∀ w s, c { s with steps := w :: s.steps } = (c s).map (h w))
    (fuel : ℕ) (hlt : pos m n k < n) :
    (usbGetNextDescriptorComp m comparator (fuel + 1) (walkAt m n k)).bind c =
      match comparator (pos m n (k + 1)) with
      | .found => c ⟨.found, walkAt m n (k + 1), [walkAt m n k]⟩
      | .fail => c ⟨.fail, walkAt m n k, [walkAt m n k]⟩
      | .notFound => ((usbGetNextDescriptorComp m comparator fuel (walkAt m n (k + 1))).bind c).map
          (h (walkAt m n k)) := by
  have hrem : (walkAt m n k).bytesRem ≠ 0 := fun hz => bytesRem_walkAt.mp hz hlt
  rw [usbGetNextDescriptorComp, if_neg hrem, usbGetNextDescriptor_walkAt]
  have hloc : (walkAt m n (k + 1)).loc = pos m n (k + 1) := rfl
  simp only [hloc]
  cases comparator (pos m n (k + 1)) with
  | found => rfl
  | fail => rfl
  | notFound =>
    simp only
    cases usbGetNextDescriptorComp m comparator fuel (walkAt m n (k + 1)) with
    | none => rfl
    | some s => exact hcons _ s

end Search

def prepend (w : Walk) (f : Found) : Found := { f with steps := w :: f.steps }

def handOn (m : ℕ → UInt8) (fuel rounds : ℕ) (e : Endpoints) (s : Searched) : Option Found :=
  if s.result ≠ .found then some ⟨none, s.steps⟩
  else (endpointLoop m fuel rounds s.walk (storeEndpoint m e s.walk.loc)).map fun f =>
    { f with steps := s.steps ++ f.steps }

def roundFrom (m : ℕ → UInt8) (n fuel rounds left k : ℕ) (e : Endpoints) : Option Found :=
  (usbGetNextDescriptorComp m (dcompNextInterfaceBulkEndpoint m) left (walkAt m n k)).bind
    (handOn m fuel rounds e)

theorem handOn_cons (fuel rounds : ℕ) (e : Endpoints) (w : Walk) (s : Searched) :
    handOn m fuel rounds e { s with steps := w :: s.steps } =
      (handOn m fuel rounds e s).map (prepend w) := by
  simp only [handOn]
  split_ifs
  · rfl
  · rw [Option.map_map]
    rfl

theorem endpointLoop_settled {e : Endpoints} {dataIN dataOUT : ℕ}
    (h : settle e = .done dataIN dataOUT) (fuel rounds : ℕ) (w : Walk) :
    endpointLoop m fuel rounds w e = some ⟨some (dataIN, dataOUT), []⟩ := by
  obtain ⟨_ | dataIN', _ | dataOUT'⟩ := e
  · cases h
  · cases h
  · cases h
  · cases h
    cases rounds <;> rfl

theorem settle_cases (e : Endpoints) :
    (∃ dataIN dataOUT, settle e = .done dataIN dataOUT) ∨ settle e = .collecting e := by
  obtain ⟨_ | dataIN, _ | dataOUT⟩ := e
  · exact .inr rfl
  · exact .inr rfl
  · exact .inr rfl
  · exact .inl ⟨dataIN, dataOUT, rfl⟩

theorem endpointLoop_collecting {e : Endpoints} (h : settle e = .collecting e)
    (fuel rounds : ℕ) : endpointLoop m fuel (rounds + 1) (walkAt m n k) e =
      roundFrom m n fuel rounds fuel k e := by
  obtain ⟨_ | dataIN, _ | dataOUT⟩ := e
  · rfl
  · rfl
  · rfl
  · cases h

theorem endpointLoop_zero {e : Endpoints} (h : settle e = .collecting e) (fuel : ℕ) (w : Walk) :
    endpointLoop m fuel 0 w e = none := by
  obtain ⟨_ | dataIN, _ | dataOUT⟩ := e
  · rfl
  · rfl
  · rfl
  · cases h

theorem roundFrom_end (fuel rounds left : ℕ) (e : Endpoints) (hend : ¬ pos m n k < n) :
    roundFrom m n fuel rounds left k e = some ⟨none, []⟩ := by
  rw [roundFrom, search_end left hend]
  rfl

theorem roundFrom_succ (fuel rounds left : ℕ) (e : Endpoints) (hlt : pos m n k < n) :
    roundFrom m n fuel rounds (left + 1) k e =
      match dcompNextInterfaceBulkEndpoint m (pos m n (k + 1)) with
      | .found => (endpointLoop m fuel rounds (walkAt m n (k + 1))
          (storeEndpoint m e (pos m n (k + 1)))).map (prepend (walkAt m n k))
      | .fail => some ⟨none, [walkAt m n k]⟩
      | .notFound => (roundFrom m n fuel rounds left (k + 1) e).map (prepend (walkAt m n k)) := by
  rw [roundFrom, search_bind (handOn_cons fuel rounds e) left hlt]
  cases dcompNextInterfaceBulkEndpoint m (pos m n (k + 1)) with
  | found => rfl
  | fail => rfl
  | notFound => rfl

/-- A round ends as the scan ends, given fuel for the steps that are left. -/
theorem roundFrom_of_endsAt {e : Endpoints} {K : ℕ} (h : EndsAt m n k K)
    (hphase : phase m n k = .collecting e) {fuel rounds left : ℕ} (hfuel : K - k ≤ fuel)
    (hrounds : K - k ≤ rounds) (hleft : K - k ≤ left) :
    roundFrom m n fuel rounds left k e =
      some ⟨(phase m n K).outcome, walks m n k (K - k)⟩ := by
  obtain ⟨d, hd⟩ : ∃ d, K - k = d := ⟨_, rfl⟩
  induction d generalizing k e rounds left with
  | zero =>
    have hle := h.le
    obtain rfl : K = k := by omega
    have hactive : (phase m n K).active = true := by rw [hphase]; rfl
    rw [roundFrom_end fuel rounds left e fun hlt => h.stops ⟨hlt, hactive⟩, Nat.sub_self, hphase]
    rfl
  | succ d ih =>
    have hk := h.before k le_rfl (by omega)
    have htail := h.tail hk
    have hrest : K - (k + 1) = d := by omega
    obtain ⟨left, rfl⟩ : ∃ l, left = l + 1 := ⟨left - 1, by omega⟩
    obtain ⟨rounds, rfl⟩ : ∃ l, rounds = l + 1 := ⟨rounds - 1, by omega⟩
    have hnext : phase m n (k + 1) = advance m (.collecting e) (pos m n (k + 1)) := by
      rw [phase_succ, hphase]
    rw [roundFrom_succ fuel (rounds + 1) left e hk.1, hd, walks_cons]
    simp only [advance] at hnext
    cases hv : dcompNextInterfaceBulkEndpoint m (pos m n (k + 1)) with
    | found =>
      rw [hv] at hnext
      simp only at hnext ⊢
      rcases settle_cases (storeEndpoint m e (pos m n (k + 1))) with ⟨dataIN, dataOUT, hs⟩ | hs
      · rw [hs] at hnext
        obtain rfl := htail.unique (not_goesOn_of_inactive hnext rfl)
        obtain rfl : d = 0 := by omega
        rw [endpointLoop_settled hs, hnext]
        rfl
      · rw [hs] at hnext
        rw [endpointLoop_collecting hs, ih htail hnext (by omega) (by omega) (by omega) hrest,
          hrest]
        rfl
    | fail =>
      rw [hv] at hnext
      obtain rfl := htail.unique (not_goesOn_of_inactive hnext rfl)
      obtain rfl : d = 0 := by omega
      rw [hnext]
      rfl
    | notFound =>
      rw [hv] at hnext
      simp only at hnext ⊢
      rw [ih htail hnext (by omega) (by omega) (by omega) hrest, hrest]
      rfl

theorem roundFrom_some {e : Endpoints} (hphase : phase m n k = .collecting e)
    {fuel rounds left : ℕ} {f : Found} (hf : roundFrom m n fuel rounds left k e = some f) :
    Scans m n k f.endpoints f.steps := by
  induction rounds using Nat.strong_induction_on generalizing k e left f with
  | _ rounds ihRounds =>
    induction left generalizing k f with
    | zero =>
      by_cases hlt : pos m n k < n
      · rw [roundFrom, usbGetNextDescriptorComp, if_neg fun hz => bytesRem_walkAt.mp hz hlt] at hf
        cases hf
      · rw [roundFrom_end fuel rounds 0 e hlt] at hf
        cases hf
        exact .here hphase fun hg => hlt hg.1
    | succ left ihLeft =>
      by_cases hlt : pos m n k < n
      · have hk : GoesOn m n k := ⟨hlt, by rw [hphase]; rfl⟩
        have hnext : phase m n (k + 1) = advance m (.collecting e) (pos m n (k + 1)) := by
          rw [phase_succ, hphase]
        rw [roundFrom_succ fuel rounds left e hlt] at hf
        simp only [advance] at hnext
        cases hv : dcompNextInterfaceBulkEndpoint m (pos m n (k + 1)) with
        | found =>
          rw [hv] at hf hnext
          simp only at hf hnext
          obtain ⟨g, hg, rfl⟩ := Option.map_eq_some_iff.mp hf
          refine Scans.cons ?_ hk
          rcases settle_cases (storeEndpoint m e (pos m n (k + 1))) with ⟨dataIN, dataOUT, hs⟩ | hs
          · rw [endpointLoop_settled hs] at hg
            cases hg
            rw [hs] at hnext
            exact .here hnext (not_goesOn_of_inactive hnext rfl)
          · rw [hs] at hnext
            cases rounds with
            | zero =>
              rw [endpointLoop_zero hs] at hg
              cases hg
            | succ rounds =>
              rw [endpointLoop_collecting hs] at hg
              exact ihRounds rounds (Nat.lt_succ_self rounds) hnext hg
        | fail =>
          rw [hv] at hf hnext
          cases hf
          exact (Scans.here hnext (not_goesOn_of_inactive hnext rfl)).cons hk
        | notFound =>
          rw [hv] at hf hnext
          obtain ⟨g, hg, rfl⟩ := Option.map_eq_some_iff.mp hf
          exact (ihLeft hnext hg).cons hk
      · rw [roundFrom_end fuel rounds (left + 1) e hlt] at hf
        cases hf
        exact .here hphase fun hg => hlt hg.1

def processed (m : ℕ → UInt8) : Option (ℕ × ℕ) → List Walk → Processed
  | none, steps => ⟨.noCompatibleInterfaceFound, none, [], steps⟩
  | some (dataIN, dataOUT), steps =>
    ⟨.successfulConfigRead, some (dataIN, dataOUT),
      [pipeConfig m androidDataInPipe .in dataIN, pipeConfig m androidDataOutPipe .out dataOUT],
      steps⟩

def handOnInterface (m : ℕ → UInt8) (fuel : ℕ) (s : Searched) : Option Processed :=
  if s.result ≠ .found then some (processed m none s.steps)
  else (endpointLoop m fuel fuel s.walk ⟨none, none⟩).map fun f =>
    processed m f.endpoints (s.steps ++ f.steps)

def seekFrom (m : ℕ → UInt8) (n fuel left k : ℕ) : Option Processed :=
  (usbGetNextDescriptorComp m (dcompNextAndroidAccessoryInterface m) left (walkAt m n k)).bind
    (handOnInterface m fuel)

def prependStep (w : Walk) (r : Processed) : Processed := { r with steps := w :: r.steps }

theorem prependStep_processed (w : Walk) (o : Option (ℕ × ℕ)) (steps : List Walk) :
    prependStep w (processed m o steps) = processed m o (w :: steps) := by
  cases o with
  | none => rfl
  | some o => rfl

@[simp] theorem processed_steps (o : Option (ℕ × ℕ)) (steps : List Walk) :
    (processed m o steps).steps = steps := by
  cases o with
  | none => rfl
  | some o => rfl

theorem handOnInterface_cons (fuel : ℕ) (w : Walk) (s : Searched) :
    handOnInterface m fuel { s with steps := w :: s.steps } =
      (handOnInterface m fuel s).map (prependStep w) := by
  simp only [handOnInterface]
  split_ifs
  · rfl
  · rw [Option.map_map]
    congr 1
    funext f
    rw [Function.comp_apply, prependStep_processed]
    rfl

theorem processDescriptors_eq_seekFrom (fuel n : ℕ) (m : ℕ → UInt8) :
    processDescriptors fuel n m = seekFrom m n fuel fuel 0 := by
  rw [processDescriptors, seekFrom]
  congr 1
  funext s
  simp only [handOnInterface]
  split_ifs
  · rfl
  · congr 1
    funext f
    obtain ⟨_ | o, steps⟩ := f
    · rfl
    · rfl

theorem seekFrom_end (fuel left : ℕ) (hend : ¬ pos m n k < n) :
    seekFrom m n fuel left k = some (processed m none []) := by
  rw [seekFrom, search_end left hend]
  rfl

theorem seekFrom_succ (fuel left : ℕ) (hlt : pos m n k < n) :
    seekFrom m n fuel (left + 1) k =
      if dcompNextAndroidAccessoryInterface m (pos m n (k + 1)) = .found then
        (endpointLoop m fuel fuel (walkAt m n (k + 1)) ⟨none, none⟩).map fun f =>
          processed m f.endpoints (walkAt m n k :: f.steps)
      else (seekFrom m n fuel left (k + 1)).map (prependStep (walkAt m n k)) := by
  have hfail : dcompNextAndroidAccessoryInterface m (pos m n (k + 1)) ≠ .fail := by
    unfold dcompNextAndroidAccessoryInterface
    split_ifs <;> exact Comparison.noConfusion
  rw [seekFrom, search_bind (handOnInterface_cons fuel) left hlt]
  cases hv : dcompNextAndroidAccessoryInterface m (pos m n (k + 1)) with
  | found => rfl
  | fail => exact absurd hv hfail
  | notFound => rfl

theorem seekFrom_of_endsAt {K : ℕ} (h : EndsAt m n k K) (hphase : phase m n k = .seeking)
    {fuel left : ℕ} (hfuel : K - k ≤ fuel) (hleft : K - k ≤ left) :
    seekFrom m n fuel left k =
      some (processed m (phase m n K).outcome (walks m n k (K - k))) := by
  obtain ⟨d, hd⟩ : ∃ d, K - k = d := ⟨_, rfl⟩
  induction d generalizing k left with
  | zero =>
    have hle := h.le
    obtain rfl : K = k := by omega
    have hactive : (phase m n K).active = true := by rw [hphase]; rfl
    rw [seekFrom_end fuel left fun hlt => h.stops ⟨hlt, hactive⟩, Nat.sub_self, hphase]
    rfl
  | succ d ih =>
    have hk := h.before k le_rfl (by omega)
    have htail := h.tail hk
    have hrest : K - (k + 1) = d := by omega
    obtain ⟨left, rfl⟩ : ∃ l, left = l + 1 := ⟨left - 1, by omega⟩
    have hnext : phase m n (k + 1) = advance m .seeking (pos m n (k + 1)) := by
      rw [phase_succ, hphase]
    rw [seekFrom_succ fuel left hk.1, hd, walks_cons]
    simp only [advance] at hnext
    split_ifs at hnext ⊢ with hv
    · obtain ⟨rounds, rfl⟩ : ∃ l, fuel = l + 1 := ⟨fuel - 1, by omega⟩
      rw [endpointLoop_collecting rfl, roundFrom_of_endsAt htail hnext (by omega) (by omega)
        (by omega), hrest]
      rfl
    · rw [ih htail hnext (by omega) (by omega) hrest, hrest, Option.map_some, prependStep_processed]

theorem seekFrom_some (hphase : phase m n k = .seeking) {fuel left : ℕ} {r : Processed}
    (hr : seekFrom m n fuel left k = some r) :
    ∃ o steps, Scans m n k o steps ∧ r = processed m o steps := by
  induction left generalizing k r with
  | zero =>
    by_cases hlt : pos m n k < n
    · rw [seekFrom, usbGetNextDescriptorComp, if_neg fun hz => bytesRem_walkAt.mp hz hlt] at hr
      cases hr
    · rw [seekFrom_end fuel 0 hlt] at hr
      cases hr
      exact ⟨_, _, .here hphase fun hg => hlt hg.1, rfl⟩
  | succ left ih =>
    by_cases hlt : pos m n k < n
    · have hk : GoesOn m n k := ⟨hlt, by rw [hphase]; rfl⟩
      have hnext : phase m n (k + 1) = advance m .seeking (pos m n (k + 1)) := by
        rw [phase_succ, hphase]
      rw [seekFrom_succ fuel left hlt] at hr
      simp only [advance] at hnext
      split_ifs at hnext hr with hv
      · obtain ⟨f, hf, rfl⟩ := Option.map_eq_some_iff.mp hr
        cases fuel with
        | zero =>
          rw [endpointLoop_zero rfl] at hf
          cases hf
        | succ rounds =>
          rw [endpointLoop_collecting rfl] at hf
          exact ⟨_, _, (roundFrom_some hnext hf).cons hk, rfl⟩
      · obtain ⟨rest, hrest, rfl⟩ := Option.map_eq_some_iff.mp hr
        obtain ⟨o, steps, hscans, rfl⟩ := ih hnext hrest
        exact ⟨o, _, hscans.cons hk, prependStep_processed _ o steps⟩
    · rw [seekFrom_end fuel (left + 1) hlt] at hr
      cases hr
      exact ⟨_, _, .here hphase fun hg => hlt hg.1, rfl⟩

/-- The function returns, with fuel enough, exactly what the scan has found where it ends. -/
theorem processDescriptors_some_iff (n : ℕ) (m : ℕ → UInt8) (r : Processed) :
    (∃ fuel, processDescriptors fuel n m = some r) ↔
      ∃ K, EndsAt m n 0 K ∧ r = processed m (phase m n K).outcome (walks m n 0 K) := by
  constructor
  · rintro ⟨fuel, hr⟩
    rw [processDescriptors_eq_seekFrom] at hr
    obtain ⟨o, steps, ⟨K, hend, rfl, rfl⟩, rfl⟩ := seekFrom_some rfl hr
    exact ⟨K, hend, rfl⟩
  · rintro ⟨K, hend, rfl⟩
    refine ⟨K, ?_⟩
    rw [processDescriptors_eq_seekFrom]
    exact seekFrom_of_endsAt hend rfl le_rfl le_rfl

end AoaBoard.Usb.Descriptors
