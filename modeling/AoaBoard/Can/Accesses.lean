import AoaBoard.Can.Discovery
import AoaBoard.Can.Driver
import AoaBoard.Host.Task

/-!
# What the message handlers read and write

The handlers of `canpt.c` again, with a record of the bytes of the data field
that they read, the entries of `caps` that they write and the lengths that they
pass to the value callback. Offsets count from the start of the array, so an
offset past its end names a byte behind it. The callback reads its buffer
itself; `host` says at which offsets.
-/

namespace AoaBoard.Can.Accesses
open Discovery

inductive Access
  | read (k : ℕ)
  | write (k : ℕ)
  | value (len : UInt8)
  deriving DecidableEq

structure Accessed (α : Type) where
  value : α
  accesses : List Access

instance : Monad Accessed where
  pure a := ⟨a, []⟩
  bind x f := ⟨(f x.value).value, x.accesses ++ (f x.value).accesses⟩

def readByte (msg : CanMsg) (k : ℕ) : Accessed UInt8 := ⟨dataByte msg k, [.read k]⟩

def writeCap (caps : ℕ → UInt8) (k : ℕ) (b : UInt8) : Accessed (ℕ → UInt8) :=
  ⟨Function.update caps k b, [.write k]⟩

def storeLoop (msg : CanMsg) : ℕ → ℕ → (ℕ → UInt8) → Accessed (ℕ → UInt8)
  | 0, _, caps => pure caps
  | n + 1, j, caps =>
    if nodeMaxCaps ≤ j then pure caps
    else do
      let high ← readByte msg (2 + j)
      let caps ← writeCap caps (j * 2) (high &&& 0xF0)
      if nodeMaxCaps ≤ j + 1 then pure caps
      else do
        let low ← readByte msg (2 + j)
        let caps ← writeCap caps (j * 2 + 1) ((low &&& 0x0F) <<< 4)
        storeLoop msg n (j + 1) caps

def memory (caps : Fin nodeMaxCaps → UInt8) : ℕ → UInt8 :=
  fun k => if h : k < nodeMaxCaps then caps ⟨k, h⟩ else 0

def handlePublish (s : State) (reqId : UInt8) (msg : CanMsg) (len : UInt8) (now : UInt32)
    (wild : State) : Accessed (State × List Out) :=
  match newSlot s.nodes reqId with
  | some i => do
    let caps ← storeLoop msg len.toNat 0 (memory (s.nodes i).caps)
    let next : State :=
      { s with nodes := Function.update s.nodes i ⟨reqId, fun k => caps k⟩
               aliveTime := Function.update s.aliveTime i now
               numNodes := s.numNodes + 1 }
    pure (if len.toNat ≤ maxPayload then next else wild,
      call s.cb.nodeAttached (.nodeAttached reqId))
  | none => pure (s, [])

def handleValue (host : UInt8 → List ℕ) (s : State) (reqId periphId : UInt8) (msg : CanMsg)
    (len : UInt8) : Accessed (List Out) :=
  if s.cb.value then
    ⟨[.value reqId periphId (fun j => dataByte msg (2 + j)) len],
      .value len :: (host len).map fun k => .read (2 + k)⟩
  else pure []

def processCmnMessage (s : State) (msg : CanMsg) (now : UInt32) (wild : State) :
    Accessed (State × List Out) :=
  if (msg.id &&& ~~~msgCmnMask).toUInt8 = msgCmnIdDisc then
    if 2 < msg.len then do
      let type ← readByte msg 1
      if type = msgPublish then do
        let reqId ← readByte msg 0
        handlePublish s reqId msg (msg.len - 2) now wild
      else pure (s, [])
    else pure (s, [])
  else pure (s, [])

def processMessage (host : UInt8 → List ℕ) (s : State) (msg : CanMsg) (now : UInt32)
    (wild : State) : Accessed (State × List Out) := do
  let reqId ← readByte msg 0
  let type ← readByte msg 1
  if type &&& msgTypeMask = msgVal then do
    let device ← readByte msg 1
    let out ← handleValue host s reqId (device &&& msgDevMask) msg (msg.len - 2)
    pure (s, out)
  else if type &&& msgTypeMask = msgPublish then
    handlePublish s reqId msg (msg.len - 2) now wild
  else if type &&& msgTypeMask = msgPoll then do
    let response ← readByte msg 1
    if response &&& msgPollResp ≠ 0 then pure (handlePollResponse s reqId now, [])
    else pure (s, [])
  else if type &&& msgTypeMask = msgSub then do
    let response ← readByte msg 1
    if response &&& msgSubResp ≠ 0 then do
      let subId ← readByte msg 2
      pure (s, handleSubscribeResponse s reqId subId)
    else pure (s, [])
  else pure (s, [])

section Values

@[simp] theorem bind_value {α β : Type} (x : Accessed α) (f : α → Accessed β) :
    (x >>= f).value = (f x.value).value := rfl

@[simp] theorem bind_accesses {α β : Type} (x : Accessed α) (f : α → Accessed β) :
    (x >>= f).accesses = x.accesses ++ (f x.value).accesses := rfl

@[simp] theorem pure_value {α : Type} (a : α) : (pure a : Accessed α).value = a := rfl

@[simp] theorem pure_accesses {α : Type} (a : α) : (pure a : Accessed α).accesses = [] := rfl

@[simp] theorem readByte_value (msg : CanMsg) (k : ℕ) : (readByte msg k).value = dataByte msg k :=
  rfl

@[simp] theorem readByte_accesses (msg : CanMsg) (k : ℕ) : (readByte msg k).accesses = [.read k] :=
  rfl

@[simp] theorem writeCap_value (caps : ℕ → UInt8) (k : ℕ) (b : UInt8) :
    (writeCap caps k b).value = Function.update caps k b := rfl

@[simp] theorem writeCap_accesses (caps : ℕ → UInt8) (k : ℕ) (b : UInt8) :
    (writeCap caps k b).accesses = [.write k] := rfl

theorem storeLoop_value (msg : CanMsg) {n j : ℕ} (hn : j + n ≤ maxPayload)
    (caps : ℕ → UInt8) (k : Fin nodeMaxCaps) :
    (storeLoop msg n j caps).value k =
      (List.range' j n).foldl (storeCaps fun i => dataByte msg (2 + i)) (fun i => caps i) k := by
  have hmax : maxPayload = 6 ∧ nodeMaxCaps = 12 := ⟨rfl, rfl⟩
  induction n generalizing j caps with
  | zero => rfl
  | succ n ih =>
    have hj : ¬ nodeMaxCaps ≤ j := by omega
    have hj' : ¬ nodeMaxCaps ≤ j + 1 := by omega
    have hround : storeCaps (fun i => dataByte msg (2 + i)) (fun i => caps i) j =
        fun i : Fin nodeMaxCaps => Function.update
          (Function.update caps (j * 2) (dataByte msg (2 + j) &&& 0xF0)) (j * 2 + 1)
          ((dataByte msg (2 + j) &&& 0x0F) <<< 4) i := by
      funext i
      simp only [storeCaps, if_neg hj, if_neg hj', setCap, Function.update_apply]
    simp only [storeLoop, if_neg hj, if_neg hj', bind_value, readByte_value, writeCap_value]
    rw [ih (by omega), List.range'_succ, List.foldl_cons, hround]

theorem handlePublish_value (s : State) (reqId : UInt8) (msg : CanMsg) (len : UInt8)
    (now : UInt32) (wild : State) :
    (handlePublish s reqId msg len now wild).value =
      Discovery.handlePublish s reqId (fun j => dataByte msg (2 + j)) len now wild := by
  simp only [handlePublish, Discovery.handlePublish]
  cases newSlot s.nodes reqId with
  | none => rfl
  | some i =>
    simp only [bind_value, pure_value]
    by_cases hlen : len.toNat ≤ maxPayload
    · have hmemory : (fun k : Fin nodeMaxCaps => memory (s.nodes i).caps k) = (s.nodes i).caps :=
        funext fun k => dif_pos k.isLt
      have hcaps : (fun k : Fin nodeMaxCaps =>
          (storeLoop msg len.toNat 0 (memory (s.nodes i).caps)).value k) =
          (List.range len.toNat).foldl (storeCaps fun j => dataByte msg (2 + j))
            (s.nodes i).caps := by
        funext k
        rw [storeLoop_value msg (by omega), hmemory, List.range_eq_range']
      rw [if_pos hlen, if_pos hlen, hcaps]
      rfl
    · rw [if_neg hlen, if_neg hlen]

theorem processCmnMessage_value (s : State) (msg : CanMsg) (now : UInt32) (wild : State) :
    (processCmnMessage s msg now wild).value = Discovery.processCmnMessage s msg now wild := by
  unfold processCmnMessage Discovery.processCmnMessage
  by_cases hid : (msg.id &&& ~~~msgCmnMask).toUInt8 = msgCmnIdDisc
  · rw [if_pos hid, if_pos hid]
    by_cases hlen : 2 < msg.len
    · rw [if_pos hlen, bind_value, readByte_value]
      by_cases hpub : dataByte msg 1 = msgPublish
      · rw [if_pos hpub, if_pos (And.intro hlen hpub), bind_value, handlePublish_value,
          readByte_value]
      · rw [if_neg hpub, if_neg fun h => hpub h.2, pure_value]
    · rw [if_neg hlen, if_neg fun h => hlen h.1, pure_value]
  · rw [if_neg hid, if_neg hid, pure_value]

theorem processMessage_value (host : UInt8 → List ℕ) (s : State) (msg : CanMsg) (now : UInt32)
    (wild : State) :
    (processMessage host s msg now wild).value = Discovery.processMessage s msg now wild := by
  have hvalue (reqId periphId : UInt8) :
      (handleValue host s reqId periphId msg (msg.len - 2)).value =
        Discovery.handleValue s reqId periphId (fun j => dataByte msg (2 + j)) (msg.len - 2) := by
    unfold handleValue Discovery.handleValue call
    split_ifs <;> rfl
  simp only [Discovery.processMessage]
  rw [processMessage, bind_value, bind_value, readByte_value, readByte_value]
  by_cases hval : dataByte msg 1 &&& msgTypeMask = msgVal
  · rw [if_pos hval, if_pos hval, bind_value, bind_value, pure_value, hvalue, readByte_value]
  rw [if_neg hval, if_neg hval]
  by_cases hpub : dataByte msg 1 &&& msgTypeMask = msgPublish
  · rw [if_pos hpub, if_pos hpub, handlePublish_value]
  rw [if_neg hpub, if_neg hpub]
  by_cases hpoll : dataByte msg 1 &&& msgTypeMask = msgPoll
  · rw [if_pos hpoll, if_pos hpoll, bind_value, readByte_value]
    split_ifs <;> rfl
  rw [if_neg hpoll, if_neg hpoll]
  by_cases hsub : dataByte msg 1 &&& msgTypeMask = msgSub
  · rw [if_pos hsub, if_pos hsub, bind_value, readByte_value]
    split_ifs <;> rfl
  · rw [if_neg hsub, if_neg hsub, pure_value]

end Values

def held (msg : CanMsg) : ℕ := min 8 msg.len.toNat

/-- Only bytes that belong to the message are read, only entries of `caps` are written, and
the callback is told the number of value bytes. -/
structure Bounded (msg : CanMsg) (as : List Access) : Prop where
  reads : ∀ k, .read k ∈ as → k < held msg
  writes : ∀ k, .write k ∈ as → k < nodeMaxCaps
  value : ∀ len, .value len ∈ as → len.toNat = held msg - 2

def Overlong (s : State) (msg : CanMsg) : Prop :=
  newSlot s.nodes (dataByte msg 0) ≠ none ∧ 8 < msg.len.toNat

theorem bounded_append {msg : CanMsg} {as bs : List Access} :
    Bounded msg (as ++ bs) ↔ Bounded msg as ∧ Bounded msg bs := by
  constructor
  · intro h
    exact ⟨⟨fun k hk => h.reads k (List.mem_append_left _ hk),
      fun k hk => h.writes k (List.mem_append_left _ hk),
      fun l hl => h.value l (List.mem_append_left _ hl)⟩,
      ⟨fun k hk => h.reads k (List.mem_append_right _ hk),
      fun k hk => h.writes k (List.mem_append_right _ hk),
      fun l hl => h.value l (List.mem_append_right _ hl)⟩⟩
  · rintro ⟨ha, hb⟩
    exact ⟨fun k hk => (List.mem_append.mp hk).elim (ha.reads k) (hb.reads k),
      fun k hk => (List.mem_append.mp hk).elim (ha.writes k) (hb.writes k),
      fun l hl => (List.mem_append.mp hl).elim (ha.value l) (hb.value l)⟩

theorem bounded_nil (msg : CanMsg) : Bounded msg [] := ⟨by simp, by simp, by simp⟩

theorem bounded_read {msg : CanMsg} {k : ℕ} : Bounded msg [.read k] ↔ k < held msg := by
  constructor
  · intro h
    exact h.reads k List.mem_cons_self
  · intro h
    exact ⟨by simpa using h, by simp, by simp⟩

theorem bounded_callback {msg : CanMsg} {ks : List ℕ} :
    Bounded msg (ks.map fun k => .read (2 + k)) ↔ ∀ k ∈ ks, 2 + k < held msg := by
  constructor
  · intro h k hk
    exact h.reads (2 + k) (List.mem_map.mpr ⟨k, hk, rfl⟩)
  · intro h
    exact ⟨by simpa using h, by simp, by simp⟩

theorem bounded_value {msg : CanMsg} {len : UInt8} :
    Bounded msg [.value len] ↔ len.toNat = held msg - 2 := by
  constructor
  · intro h
    exact h.value len List.mem_cons_self
  · intro h
    exact ⟨by simp, by simp, by simpa using h⟩

theorem storeLoop_accesses (msg : CanMsg) (n j : ℕ) (caps : ℕ → UInt8) :
    ∀ a ∈ (storeLoop msg n j caps).accesses, ∃ i, j ≤ i ∧ i < j + n ∧
      (a = .read (2 + i) ∨ a = .write (i * 2) ∨ a = .write (i * 2 + 1)) := by
  induction n generalizing j caps with
  | zero => simp [storeLoop]
  | succ n ih =>
    intro a ha
    by_cases hj : nodeMaxCaps ≤ j
    · simp [storeLoop, hj] at ha
    · by_cases hj' : nodeMaxCaps ≤ j + 1
      · simp only [storeLoop, if_neg hj, if_pos hj', bind_accesses, readByte_accesses,
          writeCap_accesses, pure_accesses, List.append_nil, List.mem_append,
          List.mem_singleton] at ha
        exact ⟨j, le_rfl, by omega, ha.imp_right Or.inl⟩
      · simp only [storeLoop, if_neg hj, if_neg hj', bind_accesses, readByte_accesses,
          writeCap_accesses, List.mem_append, List.mem_singleton] at ha
        rcases ha with ha | ha | ha | ha | ha
        · exact ⟨j, le_rfl, by omega, Or.inl ha⟩
        · exact ⟨j, le_rfl, by omega, Or.inr (Or.inl ha)⟩
        · exact ⟨j, le_rfl, by omega, Or.inl ha⟩
        · exact ⟨j, le_rfl, by omega, Or.inr (Or.inr ha)⟩
        · obtain ⟨i, hi, hi', hcase⟩ := ih _ _ a ha
          exact ⟨i, by omega, by omega, hcase⟩

theorem storeLoop_writes (msg : CanMsg) {n j i : ℕ} (hi : j ≤ i) (hi' : i < j + n)
    (hmax : i < nodeMaxCaps) (caps : ℕ → UInt8) :
    .write (i * 2) ∈ (storeLoop msg n j caps).accesses := by
  induction n generalizing j caps with
  | zero => omega
  | succ n ih =>
    have hj : ¬ nodeMaxCaps ≤ j := by omega
    rcases Nat.eq_or_lt_of_le hi with rfl | hlt
    · simp only [storeLoop, if_neg hj, bind_accesses, writeCap_accesses]
      simp
    · have hj' : ¬ nodeMaxCaps ≤ j + 1 := by omega
      have hrest := fun caps => ih (j := j + 1) hlt (by omega) caps
      simp only [storeLoop, if_neg hj, if_neg hj', bind_accesses]
      simp [hrest]

theorem sub_two {len : UInt8} (h : 2 ≤ len.toNat) : (len - 2).toNat = len.toNat - 2 :=
  UInt8.toNat_sub_of_le len 2 (UInt8.le_iff_toNat_le.mpr h)

theorem handlePublish_bounded_iff {msg : CanMsg} (hlen : 2 ≤ msg.len.toNat) (s : State)
    (now : UInt32) (wild : State) :
    Bounded msg (handlePublish s (dataByte msg 0) msg (msg.len - 2) now wild).accesses ↔
      ¬ Overlong s msg := by
  have hmax : nodeMaxCaps = 12 := rfl
  have hsub := sub_two hlen
  unfold handlePublish Overlong
  cases newSlot s.nodes (dataByte msg 0) with
  | none => exact iff_of_true (bounded_nil msg) (by simp)
  | some i =>
    simp only [bind_accesses, pure_accesses, List.append_nil, ne_eq, reduceCtorEq,
      not_false_eq_true, true_and, not_lt, hsub]
    constructor
    · intro h
      by_contra hlong
      have hout := h.writes _ (storeLoop_writes msg (i := 6) (Nat.zero_le 6) (by omega)
        (by decide) _)
      omega
    · intro hfits
      have hall := storeLoop_accesses msg (msg.len.toNat - 2) 0 (memory (s.nodes i).caps)
      refine ⟨fun k hk => ?_, fun k hk => ?_, fun l hl => ?_⟩
      · obtain ⟨j, -, hj, hcase⟩ := hall _ hk
        simp only [Access.read.injEq, reduceCtorEq, or_false] at hcase
        rw [held]
        omega
      · obtain ⟨j, -, hj, hcase⟩ := hall _ hk
        simp only [Access.write.injEq, reduceCtorEq, false_or] at hcase
        omega
      · obtain ⟨j, -, -, hcase⟩ := hall _ hl
        simp at hcase

def Announces (msg : CanMsg) : Prop :=
  (msg.id &&& ~~~msgCmnMask).toUInt8 = msgCmnIdDisc ∧ dataByte msg 1 = msgPublish

theorem processCmnMessage_bounded_iff (s : State) (msg : CanMsg) (now : UInt32) (wild : State) :
    Bounded msg (processCmnMessage s msg now wild).accesses ↔
      ¬ (Announces msg ∧ Overlong s msg) := by
  rw [processCmnMessage]
  by_cases hid : (msg.id &&& ~~~msgCmnMask).toUInt8 = msgCmnIdDisc
  · rw [if_pos hid]
    by_cases hlen : 2 < msg.len
    · have hlen' : 2 < msg.len.toNat := UInt8.lt_iff_toNat_lt.mp hlen
      have hone : Bounded msg [.read 1] := bounded_read.mpr (by rw [held]; omega)
      have hzero : Bounded msg [.read 0] := bounded_read.mpr (by rw [held]; omega)
      rw [if_pos hlen, bind_accesses, readByte_accesses, readByte_value, bounded_append,
        and_iff_right hone]
      by_cases hpub : dataByte msg 1 = msgPublish
      · rw [if_pos hpub, bind_accesses, readByte_accesses, readByte_value, bounded_append,
          and_iff_right hzero, handlePublish_bounded_iff hlen'.le]
        exact not_congr (and_iff_right ⟨hid, hpub⟩).symm
      · rw [if_neg hpub, pure_accesses]
        exact iff_of_true (bounded_nil msg) fun h => hpub h.1.2
    · rw [if_neg hlen, pure_accesses]
      refine iff_of_true (bounded_nil msg) fun h => hlen (UInt8.lt_iff_toNat_lt.mpr ?_)
      exact lt_trans (by decide) h.2.2
  · rw [if_neg hid, pure_accesses]
    exact iff_of_true (bounded_nil msg) fun h => hid h.1.1

structure Fits (s : State) (msg : CanMsg) : Prop where
  header : 2 ≤ msg.len.toNat
  value : dataByte msg 1 &&& msgTypeMask = msgVal → s.cb.value → msg.len.toNat ≤ 8
  publish : dataByte msg 1 &&& msgTypeMask = msgPublish → ¬ Overlong s msg
  sub : dataByte msg 1 &&& msgTypeMask = msgSub → dataByte msg 1 &&& msgSubResp ≠ 0 →
    3 ≤ msg.len.toNat

/-- The callback reads only value bytes that the message has. -/
def HostFits (host : UInt8 → List ℕ) (s : State) (msg : CanMsg) : Prop :=
  dataByte msg 1 &&& msgTypeMask = msgVal → s.cb.value → ∀ k ∈ host (msg.len - 2), 2 + k < held msg

theorem handleValue_bounded_iff (host : UInt8 → List ℕ) (s : State) (reqId periphId : UInt8)
    {msg : CanMsg} (hlen : 2 ≤ msg.len.toNat) :
    Bounded msg (handleValue host s reqId periphId msg (msg.len - 2)).accesses ↔
      (s.cb.value → msg.len.toNat ≤ 8) ∧
        (s.cb.value → ∀ k ∈ host (msg.len - 2), 2 + k < held msg) := by
  by_cases hcb : s.cb.value = true
  · have hpassed : Bounded msg [.value (msg.len - 2)] ↔ msg.len.toNat ≤ 8 := by
      rw [bounded_value, sub_two hlen, held]
      omega
    have haccesses : (handleValue host s reqId periphId msg (msg.len - 2)).accesses =
        [.value (msg.len - 2)] ++ (host (msg.len - 2)).map fun k => .read (2 + k) := by
      rw [handleValue, if_pos hcb]
      rfl
    rw [haccesses, bounded_append, hpassed, bounded_callback]
    simp [hcb]
  · rw [handleValue, if_neg hcb, pure_accesses]
    exact iff_of_true (bounded_nil msg) ⟨fun h => absurd h hcb, fun h => absurd h hcb⟩

theorem processMessage_bounded_iff (host : UInt8 → List ℕ) (s : State) (msg : CanMsg)
    (now : UInt32) (wild : State) :
    Bounded msg (processMessage host s msg now wild).accesses ↔
      Fits s msg ∧ HostFits host s msg := by
  rw [processMessage, bind_accesses, bind_accesses, readByte_accesses, readByte_accesses,
    readByte_value, readByte_value, bounded_append, bounded_append, bounded_read, bounded_read]
  by_cases hlen : 2 ≤ msg.len.toNat
  · have hone : 1 < held msg := by
      rw [held]
      omega
    have hagain : Bounded msg [.read 1] := bounded_read.mpr hone
    rw [and_iff_right (lt_trans Nat.zero_lt_one hone), and_iff_right hone]
    by_cases hval : dataByte msg 1 &&& msgTypeMask = msgVal
    · rw [if_pos hval, bind_accesses, bind_accesses, pure_accesses, List.append_nil,
        readByte_accesses, bounded_append, and_iff_right hagain,
        handleValue_bounded_iff _ _ _ _ hlen]
      constructor
      · rintro ⟨hvalue, hhost⟩
        exact ⟨⟨hlen, fun _ => hvalue, fun h => absurd (hval.symm.trans h) (by decide),
          fun h => absurd (hval.symm.trans h) (by decide)⟩, fun _ => hhost⟩
      · rintro ⟨hfits, hhost⟩
        exact ⟨hfits.value hval, hhost hval⟩
    have hhost : HostFits host s msg := fun h => absurd h hval
    rw [if_neg hval, and_iff_left hhost]
    by_cases hpub : dataByte msg 1 &&& msgTypeMask = msgPublish
    · rw [if_pos hpub, handlePublish_bounded_iff hlen]
      constructor
      · intro hshort
        exact ⟨hlen, fun h => absurd h hval, fun _ => hshort,
          fun h => absurd (hpub.symm.trans h) (by decide)⟩
      · intro hfits
        exact hfits.publish hpub
    rw [if_neg hpub]
    by_cases hpoll : dataByte msg 1 &&& msgTypeMask = msgPoll
    · rw [if_pos hpoll, bind_accesses, readByte_accesses, readByte_value, bounded_append,
        and_iff_right hagain]
      refine iff_of_true ?_ ⟨hlen, fun h => absurd h hval, fun h => absurd h hpub,
        fun h => absurd (hpoll.symm.trans h) (by decide)⟩
      split_ifs
      · exact bounded_nil msg
      · exact bounded_nil msg
    rw [if_neg hpoll]
    by_cases hsub : dataByte msg 1 &&& msgTypeMask = msgSub
    · rw [if_pos hsub, bind_accesses, readByte_accesses, readByte_value, bounded_append,
        and_iff_right hagain]
      by_cases hresp : dataByte msg 1 &&& msgSubResp ≠ 0
      · rw [if_pos hresp, bind_accesses, readByte_accesses, pure_accesses, List.append_nil,
          bounded_read, held]
        constructor
        · intro hthree
          exact ⟨hlen, fun h => absurd h hval, fun h => absurd h hpub, fun _ _ => by omega⟩
        · intro hfits
          have hthree := hfits.sub hsub hresp
          omega
      · rw [if_neg hresp, pure_accesses]
        exact iff_of_true (bounded_nil msg) ⟨hlen, fun h => absurd h hval, fun h => absurd h hpub,
          fun _ h => absurd h hresp⟩
    · rw [if_neg hsub, pure_accesses]
      exact iff_of_true (bounded_nil msg) ⟨hlen, fun h => absurd h hval, fun h => absurd h hpub,
        fun h => absurd h hsub⟩
  · refine iff_of_false (fun h => hlen ?_) fun h => hlen h.1.header
    have hone := h.2.1
    rw [held] at hone
    omega

def hostReads (connected : Bool) (len : UInt8) : List ℕ :=
  if connected then if len < 2 then [0] else [0, 1] else []

theorem valueUpdate_reads (h : Host.State) (reqId periphId : UInt8) {buf buf' : ℕ → UInt8}
    (len : UInt8) (done : Usb.HcdStatus) (hread : ∀ k ∈ hostReads h.connected len, buf' k = buf k) :
    Host.valueUpdate h reqId periphId buf' len done =
      Host.valueUpdate h reqId periphId buf len done := by
  rw [Host.valueUpdate, Host.valueUpdate]
  by_cases hconn : h.connected = true
  · rw [hostReads, if_pos hconn] at hread
    rw [if_pos hconn, if_pos hconn]
    by_cases hlen : len < 2
    · rw [if_pos hlen] at hread
      rw [if_pos hlen, if_pos hlen, hread 0 (by simp)]
    · rw [if_neg hlen] at hread
      rw [if_neg hlen, if_neg hlen, hread 0 (by simp), hread 1 (by simp)]
  · rw [if_neg hconn, if_neg hconn]

theorem hostFits_valueUpdate {s : State} {msg : CanMsg} (h : Fits s msg) (connected : Bool) :
    HostFits (hostReads connected) s msg ↔
      (dataByte msg 1 &&& msgTypeMask = msgVal → s.cb.value → connected → msg.len ≠ 2) := by
  have hlen := h.header
  have hsub := sub_two hlen
  refine forall_congr' fun _ => forall_congr' fun _ => ?_
  have hiff : msg.len = 2 ↔ msg.len.toNat = 2 := UInt8.toNat_inj.symm
  cases connected with
  | false => simp [hostReads]
  | true =>
    simp only [hostReads, if_true, UInt8.lt_iff_toNat_lt, hsub, UInt8.reduceToNat, held, ne_eq,
      hiff]
    split_ifs
    · simp only [List.mem_singleton, forall_eq, forall_const]
      omega
    · simp only [List.mem_cons, List.not_mem_nil, or_false, forall_eq_or_imp, forall_eq,
        forall_const]
      omega

/-- For every message and registry: the handlers stay in bounds exactly for the messages whose
length fits their type, and with `valueUpdate` as the callback a value message must also have
a value byte. -/
theorem handlers_bounded_iff (s : State) (msg : CanMsg) (now : UInt32) (wild : State) :
    (Bounded msg (processCmnMessage s msg now wild).accesses ↔
      ¬ (Announces msg ∧ Overlong s msg)) ∧
    (Bounded msg (processMessage (fun _ => []) s msg now wild).accesses ↔ Fits s msg) ∧
    ∀ connected, Bounded msg (processMessage (hostReads connected) s msg now wild).accesses ↔
      Fits s msg ∧
        (dataByte msg 1 &&& msgTypeMask = msgVal → s.cb.value → connected → msg.len ≠ 2) := by
  refine ⟨processCmnMessage_bounded_iff s msg now wild, ?_, fun connected => ?_⟩
  · have hnone : HostFits (fun _ => []) s msg := fun _ _ k hk => by simp at hk
    rw [processMessage_bounded_iff, and_iff_left hnone]
  · rw [processMessage_bounded_iff]
    exact and_congr_right fun hfits => hostFits_valueUpdate hfits connected

def publishNine : CanMsg :=
  (canReceiveMsg ⟨1, 0x00090000, 0x01, 0x22110705, 0x66554433⟩ Queue.blank).msg

def emptyValue : CanMsg := (canReceiveMsg ⟨1, 0, 0x05, 0x00000505, 0⟩ Queue.blank).msg

theorem handlers_leave_bounds :
    let s := powerUp ⟨true, true, true, true⟩
    (.read 8 ∈ (processCmnMessage s publishNine 0 s).accesses ∧
      .write 12 ∈ (processCmnMessage s publishNine 0 s).accesses ∧
      ¬ Bounded publishNine (processCmnMessage s publishNine 0 s).accesses) ∧
    .value 254 ∈ (processMessage (fun _ => []) s emptyValue 0 s).accesses ∧
      ¬ Bounded emptyValue (processMessage (fun _ => []) s emptyValue 0 s).accesses := by
  intro s
  have hread : .read 8 ∈ (processCmnMessage s publishNine 0 s).accesses := by decide +kernel
  have hwrite : .write 12 ∈ (processCmnMessage s publishNine 0 s).accesses := by decide +kernel
  have hvalue : .value 254 ∈ (processMessage (fun _ => []) s emptyValue 0 s).accesses := by
    decide +kernel
  exact ⟨⟨hread, hwrite, fun h => absurd (h.writes 12 hwrite) (by decide)⟩, hvalue,
    fun h => absurd (h.value 254 hvalue) (by decide)⟩

end AoaBoard.Can.Accesses
