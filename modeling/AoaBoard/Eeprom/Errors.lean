import AoaBoard.Eeprom.Device

/-!
# Failed transfers of the EEPROM driver

The bus follows a script that says for each transfer whether it succeeds, and
which bytes arrive. The driver drops the results of `I2CRead` and `I2CWrite`: it
reports an error if and only if the range is wrong, and `eeprom_readEui48`
looks at what is in the buffer.
-/

namespace AoaBoard.Eeprom
open Library Library.Bytes Library.Run Library.Pages

/-- The result of a transfer, the bytes on the wire and how many of them arrive when it
fails. -/
structure Outcome where
  status : Status
  bytes : ℕ → UInt8
  got : ℕ

def Outcome.reply (o : Outcome) (s : Setup) : Reply :=
  ⟨o.status, slice o.bytes (if o.status = .success then s.rxLength else min o.got s.rxLength)⟩

def scripted (script : ℕ → Outcome) (k : ℕ) (s : Setup) : ℕ × Reply :=
  (k + 1, (script k).reply s)

def addressLength (c : Config) : ℕ := if c.is24aa02e48t then 1 else 2

def moved (c : Config) (t : Setup × Reply) : ℕ :=
  if t.2.status = .success then (t.1.txData.length - addressLength c) + t.2.data.length else 0

def transferred (c : Config) (log : List (Setup × Reply)) : ℕ := (log.map (moved c)).sum

/-- The value is `-1` if a transfer has failed, and a count only of bytes that were moved. -/
structure Reported (c : Config) (value : Int16) (log : List (Setup × Reply)) : Prop where
  failed : (∃ t ∈ log, t.2.status = .error) → value = -1
  count : 0 ≤ value.toInt → value.toInt = transferred c log

/-- Six bytes were read from the device if the EUI-48 is said to be there. -/
def Eui48Reported (found : Bool) (log : List (Setup × Reply)) : Prop :=
  found = true → ∃ t ∈ log, t.1.rxLength = 6 ∧ t.2.status = .success ∧ t.2.data.length = 6

def leftInBuffer (o : Outcome) (buf : ℕ → UInt8) : List UInt8 :=
  slice (fill buf 0 (slice o.bytes (min o.got 6))) 3

section Script
variable {script : ℕ → Outcome}

theorem status_cases (s : Status) : s ≠ .success ↔ s = .error := by
  cases s <;> decide

theorem log_failed_iff (script : ℕ → Outcome) (k : ℕ) (setups : List Setup) :
    (∃ t ∈ outputs (issue (scripted script)) k setups, t.2.status = .error) ↔
      ∃ i < setups.length, (script (k + i)).status = .error := by
  induction setups generalizing k with
  | nil => simp
  | cons s setups ih =>
    rw [outputs_cons, issue, List.singleton_append]
    simp only [List.exists_mem_cons_iff]
    rw [ih]
    constructor
    · rintro (hfirst | ⟨i, hi, hfail⟩)
      · exact ⟨0, Nat.zero_lt_succ _, hfirst⟩
      · refine ⟨i + 1, Nat.succ_lt_succ hi, ?_⟩
        rwa [scripted, Nat.add_right_comm] at hfail
    · rintro ⟨i, hi, hfail⟩
      cases i with
      | zero => exact Or.inl hfail
      | succ i =>
        refine Or.inr ⟨i, Nat.lt_of_succ_lt_succ hi, ?_⟩
        rw [scripted, Nat.add_right_comm]
        exact hfail

theorem log_moved (c : Config) (k : ℕ) {setups : List Setup}
    (h : ∀ i < setups.length, (script (k + i)).status = .success) :
    transferred c (outputs (issue (scripted script)) k setups) =
      (setups.map fun s => s.txData.length - addressLength c + s.rxLength).sum := by
  induction setups generalizing k with
  | nil => rfl
  | cons s setups ih =>
    have hfirst : (script k).status = .success := h 0 (Nat.zero_lt_succ _)
    have hrest := ih (k + 1) fun i hi => by
      rw [Nat.add_right_comm]
      exact h (i + 1) (Nat.succ_lt_succ hi)
    rw [outputs_cons, issue, List.singleton_append, transferred, List.map_cons, List.sum_cons,
      List.map_cons, List.sum_cons, ← hrest]
    simp only [moved, scripted, Outcome.reply, hfirst, if_true, slice_length]
    rfl

theorem reported_iff {c : Config} {value : Int16} {setups : List Setup} (hvalue : 0 ≤ value.toInt)
    (hcount : value.toInt =
      ((setups.map fun s => s.txData.length - addressLength c + s.rxLength).sum : ℕ)) :
    Reported c value (outputs (issue (scripted script)) 0 setups) ↔
      ∀ i < setups.length, (script i).status = .success := by
  have hfailed := log_failed_iff script 0 setups
  simp only [Nat.zero_add] at hfailed
  constructor
  · intro h i hi
    by_contra hne
    have hminus := h.failed (hfailed.mpr ⟨i, hi, (status_cases _).mp hne⟩)
    rw [hminus] at hvalue
    exact absurd hvalue (by decide)
  · intro h
    refine ⟨fun hfail => ?_, fun _ => ?_⟩
    · obtain ⟨i, hi, herr⟩ := hfailed.mp hfail
      exact absurd (h i hi) ((status_cases _).mpr herr)
    · rw [hcount, log_moved c 0 (by simpa using h)]

variable (script)

theorem addressLength_eq (p : Part) : addressLength p.config = p.addressBytes := by
  cases p <;> rfl

theorem reported_out_of_range (c : Config) : Reported c (-1) [] :=
  ⟨fun _ => rfl, fun hneg => absurd hneg (by decide)⟩

theorem read_reported_iff (p : Part) (buf : ℕ → UInt8) (offset len : UInt16) :
    let r := eepromRead (scripted script) p.config 0 buf offset len
    Reported p.config r.value.1 r.log ↔
      p.size < offset.toNat + len.toNat ∨ ∀ i < 2, (script i).status = .success := by
  intro r
  rw [← p.outOfRange_iff]
  by_cases hrange : outOfRange p.config offset len
  · have hr : r = ⟨(-1, buf), 0, []⟩ := by simp only [r, eepromRead, if_pos hrange]
    rw [hr]
    exact iff_of_true (reported_out_of_range _) (Or.inl hrange)
  · have hlen := p.toInt_of_inRange hrange
    rw [or_iff_right hrange]
    simp only [r, eepromRead_eq (scripted script) hrange]
    refine reported_iff (by rw [hlen]; exact Int.natCast_nonneg _) ?_
    rw [hlen]
    simp [readSetups, p.offsetBytes_length, addressLength_eq]

theorem write_reported_iff (p : Part) (buf : ℕ → UInt8) (offset len : UInt16) {fuel : ℕ}
    (hfuel : len.toNat ≤ fuel) :
    ∃ w, eepromWrite (scripted script) fuel p.config 0 buf offset len = some w ∧
      (Reported p.config w.value w.log ↔ p.size < offset.toNat + len.toNat ∨
        ∀ i < touched p.page offset.toNat len.toNat, (script i).status = .success) := by
  rw [← p.outOfRange_iff]
  by_cases hrange : outOfRange p.config offset len
  · refine ⟨⟨-1, 0, []⟩, by rw [eepromWrite, if_pos hrange], ?_⟩
    exact iff_of_true (reported_out_of_range _) (Or.inl hrange)
  · have hpos := p.page_pos
    have hlen := p.toInt_of_inRange hrange
    have hrun := p.eepromWrite_eq (scripted script) hrange hfuel 0 buf
    have hdata : (slice buf len.toNat).length ≤ fuel := by rwa [slice_length]
    have hcount : ((pieces p.page fuel offset.toNat (slice buf len.toNat)).map
        (writeSetup p.config)).length = touched p.page offset.toNat len.toNat := by
      rw [List.length_map, pieces_length hpos _ hdata, slice_length]
    refine ⟨_, hrun, ?_⟩
    rw [or_iff_right hrange, ← hcount]
    refine reported_iff (by rw [hlen]; exact Int.natCast_nonneg _) ?_
    have htotal := pieces_total hpos offset.toNat hdata
    have hmoved : (fun s : Setup => s.txData.length - addressLength p.config + s.rxLength) ∘
        writeSetup p.config = fun q => q.2.length := by
      funext q
      simp [writeSetup, p.offsetBytes_length, addressLength_eq]
    rw [hlen, List.map_map, hmoved, htotal, slice_length]

theorem eui48_reported_iff (buf : ℕ → UInt8) :
    let r := eepromReadEui48 (scripted script) 0 buf
    Eui48Reported r.value.1 r.log ↔
      (script 1).status = .success ∨ leftInBuffer (script 1) buf ≠ eui48OrgId := by
  intro r
  have hlog : r.log = [(⟨eepromI2cAddr, [0xFA], 0⟩, (script 0).reply ⟨eepromI2cAddr, [0xFA], 0⟩),
      (⟨eepromI2cAddr, [], 6⟩, (script 1).reply ⟨eepromI2cAddr, [], 6⟩)] := rfl
  by_cases hread : (script 1).status = .success
  · refine iff_of_true (fun _ => ?_) (Or.inl hread)
    refine ⟨_, hlog ▸ List.mem_cons_of_mem _ List.mem_cons_self, rfl, hread, ?_⟩
    simp [Outcome.reply, hread]
  · have hfound : r.value.1 = decide (leftInBuffer (script 1) buf = eui48OrgId) := by
      simp only [r, eepromReadEui48, i2cRead, i2cWrite, scripted, Outcome.reply, leftInBuffer,
        Nat.zero_add, if_neg hread]
      rfl
    rw [or_iff_right hread, Eui48Reported, hfound, hlog, decide_eq_true_iff]
    constructor
    · intro h hleft
      obtain ⟨t, ht, hlen, hstatus, -⟩ := h hleft
      simp only [List.mem_cons, List.not_mem_nil, or_false] at ht
      rcases ht with rfl | rfl
      · cases hlen
      · exact hread hstatus
    · exact fun hne hleft => absurd hleft hne

end Script

/-- The errors of the bus are reported by `eeprom_read` and `eeprom_write` if and only if the
range is wrong or no transfer fails, and by `eeprom_readEui48` if and only if the read
succeeds or does not leave the organisation id in the buffer. -/
theorem eeprom_errors_reported_iff (p : Part) (script : ℕ → Outcome) (buf : ℕ → UInt8)
    (offset len : UInt16) (fuel : ℕ) (hfuel : len.toNat ≤ fuel) :
    (Reported p.config (eepromRead (scripted script) p.config 0 buf offset len).value.1
        (eepromRead (scripted script) p.config 0 buf offset len).log ↔
      p.size < offset.toNat + len.toNat ∨ ∀ i < 2, (script i).status = .success) ∧
    (∃ w, eepromWrite (scripted script) fuel p.config 0 buf offset len = some w ∧
      (Reported p.config w.value w.log ↔ p.size < offset.toNat + len.toNat ∨
        ∀ i < touched p.page offset.toNat len.toNat, (script i).status = .success)) ∧
    (Eui48Reported (eepromReadEui48 (scripted script) 0 buf).value.1
        (eepromReadEui48 (scripted script) 0 buf).log ↔
      (script 1).status = .success ∨ leftInBuffer (script 1) buf ≠ eui48OrgId) :=
  ⟨read_reported_iff script p buf offset len, write_reported_iff script p buf offset len hfuel,
    eui48_reported_iff script buf⟩

def allFail : ℕ → Outcome := fun _ => ⟨.error, fun _ => 0, 0⟩

def failsAt (k : ℕ) : ℕ → Outcome := fun i => ⟨if i = k then .error else .success, fun _ => 0, 0⟩

/-- A read out of range, and two writes of 20 bytes that touch four pages: the transfer behind the
last page fails, and that of the third page. -/
theorem eeprom_errors_reported_pages :
    Reported config24aa (eepromRead (scripted allFail) config24aa 0 (fun _ => 0) 100 29).value.1
        (eepromRead (scripted allFail) config24aa 0 (fun _ => 0) 100 29).log ∧
      (∃ w, eepromWrite (scripted (failsAt 4)) 20 config24aa 0 (fun _ => 0) 6 20 = some w ∧
        Reported config24aa w.value w.log) ∧
      ∃ w, eepromWrite (scripted (failsAt 2)) 20 config24aa 0 (fun _ => 0) 6 20 = some w ∧
        ¬ Reported config24aa w.value w.log := by
  obtain ⟨hread, -, -⟩ :=
    eeprom_errors_reported_iff .m24aa02e48 allFail (fun _ => 0) 100 29 29 (by decide)
  obtain ⟨-, ⟨w, hw, hreported⟩, -⟩ :=
    eeprom_errors_reported_iff .m24aa02e48 (failsAt 4) (fun _ => 0) 6 20 20 (by decide)
  obtain ⟨-, ⟨v, hv, hfails⟩, -⟩ :=
    eeprom_errors_reported_iff .m24aa02e48 (failsAt 2) (fun _ => 0) 6 20 20 (by decide)
  refine ⟨hread.mpr (Or.inl (by decide)), ⟨w, hw, hreported.mpr (Or.inr (by decide))⟩, v, hv, ?_⟩
  exact fun h => absurd (hfails.mp h) (by decide)

/-- The device does not answer, and a read of three bytes is reported as done. -/
theorem failed_read_not_reported :
    (eepromRead (scripted allFail) config24lc 0 (fun _ => 0) 0 3).value.1 = 3 ∧
      (∀ t ∈ (eepromRead (scripted allFail) config24lc 0 (fun _ => 0) 0 3).log,
        t.2.status = .error ∧ t.2.data = []) ∧
      ¬ Reported config24lc (eepromRead (scripted allFail) config24lc 0 (fun _ => 0) 0 3).value.1
        (eepromRead (scripted allFail) config24lc 0 (fun _ => 0) 0 3).log := by
  have hvalue : (eepromRead (scripted allFail) config24lc 0 (fun _ => 0) 0 3).value.1 = 3 := rfl
  have hlog : ∀ t ∈ (eepromRead (scripted allFail) config24lc 0 (fun _ => 0) 0 3).log,
      t.2.status = .error ∧ t.2.data = [] := by decide
  refine ⟨hvalue, hlog, fun h => ?_⟩
  have hminus := h.failed ⟨_, List.mem_cons_self, rfl⟩
  rw [hvalue] at hminus
  exact absurd hminus (by decide)

end AoaBoard.Eeprom
