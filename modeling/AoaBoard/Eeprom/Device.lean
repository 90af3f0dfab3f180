import AoaBoard.Eeprom.Driver

/-!
# Writing to the EEPROM and reading it back

A memory on the bus answers every transfer: what is written goes to the address
in front of it and wraps inside the page, and a read returns the bytes from the
address that was set. The pieces that `eeprom_write` issues never wrap, so the
bytes of the range are replaced and no others.
-/

namespace AoaBoard.Eeprom
open Library Library.Bytes Library.Run Library.Pages

inductive Part
  | m24lc32
  | m24aa02e48

def Part.config : Part → Config
  | .m24lc32 => config24lc
  | .m24aa02e48 => config24aa

def Part.size : Part → ℕ
  | .m24lc32 => 4096
  | .m24aa02e48 => 128

def Part.page : Part → ℕ
  | .m24lc32 => 32
  | .m24aa02e48 => 8

def Part.addressBytes : Part → ℕ
  | .m24lc32 => 2
  | .m24aa02e48 => 1

structure Memory where
  cells : ℕ → UInt8
  pointer : ℕ

def Part.address (p : Part) (data : List UInt8) : ℕ :=
  (data.take p.addressBytes).foldl (fun n b => 256 * n + b.toNat) 0

def Part.write (p : Part) (m : Memory) (data : List UInt8) : Memory :=
  let a := p.address data
  let values := data.drop p.addressBytes
  ⟨store p.page m.cells a values, (next p.page)^[values.length] a⟩

/-- A transfer with the memory on the bus; no other device answers. -/
def Part.serve (p : Part) (m : Memory) (s : Setup) : Memory × Reply :=
  if s.slAddr7bit = eepromI2cAddr then
    let m := if s.txData.isEmpty then m else p.write m s.txData
    (⟨m.cells, m.pointer + s.rxLength⟩, ⟨.success, slice (shift m.cells m.pointer) s.rxLength⟩)
  else (m, ⟨.error, []⟩)

def Part.WithinPage (p : Part) (s : Setup) : Prop :=
  InPage p.page (p.address s.txData) (s.txData.drop p.addressBytes).length

section Part
variable (p : Part)

theorem Part.page_pos : 0 < p.page := by
  cases p <;> decide

theorem Part.config_pageSize : p.config.pageSize.toNat = p.page := by
  cases p <;> rfl

theorem Part.config_totalSize : p.config.totalSize.toNat = p.size := by
  cases p <;> rfl

theorem Part.size_le : p.size ≤ 4096 := by
  cases p <;> decide

theorem Part.page_le : p.page ≤ 32 := by
  cases p <;> decide

theorem Part.outOfRange_iff (offset len : UInt16) :
    outOfRange p.config offset len ↔ p.size < offset.toNat + len.toNat := by
  rw [Eeprom.outOfRange_iff, p.config_totalSize]

theorem Part.eepromWrite_eq {β : Type} (transfer : β → Setup → β × Reply) {offset len : UInt16}
    (hrange : ¬ outOfRange p.config offset len) {fuel : ℕ} (hfuel : len.toNat ≤ fuel) (b : β)
    (buf : ℕ → UInt8) :
    let setups := (pieces p.page fuel offset.toNat (slice buf len.toNat)).map
      (writeSetup p.config)
    eepromWrite transfer fuel p.config b buf offset len = some ⟨len.toInt16,
      after (issue transfer) b setups, outputs (issue transfer) b setups⟩ := by
  have hsize := p.size_le
  have hpage := p.page_le
  have hpos := p.page_pos
  rw [← p.config_pageSize] at hpage hpos ⊢
  rw [← p.config_totalSize] at hsize
  exact Eeprom.eepromWrite_eq transfer hpos (by omega) (by omega) hrange hfuel b buf

theorem Part.toInt_of_inRange {offset len : UInt16} (hrange : ¬ outOfRange p.config offset len) :
    len.toInt16.toInt = len.toNat := by
  have hsize := p.size_le
  rw [← p.config_totalSize] at hsize
  exact Eeprom.toInt_of_inRange (by omega) hrange

theorem Part.offsetBytes_length (off : UInt16) :
    (offsetBytes p.config off).length = p.addressBytes := by
  cases p <;> rfl

theorem Part.address_offsetBytes {off : UInt16} (h : off.toNat ≤ p.size) (data : List UInt8) :
    p.address (offsetBytes p.config off ++ data) = off.toNat := by
  rw [Part.address, List.take_left' (p.offsetBytes_length off)]
  cases p with
  | m24lc32 =>
    have hbytes := word16_bytes off
    simpa [offsetBytes, Part.config, config24lc] using hbytes
  | m24aa02e48 =>
    have hsize : off.toNat ≤ 128 := h
    have hmask : (0xff : UInt16).toNat = 2 ^ 8 - 1 := rfl
    simp only [offsetBytes, Part.config, config24aa, if_true, List.foldl_cons,
      List.foldl_nil, UInt16.toNat_toUInt8, UInt16.toNat_and, hmask, Nat.and_two_pow_sub_one_eq_mod]
    omega

theorem Part.values_offsetBytes (off : UInt16) (data : List UInt8) :
    (offsetBytes p.config off ++ data).drop p.addressBytes = data :=
  List.drop_left' (p.offsetBytes_length off)

theorem Part.offsetBytes_isEmpty (off : UInt16) (data : List UInt8) :
    (offsetBytes p.config off ++ data).isEmpty = false := by
  cases p <;> rfl

theorem Part.serve_address {off : UInt16} (h : off.toNat ≤ p.size) (m : Memory) :
    p.serve m ⟨eepromI2cAddr, offsetBytes p.config off, 0⟩ =
      (⟨m.cells, off.toNat⟩, ⟨.success, []⟩) := by
  have haddr := p.address_offsetBytes h []
  have hvalues := p.values_offsetBytes off []
  have hsome := p.offsetBytes_isEmpty off []
  rw [List.append_nil] at haddr hvalues hsome
  simp only [Part.serve, if_true, hsome, Part.write, haddr, hvalues]
  rfl

theorem Part.serve_read (m : Memory) (n : ℕ) :
    p.serve m ⟨eepromI2cAddr, [], n⟩ =
      (⟨m.cells, m.pointer + n⟩, ⟨.success, slice (shift m.cells m.pointer) n⟩) := rfl

theorem Part.offset_toNat {a : ℕ} (h : a ≤ p.size) : (UInt16.ofNat a).toNat = a := by
  have hsize := p.size_le
  rw [UInt16.toNat_ofNat']
  omega

theorem Part.serve_piece {q : ℕ × List UInt8} (h : q.1 ≤ p.size) (m : Memory) :
    (p.serve m (writeSetup p.config q)).1.cells = store p.page m.cells q.1 q.2 := by
  have hoff := p.offset_toNat h
  have haddr := p.address_offsetBytes (hoff.symm ▸ h) q.2
  simp only [Part.serve, writeSetup, if_true, p.offsetBytes_isEmpty, Part.write, haddr,
    p.values_offsetBytes, hoff]
  rfl

theorem Part.writeSetup_withinPage {q : ℕ × List UInt8} (h : q.1 ≤ p.size)
    (hin : InPage p.page q.1 q.2.length) : p.WithinPage (writeSetup p.config q) := by
  have hoff := p.offset_toNat h
  rw [Part.WithinPage, writeSetup, p.address_offsetBytes (hoff.symm ▸ h), p.values_offsetBytes,
    hoff]
  exact hin

theorem Part.serve_pieces {qs : List (ℕ × List UInt8)} (h : ∀ q ∈ qs, q.1 ≤ p.size) (m : Memory) :
    (after (issue p.serve) m (qs.map (writeSetup p.config))).cells =
      qs.foldl (fun cells q => store p.page cells q.1 q.2) m.cells := by
  induction qs generalizing m with
  | nil => rfl
  | cons q qs ih =>
    obtain ⟨hq, hqs⟩ := List.forall_mem_cons.mp h
    rw [List.map_cons, after_cons, ih hqs, List.foldl_cons, issue, p.serve_piece hq]

theorem Part.read_inRange {offset len : UInt16} (h : offset.toNat + len.toNat ≤ p.size)
    (m : Memory) (buf : ℕ → UInt8) :
    (eepromRead p.serve p.config m buf offset len).value =
      (len.toInt16, fill buf 0 (slice (shift m.cells offset.toNat) len.toNat)) := by
  have hrange : ¬ outOfRange p.config offset len := by
    rw [p.outOfRange_iff]
    omega
  rw [eepromRead_eq p.serve hrange]
  simp only [p.serve_address (by omega : offset.toNat ≤ p.size), p.serve_read]

theorem Part.write_inRange {offset len : UInt16} (h : offset.toNat + len.toNat ≤ p.size)
    {fuel : ℕ} (hfuel : len.toNat ≤ fuel) (m : Memory) (buf : ℕ → UInt8) :
    ∃ w, eepromWrite p.serve fuel p.config m buf offset len = some w ∧ w.value = len.toInt16 ∧
      (∀ t ∈ w.log, p.WithinPage t.1) ∧
      w.bus.cells = fill m.cells offset.toNat (slice buf len.toNat) := by
  have hrange : ¬ outOfRange p.config offset len := by
    rw [p.outOfRange_iff]
    omega
  have hpos := p.page_pos
  have hrun := p.eepromWrite_eq p.serve hrange hfuel m buf
  have hwithin := pieces_within hpos fuel offset.toNat (slice buf len.toNat)
  rw [slice_length] at hwithin
  have hstart : ∀ q ∈ pieces p.page fuel offset.toNat (slice buf len.toNat), q.1 ≤ p.size := by
    intro q hq
    have hq := hwithin q hq
    omega
  refine ⟨_, hrun, rfl, fun t ht => ?_, ?_⟩
  · have hmem := List.mem_map_of_mem (f := Prod.fst) ht
    rw [issued_setups] at hmem
    obtain ⟨q, hq, hsetup⟩ := List.mem_map.mp hmem
    rw [← hsetup]
    exact p.writeSetup_withinPage (hstart q hq) (pieces_inPage hpos _ _ _ q hq)
  · rw [p.serve_pieces hstart]
    exact pieces_store hpos _ (by rw [slice_length]; exact hfuel) _

end Part

/-- In range, `eeprom_write` returns the length, writes within the pages, replaces the bytes
of the range and no others, and `eeprom_read` returns them; out of range, both return `-1` and
issue no transfer. -/
theorem eeprom_write_exact (p : Part) (m : Memory) (buf rbuf : ℕ → UInt8) (offset len : UInt16)
    (fuel : ℕ) (hfuel : len.toNat ≤ fuel) :
    (offset.toNat + len.toNat ≤ p.size →
      ∃ w, eepromWrite p.serve fuel p.config m buf offset len = some w ∧
        w.value.toInt = len.toNat ∧ (∀ t ∈ w.log, p.WithinPage t.1) ∧
        (∀ a, w.bus.cells a =
          if offset.toNat ≤ a ∧ a < offset.toNat + len.toNat then buf (a - offset.toNat)
          else m.cells a) ∧
        (eepromRead p.serve p.config w.bus rbuf offset len).value.1.toInt = len.toNat ∧
        slice (eepromRead p.serve p.config w.bus rbuf offset len).value.2 len.toNat =
          slice buf len.toNat) ∧
    (p.size < offset.toNat + len.toNat →
      eepromWrite p.serve fuel p.config m buf offset len = some ⟨-1, m, []⟩ ∧
        eepromRead p.serve p.config m rbuf offset len = ⟨(-1, rbuf), m, []⟩) := by
  refine ⟨fun h => ?_, fun h => ?_⟩
  · obtain ⟨w, hw, hvalue, hpages, hcells⟩ := p.write_inRange h hfuel m buf
    have hrange : ¬ outOfRange p.config offset len := by
      rw [p.outOfRange_iff]
      omega
    have hlen := p.toInt_of_inRange hrange
    have hback := p.read_inRange h w.bus rbuf
    refine ⟨w, hw, by rw [hvalue, hlen], hpages, fun a => ?_, by rw [hback, hlen], ?_⟩
    · rw [hcells, fill_slice_apply]
    · rw [hback]
      have hread := slice_fill rbuf 0 (slice (shift w.bus.cells offset.toNat) len.toNat)
      rw [slice_length, Nat.zero_add, slice_zero, List.nil_append] at hread
      have hwritten := slice_fill m.cells offset.toNat (slice buf len.toNat)
      rw [← hcells, slice_length, slice_add] at hwritten
      rw [hread]
      exact (List.append_inj hwritten (by simp)).2
  · have hrange : outOfRange p.config offset len := (p.outOfRange_iff offset len).mpr h
    rw [eepromWrite, if_pos hrange, eepromRead, if_pos hrange]
    exact ⟨rfl, rfl⟩

theorem eeprom_write_exact_two_pages :
    let m : Memory := ⟨fun _ => 0xFF, 0⟩
    ∃ w, eepromWrite Part.m24aa02e48.serve 4 config24aa m (ofList [1, 2, 3, 4]) 6 4 = some w ∧
      w.value.toInt = 4 ∧ ∀ t ∈ w.log, Part.m24aa02e48.WithinPage t.1 := by
  intro m
  have h := eeprom_write_exact .m24aa02e48 m (ofList [1, 2, 3, 4]) (fun _ => 0) 6 4 4 (by decide)
  obtain ⟨w, hw, hvalue, hpages, -⟩ := h.1 (by decide)
  exact ⟨w, hw, hvalue, hpages⟩

theorem eepromInit_detects (m : Memory) (eui : ℕ → UInt8) :
    (eepromInit Part.m24aa02e48.serve config24lc m eui).value =
      if slice (shift m.cells 0xFA) 3 = eui48OrgId then config24aa else config24lc := by
  have hfill : slice (fill eui 0 (slice (shift m.cells 0xFA) 6)) 3 =
      slice (shift m.cells 0xFA) 3 := by
    have htaken := congrArg (List.take 3) (slice_fill eui 0 (slice (shift m.cells 0xFA) 6))
    rwa [slice_length, slice_zero, List.nil_append, take_slice, take_slice] at htaken
  have hread : (eepromReadEui48 Part.m24aa02e48.serve m eui).value.1 =
      decide (slice (fill eui 0 (slice (shift m.cells 0xFA) 6)) 3 = eui48OrgId) := rfl
  rw [eepromInit, hread]
  simp only [config24lc, Bool.false_eq_true, false_or, decide_eq_true_iff]
  rw [hfill]

end AoaBoard.Eeprom
