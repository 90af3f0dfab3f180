import AoaBoard.Eeprom.Undisturbed

/-!
# Runs of reads and writes

The application reads and writes over the polling mode of the I2C driver. On an
undisturbed bus a run is one with the memory of whole transfers; on any bus,
what a cell holds in the end comes from the start or from a write of the run.
-/

namespace AoaBoard.Eeprom
open Library Library.Bytes Library.Run Library.Pages

inductive Call
  | read (offset len : UInt16)
  | write (buf : ℕ → UInt8) (offset len : UInt16)

def Part.call {β : Type} (p : Part) (transfer : β → Setup → β × Reply) (b : β) :
    Call → β × List (Int16 × List UInt8)
  | .read offset len =>
    let r := eepromRead transfer p.config b (fun _ => 0) offset len
    (r.bus, [(r.value.1, slice r.value.2 len.toNat)])
  | .write buf offset len =>
    match eepromWrite transfer len.toNat p.config b buf offset len with
    | some r => (r.bus, [(r.value, [])])
    | none => (b, [])

theorem call_matches {p : Part} {script : ℕ → Option Fault} {w : Wire} {m : Memory}
    (h : Shows script w m) (c : Call) :
    Shows script (p.call (p.transfer script) w c).1 (p.call p.serve m c).1 ∧
      (p.call (p.transfer script) w c).2 = (p.call p.serve m c).2 := by
  cases c with
  | read offset len =>
    obtain ⟨hvalue, -, hshows⟩ := read_matches (p := p) h (fun _ => 0) offset len
    refine ⟨hshows, ?_⟩
    simp only [Part.call, hvalue]
  | write buf offset len =>
    obtain ⟨r, r', hr, hr', hvalue, -, hshows⟩ :=
      write_matches (p := p) h buf offset len (Nat.le_refl _)
    simp only [Part.call, hr, hr', hvalue]
    exact ⟨hshows, trivial⟩

/-- On an undisturbed bus every run of reads and writes returns what it returns with the memory of
whole transfers, and leaves the same memory. -/
theorem eeprom_run_undisturbed (p : Part) (script : ℕ → Option Fault) (w : Wire) (m : Memory)
    (cs : List Call) (hquiet : ∀ i, w.used ≤ i → script i = none)
    (hcells : w.slave.cells = m.cells) (hpointer : w.slave.pointer = m.pointer)
    (hidle : w.slave.phase = .idle) :
    let w' := after (p.call (p.transfer script)) w cs
    let m' := after (p.call p.serve) m cs
    outputs (p.call (p.transfer script)) w cs = outputs (p.call p.serve) m cs ∧
      w'.slave.cells = m'.cells ∧ w'.slave.pointer = m'.pointer ∧ w'.slave.phase = .idle := by
  have hstart : Shows script w m := ⟨hcells, hpointer, hidle, hquiet⟩
  have hstep : ∀ (w : Wire) (m : Memory) (c : Call), True → Shows script w m →
      Shows script (p.call (p.transfer script) w c).1 (p.call p.serve m c).1 ∧
        (p.call (p.transfer script) w c).2 = (p.call p.serve m c).2 :=
    fun _ _ c _ h => call_matches h c
  have hall : ∀ c ∈ cs, True := fun _ _ => trivial
  obtain ⟨hend, houtputs⟩ := simulates hstep hstart hall
  exact ⟨houtputs, hend.cells, hend.pointer, hend.idle⟩

theorem eeprom_run_undisturbed_back :
    outputs (Part.m24aa02e48.call (Part.m24aa02e48.transfer fun _ => none))
        ⟨⟨fun _ => 0xFF, 0, .idle, 0⟩, 0⟩ [.write (ofList [1, 2, 3, 4]) 6 4, .read 5 3] =
      outputs (Part.m24aa02e48.call Part.m24aa02e48.serve) ⟨fun _ => 0xFF, 0⟩
        [.write (ofList [1, 2, 3, 4]) 6 4, .read 5 3] :=
  (eeprom_run_undisturbed .m24aa02e48 (fun _ => none) ⟨⟨fun _ => 0xFF, 0, .idle, 0⟩, 0⟩
    ⟨fun _ => 0xFF, 0⟩ _ (fun _ _ => rfl) rfl rfl rfl).1

section Disturbed
variable {p : Part} {script : ℕ → Option Fault} {w : Wire}

theorem call_keeps {G : (ℕ → UInt8) → Prop} {c : Call} (hidle : w.slave.phase = .idle)
    (hG : ∀ buf offset len, c = .write buf offset len → offset.toNat + len.toNat ≤ p.size →
      ∀ cells cells', G cells → Between cells buf offset.toNat len.toNat cells' → G cells')
    (h : G w.slave.cells) :
    (p.call (p.transfer script) w c).1.slave.phase = .idle ∧
      G (p.call (p.transfer script) w c).1.slave.cells := by
  cases c with
  | read offset len =>
    by_cases hin : offset.toNat + len.toNat ≤ p.size
    · obtain ⟨hend, hcells⟩ := @read_slave p script w _ _ hin hidle fun _ => 0
      simp only [Part.call, hend, hcells]
      exact ⟨trivial, h⟩
    · have hrange : outOfRange p.config offset len := (p.outOfRange_iff _ _).mpr (by omega)
      simp only [Part.call, eepromRead, if_pos hrange]
      exact ⟨hidle, h⟩
  | write buf offset len =>
    by_cases hin : offset.toNat + len.toNat ≤ p.size
    · have hrange : ¬outOfRange p.config offset len := by
        rw [p.outOfRange_iff]
        omega
      obtain ⟨hend, hcells, -⟩ := run_pieces (w := w)
        (pieces_fit hin buf) (fun cells hc q hq _ => hG buf offset len rfl hin cells _ hc
          (between_piece hq)) hidle h
      simp only [Part.call, p.eepromWrite_eq (p.transfer script) hrange (Nat.le_refl _) w buf]
      exact ⟨hend, hcells⟩
    · have hrange : outOfRange p.config offset len := (p.outOfRange_iff _ _).mpr (by omega)
      simp only [Part.call, eepromWrite, if_pos hrange]
      exact ⟨hidle, h⟩

end Disturbed

def Traced (p : Part) (cs : List Call) (start : ℕ → UInt8) (cells : ℕ → UInt8) : Prop :=
  ∀ a, cells a = start a ∨ ∃ buf offset len, Call.write buf offset len ∈ cs ∧
    offset.toNat + len.toNat ≤ p.size ∧ offset.toNat ≤ a ∧ a < offset.toNat + len.toNat ∧
    cells a = buf (a - offset.toNat)

/-- Whatever is disturbed, after any run of reads and writes the memory is ready for the next
transfer, and every cell holds what it has held at the start or the byte that one of the writes has
for it. -/
theorem eeprom_run_disturbed (p : Part) (script : ℕ → Option Fault) (w : Wire) (cs : List Call)
    (hidle : w.slave.phase = .idle) :
    let w' := after (p.call (p.transfer script)) w cs
    w'.slave.phase = .idle ∧ Traced p cs w.slave.cells w'.slave.cells := by
  refine after_invariant (P := fun w' : Wire => w'.slave.phase = .idle ∧
    Traced p cs w.slave.cells w'.slave.cells) (C := fun _ c => c ∈ cs) ?_ ?_
    (along_of_forall_mem w cs fun _ hc => hc)
  · rintro w' c ⟨hidle', htraced⟩ hc
    refine call_keeps hidle' (fun buf offset len hwrite hin cells cells' h hbetween a => ?_) htraced
    rcases hbetween a with heq | ⟨hle, hlt, heq⟩
    · rw [heq]
      exact h a
    · exact Or.inr ⟨buf, offset, len, hwrite ▸ hc, hin, hle, hlt, heq⟩
  · exact ⟨hidle, fun _ => Or.inl rfl⟩

theorem eeprom_run_disturbed_twice :
    (after (Part.m24lc32.call (Part.m24lc32.transfer fun i =>
        if i % 5 = 3 then some ⟨.arbLost, true⟩ else none))
      ⟨⟨fun _ => 0xFF, 0, .idle, 0⟩, 0⟩
      [.write (ofList [1, 2, 3]) 30 3, .read 30 3, .write (ofList [9]) 31 1]).slave.phase = .idle :=
  (eeprom_run_disturbed .m24lc32 (fun i => if i % 5 = 3 then some ⟨.arbLost, true⟩ else none)
    ⟨⟨fun _ => 0xFF, 0, .idle, 0⟩, 0⟩
    [.write (ofList [1, 2, 3]) 30 3, .read 30 3, .write (ofList [9]) 31 1] rfl).1

end AoaBoard.Eeprom
