import AoaBoard.Eeprom.Wire

/-!
# The EEPROM on an undisturbed bus

As long as no operation is disturbed, every transfer passes at the first attempt
and the memory on the wire does what the memory of whole transfers does.
-/

namespace AoaBoard.Eeprom
open Library Library.Bytes Library.Run Library.Pages Library.Retry I2c

def Undisturbed (script : ℕ → Option Fault) (n : ℕ) : Prop := ∀ i, n ≤ i → script i = none

/-- Between transfers the wire shows the memory `m`, and no operation to come is disturbed. -/
structure Shows (script : ℕ → Option Fault) (w : Wire) (m : Memory) : Prop where
  cells : w.slave.cells = m.cells
  pointer : w.slave.pointer = m.pointer
  idle : w.slave.phase = .idle
  undisturbed : Undisturbed script w.used

inductive Driven (p : Part) : Setup → Prop
  | write {data : List UInt8} (h : p.addressBytes ≤ data.length) :
      Driven p ⟨eepromI2cAddr, data, 0⟩
  | read (n : ℕ) : Driven p ⟨eepromI2cAddr, [], n⟩

section Undisturbed
variable {p : Part} {script : ℕ → Option Fault} {w : Wire}

theorem perform_undisturbed (h : Undisturbed script w.used) (c : Command) :
    p.perform script w c = (⟨(p.react w.slave c).1, w.used + 1⟩, (p.react w.slave c).2) := by
  have hnone := h w.used (Nat.le_refl _)
  cases c with
  | stop => rfl
  | start => simp only [Part.perform, hnone]
  | sendByte d => simp only [Part.perform, hnone]
  | getByte ack => simp only [Part.perform, hnone]

theorem Undisturbed.mono {n n' : ℕ} (h : Undisturbed script n) (hle : n ≤ n') :
    Undisturbed script n' := fun i hi => h i (Nat.le_trans hle hi)

theorem passed_cons {k : Step} {ks : List Step} {m : Slave} {a : Answer}
    (h : Undisturbed script w.used) (hreact : p.react w.slave k.command = (m, a))
    (hgood : k.good a)
    (hrest : passed Step.good (tried p script ⟨m, w.used + 1⟩ ks).2) :
    passed Step.good (tried p script w (k :: ks)).2 := by
  have hrun : run (p.perform script) w k = (⟨m, w.used + 1⟩, a) := by
    rw [run, perform_undisturbed h, hreact]
  rw [tried, attemptOf, attempt, hrun, if_pos hgood]
  exact (Bool.and_eq_true _ _).mpr ⟨hgood, hrest⟩

theorem passed_data {done : List UInt8} (h : Undisturbed script w.used)
    (hphase : w.slave.phase = .writing done) (ds : List UInt8) :
    passed Step.good (tried p script w (ds.map dataStep)).2 := by
  induction ds generalizing w done with
  | nil => rfl
  | cons d ds ih =>
    have hreact : p.react w.slave (dataStep d).command =
        ({ w.slave with phase := .writing (done ++ [d]) }, ⟨0x28, 0⟩) := by
      simp only [Part.react, dataStep, hphase]
    exact passed_cons h hreact ((good_singleton _ _ _).mpr (by decide))
      (ih (h.mono (Nat.le_succ _)) rfl)

theorem passed_gets {n : ℕ} (h : Undisturbed script w.used)
    (hphase : n ≠ 0 → w.slave.phase = .reading) :
    passed Step.good (tried p script w (getSteps n)).2 := by
  induction n generalizing w with
  | zero => rfl
  | succ n ih =>
    refine passed_cons h (react_get (hphase (Nat.succ_ne_zero n)) n) ?_
      (ih (h.mono (Nat.le_succ _)) fun hn => if_pos hn)
    rw [good_singleton]
    split_ifs
    · exact (by decide : ((0x50 : UInt8) &&& 0xF8).toUInt32 = rxDatAck)
    · exact (by decide : ((0x58 : UInt8) &&& 0xF8).toUInt32 = rxDatNack)

theorem passed_write {data : List UInt8} (h : Undisturbed script w.used) (hdata : data ≠ []) :
    passed Step.good (tried p script w (plan ⟨eepromI2cAddr, data, 0⟩)).2 := by
  obtain ⟨-, haddressing⟩ := restart_cells (p := p) w.slave
  rw [plan_write hdata]
  refine passed_cons h rfl (start_good (p := p) w.slave) ?_
  refine passed_cons (h.mono (Nat.le_succ _)) (slaw_eq _ rfl _ haddressing) (by decide) ?_
  exact passed_data (h.mono (Nat.le_add_right w.used 2)) rfl data

theorem passed_read (h : Undisturbed script w.used) (n : ℕ) :
    passed Step.good (tried p script w (plan ⟨eepromI2cAddr, [], n⟩)).2 := by
  obtain ⟨-, haddressing⟩ := restart_cells (p := p) w.slave
  rw [plan_read]
  refine passed_cons h rfl (start_good (p := p) w.slave) ?_
  split_ifs with hn
  · rfl
  · refine passed_cons (h.mono (Nat.le_succ _)) (slar_eq _ haddressing) (by decide) ?_
    exact passed_gets (h.mono (Nat.le_add_right w.used 2)) fun _ => rfl

theorem perform_used (w : Wire) (c : Command) : w.used ≤ (p.perform script w c).1.used := by
  by_cases hc : c = .stop
  · rw [hc]
    exact Nat.le_succ _
  · rcases p.perform_cases script w hc with heq | ⟨f, m, -, heq⟩
    · rw [heq]
      exact Nat.le_succ _
    · rw [heq]
      exact Nat.le_succ _

theorem tried_used (w : Wire) (ks : List Step) : w.used ≤ (tried p script w ks).1.used := by
  induction ks generalizing w with
  | nil => exact Nat.le_refl _
  | cons k ks ih =>
    have hle : w.used ≤ (run (p.perform script) w k).1.used := perform_used w k.command
    by_cases hgood : k.good (run (p.perform script) w k).2
    · have hcons : tried p script w (k :: ks) = _ := attempt_cons_good hgood ks
      rw [hcons]
      exact Nat.le_trans hle (ih _)
    · have hcons : tried p script w (k :: ks) = _ := attempt_cons_bad hgood ks
      rw [hcons]
      exact hle

theorem transfer_passed {s : Setup} (h : passed Step.good (tried p script w (plan s)).2) :
    let t := tried p script w (plan s)
    p.transfer script w s = ((p.perform script t.1 .stop).1, ⟨.success, bytesOf t.2⟩) := by
  intro t
  have htrials : trials (run (p.perform script)) Step.good (plan s) 4 w = (t.1, [t.2]) :=
    trials_succ_passed h 3
  obtain ⟨log, hlog, hbus, hstatus, hdata⟩ := i2cTransfer_eq (p.perform script) w s
  have hlast := hlog
  rw [htrials] at hlast
  obtain rfl : t.2 = log := Option.some.inj hlast
  obtain ⟨-, -, -, hbuffered⟩ := trials_passed hlog h
  rw [htrials] at hbus
  have hreply : (i2cTransfer (p.perform script) w s).2 = ⟨.success, bytesOf t.2⟩ := by
    calc (i2cTransfer (p.perform script) w s).2
        = ⟨(i2cTransfer (p.perform script) w s).2.status,
            (i2cTransfer (p.perform script) w s).2.data⟩ := rfl
      _ = ⟨.success, bytesOf t.2⟩ := by rw [hstatus.mpr h, hdata, hbuffered]
  exact Prod.ext hbus hreply

theorem Shows.begun {m : Memory} (h : Shows script w m) (data : List UInt8) :
    Begun m.cells data w.slave :=
  ⟨h.cells, fun bytes hbytes => by rw [h.idle] at hbytes; cases hbytes⟩

theorem Shows.gone {m : Memory} (h : Shows script w m) : Gone w.slave 0 w.slave :=
  ⟨rfl, rfl, rfl, fun bytes hbytes => by rw [h.idle] at hbytes; cases hbytes⟩

theorem transfer_undisturbed (h : Undisturbed script w.used) {s : Setup}
    (hpass : passed Step.good (tried p script w (plan s)).2) :
    Undisturbed script (p.transfer script w s).1.used := by
  rw [transfer_passed hpass]
  exact h.mono (Nat.le_trans (tried_used w (plan s)) (perform_used _ _))

theorem write_serve {m : Memory} {data : List UInt8} (hlen : p.addressBytes ≤ data.length)
    (h : Shows script w m) :
    Shows script (p.transfer script w ⟨eepromI2cAddr, data, 0⟩).1
        (p.serve m ⟨eepromI2cAddr, data, 0⟩).1 ∧
      (p.transfer script w ⟨eepromI2cAddr, data, 0⟩).2 =
        (p.serve m ⟨eepromI2cAddr, data, 0⟩).2 := by
  have hpos : 0 < p.addressBytes := by
    cases p <;> decide
  have hdata : data ≠ [] := List.length_pos_iff.mp (by omega)
  have hpass : passed Step.good (tried p script w (plan ⟨eepromI2cAddr, data, 0⟩)).2 :=
    passed_write h.undisturbed hdata
  obtain ⟨⟨hcells, -⟩, hphase⟩ := tried_write (p := p) hdata (h.begun data)
  have hwriting := hphase hpass
  have hnone : bytesOf (tried p script w (plan ⟨eepromI2cAddr, data, 0⟩)).2 = [] := by
    have hcommands : (tried p script w (plan ⟨eepromI2cAddr, data, 0⟩)).2.map Prod.fst = _ :=
      attempt_passed hpass
    rw [← List.length_eq_zero_iff, bytesOf_length_passed hpass, hcommands, (plan_counts _).2]
  have hslave : (p.transfer script w ⟨eepromI2cAddr, data, 0⟩).1.slave = p.commit _ :=
    congrArg (fun x => x.1.slave) (transfer_passed hpass)
  rw [Part.commit, hwriting] at hslave
  simp only [if_pos hlen, hcells] at hslave
  refine ⟨⟨?_, ?_, ?_, transfer_undisturbed h.undisturbed hpass⟩, ?_⟩
  · simp [hslave, Part.serve, hdata, Part.write]
  · simp [hslave, Part.serve, hdata, Part.write]
  · simp [hslave]
  · rw [transfer_passed hpass, hnone]
    simp [Part.serve]

theorem read_serve {m : Memory} (n : ℕ) (h : Shows script w m) :
    Shows script (p.transfer script w ⟨eepromI2cAddr, [], n⟩).1
        (p.serve m ⟨eepromI2cAddr, [], n⟩).1 ∧
      (p.transfer script w ⟨eepromI2cAddr, [], n⟩).2 = (p.serve m ⟨eepromI2cAddr, [], n⟩).2 := by
  have hpass : passed Step.good (tried p script w (plan ⟨eepromI2cAddr, [], n⟩)).2 :=
    passed_read h.undisturbed n
  obtain ⟨hpointer, hbytes⟩ := tried_read h.gone hpass
  obtain ⟨j, -, hend⟩ := gone_tried (p := p) (plan_reads n) h.gone
  have hslave : (p.transfer script w ⟨eepromI2cAddr, [], n⟩).1.slave = p.commit _ :=
    congrArg (fun x => x.1.slave) (transfer_passed hpass)
  rw [commit_of_not_writing hend.phase, hpointer, hend.cells, Nat.zero_add] at hslave
  refine ⟨⟨?_, ?_, ?_, transfer_undisturbed h.undisturbed hpass⟩, ?_⟩
  · exact (congrArg Slave.cells hslave).trans h.cells
  · exact (congrArg Slave.pointer hslave).trans (congrArg (· + n) h.pointer)
  · exact congrArg Slave.phase hslave
  · rw [transfer_passed hpass, hbytes, h.cells, h.pointer, Nat.add_zero]
    rfl

/-- On an undisturbed bus the transfers are those of the memory of whole transfers. -/
theorem issue_serve {setups : List Setup} (hs : ∀ s ∈ setups, Driven p s) {m : Memory}
    (h : Shows script w m) :
    Shows script (after (issue (p.transfer script)) w setups) (after (issue p.serve) m setups) ∧
      outputs (issue (p.transfer script)) w setups = outputs (issue p.serve) m setups := by
  refine simulates (fun w m s hs h => ?_) h hs
  cases hs with
  | write hlen =>
    obtain ⟨hshows, hreply⟩ := write_serve hlen h
    exact ⟨hshows, by rw [issue, issue, hreply]⟩
  | read n =>
    obtain ⟨hshows, hreply⟩ := read_serve n h
    exact ⟨hshows, by rw [issue, issue, hreply]⟩

structure Matches {α : Type} (script : ℕ → Option Fault) (r : Ran Wire α) (r' : Ran Memory α) :
    Prop where
  value : r.value = r'.value
  log : r.log = r'.log
  shows : Shows script r.bus r'.bus

theorem read_matches {m : Memory} (h : Shows script w m) (buf : ℕ → UInt8) (offset len : UInt16) :
    Matches script (eepromRead (p.transfer script) p.config w buf offset len)
      (eepromRead p.serve p.config m buf offset len) := by
  by_cases hrange : outOfRange p.config offset len
  · rw [eepromRead, eepromRead, if_pos hrange, if_pos hrange]
    exact ⟨rfl, rfl, h⟩
  · have hlen := Nat.le_of_eq (p.offsetBytes_length offset).symm
    have hdriven : ∀ s ∈ readSetups p.config offset len, Driven p s :=
      List.forall_mem_cons.mpr ⟨.write hlen, List.forall_mem_singleton.mpr (.read _)⟩
    obtain ⟨hend, houtputs⟩ := issue_serve hdriven h
    obtain ⟨-, hreply⟩ := read_serve (p := p) len.toNat (write_serve hlen h).1
    rw [eepromRead_eq (p.transfer script) hrange, eepromRead_eq p.serve hrange]
    exact ⟨by simp only [hreply], houtputs, hend⟩

theorem write_matches {m : Memory} (h : Shows script w m) (buf : ℕ → UInt8) (offset len : UInt16)
    {fuel : ℕ} (hfuel : len.toNat ≤ fuel) :
    ∃ r r', eepromWrite (p.transfer script) fuel p.config w buf offset len = some r ∧
      eepromWrite p.serve fuel p.config m buf offset len = some r' ∧ Matches script r r' := by
  by_cases hrange : outOfRange p.config offset len
  · rw [eepromWrite, eepromWrite, if_pos hrange, if_pos hrange]
    exact ⟨_, _, rfl, rfl, rfl, rfl, h⟩
  · have hdriven : ∀ s ∈ (pieces p.page fuel offset.toNat (slice buf len.toNat)).map
        (writeSetup p.config), Driven p s := by
      intro s hs
      obtain ⟨q, -, rfl⟩ := List.mem_map.mp hs
      refine .write ?_
      rw [List.length_append, p.offsetBytes_length]
      exact Nat.le_add_right _ _
    obtain ⟨hend, houtputs⟩ := issue_serve hdriven h
    exact ⟨_, _, p.eepromWrite_eq (p.transfer script) hrange hfuel w buf,
      p.eepromWrite_eq p.serve hrange hfuel m buf, rfl, houtputs, hend⟩

end Undisturbed

end AoaBoard.Eeprom
