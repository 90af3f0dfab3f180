import AoaBoard.Eeprom.Device
import AoaBoard.I2c.Master
import Mathlib.Data.Nat.Periodic

/-!
# The EEPROM on the wire

The memory answers single bytes and commits what it was sent at the stop
condition; a start condition in between drops it. Any operation on the bus but
the stop condition may be disturbed, and then reports a failure. `eeprom_write`
and `eeprom_read` run over the polling mode of the I2C driver. The cells go on
behind the end of the memory; where it rolls over there, they repeat.
-/

namespace AoaBoard.Eeprom
open Library Library.Bytes Library.Run Library.Pages Library.Retry I2c

inductive Phase
  | idle
  | addressing
  | writing (bytes : List UInt8)
  | reading
  | ignoring
  deriving DecidableEq

/-- `served` is the number of bytes that the memory has given out. -/
structure Slave where
  cells : ℕ → UInt8
  pointer : ℕ
  phase : Phase
  served : ℕ

section
variable (p : Part)

/-- A start condition ends a write: only the address counts. -/
def Part.restart (m : Slave) : Slave :=
  match m.phase with
  | .writing bytes =>
    { m with
      pointer := if p.addressBytes ≤ bytes.length then p.address bytes else m.pointer
      phase := .addressing }
  | _ => { m with phase := .addressing }

def Part.commit (m : Slave) : Slave :=
  match m.phase with
  | .writing bytes =>
    if p.addressBytes ≤ bytes.length then
      let w := p.write ⟨m.cells, m.pointer⟩ bytes
      { m with cells := w.cells, pointer := w.pointer, phase := .idle }
    else { m with phase := .idle }
  | _ => { m with phase := .idle }

def Part.react (m : Slave) : Command → Slave × Answer
  | .start => (p.restart m, ⟨if m.phase = .idle then 0x08 else 0x10, 0⟩)
  | .stop => (p.commit m, ⟨0xF8, 0⟩)
  | .sendByte d =>
    match m.phase with
    | .addressing =>
      if d >>> 1 = eepromI2cAddr then
        if d &&& 1 = 0 then ({ m with phase := .writing [] }, ⟨0x18, 0⟩)
        else ({ m with phase := .reading }, ⟨0x40, 0⟩)
      else ({ m with phase := .ignoring }, ⟨if d &&& 1 = 0 then 0x20 else 0x48, 0⟩)
    | .writing bytes => ({ m with phase := .writing (bytes ++ [d]) }, ⟨0x28, 0⟩)
    | _ => (m, ⟨0x30, 0⟩)
  | .getByte ack =>
    match m.phase with
    | .reading =>
      ({ m with
          pointer := m.pointer + 1
          phase := if ack then .reading else .ignoring
          served := m.served + 1 },
        ⟨if ack then 0x50 else 0x58, m.cells m.pointer⟩)
    | _ => (m, ⟨if ack then 0x50 else 0x58, 0xFF⟩)

end

/-- The status codes with which the driver goes on, after one command or another. -/
def proceedCodes : List UInt32 :=
  [0x08, 0x10, txSlawAck, txDatAck, rxSlarAck, rxDatAck, rxDatNack]

/-- A status with which the driver never goes on. -/
structure Failure where
  stat : UInt8
  failed : (Answer.mk stat 0).code ∉ proceedCodes

def Failure.datNack : Failure := ⟨0x30, by decide⟩

def Failure.arbLost : Failure := ⟨0x38, by decide⟩

def Failure.busError : Failure := ⟨0x00, by decide⟩

/-- A disturbed operation: the status that the controller reports, always that of a failure, and
whether the memory has seen the operation all the same. An operation that is missed but reported as
done is none of these: the driver takes it for one that is done. -/
structure Fault where
  code : Failure
  seen : Bool

structure Wire where
  slave : Slave
  used : ℕ

section
variable (p : Part) (script : ℕ → Option Fault)

/-- The stop condition always arrives. -/
def Part.perform (w : Wire) : Command → Wire × Answer
  | .stop => (⟨(p.react w.slave .stop).1, w.used + 1⟩, (p.react w.slave .stop).2)
  | c =>
    match script w.used with
    | none => (⟨(p.react w.slave c).1, w.used + 1⟩, (p.react w.slave c).2)
    | some f =>
      (⟨if f.seen then (p.react w.slave c).1 else w.slave, w.used + 1⟩, ⟨f.code.stat, 0⟩)

def Part.transfer : Wire → Setup → Wire × Reply := i2cTransfer (p.perform script)

theorem Part.perform_cases (w : Wire) {c : Command} (hc : c ≠ .stop) :
    p.perform script w c = (⟨(p.react w.slave c).1, w.used + 1⟩, (p.react w.slave c).2) ∨
      ∃ (f : Fault) (m : Slave), (m = (p.react w.slave c).1 ∨ m = w.slave) ∧
        p.perform script w c = (⟨m, w.used + 1⟩, ⟨f.code.stat, 0⟩) := by
  have heq : p.perform script w c = match script w.used with
      | none => (⟨(p.react w.slave c).1, w.used + 1⟩, (p.react w.slave c).2)
      | some f =>
        (⟨if f.seen then (p.react w.slave c).1 else w.slave, w.used + 1⟩, ⟨f.code.stat, 0⟩) := by
    cases c with
    | stop => exact absurd rfl hc
    | start => rfl
    | sendByte d => rfl
    | getByte ack => rfl
  rw [heq]
  cases script w.used with
  | none => exact Or.inl rfl
  | some f =>
    refine Or.inr ⟨f, _, ?_, rfl⟩
    split_ifs
    · exact Or.inl rfl
    · exact Or.inr rfl

end

def Acknowledges (k : Step) : Prop := ∀ x ∈ k.expects, x ∈ proceedCodes

theorem acknowledges_start : Acknowledges startStep := by
  simp [Acknowledges, proceedCodes, startStep]

theorem acknowledges_slaw (d : UInt8) : Acknowledges ⟨.sendByte d, [txSlawAck]⟩ := by
  simp [Acknowledges, proceedCodes]

theorem acknowledges_slar (d : UInt8) : Acknowledges ⟨.sendByte d, [rxSlarAck]⟩ := by
  simp [Acknowledges, proceedCodes]

theorem acknowledges_data (d : UInt8) : Acknowledges (dataStep d) := by
  simp [Acknowledges, proceedCodes, dataStep]

theorem acknowledges_get (ack : Bool) (P : Prop) [Decidable P] :
    Acknowledges ⟨.getByte ack, [if P then rxDatAck else rxDatNack]⟩ := by
  intro x hx
  rw [List.mem_singleton.mp hx]
  split_ifs <;> simp [proceedCodes]

theorem failure_bad {k : Step} (h : Acknowledges k) (code : Failure) : ¬k.good ⟨code.stat, 0⟩ :=
  fun hgood => code.failed (h _ (of_decide_eq_true hgood))

section Attempts
variable {p : Part} {script : ℕ → Option Fault} {w : Wire}

theorem transfer_slave (s : Setup) : (p.transfer script w s).1.slave =
    p.commit (trials (run (p.perform script)) Step.good (plan s) 4 w).1.slave := by
  obtain ⟨log, -, hbus, -⟩ := i2cTransfer_eq (p.perform script) w s
  exact congrArg Wire.slave hbus

abbrev tried (p : Part) (script : ℕ → Option Fault) (w : Wire) (ks : List Step) :
    Wire × List (Step × Answer) :=
  attemptOf (p.perform script) w ks

theorem tried_cons {k : Step} {a : Answer} {m : Slave} (hc : k.command ≠ .stop)
    (hk : Acknowledges k) (hreact : p.react w.slave k.command = (m, a)) (hgood : k.good a)
    (ks : List Step) :
    tried p script w (k :: ks) =
        ((tried p script ⟨m, w.used + 1⟩ ks).1, (k, a) :: (tried p script ⟨m, w.used + 1⟩ ks).2) ∨
      ¬passed Step.good (tried p script w (k :: ks)).2 ∧
        ((tried p script w (k :: ks)).1.slave = m ∨
          (tried p script w (k :: ks)).1.slave = w.slave) := by
  rcases p.perform_cases script w hc with heq | ⟨f, m', hm', heq⟩
  · left
    rw [hreact] at heq
    have hrun : run (p.perform script) w k = (⟨m, w.used + 1⟩, a) := heq
    rw [tried, attemptOf, attempt, hrun, if_pos hgood]
    rfl
  · right
    have hrun : run (p.perform script) w k = (⟨m', w.used + 1⟩, ⟨f.code.stat, 0⟩) := heq
    have hbad := failure_bad hk f.code
    rw [hreact] at hm'
    rw [tried, attemptOf, attempt, hrun, if_neg hbad]
    exact ⟨by simpa [passed] using hbad, hm'⟩

theorem restart_cells (m : Slave) : (p.restart m).cells = m.cells ∧
    (p.restart m).phase = .addressing := by
  rw [Part.restart]
  cases m.phase <;> exact ⟨rfl, rfl⟩

theorem restart_of_not_writing {m : Slave} (h : ∀ bytes, m.phase ≠ .writing bytes) :
    p.restart m = { m with phase := .addressing } := by
  rw [Part.restart]
  cases hm : m.phase with
  | writing bytes => exact absurd hm (h bytes)
  | idle => rfl
  | addressing => rfl
  | reading => rfl
  | ignoring => rfl

theorem commit_of_not_writing {m : Slave} (h : ∀ bytes, m.phase ≠ .writing bytes) :
    p.commit m = { m with phase := .idle } := by
  rw [Part.commit]
  cases hm : m.phase with
  | writing bytes => exact absurd hm (h bytes)
  | idle => rfl
  | addressing => rfl
  | reading => rfl
  | ignoring => rfl

theorem start_good (m : Slave) : startStep.good (p.react m .start).2 := by
  simp only [Part.react]
  split_ifs <;> decide

theorem slaw_eq (d : UInt8) (h : d = eepromI2cAddr <<< 1) (m : Slave)
    (hphase : m.phase = .addressing) :
    p.react m (.sendByte d) = ({ m with phase := .writing [] }, ⟨0x18, 0⟩) := by
  subst h
  simp only [Part.react, hphase]
  rw [if_pos (by decide), if_pos (by decide)]

theorem tried_data {done : List UInt8} (hphase : w.slave.phase = .writing done) (ds : List UInt8) :
    ∃ bytes, (tried p script w (ds.map dataStep)).1.slave.phase = .writing bytes ∧
      bytes <+: done ++ ds ∧ (tried p script w (ds.map dataStep)).1.slave.cells = w.slave.cells ∧
      (passed Step.good (tried p script w (ds.map dataStep)).2 → bytes = done ++ ds) := by
  induction ds generalizing w done with
  | nil => exact ⟨done, hphase, by simp, rfl, fun _ => (List.append_nil done).symm⟩
  | cons d ds ih =>
    have hreact : p.react w.slave (dataStep d).command =
        ({ w.slave with phase := .writing (done ++ [d]) }, ⟨0x28, 0⟩) := by
      simp only [Part.react, dataStep, hphase]
    have hmore : done ++ [d] ++ ds = done ++ d :: ds := by simp
    have hcommand : (dataStep d).command ≠ .stop := by simp [dataStep]
    have hgood : (dataStep d).good ⟨0x28, 0⟩ := (good_singleton _ _ _).mpr (by decide)
    rw [List.map_cons]
    rcases tried_cons hcommand (acknowledges_data d) hreact hgood (ds.map dataStep) with
      heq | ⟨hbad, hslave⟩
    · have hnext : (⟨{ w.slave with phase := .writing (done ++ [d]) }, w.used + 1⟩ :
          Wire).slave.phase = .writing (done ++ [d]) := rfl
      obtain ⟨bytes, hphase', hprefix, hcells, hpass⟩ := ih hnext
      rw [hmore] at hprefix hpass
      rw [heq]
      refine ⟨bytes, hphase', hprefix, hcells, fun h => hpass ?_⟩
      have hall := (Bool.and_eq_true _ _).mp h
      exact hall.2
    · rcases hslave with hslave | hslave
      · rw [hslave]
        exact ⟨done ++ [d], rfl, ⟨ds, hmore⟩, rfl, fun h => absurd h hbad⟩
      · rw [hslave]
        exact ⟨done, hphase, List.prefix_append _ _, rfl, fun h => absurd h hbad⟩

def Begun (cells : ℕ → UInt8) (data : List UInt8) (m : Slave) : Prop :=
  m.cells = cells ∧ ∀ bytes, m.phase = .writing bytes → bytes <+: data

theorem plan_write {data : List UInt8} (hdata : data ≠ []) :
    plan ⟨eepromI2cAddr, data, 0⟩ =
      startStep :: ⟨.sendByte (eepromI2cAddr <<< 1), [txSlawAck]⟩ :: data.map dataStep := by
  simp [plan, writeSteps, readSteps, hdata]

theorem tried_write {cells : ℕ → UInt8} {data : List UInt8} (hdata : data ≠ [])
    (h : Begun cells data w.slave) :
    Begun cells data (tried p script w (plan ⟨eepromI2cAddr, data, 0⟩)).1.slave ∧
      (passed Step.good (tried p script w (plan ⟨eepromI2cAddr, data, 0⟩)).2 →
        (tried p script w (plan ⟨eepromI2cAddr, data, 0⟩)).1.slave.phase = .writing data) := by
  rw [plan_write hdata]
  obtain ⟨hcells, hbegun⟩ := h
  obtain ⟨hrestart, haddressing⟩ := restart_cells (p := p) w.slave
  have hnone : Begun cells data (p.restart w.slave) :=
    ⟨hrestart.trans hcells, fun bytes hbytes => by rw [haddressing] at hbytes; cases hbytes⟩
  rcases tried_cons (k := startStep) (m := p.restart w.slave) (by decide) acknowledges_start rfl
    (start_good (p := p) w.slave)
    (⟨.sendByte (eepromI2cAddr <<< 1), [txSlawAck]⟩ :: data.map dataStep) with
    heq | ⟨hbad, hslave⟩
  · rw [heq]
    have hslaw := slaw_eq (p := p) (eepromI2cAddr <<< 1) rfl (p.restart w.slave) haddressing
    rcases tried_cons (k := ⟨.sendByte (eepromI2cAddr <<< 1), [txSlawAck]⟩)
      (w := ⟨p.restart w.slave, w.used + 1⟩) (by decide) (acknowledges_slaw _) hslaw (by decide)
      (data.map dataStep) with heq' | ⟨hbad, hslave⟩
    · rw [heq']
      have hempty : (⟨{ p.restart w.slave with phase := .writing [] }, w.used + 1 + 1⟩ :
          Wire).slave.phase = .writing [] := rfl
      obtain ⟨bytes, hphase, hprefix, hsame, hpass⟩ := tried_data hempty data
      refine ⟨⟨hsame.trans hnone.1, fun bytes' hbytes' => ?_⟩, fun h => ?_⟩
      · obtain rfl := Phase.writing.inj (hphase.symm.trans hbytes')
        exact hprefix
      · have hlog := ((Bool.and_eq_true _ _).mp ((Bool.and_eq_true _ _).mp h).2).2
        rw [hphase, hpass hlog]
        rfl
    · refine ⟨?_, fun hpass => absurd ((Bool.and_eq_true _ _).mp hpass).2 hbad⟩
      rcases hslave with hslave | hslave
      · rw [hslave]
        exact ⟨hnone.1, fun bytes hbytes => Phase.writing.inj hbytes ▸ List.nil_prefix⟩
      · rw [hslave]
        exact hnone
  · refine ⟨?_, fun hpass => absurd hpass hbad⟩
    rcases hslave with hslave | hslave
    · rw [hslave]
      exact hnone
    · rw [hslave]
      exact ⟨hcells, hbegun⟩

def partly (p : Part) (cells : ℕ → UInt8) (bytes : List UInt8) : ℕ → UInt8 :=
  if p.addressBytes ≤ bytes.length then (p.write ⟨cells, 0⟩ bytes).cells else cells

theorem commit_partly {cells : ℕ → UInt8} {data : List UInt8} {m : Slave} (h : Begun cells data m) :
    (p.commit m).phase = .idle ∧ ∃ bytes, bytes <+: data ∧
      (∀ bytes', m.phase = .writing bytes' → bytes = bytes') ∧
      (p.commit m).cells = partly p cells bytes := by
  obtain ⟨rfl, hbegun⟩ := h
  by_cases hwriting : ∃ bytes, m.phase = .writing bytes
  · obtain ⟨bytes, hphase⟩ := hwriting
    simp only [Part.commit, hphase]
    refine ⟨?_, bytes, hbegun bytes hphase, fun _ heq => Phase.writing.inj heq, ?_⟩
    · split_ifs <;> rfl
    · simp only [partly]
      split_ifs <;> rfl
  · have hnone : ∀ bytes, m.phase ≠ .writing bytes := fun bytes h => hwriting ⟨bytes, h⟩
    have hpos : ¬p.addressBytes ≤ ([] : List UInt8).length := by
      cases p <;> decide
    rw [commit_of_not_writing hnone]
    exact ⟨rfl, [], List.nil_prefix, fun bytes h => absurd h (hnone bytes), (if_neg hpos).symm⟩

theorem commit_pointer {data : List UInt8} {m : Slave} (hphase : m.phase = .writing data)
    (haddress : p.addressBytes ≤ data.length) : (p.commit m).pointer =
      (next p.page)^[(data.drop p.addressBytes).length] (p.address data) := by
  rw [Part.commit, hphase]
  simp only [if_pos haddress]
  rfl

theorem transfer_write {data : List UInt8} (hdata : data ≠ []) (hidle : w.slave.phase = .idle) :
    let r := p.transfer script w ⟨eepromI2cAddr, data, 0⟩
    r.1.slave.phase = .idle ∧ ∃ bytes, bytes <+: data ∧
      (r.2.status = .success → bytes = data ∧ (p.addressBytes ≤ data.length →
        r.1.slave.pointer = (next p.page)^[(data.drop p.addressBytes).length] (p.address data))) ∧
      r.1.slave.cells = partly p w.slave.cells bytes := by
  intro r
  obtain ⟨log, hlog, -, hstatus, -⟩ :=
    i2cTransfer_eq (p.perform script) w ⟨eepromI2cAddr, data, 0⟩
  have hstart : Begun w.slave.cells data w.slave :=
    ⟨rfl, fun bytes hbytes => by rw [hidle] at hbytes; cases hbytes⟩
  have hslave : r.1.slave = _ := transfer_slave _
  rw [hslave]
  rcases trials_rule (I := fun (b : Wire) _ => Begun w.slave.cells data b.slave)
    (fun _ _ hb _ => (tried_write (p := p) hdata hb).1) [] hstart 4 with
    ⟨b, logs, hb, hpass, heq, -⟩ | ⟨-, hall, hend⟩
  · obtain ⟨hbegun, hphase⟩ := tried_write (p := p) hdata hb
    rw [heq]
    obtain ⟨hcommit, bytes, hprefix, hbytes, hcells⟩ := commit_partly (p := p) hbegun
    refine ⟨hcommit, bytes, hprefix, fun _ => ⟨hbytes data (hphase hpass), fun haddress => ?_⟩,
      hcells⟩
    have hwriting : (attempt (run (p.perform script)) Step.good b
        (plan ⟨eepromI2cAddr, data, 0⟩)).1.slave.phase = .writing data := hphase hpass
    rw [commit_pointer hwriting haddress]
  · obtain ⟨hcommit, bytes, hprefix, -, hcells⟩ := commit_partly (p := p) hend
    refine ⟨hcommit, bytes, hprefix, fun hsuccess => ?_, hcells⟩
    exact absurd (hstatus.mp hsuccess) (hall log (List.mem_of_getLast? hlog))

theorem partly_piece {q : ℕ × List UInt8} (hstart : q.1 ≤ p.size)
    (hin : InPage p.page q.1 q.2.length) (cells : ℕ → UInt8) {bytes : List UInt8}
    (hbytes : bytes <+: (writeSetup p.config q).txData) :
    ∃ j, partly p cells bytes = fill cells q.1 (q.2.take j) ∧
      (bytes = (writeSetup p.config q).txData → q.2.take j = q.2) := by
  have hoff := p.offset_toNat hstart
  have hlen := p.offsetBytes_length (UInt16.ofNat q.1)
  by_cases haddress : p.addressBytes ≤ bytes.length
  · obtain ⟨j, rfl⟩ : ∃ j, bytes = offsetBytes p.config (UInt16.ofNat q.1) ++ q.2.take j := by
      refine ⟨bytes.length - p.addressBytes, ?_⟩
      have heq := List.prefix_iff_eq_take.mp hbytes
      rwa [writeSetup, List.take_append, hlen, List.take_of_length_le (by omega)] at heq
    refine ⟨j, ?_, fun hall => List.append_cancel_left hall⟩
    have hpart : InPage p.page q.1 (q.2.take j).length := by
      have htake := List.length_take_le j q.2
      rw [List.length_take] at htake ⊢
      rw [InPage] at hin ⊢
      omega
    have haddr := p.address_offsetBytes (hoff.symm ▸ hstart) (q.2.take j)
    rw [partly, if_pos haddress, Part.write, haddr, p.values_offsetBytes, hoff]
    exact store_eq_fill cells hpart
  · refine ⟨0, ?_, fun hall => ?_⟩
    · rw [partly, if_neg haddress]
      rfl
    · rw [hall] at haddress
      exact absurd (by simp [writeSetup, hlen]) haddress

theorem run_pieces {qs : List (ℕ × List UInt8)} {G : (ℕ → UInt8) → Prop}
    (hqs : ∀ q ∈ qs, q.1 ≤ p.size ∧ InPage p.page q.1 q.2.length)
    (hG : ∀ cells, G cells → ∀ q ∈ qs, ∀ j, G (fill cells q.1 (q.2.take j)))
    (hidle : w.slave.phase = .idle) (h : G w.slave.cells) :
    let setups := qs.map (writeSetup p.config)
    let w' := after (issue (p.transfer script)) w setups
    w'.slave.phase = .idle ∧ G w'.slave.cells ∧
      ((∀ t ∈ outputs (issue (p.transfer script)) w setups, t.2.status = .success) →
        w'.slave.cells = qs.foldl (fun cells q => store p.page cells q.1 q.2) w.slave.cells) := by
  induction qs generalizing w with
  | nil => exact ⟨hidle, h, fun _ => rfl⟩
  | cons q qs ih =>
    obtain ⟨⟨hstart, hin⟩, hrest⟩ := List.forall_mem_cons.mp hqs
    have hdata : (writeSetup p.config q).txData ≠ [] := by
      have hempty := p.offsetBytes_isEmpty (UInt16.ofNat q.1) q.2
      change offsetBytes p.config (UInt16.ofNat q.1) ++ q.2 ≠ []
      intro hnil
      rw [hnil] at hempty
      cases hempty
    obtain ⟨hidle', bytes, hprefix, hall, hcells⟩ := @transfer_write p script w _ hdata hidle
    obtain ⟨j, hfill, hwhole⟩ := partly_piece hstart hin w.slave.cells hprefix
    have hnext : G (p.transfer script w (writeSetup p.config q)).1.slave.cells := by
      have hcells' : (p.transfer script w (writeSetup p.config q)).1.slave.cells = _ := hcells
      rw [hcells', hfill]
      exact hG _ h q List.mem_cons_self j
    obtain ⟨hidle'', hG', hstore⟩ := ih hrest
      (fun cells hc q' hq' => hG cells hc q' (List.mem_cons_of_mem q hq')) hidle' hnext
    refine ⟨hidle'', hG', fun hsuccess => ?_⟩
    rw [List.map_cons, outputs_cons] at hsuccess
    obtain ⟨hfirst, hothers⟩ := List.forall_mem_append.mp hsuccess
    have hdone := hwhole (hall (hfirst _ (List.mem_singleton_self _))).1
    have hcells' : (issue (p.transfer script) w (writeSetup p.config q)).1.slave.cells =
        store p.page w.slave.cells q.1 q.2 := by
      rw [store_eq_fill w.slave.cells hin, ← hdone, ← hfill]
      exact hcells
    rw [List.map_cons, after_cons, List.foldl_cons, ← hcells']
    exact hstore hothers

def Between (cells buf : ℕ → UInt8) (offset len : ℕ) (cells' : ℕ → UInt8) : Prop :=
  ∀ a, cells' a = cells a ∨ offset ≤ a ∧ a < offset + len ∧ cells' a = buf (a - offset)

theorem pieces_fit {fuel offset len : ℕ} (hin : offset + len ≤ p.size) (buf : ℕ → UInt8) :
    ∀ q ∈ pieces p.page fuel offset (slice buf len),
      q.1 ≤ p.size ∧ InPage p.page q.1 q.2.length := by
  intro q hq
  have hwithin := pieces_within p.page_pos _ _ _ q hq
  rw [slice_length] at hwithin
  exact ⟨by omega, pieces_inPage p.page_pos _ _ _ q hq⟩

theorem between_piece {cells buf : ℕ → UInt8} {offset len fuel j : ℕ} {q : ℕ × List UInt8}
    (hq : q ∈ pieces p.page fuel offset (slice buf len)) :
    Between cells buf offset len (fill cells q.1 (q.2.take j)) := by
  intro a
  obtain ⟨hstart, heq⟩ := pieces_slice p.page fuel offset buf len q hq
  have hwithin := pieces_within p.page_pos fuel offset (slice buf len) q hq
  rw [slice_length] at hwithin
  rw [heq, take_slice, fill_slice_apply]
  split_ifs with hin
  · right
    refine ⟨by omega, by omega, ?_⟩
    rw [shift]
    congr 1
    omega
  · exact Or.inl rfl

theorem Between.trans {cells cells' cells'' buf : ℕ → UInt8} {offset len : ℕ}
    (h : Between cells buf offset len cells') (h' : Between cells' buf offset len cells'') :
    Between cells buf offset len cells'' := by
  intro a
  rcases h' a with heq | hnew
  · rw [heq]
    exact h a
  · exact Or.inr hnew

end Attempts

section Read
variable {p : Part} {script : ℕ → Option Fault} {w : Wire}

structure Gone (m : Slave) (k : ℕ) (m' : Slave) : Prop where
  cells : m'.cells = m.cells
  pointer : m'.pointer = m.pointer + k
  served : m'.served = m.served + k
  phase : ∀ bytes, m'.phase ≠ .writing bytes

def Reads : Command → Prop
  | .start => True
  | .sendByte d => d = eepromI2cAddr <<< 1 ||| 1
  | .getByte _ => True
  | .stop => False

theorem served_commit (m : Slave) : (p.commit m).served = m.served := by
  rw [Part.commit]
  cases m.phase with
  | writing bytes => dsimp only; split_ifs <;> rfl
  | _ => rfl

theorem gone_react {m m' : Slave} {k : ℕ} {c : Command} (hc : Reads c) (h : Gone m k m') :
    ∃ j, j ≤ k + (if c matches .getByte _ then 1 else 0) ∧ Gone m j (p.react m' c).1 := by
  obtain ⟨hcells, hpointer, hserved, hphase⟩ := h
  cases c with
  | stop => exact absurd hc id
  | start =>
    refine ⟨k, Nat.le_add_right k _, ?_⟩
    rw [Part.react, restart_of_not_writing hphase]
    exact ⟨hcells, hpointer, hserved, fun _ => by simp⟩
  | sendByte d =>
    obtain rfl : d = eepromI2cAddr <<< 1 ||| 1 := hc
    refine ⟨k, Nat.le_add_right k _, ?_⟩
    simp only [Part.react]
    cases hm : m'.phase with
    | writing bytes => exact absurd hm (hphase bytes)
    | addressing =>
      rw [if_pos (by decide), if_neg (by decide)]
      exact ⟨hcells, hpointer, hserved, fun _ => by simp⟩
    | idle => exact ⟨hcells, hpointer, hserved, hphase⟩
    | reading => exact ⟨hcells, hpointer, hserved, hphase⟩
    | ignoring => exact ⟨hcells, hpointer, hserved, hphase⟩
  | getByte ack =>
    simp only [Part.react]
    cases hm : m'.phase with
    | writing bytes => exact absurd hm (hphase bytes)
    | reading =>
      refine ⟨k + 1, Nat.le_refl _, hcells, ?_, ?_, fun _ => by cases ack <;> simp⟩
      · rw [hpointer, Nat.add_assoc]
      · rw [hserved, Nat.add_assoc]
    | idle => exact ⟨k, Nat.le_add_right k _, hcells, hpointer, hserved, hphase⟩
    | addressing => exact ⟨k, Nat.le_add_right k _, hcells, hpointer, hserved, hphase⟩
    | ignoring => exact ⟨k, Nat.le_add_right k _, hcells, hpointer, hserved, hphase⟩

theorem Reads.ne_stop {c : Command} (h : Reads c) : c ≠ .stop := fun hc => by
  rw [hc] at h
  exact h

theorem gone_perform {m : Slave} {k : ℕ} {c : Command} (hc : Reads c) (h : Gone m k w.slave) :
    ∃ j, j ≤ k + (if c matches .getByte _ then 1 else 0) ∧
      Gone m j (p.perform script w c).1.slave := by
  rcases p.perform_cases script w hc.ne_stop with heq | ⟨f, m', hm', heq⟩
  · rw [heq]
    exact gone_react hc h
  · rw [heq]
    rcases hm' with rfl | rfl
    · exact gone_react hc h
    · exact ⟨k, Nat.le_add_right k _, h⟩

theorem gone_tried {m : Slave} {k : ℕ} {ks : List Step} (hks : ∀ x ∈ ks, Reads x.command)
    (h : Gone m k w.slave) :
    ∃ j, j ≤ k + ks.countP Step.isGet ∧ Gone m j (tried p script w ks).1.slave := by
  induction ks generalizing w k with
  | nil => exact ⟨k, Nat.le_refl k, h⟩
  | cons x ks ih =>
    obtain ⟨hx, hrest⟩ := List.forall_mem_cons.mp hks
    obtain ⟨j, hj, hgone⟩ := gone_perform (p := p) hx h
    have hcount : ks.countP Step.isGet + (if x.command matches .getByte _ then 1 else 0) =
        (x :: ks).countP Step.isGet := by
      rw [List.countP_cons]
      rfl
    by_cases hgood : x.good (p.perform script w x.command).2
    · have hcons : tried p script w (x :: ks) = _ := attempt_cons_good hgood ks
      rw [hcons]
      obtain ⟨j', hj', hgone'⟩ := ih hrest hgone
      exact ⟨j', by omega, hgone'⟩
    · have hcons : tried p script w (x :: ks) = _ := attempt_cons_bad hgood ks
      rw [hcons]
      exact ⟨j, by omega, hgone⟩

theorem tried_passed {k : Step} {ks : List Step} (hc : k.command ≠ .stop) (hk : Acknowledges k)
    (h : passed Step.good (tried p script w (k :: ks)).2) :
    let r := p.react w.slave k.command
    k.good r.2 ∧ passed Step.good (tried p script ⟨r.1, w.used + 1⟩ ks).2 ∧
      tried p script w (k :: ks) = ((tried p script ⟨r.1, w.used + 1⟩ ks).1,
        (k, r.2) :: (tried p script ⟨r.1, w.used + 1⟩ ks).2) := by
  intro r
  by_cases hgood : k.good (run (p.perform script) w k).2
  · have hcons : tried p script w (k :: ks) = _ := attempt_cons_good hgood ks
    rcases p.perform_cases script w hc with heq | ⟨f, m, -, heq⟩
    · have hrun : run (p.perform script) w k = (⟨r.1, w.used + 1⟩, r.2) := heq
      rw [hrun] at hgood hcons
      rw [hcons] at h ⊢
      exact ⟨hgood, ((Bool.and_eq_true _ _).mp h).2, rfl⟩
    · have hrun : run (p.perform script) w k = (⟨m, w.used + 1⟩, ⟨f.code.stat, 0⟩) := heq
      rw [hrun] at hgood
      exact absurd hgood (failure_bad hk f.code)
  · have hcons : tried p script w (k :: ks) = _ := attempt_cons_bad hgood ks
    rw [hcons] at h
    exact absurd (by simpa [passed] using h) hgood

theorem served_react (m : Slave) {c : Command} (hc : ∀ ack, c ≠ .getByte ack) :
    (p.react m c).1.served = m.served := by
  cases c with
  | start =>
    simp only [Part.react, Part.restart]
    cases m.phase <;> rfl
  | stop => exact served_commit m
  | sendByte d =>
    simp only [Part.react]
    cases m.phase with
    | addressing => split_ifs <;> rfl
    | _ => rfl
  | getByte ack => exact absurd rfl (hc ack)

theorem served_tried {ks : List Step}
    (hks : ∀ x ∈ ks, x.command ≠ .stop ∧ ∀ ack, x.command ≠ .getByte ack) :
    (tried p script w ks).1.slave.served = w.slave.served := by
  induction ks generalizing w with
  | nil => rfl
  | cons x ks ih =>
    obtain ⟨⟨hstop, hget⟩, hrest⟩ := List.forall_mem_cons.mp hks
    have hsame : (run (p.perform script) w x).1.slave.served = w.slave.served := by
      rcases p.perform_cases script w hstop with heq | ⟨f, m, hm, heq⟩
      · rw [run, heq]
        exact served_react w.slave hget
      · rw [run, heq]
        rcases hm with rfl | rfl
        · exact served_react w.slave hget
        · rfl
    by_cases hgood : x.good (run (p.perform script) w x).2
    · have hcons : tried p script w (x :: ks) = _ := attempt_cons_good hgood ks
      rw [hcons]
      exact (ih hrest).trans hsame
    · have hcons : tried p script w (x :: ks) = _ := attempt_cons_bad hgood ks
      rw [hcons]
      exact hsame

theorem react_get {m : Slave} (hphase : m.phase = .reading) (n : ℕ) :
    p.react m (.getByte (n ≠ 0)) =
      (⟨m.cells, m.pointer + 1, if n ≠ 0 then .reading else .ignoring, m.served + 1⟩,
        ⟨if n ≠ 0 then 0x50 else 0x58, m.cells m.pointer⟩) := by
  simp [Part.react, hphase]

theorem tried_gets {n : ℕ} (hphase : n ≠ 0 → w.slave.phase = .reading)
    (h : passed Step.good (tried p script w (getSteps n)).2) :
    (tried p script w (getSteps n)).1.slave.pointer = w.slave.pointer + n ∧
      bytesOf (tried p script w (getSteps n)).2 =
        slice (shift w.slave.cells w.slave.pointer) n := by
  induction n generalizing w with
  | zero => exact ⟨rfl, rfl⟩
  | succ n ih =>
    have hreact := react_get (p := p) (hphase (Nat.succ_ne_zero n)) n
    obtain ⟨hgood, hpass, heq⟩ := tried_passed (by simp) (acknowledges_get _ (n ≠ 0)) h
    simp only at hgood hpass heq
    rw [getSteps, heq]
    rw [hreact] at hgood hpass ⊢
    obtain ⟨hpointer, hbytes⟩ := ih (fun hn => if_pos hn) hpass
    refine ⟨?_, ?_⟩
    · rw [hpointer, Nat.add_comm n 1, ← Nat.add_assoc]
    · have hshift : (fun i => shift w.slave.cells w.slave.pointer (i + 1)) =
          shift w.slave.cells (w.slave.pointer + 1) := by
        funext i
        rw [shift, shift, Nat.add_assoc, Nat.add_comm 1 i]
      rw [bytesOf_cons, if_pos hgood, hbytes, slice_cons, hshift]
      rfl

theorem plan_read (n : ℕ) : plan ⟨eepromI2cAddr, [], n⟩ =
    startStep :: if n = 0 then [] else
      ⟨.sendByte (eepromI2cAddr <<< 1 ||| 1), [rxSlarAck]⟩ :: getSteps n := by
  simp [plan, writeSteps, readSteps]

theorem getSteps_reads (n : ℕ) : ∀ x ∈ getSteps n, Reads x.command := by
  induction n with
  | zero => simp [getSteps]
  | succ n ih => exact List.forall_mem_cons.mpr ⟨trivial, ih⟩

theorem plan_reads (n : ℕ) : ∀ x ∈ plan ⟨eepromI2cAddr, [], n⟩, Reads x.command := by
  rw [plan_read]
  refine List.forall_mem_cons.mpr ⟨trivial, ?_⟩
  split_ifs
  · simp
  · exact List.forall_mem_cons.mpr ⟨rfl, getSteps_reads n⟩

theorem slar_eq (m : Slave) (hphase : m.phase = .addressing) :
    p.react m (.sendByte (eepromI2cAddr <<< 1 ||| 1)) =
      ({ m with phase := .reading }, ⟨0x40, 0⟩) := by
  simp only [Part.react, hphase]
  rw [if_pos (by decide), if_neg (by decide)]

theorem tried_read {n k : ℕ} {m : Slave} (hgone : Gone m k w.slave)
    (h : passed Step.good (tried p script w (plan ⟨eepromI2cAddr, [], n⟩)).2) :
    (tried p script w (plan ⟨eepromI2cAddr, [], n⟩)).1.slave.pointer = m.pointer + (k + n) ∧
      bytesOf (tried p script w (plan ⟨eepromI2cAddr, [], n⟩)).2 =
        slice (shift m.cells (m.pointer + k)) n := by
  obtain ⟨hcells, hpointer, -, hphase⟩ := hgone
  rw [plan_read] at h ⊢
  obtain ⟨hgood, hpass, heq⟩ := tried_passed (by decide) acknowledges_start h
  have hrestart : (p.react w.slave startStep.command).1 = { w.slave with phase := .addressing } :=
    restart_of_not_writing hphase
  rw [hrestart] at hpass heq
  rw [heq, bytesOf_cons, if_pos hgood]
  by_cases hn : n = 0
  · subst hn
    exact ⟨hpointer, rfl⟩
  · rw [if_neg hn] at hpass ⊢
    obtain ⟨hgood', hpass', heq'⟩ := tried_passed (by decide) (acknowledges_slar _) hpass
    have hslar := slar_eq (p := p) { w.slave with phase := .addressing } rfl
    simp only [hslar] at hgood' hpass' heq'
    obtain ⟨hend, hbytes⟩ := tried_gets (fun _ => rfl) hpass'
    rw [heq', bytesOf_cons, if_pos hgood', hbytes, ← hcells, ← hpointer]
    refine ⟨?_, rfl⟩
    rw [hend, hpointer, Nat.add_assoc]

theorem transfer_read (hidle : w.slave.phase = .idle) (n : ℕ) :
    let r := p.transfer script w ⟨eepromI2cAddr, [], n⟩
    ∃ k, k ≤ 4 * n ∧
      r.1.slave = ⟨w.slave.cells, w.slave.pointer + k, .idle, w.slave.served + k⟩ ∧
      (r.2.status = .success → ∃ j, k = j + n ∧
        r.2.data = slice (shift w.slave.cells (w.slave.pointer + j)) n) := by
  intro r
  obtain ⟨log, hlog, -, hstatus, hdata⟩ :=
    i2cTransfer_eq (p.perform script) w ⟨eepromI2cAddr, [], n⟩
  have hstart : Gone w.slave 0 w.slave :=
    ⟨rfl, rfl, rfl, fun bytes hbytes => by rw [hidle] at hbytes; cases hbytes⟩
  have hgets : (plan ⟨eepromI2cAddr, [], n⟩).countP Step.isGet = n := (plan_counts _).2
  have hslave : r.1.slave = _ := transfer_slave _
  have hcommit : ∀ m k, Gone w.slave k m →
      p.commit m = ⟨w.slave.cells, w.slave.pointer + k, .idle, w.slave.served + k⟩ :=
    fun m k hm => by rw [commit_of_not_writing hm.phase, hm.cells, hm.pointer, hm.served]
  have hstep : ∀ (b : Wire) (logs : List (List (Step × Answer))),
      (∃ k, k ≤ n * logs.length ∧ Gone w.slave k b.slave) →
      ¬passed Step.good (tried p script b (plan ⟨eepromI2cAddr, [], n⟩)).2 →
      ∃ k, k ≤ n * (logs ++ [(tried p script b (plan ⟨eepromI2cAddr, [], n⟩)).2]).length ∧
        Gone w.slave k (tried p script b (plan ⟨eepromI2cAddr, [], n⟩)).1.slave := by
    rintro b logs ⟨k, hk, hgone⟩ -
    obtain ⟨j, hj, hgone'⟩ := gone_tried (p := p) (plan_reads n) hgone
    refine ⟨j, ?_, hgone'⟩
    rw [List.length_append, List.length_singleton, Nat.mul_succ]
    omega
  rw [hslave]
  rcases trials_rule hstep [] ⟨0, Nat.zero_le _, hstart⟩ 4 with
    ⟨b, logs, ⟨k, hk, hgone⟩, hpass, heq, hlen⟩ | ⟨hlen, hall, k, hk, hgone⟩
  · obtain ⟨hpointer, hbytes⟩ := tried_read hgone hpass
    obtain ⟨j, -, hgone'⟩ := gone_tried (p := p) (plan_reads n) hgone
    obtain rfl : j = k + n := Nat.add_left_cancel (hgone'.pointer.symm.trans hpointer)
    have hlast := hlog
    rw [heq] at hlast ⊢
    refine ⟨k + n, ?_, hcommit _ _ hgone', fun _ => ⟨k, rfl, ?_⟩⟩
    · have hle : n * logs.length ≤ n * 3 := Nat.mul_le_mul_left n (Nat.le_of_lt_succ hlen)
      rw [List.nil_append] at hk
      omega
    · obtain rfl : _ = log := Option.some.inj (List.getLast?_concat.symm.trans hlast)
      obtain ⟨-, -, -, hbuffered⟩ := trials_passed hlog hpass
      exact hdata.trans (hbuffered.trans hbytes)
  · refine ⟨k, ?_, hcommit _ k hgone, fun hsuccess => ?_⟩
    · rw [List.nil_append, hlen] at hk
      omega
    · exact absurd (hstatus.mp hsuccess) (hall log (List.mem_of_getLast? hlog))

theorem writes_give_nothing {data : List UInt8} (hdata : data ≠ []) :
    ∀ x ∈ plan ⟨eepromI2cAddr, data, 0⟩,
      x.command ≠ .stop ∧ ∀ ack, x.command ≠ .getByte ack := by
  rw [plan_write hdata]
  simp [startStep, dataStep]

theorem transfer_write_served {data : List UInt8} (hdata : data ≠ []) :
    (p.transfer script w ⟨eepromI2cAddr, data, 0⟩).1.slave.served = w.slave.served := by
  have hstep : ∀ b : Wire, b.slave.served = w.slave.served →
      (tried p script b (plan ⟨eepromI2cAddr, data, 0⟩)).1.slave.served = w.slave.served :=
    fun b hb => (served_tried (writes_give_nothing hdata)).trans hb
  rw [transfer_slave, served_commit]
  rcases trials_rule (I := fun (b : Wire) _ => b.slave.served = w.slave.served)
    (fun b _ hb _ => hstep b hb) [] rfl 4 with ⟨b, logs, hb, -, heq, -⟩ | ⟨-, -, hend⟩
  · rw [heq]
    exact hstep b hb
  · exact hend

theorem transfer_address (hidle : w.slave.phase = .idle) {off : UInt16} (h : off.toNat ≤ p.size) :
    let r := p.transfer script w ⟨eepromI2cAddr, offsetBytes p.config off, 0⟩
    r.1.slave.phase = .idle ∧ r.1.slave.cells = w.slave.cells ∧
      r.1.slave.served = w.slave.served ∧
      (r.2.status = .success → r.1.slave.pointer = off.toNat) := by
  have hlen := p.offsetBytes_length off
  have haddr := p.address_offsetBytes h []
  have hvalues := p.values_offsetBytes off []
  rw [List.append_nil] at haddr hvalues
  have hdata : offsetBytes p.config off ≠ [] := by
    rw [← List.length_pos_iff, hlen]
    cases p <;> decide
  obtain ⟨hend, bytes, hprefix, hpointer, hcells⟩ :=
    @transfer_write p script w _ hdata hidle
  refine ⟨hend, ?_, transfer_write_served hdata, fun hsuccess => ?_⟩
  · rw [hcells, partly]
    split_ifs with hall
    · obtain rfl := hprefix.eq_of_length_le (by rw [hlen]; exact hall)
      rw [Part.write, hvalues]
      rfl
    · rfl
  · have hset := (hpointer hsuccess).2 (Nat.le_of_eq hlen.symm)
    rw [hset, hvalues, haddr]
    rfl

theorem read_slave {offset len : UInt16} (hin : offset.toNat + len.toNat ≤ p.size)
    (hidle : w.slave.phase = .idle) (buf : ℕ → UInt8) :
    let r := eepromRead (p.transfer script) p.config w buf offset len
    r.bus.slave.phase = .idle ∧ r.bus.slave.cells = w.slave.cells := by
  have hrange : ¬outOfRange p.config offset len := by
    rw [p.outOfRange_iff]
    omega
  obtain ⟨hidle', hcells, -⟩ := @transfer_address p script w hidle offset (by omega)
  obtain ⟨k, -, hslave, -⟩ := @transfer_read p script _ hidle' len.toNat
  have hbus : (eepromRead (p.transfer script) p.config w buf offset len).bus.slave = _ :=
    (congrArg (fun x => x.bus.slave) (eepromRead_eq (p.transfer script) hrange w buf)).trans hslave
  simp only [hbus]
  exact ⟨trivial, hcells⟩

end Read

/-- A write over a disturbed bus returns the length. Every cell holds its byte of the buffer or what
it has held before, and the bytes have all been written if every transfer has succeeded. -/
theorem eeprom_write_wire (p : Part) (script : ℕ → Option Fault) (w : Wire) (buf : ℕ → UInt8)
    (offset len : UInt16) (fuel : ℕ) (hfuel : len.toNat ≤ fuel) (hidle : w.slave.phase = .idle)
    (hin : offset.toNat + len.toNat ≤ p.size) :
    ∃ r, eepromWrite (p.transfer script) fuel p.config w buf offset len = some r ∧
      r.value.toInt = len.toNat ∧ r.bus.slave.phase = .idle ∧
      (∀ a, r.bus.slave.cells a = w.slave.cells a ∨ offset.toNat ≤ a ∧
        a < offset.toNat + len.toNat ∧ r.bus.slave.cells a = buf (a - offset.toNat)) ∧
      ((∀ t ∈ r.log, t.2.status = .success) → ∀ a, r.bus.slave.cells a =
        if offset.toNat ≤ a ∧ a < offset.toNat + len.toNat then buf (a - offset.toNat)
        else w.slave.cells a) := by
  have hrange : ¬outOfRange p.config offset len := by
    rw [p.outOfRange_iff]
    omega
  obtain ⟨hend, hbetween, hall⟩ := run_pieces (w := w) (pieces_fit hin buf)
    (G := Between w.slave.cells buf offset.toNat len.toNat)
    (fun _ h _ hq _ => h.trans (between_piece hq)) hidle (fun _ => Or.inl rfl)
  refine ⟨_, p.eepromWrite_eq (p.transfer script) hrange hfuel w buf,
    p.toInt_of_inRange hrange, hend, hbetween, fun hsuccess a => ?_⟩
  rw [hall hsuccess, pieces_store p.page_pos _ (by rw [slice_length]; exact hfuel),
    fill_slice_apply]

theorem eeprom_write_wire_short : ∃ r,
    eepromWrite
        (Part.m24aa02e48.transfer fun i => if i % 7 = 6 then some ⟨.datNack, false⟩ else none) 4
        config24aa ⟨⟨fun _ => 0xFF, 0, .idle, 0⟩, 0⟩ (ofList [1, 2, 3, 4]) 4 4 = some r ∧
      r.value.toInt = 4 ∧ r.bus.slave.phase = .idle := by
  obtain ⟨r, hr, hvalue, hidle, -⟩ := eeprom_write_wire .m24aa02e48
    (fun i => if i % 7 = 6 then some ⟨.datNack, false⟩ else none) ⟨⟨fun _ => 0xFF, 0, .idle, 0⟩, 0⟩
    (ofList [1, 2, 3, 4]) 4 4 4 (by decide) rfl (by decide)
  exact ⟨r, hr, hvalue, hidle⟩

theorem slice_shift_mod {cells : ℕ → UInt8} {size : ℕ} (h : Function.Periodic cells size)
    (a n : ℕ) : slice (shift cells a) n = slice (fun i => cells ((a + i) % size)) n :=
  slice_congr fun i _ => (h.map_mod_nat (a + i)).symm

/-- A read over a disturbed bus returns the length and leaves the cells as they are. If both
transfers have succeeded, its bytes are those of a range that may begin `k` bytes behind the offset:
the memory has given out `k` bytes more than the length, in attempts that failed, and the next
attempt does not go back. The cells of a memory that rolls over at its end repeat. -/
theorem eeprom_read_wire (p : Part) (script : ℕ → Option Fault) (w : Wire) (buf : ℕ → UInt8)
    (offset len : UInt16) (hidle : w.slave.phase = .idle)
    (hin : offset.toNat + len.toNat ≤ p.size) :
    let r := eepromRead (p.transfer script) p.config w buf offset len
    r.value.1.toInt = len.toNat ∧ r.bus.slave.phase = .idle ∧
      r.bus.slave.cells = w.slave.cells ∧
      ((∀ t ∈ r.log, t.2.status = .success) → ∃ k, k ≤ 3 * len.toNat ∧
        r.bus.slave.served = w.slave.served + k + len.toNat ∧
        r.bus.slave.pointer = offset.toNat + k + len.toNat ∧
        slice r.value.2 len.toNat = slice (shift w.slave.cells (offset.toNat + k)) len.toNat ∧
        ∀ size, Function.Periodic w.slave.cells size → slice r.value.2 len.toNat =
          slice (fun i => w.slave.cells ((offset.toNat + k + i) % size)) len.toNat) := by
  intro r
  have hrange : ¬outOfRange p.config offset len := by
    rw [p.outOfRange_iff]
    omega
  obtain ⟨hidle', hcells, hserved, hpointer⟩ := @transfer_address p script w hidle offset
    (by omega)
  obtain ⟨k, hk, hslave, hdata⟩ := @transfer_read p script _ hidle' len.toNat
  have hr : r = _ := eepromRead_eq (p.transfer script) hrange w buf
  have hbus : r.bus.slave = _ := (congrArg (fun x => x.bus.slave) hr).trans hslave
  obtain ⟨hend, hsame⟩ := read_slave (p := p) hin hidle buf
  refine ⟨?_, hend, hsame, fun hsuccess => ?_⟩
  · rw [hr]
    exact p.toInt_of_inRange hrange
  · rw [hr] at hsuccess
    have haddressed := hpointer (hsuccess _ List.mem_cons_self)
    have hread := hsuccess _ (List.mem_cons_of_mem _ List.mem_cons_self)
    obtain ⟨j, rfl, hbytes⟩ := hdata hread
    have hslice : slice r.value.2 len.toNat =
        slice (shift w.slave.cells (offset.toNat + j)) len.toNat := by
      rw [hcells, haddressed] at hbytes
      have hvalue : r.value.2 = fill buf 0 _ := congrArg (fun x => x.value.2) hr
      have hfill := slice_fill buf 0 (slice (shift w.slave.cells (offset.toNat + j)) len.toNat)
      rw [slice_length, Nat.zero_add, slice_zero, List.nil_append] at hfill
      rw [hvalue, hbytes]
      exact hfill
    refine ⟨j, by omega, ?_, ?_, hslice, fun size hrolls =>
      hslice.trans (slice_shift_mod hrolls _ _)⟩
    · rw [hbus, hserved, Nat.add_assoc]
    · rw [hbus, haddressed, Nat.add_assoc]

theorem eeprom_read_wire_skips : ∃ k, k ≤ 9 ∧
    slice (eepromRead
        (Part.m24lc32.transfer fun i => if i = 7 then some ⟨.busError, true⟩ else none) config24lc
        ⟨⟨fun a => UInt8.ofNat a, 0, .idle, 0⟩, 0⟩ (fun _ => 0) 4093 3).value.2 3 =
      slice (fun i => UInt8.ofNat ((4093 + k + i) % 4096)) 3 := by
  obtain ⟨-, -, -, hread⟩ := eeprom_read_wire .m24lc32
    (fun i => if i = 7 then some ⟨.busError, true⟩ else none)
    ⟨⟨fun a => UInt8.ofNat a, 0, .idle, 0⟩, 0⟩ (fun _ => 0) 4093 3 rfl (by decide)
  obtain ⟨k, hk, -, -, -, hrolls⟩ := hread (by decide)
  exact ⟨k, hk, hrolls 4096 fun a => by simp [UInt8.ofNat_add]⟩

example : slice (eepromRead
    (Part.m24lc32.transfer fun i => if i = 7 then some ⟨.busError, true⟩ else none) config24lc
    ⟨⟨fun a => UInt8.ofNat a, 0, .idle, 0⟩, 0⟩ (fun _ => 0) 4093 3).value.2 3 = [254, 255, 0] := by
  decide

end AoaBoard.Eeprom
