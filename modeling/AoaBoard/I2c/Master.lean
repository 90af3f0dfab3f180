import AoaBoard.Eeprom.Driver
import AoaBoard.Library.Retry

/-!
# The I2C driver as a bus master

`I2C_MasterTransferData` in polling mode over an arbitrary bus. `perform` stands
for the controller: a start or stop condition or a byte, and the status and data
registers when it is done. The driver waits for that without a time-out; the bus
here is one on which every start condition and every byte completes.
-/

namespace AoaBoard.I2c
open Library.Retry Eeprom

inductive Command
  | start
  | stop
  | sendByte (databyte : UInt8)
  | getByte (ack : Bool)
  deriving DecidableEq

structure Answer where
  stat : UInt8
  dat : UInt8

def txStart : UInt32 := 0x08

def txRestart : UInt32 := 0x10

def txSlawAck : UInt32 := 0x18

def txDatAck : UInt32 := 0x28

def rxStart : UInt32 := 0x08

def rxRestart : UInt32 := 0x10

def rxSlarAck : UInt32 := 0x40

def rxDatAck : UInt32 := 0x50

def rxDatNack : UInt32 := 0x58

def statusNoackf : UInt32 := 0x200

def Answer.code (a : Answer) : UInt32 := (a.stat &&& 0xF8).toUInt32

section
variable {β : Type} (perform : β → Command → β × Answer)

def i2cStart (b : β) : β × UInt32 :=
  let r := perform b .start
  (r.1, r.2.code)

def i2cStop (b : β) : β := (perform b .stop).1

def i2cSendByte (b : β) (databyte : UInt8) : β × UInt32 :=
  let r := perform b (.sendByte databyte)
  (r.1, r.2.code)

def i2cGetByte (b : β) (ack : Bool) : β × UInt8 × UInt32 :=
  let r := perform b (.getByte ack)
  (r.1, r.2.dat, r.2.code)

def sendData (b : β) (txCount : ℕ) : List UInt8 → β × ℕ × Option UInt32
  | [] => (b, txCount, none)
  | d :: ds =>
    let r := i2cSendByte perform b d
    if r.2 ≠ txDatAck then (r.1, txCount, some (r.2 ||| statusNoackf))
    else sendData r.1 (txCount + 1) ds

def sendPhase (b : β) (s : Setup) : β × ℕ × Option UInt32 :=
  if s.txData = [] then (b, 0, none)
  else
    let r := i2cSendByte perform b (s.slAddr7bit <<< 1)
    if r.2 ≠ txSlawAck then (r.1, 0, some (r.2 ||| statusNoackf))
    else sendData perform r.1 0 s.txData

def restartPhase (b : β) (s : Setup) : β × Option UInt32 :=
  if s.txData ≠ [] ∧ s.rxLength ≠ 0 then
    let r := i2cStart perform b
    if r.2 ≠ rxStart ∧ r.2 ≠ rxRestart then (r.1, some r.2) else (r.1, none)
  else (b, none)

/-- The loop over `rx_data`; `rx_count` is less than `rx_length - 1` as long as more than one byte
is left. -/
def getData (b : β) (rxData : List UInt8) : ℕ → β × List UInt8 × Option UInt32
  | 0 => (b, rxData, none)
  | n + 1 =>
    let ack := decide (n ≠ 0)
    let r := i2cGetByte perform b ack
    if r.2.2 ≠ (if ack then rxDatAck else rxDatNack) then (r.1, rxData, some r.2.2)
    else getData r.1 (rxData ++ [r.2.1]) n

def receivePhase (b : β) (s : Setup) : β × List UInt8 × Option UInt32 :=
  if s.rxLength = 0 then (b, [], none)
  else
    let r := i2cSendByte perform b (s.slAddr7bit <<< 1 ||| 1)
    if r.2 ≠ rxSlarAck then (r.1, [], some (r.2 ||| statusNoackf))
    else getData perform r.1 [] s.rxLength

structure Tried (β : Type) where
  bus : β
  txCount : ℕ
  rxData : List UInt8
  failure : Option UInt32

def tryOnce (b : β) (s : Setup) : Tried β :=
  let r := i2cStart perform b
  if r.2 ≠ txStart ∧ r.2 ≠ txRestart then ⟨r.1, 0, [], some r.2⟩
  else
    let w := sendPhase perform r.1 s
    match w.2.2 with
    | some code => ⟨w.1, w.2.1, [], some code⟩
    | none =>
      let q := restartPhase perform w.1 s
      match q.2 with
      | some code => ⟨q.1, w.2.1, [], some code⟩
      | none =>
        let g := receivePhase perform q.1 s
        ⟨g.1, w.2.1, g.2.1, g.2.2⟩

/-- What a call leaves in `I2C_M_SETUP_Type`. Bytes of earlier attempts stay in the buffer behind
those of the last. -/
structure Result (β : Type) where
  bus : β
  result : Eeprom.Status
  txCount : ℕ
  rxCount : ℕ
  rxData : List UInt8
  retransmissionsCount : UInt32
  status : UInt32

def overlay (old new : List UInt8) : List UInt8 := new ++ old.drop new.length

def retry (s : Setup) (retransmissionsMax : UInt32) :
    ℕ → UInt32 → List UInt8 → β → Option (Result β)
  | 0, _, _, _ => none
  | fuel + 1, count, rxData, b =>
    let t := tryOnce perform b s
    let rxData := overlay rxData t.rxData
    match t.failure with
    | none => some ⟨i2cStop perform t.bus, .success, t.txCount, t.rxData.length, rxData, count, 0⟩
    | some code =>
      let count := count + 1
      if retransmissionsMax < count then
        some ⟨i2cStop perform t.bus, .error, t.txCount, t.rxData.length, rxData, count, code⟩
      else retry s retransmissionsMax fuel count rxData t.bus

def i2cMasterTransferData (fuel : ℕ) (b : β) (s : Setup) (retransmissionsMax : UInt32) :
    Option (Result β) :=
  retry perform s retransmissionsMax fuel 0 [] b

def i2cTransfer (b : β) (s : Setup) : β × Reply :=
  match i2cMasterTransferData perform 4 b s 3 with
  | some r => (r.bus, ⟨r.result, r.rxData⟩)
  | none => (b, ⟨.error, []⟩)

end

/-- A command and the status codes with which the driver goes on. -/
structure Step where
  command : Command
  expects : List UInt32

def Step.good (k : Step) (a : Answer) : Bool := decide (a.code ∈ k.expects)

def startStep : Step := ⟨.start, [0x08, 0x10]⟩

def dataStep (d : UInt8) : Step := ⟨.sendByte d, [txDatAck]⟩

def getSteps : ℕ → List Step
  | 0 => []
  | n + 1 => ⟨.getByte (n ≠ 0), [if n ≠ 0 then rxDatAck else rxDatNack]⟩ :: getSteps n

def writeSteps (s : Setup) : List Step :=
  if s.txData = [] then []
  else ⟨.sendByte (s.slAddr7bit <<< 1), [txSlawAck]⟩ :: s.txData.map dataStep

def readSteps (s : Setup) : List Step :=
  if s.rxLength = 0 then []
  else ⟨.sendByte (s.slAddr7bit <<< 1 ||| 1), [rxSlarAck]⟩ :: getSteps s.rxLength

/-- A transfer without a failure, up to the stop condition. -/
def plan (s : Setup) : List Step :=
  startStep :: (writeSteps s ++
    ((if s.txData ≠ [] ∧ s.rxLength ≠ 0 then [startStep] else []) ++ readSteps s))

def sentOf (log : List (Step × Answer)) : ℕ :=
  log.countP fun x => x.1.expects = [txDatAck] ∧ x.1.good x.2

def bytesOf (log : List (Step × Answer)) : List UInt8 :=
  log.filterMap fun x => match x.1.command with
    | .getByte _ => if x.1.good x.2 then some x.2.dat else none
    | _ => none

def failureOf (log : List (Step × Answer)) : Option UInt32 :=
  (log.find? fun x => !x.1.good x.2).map fun x => match x.1.command with
    | .sendByte _ => x.2.code ||| statusNoackf
    | _ => x.2.code

section
variable {β : Type} (perform : β → Command → β × Answer)

def run (b : β) (k : Step) : β × Answer := perform b k.command

def attemptOf (b : β) (ks : List Step) : β × List (Step × Answer) :=
  attempt (run perform) Step.good b ks

end

section Attempts
variable {β : Type} {perform : β → Command → β × Answer}

def summary (t : β × List (Step × Answer)) : Tried β :=
  ⟨t.1, sentOf t.2, bytesOf t.2, failureOf t.2⟩

def Step.bytes (k : Step) (a : Answer) : List UInt8 :=
  match k.command with
  | .getByte _ => [a.dat]
  | _ => []

def Step.failure (k : Step) (a : Answer) : UInt32 :=
  match k.command with
  | .sendByte _ => a.code ||| statusNoackf
  | _ => a.code

theorem failureOf_none (l : List (Step × Answer)) : failureOf l = none ↔ passed Step.good l := by
  simp [failureOf, passed]

theorem summary_good {b : β} {k : Step} (h : k.good (perform b k.command).2) (ks : List Step) :
    let u := summary (attemptOf perform (perform b k.command).1 ks)
    summary (attemptOf perform b (k :: ks)) =
      ⟨u.bus, (if k.expects = [txDatAck] then 1 else 0) + u.txCount,
        k.bytes (perform b k.command).2 ++ u.rxData, u.failure⟩ := by
  intro u
  have hcons : attemptOf perform b (k :: ks) = ((attemptOf perform (perform b k.command).1 ks).1,
      (k, (perform b k.command).2) :: (attemptOf perform (perform b k.command).1 ks).2) :=
    attempt_cons_good h ks
  rw [hcons]
  refine congr (congr (congrArg (Tried.mk _) ?_) ?_) ?_
  · change sentOf _ = _ + sentOf _
    by_cases hdata : k.expects = [txDatAck]
    · rw [if_pos hdata, Nat.add_comm]
      exact List.countP_cons_of_pos (by simp [hdata, h])
    · rw [if_neg hdata, Nat.zero_add]
      exact List.countP_cons_of_neg (by simp [hdata])
  · change bytesOf _ = _ ++ bytesOf _
    cases hk : k.command with
    | getByte ack => simp [bytesOf, Step.bytes, hk, ← hk ▸ h]
    | start => simp [bytesOf, Step.bytes, hk]
    | stop => simp [bytesOf, Step.bytes, hk]
    | sendByte d => simp [bytesOf, Step.bytes, hk]
  · simp [u, summary, failureOf, h]

theorem summary_bad {b : β} {k : Step} (h : ¬k.good (perform b k.command).2) (ks : List Step) :
    summary (attemptOf perform b (k :: ks)) =
      ⟨(perform b k.command).1, 0, [], some (k.failure (perform b k.command).2)⟩ := by
  have hcons : attemptOf perform b (k :: ks) = ((perform b k.command).1,
      [(k, (perform b k.command).2)]) := attempt_cons_bad h ks
  rw [hcons]
  refine congr (congr (congrArg (Tried.mk _) ?_) ?_) ?_
  · exact List.countP_cons_of_neg (by simp [h])
  · simp only [bytesOf, List.filterMap_cons, List.filterMap_nil, if_neg h]
    cases k.command <;> rfl
  · simp only [failureOf, Step.failure]
    rw [List.find?_cons_of_pos (by simpa using h)]
    rfl

theorem summary_append {b : β} {ks : List Step}
    (h : (summary (attemptOf perform b ks)).failure = none) (ls : List Step) :
    let t := summary (attemptOf perform b ks)
    let u := summary (attemptOf perform t.bus ls)
    summary (attemptOf perform b (ks ++ ls)) =
      ⟨u.bus, t.txCount + u.txCount, t.rxData ++ u.rxData, u.failure⟩ := by
  induction ks generalizing b with
  | nil => simp [summary, attemptOf, sentOf, bytesOf]
  | cons k ks ih =>
    by_cases hgood : k.good (perform b k.command).2
    · rw [summary_good hgood] at h
      simp only [List.cons_append, summary_good hgood, ih h, Nat.add_assoc, List.append_assoc]
    · rw [summary_bad hgood] at h
      cases h

theorem summary_append_failed {b : β} {ks : List Step} {code : UInt32}
    (h : (summary (attemptOf perform b ks)).failure = some code) (ls : List Step) :
    summary (attemptOf perform b (ks ++ ls)) = summary (attemptOf perform b ks) := by
  have hfailed : ¬passed Step.good (attemptOf perform b ks).2 := fun hpass => by
    have hnone : (summary (attemptOf perform b ks)).failure = none := (failureOf_none _).mpr hpass
    rw [hnone] at h
    cases h
  exact congrArg summary (attempt_append_failed hfailed ls)

theorem startStep_good (a : Answer) : startStep.good a ↔ a.code = 0x08 ∨ a.code = 0x10 := by
  simp [Step.good, startStep]

theorem good_singleton (c : Command) (code : UInt32) (a : Answer) :
    Step.good ⟨c, [code]⟩ a ↔ a.code = code := by
  simp [Step.good]

variable (perform)

theorem sendData_eq (b : β) (txCount : ℕ) (ds : List UInt8) :
    let u := summary (attemptOf perform b (ds.map dataStep))
    sendData perform b txCount ds = (u.bus, txCount + u.txCount, u.failure) ∧ u.rxData = [] := by
  induction ds generalizing b txCount with
  | nil => exact ⟨rfl, rfl⟩
  | cons d ds ih =>
    have hgood := good_singleton (.sendByte d) txDatAck (perform b (.sendByte d)).2
    by_cases hcode : (perform b (.sendByte d)).2.code = txDatAck
    · have hstep := summary_good (show (dataStep d).good (perform b (dataStep d).command).2 from
        hgood.mpr hcode) (ds.map dataStep)
      obtain ⟨heq, hnil⟩ := ih (perform b (.sendByte d)).1 (txCount + 1)
      simp only [List.map_cons, hstep]
      refine ⟨?_, hnil⟩
      simp only [sendData, i2cSendByte, hcode, ne_eq, not_true_eq_false, if_false, heq]
      simp [dataStep, Nat.add_assoc]
    · have hstep := summary_bad (show ¬(dataStep d).good (perform b (dataStep d).command).2 from
        fun h => hcode (hgood.mp h)) (ds.map dataStep)
      simp only [List.map_cons, hstep, and_true]
      simp only [sendData, i2cSendByte, ne_eq, hcode, not_false_eq_true, if_true]
      rfl

theorem getData_eq (b : β) (rxData : List UInt8) (n : ℕ) :
    let u := summary (attemptOf perform b (getSteps n))
    getData perform b rxData n = (u.bus, rxData ++ u.rxData, u.failure) ∧ u.txCount = 0 := by
  induction n generalizing b rxData with
  | zero => simp [getData, getSteps, summary, attemptOf, sentOf, bytesOf, failureOf]
  | succ n ih =>
    generalize hk : (⟨.getByte (n ≠ 0), [if n ≠ 0 then rxDatAck else rxDatNack]⟩ : Step) = k
    have hsteps : getSteps (n + 1) = k :: getSteps n := by rw [← hk, getSteps]
    have hgood : k.good (perform b k.command).2 ↔
        (perform b (.getByte (n ≠ 0))).2.code = if n ≠ 0 then rxDatAck else rxDatNack := by
      rw [← hk]
      exact good_singleton _ _ _
    rw [hsteps]
    by_cases hcode : k.good (perform b k.command).2
    · obtain ⟨heq, hzero⟩ := ih (perform b k.command).1 (rxData ++ [(perform b k.command).2.dat])
      have hexpects : k.expects ≠ [txDatAck] := by
        rw [← hk]
        by_cases hn : n ≠ 0
        · simp [if_pos hn, rxDatAck, txDatAck]
        · simp [if_neg hn, rxDatNack, txDatAck]
      simp only [summary_good hcode, hzero, if_neg hexpects]
      refine ⟨?_, trivial⟩
      have hbytes : k.bytes (perform b k.command).2 = [(perform b k.command).2.dat] := by
        rw [← hk]
        rfl
      rw [hbytes, ← List.append_assoc, ← heq]
      have hne := hgood.mp hcode
      rw [getData]
      subst hk
      simp only [i2cGetByte, decide_eq_true_eq, hne, ne_eq, not_true_eq_false, if_false]
    · have hne : (perform b (.getByte (n ≠ 0))).2.code ≠ if n ≠ 0 then rxDatAck else rxDatNack :=
        fun h => hcode (hgood.mpr h)
      simp only [summary_bad hcode, List.append_nil, and_true]
      rw [getData]
      subst hk
      simp only [i2cGetByte, decide_eq_true_eq, if_pos hne]
      rfl

theorem sendPhase_eq (b : β) (s : Setup) :
    let u := summary (attemptOf perform b (writeSteps s))
    sendPhase perform b s = (u.bus, u.txCount, u.failure) ∧ u.rxData = [] := by
  by_cases hnone : s.txData = []
  · simp [sendPhase, writeSteps, hnone, summary, attemptOf, sentOf, bytesOf, failureOf]
  · rw [writeSteps, if_neg hnone]
    generalize hk : (⟨.sendByte (s.slAddr7bit <<< 1), [txSlawAck]⟩ : Step) = k
    have hgood : k.good (perform b k.command).2 ↔
        (perform b (.sendByte (s.slAddr7bit <<< 1))).2.code = txSlawAck := by
      rw [← hk]
      exact good_singleton _ _ _
    by_cases hcode : k.good (perform b k.command).2
    · obtain ⟨heq, hnil⟩ := sendData_eq perform (perform b k.command).1 0 s.txData
      have hne := hgood.mp hcode
      simp only [summary_good hcode]
      subst hk
      refine ⟨?_, by simpa [Step.bytes] using hnil⟩
      simp only [sendPhase, if_neg hnone, i2cSendByte, hne, ne_eq, not_true_eq_false, if_false, heq]
      simp [txSlawAck, txDatAck]
    · have hne : (i2cSendByte perform b (s.slAddr7bit <<< 1)).2 ≠ txSlawAck :=
        fun h => hcode (hgood.mpr h)
      simp only [summary_bad hcode, and_true]
      subst hk
      simp only [sendPhase, if_neg hnone, if_pos hne]
      rfl

theorem restartPhase_eq (b : β) (s : Setup) :
    let u := summary (attemptOf perform b
      (if s.txData ≠ [] ∧ s.rxLength ≠ 0 then [startStep] else []))
    restartPhase perform b s = (u.bus, u.failure) ∧ u.txCount = 0 ∧ u.rxData = [] := by
  by_cases hboth : s.txData ≠ [] ∧ s.rxLength ≠ 0
  · rw [if_pos hboth, restartPhase, if_pos hboth]
    have hgood := startStep_good (perform b .start).2
    by_cases hcode : startStep.good (perform b startStep.command).2
    · have hne : ¬((i2cStart perform b).2 ≠ rxStart ∧ (i2cStart perform b).2 ≠ rxRestart) :=
        fun h => (hgood.mp hcode).elim h.1 h.2
      simp only [summary_good hcode, if_neg hne]
      exact ⟨rfl, rfl, rfl⟩
    · have hne : (i2cStart perform b).2 ≠ rxStart ∧ (i2cStart perform b).2 ≠ rxRestart :=
        not_or.mp fun h => hcode (hgood.mpr h)
      simp only [summary_bad hcode, if_pos hne]
      exact ⟨rfl, trivial, trivial⟩
  · rw [if_neg hboth, restartPhase, if_neg hboth]
    exact ⟨rfl, rfl, rfl⟩

theorem receivePhase_eq (b : β) (s : Setup) :
    let u := summary (attemptOf perform b (readSteps s))
    receivePhase perform b s = (u.bus, u.rxData, u.failure) ∧ u.txCount = 0 := by
  by_cases hnone : s.rxLength = 0
  · simp [receivePhase, readSteps, hnone, summary, attemptOf, sentOf, bytesOf, failureOf]
  · rw [readSteps, if_neg hnone]
    generalize hk : (⟨.sendByte (s.slAddr7bit <<< 1 ||| 1), [rxSlarAck]⟩ : Step) = k
    have hgood : k.good (perform b k.command).2 ↔
        (perform b (.sendByte (s.slAddr7bit <<< 1 ||| 1))).2.code = rxSlarAck := by
      rw [← hk]
      exact good_singleton _ _ _
    by_cases hcode : k.good (perform b k.command).2
    · obtain ⟨heq, hzero⟩ := getData_eq perform (perform b k.command).1 [] s.rxLength
      have hne := hgood.mp hcode
      simp only [summary_good hcode, hzero]
      subst hk
      refine ⟨?_, by simp [rxSlarAck, txDatAck]⟩
      simp only [receivePhase, if_neg hnone, i2cSendByte, hne, ne_eq, not_true_eq_false, if_false,
        heq]
      simp [Step.bytes]
    · have hne : (i2cSendByte perform b (s.slAddr7bit <<< 1 ||| 1)).2 ≠ rxSlarAck :=
        fun h => hcode (hgood.mpr h)
      simp only [summary_bad hcode, and_true]
      subst hk
      simp only [receivePhase, if_neg hnone, if_pos hne]
      rfl

theorem tryOnce_eq (b : β) (s : Setup) :
    tryOnce perform b s = summary (attemptOf perform b (plan s)) := by
  have hgood := startStep_good (perform b .start).2
  by_cases hcode : startStep.good (perform b startStep.command).2
  · have hne : ¬((i2cStart perform b).2 ≠ txStart ∧ (i2cStart perform b).2 ≠ txRestart) :=
      fun h => (hgood.mp hcode).elim h.1 h.2
    rw [plan, summary_good hcode]
    simp only [tryOnce, if_neg hne]
    obtain ⟨hsend, hnil⟩ := sendPhase_eq perform (i2cStart perform b).1 s
    simp only [hsend]
    change _ = (⟨_, 0 + _, [] ++ _, _⟩ : Tried β)
    rw [Nat.zero_add, List.nil_append]
    change _ = summary (attemptOf perform (i2cStart perform b).1 _)
    generalize (i2cStart perform b).1 = b₁ at *
    cases hw : (summary (attemptOf perform b₁ (writeSteps s))).failure with
    | some code =>
      rw [summary_append_failed hw]
      exact congr (congr rfl hnil.symm) hw.symm
    | none =>
      rw [summary_append hw]
      obtain ⟨hrestart, hzero, hnil'⟩ := restartPhase_eq perform
        (summary (attemptOf perform b₁ (writeSteps s))).bus s
      simp only [hrestart, hnil, List.nil_append]
      generalize (summary (attemptOf perform b₁ (writeSteps s))).bus = b₂ at *
      generalize (if s.txData ≠ [] ∧ s.rxLength ≠ 0 then [startStep] else []) = rs at *
      cases hr : (summary (attemptOf perform b₂ rs)).failure with
      | some code =>
        rw [summary_append_failed hr, hzero, hnil', hr]
        rfl
      | none =>
        rw [summary_append hr]
        obtain ⟨hreceive, hzero'⟩ := receivePhase_eq perform
          (summary (attemptOf perform b₂ rs)).bus s
        simp only [hreceive, hzero, hzero', hnil', List.nil_append, Nat.add_zero]
  · have hne : (i2cStart perform b).2 ≠ txStart ∧ (i2cStart perform b).2 ≠ txRestart :=
      not_or.mp fun h => hcode (hgood.mpr h)
    rw [plan, summary_bad hcode]
    simp only [tryOnce, if_pos hne]
    rfl

def buffered (rxData : List UInt8) (logs : List (List (Step × Answer))) : List UInt8 :=
  logs.foldl (fun data log => overlay data (bytesOf log)) rxData

def resultOf (count : UInt32) (rxData : List UInt8) (t : β × List (List (Step × Answer)))
    (log : List (Step × Answer)) : Result β where
  bus := i2cStop perform t.1
  result := if passed Step.good log then .success else .error
  txCount := sentOf log
  rxCount := (bytesOf log).length
  rxData := buffered rxData t.2
  retransmissionsCount := count + UInt32.ofNat (t.2.countP fun l => !passed Step.good l)
  status := (failureOf log).getD 0

theorem retry_eq (s : Setup) {retransmissionsMax count : UInt32} {fuel n : ℕ}
    (hmax : retransmissionsMax.toNat + 1 < 2 ^ 32)
    (hcount : count.toNat + n = retransmissionsMax.toNat + 1) (hpos : 0 < n) (hfuel : n ≤ fuel)
    (rxData : List UInt8) (b : β) :
    let t := trials (run perform) Step.good (plan s) n b
    ∃ log, t.2.getLast? = some log ∧ retry perform s retransmissionsMax fuel count rxData b =
      some (resultOf perform count rxData t log) := by
  induction n generalizing fuel count rxData b with
  | zero => omega
  | succ n ih =>
    obtain ⟨fuel, rfl⟩ : ∃ f, fuel = f + 1 := ⟨fuel - 1, by omega⟩
    have htry := tryOnce_eq perform b s
    have hpassed : passed Step.good (attemptOf perform b (plan s)).2 →
        trials (run perform) Step.good (plan s) (n + 1) b =
          ((attemptOf perform b (plan s)).1, [(attemptOf perform b (plan s)).2]) := fun h =>
      trials_succ_passed h n
    have hfailed : ¬passed Step.good (attemptOf perform b (plan s)).2 →
        trials (run perform) Step.good (plan s) (n + 1) b =
          ((trials (run perform) Step.good (plan s) n (attemptOf perform b (plan s)).1).1,
            (attemptOf perform b (plan s)).2 ::
              (trials (run perform) Step.good (plan s) n (attemptOf perform b (plan s)).1).2) :=
      fun h => trials_succ_failed h n
    generalize attemptOf perform b (plan s) = u at *
    by_cases hpass : passed Step.good u.2
    · have hnone := (failureOf_none _).mpr hpass
      rw [hpassed hpass]
      refine ⟨u.2, rfl, ?_⟩
      simp only [retry, htry, summary, hnone]
      simp [resultOf, buffered, hpass, hnone]
    · obtain ⟨code, hcode⟩ := Option.ne_none_iff_exists'.mp (mt (failureOf_none _).mp hpass)
      have hnext : (count + 1).toNat = count.toNat + 1 := by
        rw [UInt32.toNat_add, UInt32.toNat_one]
        omega
      rw [hfailed hpass]
      by_cases hlast : n = 0
      · subst hlast
        have hover : retransmissionsMax < count + 1 := by
          rw [UInt32.lt_iff_toNat_lt, hnext]
          omega
        refine ⟨u.2, rfl, ?_⟩
        simp only [retry, htry, summary, hcode, if_pos hover]
        simp [resultOf, buffered, hpass, hcode, trials]
      · have hgo : ¬retransmissionsMax < count + 1 := by
          rw [UInt32.lt_iff_toNat_lt, hnext]
          omega
        have hsum : (count + 1).toNat + n = retransmissionsMax.toNat + 1 := by omega
        have hle : n ≤ fuel := by omega
        obtain ⟨log, hlog, heq⟩ := ih hsum (by omega) hle (overlay rxData (bytesOf u.2)) u.1
        have hcountP : (List.countP (fun l => !passed Step.good l) (u.2 ::
            (trials (run perform) Step.good (plan s) n u.1).2)) =
            List.countP (fun l => !passed Step.good l)
              (trials (run perform) Step.good (plan s) n u.1).2 + 1 :=
          List.countP_cons_of_pos (by simp [hpass])
        refine ⟨log, ?_, ?_⟩
        · exact (List.getLast?_cons_of_ne_nil fun hnil => by simp [hnil] at hlog).trans hlog
        · simp only [retry, htry, summary, hcode, if_neg hgo, heq]
          simp only [resultOf, hcountP, UInt32.ofNat_add, buffered, List.foldl_cons]
          simp [UInt32.add_assoc, UInt32.add_comm]

end Attempts

section Counts
variable {β : Type} {perform : β → Command → β × Answer}

def Step.isData (k : Step) : Bool := decide (k.expects = [txDatAck])

def Step.isGet (k : Step) : Bool :=
  match k.command with
  | .getByte _ => true
  | _ => false

theorem sentOf_passed {l : List (Step × Answer)} (h : passed Step.good l) :
    sentOf l = (l.map Prod.fst).countP Step.isData := by
  rw [sentOf, List.countP_map]
  refine List.countP_congr fun x hx => ?_
  have hgood : x.1.good x.2 := List.all_eq_true.mp h x hx
  simp [Step.isData, hgood]

theorem bytesOf_cons (x : Step × Answer) (l : List (Step × Answer)) :
    bytesOf (x :: l) = (if x.1.good x.2 then x.1.bytes x.2 else []) ++ bytesOf l := by
  rw [bytesOf, List.filterMap_cons, ← bytesOf]
  cases hc : x.1.command with
  | getByte ack => split_ifs <;> simp [Step.bytes, hc]
  | start => simp [Step.bytes, hc]
  | stop => simp [Step.bytes, hc]
  | sendByte d => simp [Step.bytes, hc]

theorem bytes_length (k : Step) (a : Answer) : (k.bytes a).length = if k.isGet then 1 else 0 := by
  rw [Step.bytes, Step.isGet]
  cases k.command <;> rfl

theorem bytesOf_length_le (l : List (Step × Answer)) :
    (bytesOf l).length ≤ (l.map Prod.fst).countP Step.isGet := by
  induction l with
  | nil => exact Nat.le_refl 0
  | cons x l ih =>
    rw [bytesOf_cons, List.length_append, List.map_cons, List.countP_cons]
    split_ifs with hgood hget
    · rw [bytes_length, if_pos hget]
      omega
    · rw [bytes_length, if_neg hget]
      omega
    · simpa using Nat.le_succ_of_le ih
    · simpa using ih

theorem bytesOf_length_passed {l : List (Step × Answer)} (h : passed Step.good l) :
    (bytesOf l).length = (l.map Prod.fst).countP Step.isGet := by
  induction l with
  | nil => rfl
  | cons x l ih =>
    have hall : x.1.good x.2 ∧ passed Step.good l := by simpa [passed] using h
    rw [bytesOf_cons, if_pos hall.1, List.length_append, bytes_length, ih hall.2, List.map_cons,
      List.countP_cons, Nat.add_comm]

theorem getSteps_counts (n : ℕ) :
    (getSteps n).countP Step.isData = 0 ∧ (getSteps n).countP Step.isGet = n := by
  induction n with
  | zero => exact ⟨rfl, rfl⟩
  | succ n ih =>
    rw [getSteps, List.countP_cons, List.countP_cons, ih.1, ih.2]
    by_cases hn : n = 0
    · simp [Step.isData, Step.isGet, hn, rxDatNack, txDatAck]
    · simp [Step.isData, Step.isGet, hn, rxDatAck, txDatAck]

theorem writeSteps_counts (s : Setup) : (writeSteps s).countP Step.isData = s.txData.length ∧
    (writeSteps s).countP Step.isGet = 0 := by
  have hdata : (s.txData.map dataStep).countP Step.isData = s.txData.length := by
    rw [List.countP_map]
    exact List.countP_eq_length.mpr fun d _ => by simp [Step.isData, dataStep]
  have hget : (s.txData.map dataStep).countP Step.isGet = 0 := by
    rw [List.countP_map]
    exact List.countP_eq_zero.mpr fun d _ => by simp [Step.isGet, dataStep]
  by_cases htx : s.txData = []
  · simp [writeSteps, htx]
  · rw [writeSteps, if_neg htx, List.countP_cons, List.countP_cons, hdata, hget]
    simp [Step.isData, Step.isGet, txSlawAck, txDatAck]

theorem readSteps_counts (s : Setup) : (readSteps s).countP Step.isData = 0 ∧
    (readSteps s).countP Step.isGet = s.rxLength := by
  have hget := getSteps_counts s.rxLength
  by_cases hrx : s.rxLength = 0
  · simp [readSteps, hrx]
  · rw [readSteps, if_neg hrx, List.countP_cons, List.countP_cons, hget.1, hget.2]
    simp [Step.isData, Step.isGet, rxSlarAck, txDatAck]

theorem plan_counts (s : Setup) : (plan s).countP Step.isData = s.txData.length ∧
    (plan s).countP Step.isGet = s.rxLength := by
  have hwrite := writeSteps_counts s
  have hread := readSteps_counts s
  have hstart : startStep.isData = false ∧ startStep.isGet = false := by decide
  rw [plan, List.countP_cons, List.countP_cons, List.countP_append, List.countP_append,
    List.countP_append, List.countP_append, hwrite.1, hwrite.2, hread.1, hread.2]
  split_ifs <;> simp_all

theorem buffered_passed {logs : List (List (Step × Answer))} {log : List (Step × Answer)} {n : ℕ}
    (hlogs : ∀ l ∈ logs, (bytesOf l).length ≤ n) (hlog : (bytesOf log).length = n) :
    buffered [] (logs ++ [log]) = bytesOf log := by
  have hlen : ∀ ls : List (List (Step × Answer)), (∀ l ∈ ls, (bytesOf l).length ≤ n) →
      ∀ data, data.length ≤ n → (buffered data ls).length ≤ n := by
    intro ls hls
    induction ls with
    | nil => exact fun data h => h
    | cons l ls ih =>
      intro data hdata
      refine ih (fun l' hl' => hls l' (List.mem_cons_of_mem l hl')) _ ?_
      have hl := hls l List.mem_cons_self
      change (bytesOf l ++ data.drop (bytesOf l).length).length ≤ n
      rw [List.length_append, List.length_drop]
      omega
  have hold : (buffered [] logs).length ≤ (bytesOf log).length :=
    hlog ▸ hlen logs hlogs [] (Nat.zero_le n)
  rw [buffered, List.foldl_append]
  change bytesOf log ++ (buffered [] logs).drop (bytesOf log).length = bytesOf log
  rw [List.drop_eq_nil_of_le hold, List.append_nil]

theorem trials_passed {s : Setup} {n : ℕ} {b : β} {log : List (Step × Answer)}
    (hlog : (trials (run perform) Step.good (plan s) n b).2.getLast? = some log)
    (hpass : passed Step.good log) :
    log.map Prod.fst = plan s ∧ sentOf log = s.txData.length ∧ (bytesOf log).length = s.rxLength ∧
      buffered [] (trials (run perform) Step.good (plan s) n b).2 = bytesOf log := by
  obtain ⟨b', hb'⟩ := trials_mem log (List.mem_of_getLast? hlog)
  have hmap : log.map Prod.fst = plan s := by
    rw [hb'] at hpass ⊢
    exact attempt_passed hpass
  have hbytes : (bytesOf log).length = s.rxLength := by
    rw [bytesOf_length_passed hpass, hmap, (plan_counts s).2]
  refine ⟨hmap, ?_, hbytes, ?_⟩
  · rw [sentOf_passed hpass, hmap, (plan_counts s).1]
  · obtain ⟨ls, hls⟩ := List.getLast?_eq_some_iff.mp hlog
    rw [hls]
    refine buffered_passed (fun l hl => ?_) hbytes
    obtain ⟨b'', hb''⟩ := trials_mem l (hls ▸ List.mem_append_left [log] hl)
    rw [← (plan_counts s).2, hb'']
    exact (bytesOf_length_le _).trans (attempt_commands b'' (plan s)).sublist.countP_le

theorem resultOf_success (perform : β → Command → β × Answer)
    (t : β × List (List (Step × Answer))) (log : List (Step × Answer)) :
    (resultOf perform 0 [] t log).result = .success ↔ passed Step.good log := by
  simp only [resultOf]
  split_ifs with hpass <;> simp [hpass]

theorem i2cTransfer_eq (perform : β → Command → β × Answer) (b : β) (s : Setup) :
    let t := trials (run perform) Step.good (plan s) 4 b
    ∃ log, t.2.getLast? = some log ∧ (i2cTransfer perform b s).1 = (perform t.1 .stop).1 ∧
      ((i2cTransfer perform b s).2.status = .success ↔ passed Step.good log) ∧
      (i2cTransfer perform b s).2.data = buffered [] t.2 := by
  intro t
  obtain ⟨log, hlog, heq⟩ := retry_eq perform s (by decide)
    (show (0 : UInt32).toNat + 4 = (3 : UInt32).toNat + 1 from rfl) (by decide)
    (show 4 ≤ 4 from Nat.le_refl 4) [] b
  have hcall : i2cTransfer perform b s =
      ((resultOf perform 0 [] t log).bus,
        ⟨(resultOf perform 0 [] t log).result, (resultOf perform 0 [] t log).rxData⟩) := by
    rw [i2cTransfer, i2cMasterTransferData, heq]
  refine ⟨log, hlog, ?_, ?_, ?_⟩
  · rw [hcall]
    rfl
  · rw [hcall]
    exact resultOf_success perform t log
  · rw [hcall]
    rfl

/-- In polling mode a call makes at most one attempt more than `retransmissions_max`, each from a
start condition on, until one has gone through the whole plan; a stop condition follows. -/
theorem polling_attempts (perform : β → Command → β × Answer) (s : Setup)
    (retransmissionsMax : UInt32) (fuel : ℕ) (b : β)
    (hmax : retransmissionsMax.toNat + 1 < 2 ^ 32) (hfuel : retransmissionsMax.toNat < fuel) :
    let t := trials (run perform) Step.good (plan s) (retransmissionsMax.toNat + 1) b
    ∃ r log, i2cMasterTransferData perform fuel b s retransmissionsMax = some r ∧
      t.2.getLast? = some log ∧ r.bus = (perform t.1 .stop).1 ∧
      (r.result = .success ↔ passed Step.good log) ∧
      (r.result = .success → log.map Prod.fst = plan s ∧ r.txCount = s.txData.length ∧
        r.rxCount = s.rxLength ∧ r.rxData = bytesOf log ∧ r.status = 0) ∧
      (r.result = .error → failureOf log = some r.status) ∧
      r.retransmissionsCount.toNat = t.2.countP fun l => !passed Step.good l := by
  intro t
  obtain ⟨log, hlog, heq⟩ := retry_eq perform s hmax
    (show (0 : UInt32).toNat + (retransmissionsMax.toNat + 1) = retransmissionsMax.toNat + 1 from
      Nat.zero_add _) (Nat.succ_pos _) (show _ ≤ fuel from hfuel) [] b
  have hresult := resultOf_success perform t log
  refine ⟨resultOf perform 0 [] t log, log, heq, hlog, rfl, hresult, fun hsuccess => ?_,
    fun herror => ?_, ?_⟩
  · have hpass := hresult.mp hsuccess
    obtain ⟨hmap, hsent, hbytes, hbuffered⟩ := trials_passed hlog hpass
    refine ⟨hmap, hsent, hbytes, hbuffered, ?_⟩
    change (failureOf log).getD 0 = 0
    rw [(failureOf_none log).mpr hpass]
    rfl
  · have hfail : ¬passed Step.good log := fun hpass => by
      rw [hresult.mpr hpass] at herror
      cases herror
    obtain ⟨code, hcode⟩ := Option.ne_none_iff_exists'.mp (mt (failureOf_none _).mp hfail)
    change failureOf log = some ((failureOf log).getD 0)
    rw [hcode, Option.getD_some]
  · have hle : t.2.countP (fun l => !passed Step.good l) ≤ retransmissionsMax.toNat + 1 :=
      List.countP_le_length.trans (trials_length _ b)
    change (0 + UInt32.ofNat _).toNat = _
    rw [UInt32.zero_add, UInt32.toNat_ofNat']
    exact Nat.mod_eq_of_lt (Nat.lt_of_le_of_lt hle hmax)

theorem polling_attempts_silent : ∃ r,
    i2cMasterTransferData (fun n _ => (n + 1, ⟨if n % 2 = 0 then 0x08 else 0x20, 0⟩)) 4 0
      ⟨0x50, [1], 0⟩ 3 = some r ∧ r.bus = 9 ∧ r.result = .error ∧ r.status = 0x220 ∧
      r.retransmissionsCount.toNat = 4 := by
  obtain ⟨r, log, hr, hlog, hbus, hsuccess, -, herror, hcount⟩ := polling_attempts
    (fun n _ => (n + 1, ⟨if n % 2 = 0 then 0x08 else 0x20, 0⟩)) ⟨0x50, [1], 0⟩ 3 4 0 (by decide)
    (by decide)
  obtain rfl : [(startStep, ⟨0x08, 0⟩), (⟨.sendByte 0xA0, [txSlawAck]⟩, ⟨0x20, 0⟩)] = log :=
    Option.some.inj hlog
  have hresult : r.result = .error := by
    cases h : r.result with
    | error => rfl
    | success => exact absurd (hsuccess.mp h) (by decide)
  exact ⟨r, hr, hbus, hresult, (Option.some.inj (herror hresult)).symm, hcount⟩

end Counts

end AoaBoard.I2c
