import AoaBoard.Host.Monitor

/-!
# The beginning and the end of a session

The USB events are interrupts, so a device can be attached or removed, and a
transfer can complete, in the middle of a call of `androidHost_task`. A board
remembers how far the call has come: behind the test for a due clean-up, behind
the clean-up, or behind `monitor_task`. The callbacks and the changes of the
registry come from `canpt_task`, hence between two calls. `commands` is the
history of the command bytes that the task has taken up.
-/

namespace AoaBoard.Host.Sessions
open Library Library.Run Can Usb

inductive Pc
  | outside
  | due
  | cleaned
  | monitored
  deriving DecidableEq

structure Board where
  host : State
  pc : Pc
  commands : List UInt8

/-- `core` stands for anything that the USB library does to a core: the enumeration of a device,
its removal, the completion of a transfer. -/
inductive Action
  | task (r : Readings)
  | host (e : Event)
  | core (corenum : UInt8) (c : Core)

def enabled (pc : Pc) : Event → Bool
  | .received _ | .sent _ | .deviceAttached _ | .deviceUnattached _ => true
  | .task _ => false
  | _ => pc = .outside

def proceed (b : Board) (r : Readings) : Board × List Out :=
  match b.pc with
  | .outside => ({ b with pc := if Expired b.host r then .due else .cleaned }, [])
  | .due => ({ b with host := (cleanUp b.host).1, pc := .cleaned }, (cleanUp b.host).2)
  | .cleaned =>
    ({ b with host := (endSession b.host r).1, pc := .monitored }, (endSession b.host r).2)
  | .monitored =>
    (⟨(receive b.host r).1, .outside, b.commands ++ (receive b.host r).2.filterMap command⟩,
      (receive b.host r).2)

def act (b : Board) : Action → Board × List Out
  | .task r => proceed b r
  | .host e =>
    if enabled b.pc e then ({ b with host := (step b.host e).1 }, (step b.host e).2) else (b, [])
  | .core corenum c => ({ b with host := setCore b.host corenum c }, [])

def start (cores : UInt8 → Core) (canpt : Canpt) : Board :=
  ⟨androidHostInit (powerUp cores canpt), .outside, []⟩

/-- The steps of a call that nothing interrupts. -/
def stepsOfCall (h : State) (r : Readings) : List Action :=
  List.replicate (if Expired h r then 4 else 3) (.task r)

theorem uninterrupted_call (b : Board) (hpc : b.pc = .outside) (r : Readings) :
    after act b (stepsOfCall b.host r) = ⟨(androidHostTask b.host r).1, .outside,
        b.commands ++ (androidHostTask b.host r).2.filterMap command⟩ ∧
      outputs act b (stepsOfCall b.host r) = (androidHostTask b.host r).2 := by
  have hsilent := (monitorTask_sends b.host r).silent
  have htask := androidHostTask_eq_receive b.host r
  rw [monitorTask_eq] at hsilent htask
  rw [htask, List.filterMap_append, hsilent, List.nil_append]
  by_cases hexp : Expired b.host r
  · simp [stepsOfCall, List.replicate, act, proceed, hpc, hexp]
  · simp [stepsOfCall, List.replicate, act, proceed, hpc, hexp]

theorem event_flags (h : State) {e : Event} {pc : Pc} (he : enabled pc e = true) :
    (step h e).2.filterMap cancelled = [] ∧
      ((step h e).1.connected = true → SameFlags h (step h e).1) := by
  have hkeeps {r : State × List Out} (hr : Keeps h r) :
      r.2.filterMap cancelled = [] ∧ (r.1.connected = true → SameFlags h r.1) :=
    ⟨hr.outs, fun _ => hr.flags⟩
  cases e with
  | received packet => exact hkeeps ⟨⟨rfl, rfl, rfl⟩, rfl, rfl⟩
  | sent done => exact hkeeps ⟨⟨rfl, rfl, rfl⟩, rfl, rfl⟩
  | registry nodes => exact hkeeps ⟨⟨rfl, rfl, rfl⟩, rfl, rfl⟩
  | nodeAttached reqId done =>
    simp only [step, nodeAttached]
    split_ifs
    · exact hkeeps (handleNodeAttached_keeps h h.attachedCoreNum reqId done)
    · exact hkeeps (.refl h)
  | nodeDetached reqId done =>
    simp only [step, nodeDetached, handleNodeDetached, sendNodeDetached]
    split_ifs
    · have hsend := sendCommand_keeps
        { h with subs := fun i => if (h.subs i).reqId ≠ 0 then ⟨0, 0⟩ else h.subs i }
        h.attachedCoreNum cmdNodeRemove [reqId] done
      have hflags := hsend.flags
      exact ⟨hsend.outs, fun _ =>
        ⟨hflags.connected, hflags.doDisconnect, hflags.scheduleDisconnect⟩⟩
    · exact hkeeps (.refl h)
  | valueUpdate reqId periphId buf len done =>
    simp only [step, valueUpdate]
    split_ifs
    · exact hkeeps (sendCommand_keeps h _ _ _ done)
    · exact hkeeps (sendCommand_keeps h _ _ _ done)
    · exact hkeeps (.refl h)
  | subStarted reqId subId =>
    simp only [step, subStarted]
    split
    · exact ⟨rfl, fun _ => ⟨rfl, rfl, rfl⟩⟩
    · exact hkeeps (.refl h)
  | deviceAttached corenum => exact hkeeps ⟨⟨rfl, rfl, rfl⟩, rfl, rfl⟩
  | deviceUnattached msTicks => exact ⟨rfl, fun h => absurd h Bool.false_ne_true⟩
  | task r => exact absurd he Bool.false_ne_true

def requested (commands : List UInt8) : Bool :=
  cmdDisconnect ∈ commands.reverse.takeWhile (· ≠ cmdConnect)

theorem requested_disconnect (commands : List UInt8) :
    requested (commands ++ [cmdDisconnect]) = true := by
  simp [requested, show cmdDisconnect ≠ cmdConnect by decide]

theorem requested_other {commands : List UInt8} (h : requested commands = true) {c : UInt8}
    (hc : c ≠ cmdConnect) : requested (commands ++ [c]) = true := by
  simp only [requested, decide_eq_true_eq] at h ⊢
  rw [List.reverse_append, List.reverse_singleton, List.singleton_append,
    List.takeWhile_cons_of_pos (by simpa using hc)]
  exact List.mem_cons_of_mem c h

theorem not_requested_connect (commands : List UInt8) :
    requested (commands ++ [cmdConnect]) = false := by
  simp [requested]

/-- When `monitor_task` ends the session, the device has asked for it in this session. -/
def EndsOnRequest (b : Board) : Action → Prop
  | .task r => b.pc = .cleaned → b.host.connected = true →
      (proceed b r).1.host.connected = false → requested b.commands = true
  | _ => True

/-- No connect command is taken up while a disconnect request is pending. -/
def NoStaleRequest (b : Board) : Action → Prop
  | .task _ => ¬ (b.pc = .monitored ∧ waitingCommand b.host = some cmdConnect ∧
      b.host.doDisconnect = true)
  | _ => True

def OwnRequest (b : Board) : Prop :=
  b.host.connected = true → b.host.doDisconnect = true → requested b.commands = true

theorem OwnRequest.of_flags {b : Board} (hb : OwnRequest b) {h : State} {pc : Pc}
    (hflags : h.connected = true → h.connected = b.host.connected ∧
      h.doDisconnect = b.host.doDisconnect) : OwnRequest ⟨h, pc, b.commands⟩ := by
  intro hconn hreq
  obtain ⟨hc, hd⟩ := hflags hconn
  exact hb (hc ▸ hconn) (hd ▸ hreq)

theorem receive_ownRequest {b : Board} (hb : OwnRequest b) (r : Readings)
    (hstale : ¬ (waitingCommand b.host = some cmdConnect ∧ b.host.doDisconnect = true)) :
    OwnRequest ⟨(receive b.host r).1, .outside,
      b.commands ++ (receive b.host r).2.filterMap command⟩ := by
  obtain ⟨hkeeps, hcommands⟩ := receive_spec b.host r
  have hflags := hkeeps.flags
  intro hconn hreq
  simp only at hconn hreq ⊢
  rw [hflags.connected] at hconn
  rw [hflags.doDisconnect] at hreq
  rw [hcommands]
  cases hwait : waitingCommand b.host with
  | none =>
    simp only [takenUp, hwait, Option.map_none, Option.getD_none] at hconn hreq
    rw [Option.toList_none, List.append_nil]
    exact hb hconn hreq
  | some c =>
    simp only [takenUp, hwait, Option.map_some, Option.getD_some, commanded] at hconn hreq
    rw [Option.toList_some]
    split_ifs at hconn hreq with hc hd
    · exact absurd ⟨hc ▸ hwait, hreq⟩ hstale
    · rw [hd]
      exact requested_disconnect b.commands
    · exact requested_other (hb hconn hreq) hc

theorem proceed_ownRequest {b : Board} (hb : OwnRequest b) (r : Readings)
    (hstale : NoStaleRequest b (.task r)) : OwnRequest (proceed b r).1 := by
  cases hpc : b.pc with
  | outside =>
    simp only [proceed, hpc]
    exact hb.of_flags fun _ => ⟨rfl, rfl⟩
  | due =>
    simp only [proceed, hpc]
    have hflags := cleanUp_flags b.host
    exact hb.of_flags fun _ => ⟨hflags.connected, hflags.doDisconnect⟩
  | cleaned =>
    simp only [proceed, hpc]
    refine hb.of_flags fun hconn => ?_
    by_cases hends : b.host.connected = true ∧ b.host.doDisconnect = true
    · rw [(endSession_ends hends.1 hends.2 r).1] at hconn
      exact absurd hconn Bool.false_ne_true
    · rw [endSession_idle hends]
      exact ⟨rfl, rfl⟩
  | monitored =>
    simp only [proceed, hpc]
    exact receive_ownRequest hb r fun h => hstale ⟨hpc, h⟩

theorem act_ownRequest {b : Board} (hb : OwnRequest b) {a : Action} (ha : NoStaleRequest b a) :
    OwnRequest (act b a).1 := by
  cases a with
  | task r => exact proceed_ownRequest hb r ha
  | host e =>
    simp only [act]
    split_ifs with he
    · refine hb.of_flags fun hconn => ?_
      have hflags := (event_flags b.host he).2 hconn
      exact ⟨hflags.connected, hflags.doDisconnect⟩
    · exact hb
  | core corenum c => exact hb.of_flags fun _ => ⟨rfl, rfl⟩

theorem OwnRequest.ends {b : Board} (hb : OwnRequest b) (a : Action) : EndsOnRequest b a := by
  cases a with
  | task r =>
    intro hpc hconn hended
    by_cases hreq : b.host.doDisconnect = true
    · exact hb hconn hreq
    · simp only [proceed, hpc, endSession_idle (fun h => hreq h.2), hconn] at hended
      exact absurd hended.symm Bool.false_ne_true
  | host e => trivial
  | core corenum c => trivial

theorem connect_taken {b : Board} (hpc : b.pc = .monitored)
    (hwait : waitingCommand b.host = some cmdConnect) (r : Readings) :
    (proceed b r).1.pc = .outside ∧ (proceed b r).1.host.connected = true ∧
      (proceed b r).1.host.doDisconnect = b.host.doDisconnect ∧
      (proceed b r).1.host.scheduleDisconnect = b.host.scheduleDisconnect ∧
      (proceed b r).1.commands = b.commands ++ [cmdConnect] := by
  obtain ⟨hkeeps, hcommands⟩ := receive_spec b.host r
  have htaken : takenUp b.host = { b.host with connected := true } := by
    simp only [takenUp, hwait, Option.map_some, Option.getD_some, commanded, if_true]
  rw [htaken] at hkeeps
  rw [hwait, Option.toList_some] at hcommands
  have hflags := hkeeps.flags
  simp only [proceed, hpc, hcommands]
  exact ⟨trivial, hflags.connected, hflags.doDisconnect, hflags.scheduleDisconnect, trivial⟩

theorem monitor_ends {b : Board} (hpc : b.pc = .cleaned) (hconn : b.host.connected = true)
    (hreq : b.host.doDisconnect = true) (hown : requested b.commands = false) (r : Readings) :
    ¬ EndsOnRequest b (.task r) := by
  intro h
  have hended : (proceed b r).1.host.connected = false := by
    simp only [proceed, hpc]
    exact (endSession_ends hconn hreq r).1
  exact absurd (hown.symm.trans (h hpc hconn hended)) Bool.false_ne_true

theorem stale_ends {b : Board} (hpc : b.pc = .monitored)
    (hwait : waitingCommand b.host = some cmdConnect) (hreq : b.host.doDisconnect = true)
    (r r' : Readings) :
    ¬ Along act EndsOnRequest b (.task r :: List.replicate 3 (.task r')) := by
  obtain ⟨hout, hconn, hstill, -, hcommands⟩ := connect_taken hpc hwait r
  rw [hreq] at hstill
  have hown : requested (proceed b r).1.commands = false := by
    rw [hcommands]
    exact not_requested_connect b.commands
  rintro ⟨-, hrest⟩
  simp only [act] at hrest
  generalize (proceed b r).1 = d at hout hconn hstill hown hrest
  obtain ⟨-, hsecond, hthird, -⟩ := hrest
  by_cases hexp : Expired d.host r'
  · -- the clean-up comes first and leaves the flags and the history alone
    have hflags := cleanUp_flags d.host
    simp only [act, proceed, hout, if_pos hexp] at hthird
    exact monitor_ends (b := ⟨(cleanUp d.host).1, .cleaned, d.commands⟩) rfl
      (hflags.connected.trans hconn) (hflags.doDisconnect.trans hstill) hown r' hthird
  · simp only [act, proceed, hout, if_neg hexp] at hsecond
    exact monitor_ends (b := ⟨d.host, .cleaned, d.commands⟩) rfl hconn hstill hown r' hsecond

/-- In every run in which no connect command is taken up while a disconnect request is pending,
sessions are ended by `monitor_task` on their own request only; where one is taken up, the next
call ends the session it begins. -/
theorem sessions_end_on_request (cores : UInt8 → Core) (canpt : Canpt) :
    (∀ run : List Action, Along act NoStaleRequest (start cores canpt) run →
      Along act EndsOnRequest (start cores canpt) run) ∧
    ∀ (b : Board) (r r' : Readings), ¬ NoStaleRequest b (.task r) →
      ¬ Along act EndsOnRequest b (.task r :: List.replicate 3 (.task r')) := by
  constructor
  · intro run hrun
    have hstart : OwnRequest (start cores canpt) := fun hconn => absurd hconn Bool.false_ne_true
    exact along_of_invariant (P := OwnRequest) (fun b a hb ha => act_ownRequest hb ha)
      (fun b a hb _ => hb.ends a) hstart hrun
  · intro b r r' hstale
    obtain ⟨hpc, hwait, hreq⟩ := not_not.mp hstale
    exact stale_ends hpc hwait hreq r r'

instance decidableEndsOnRequest (b : Board) : ∀ a, Decidable (EndsOnRequest b a)
  | .task r => inferInstanceAs (Decidable (b.pc = .cleaned → b.host.connected = true →
      (proceed b r).1.host.connected = false → requested b.commands = true))
  | .host _ => inferInstanceAs (Decidable True)
  | .core _ _ => inferInstanceAs (Decidable True)

instance decidableNoStaleRequest (b : Board) : ∀ a, Decidable (NoStaleRequest b a)
  | .task _ => inferInstanceAs (Decidable (¬ (b.pc = .monitored ∧
      waitingCommand b.host = some cmdConnect ∧ b.host.doDisconnect = true)))
  | .host _ => inferInstanceAs (Decidable True)
  | .core _ _ => inferInstanceAs (Decidable True)

section Samples

def idleCore (hostState : HostState) : Core :=
  ⟨hostState, 0, fun n =>
    configuredPipe (fun _ => 0) (if n = androidDataInPipe then 0x81 else 0x02)⟩

def bare : Board := start (fun _ => idleCore .unattached) ⟨fun _ => ⟨0, fun _ => 0⟩, Queue.blank⟩

def plugIn : List Action := [.host (.deviceAttached 0), .core 0 (idleCore .configured)]

def callAt (msTicks : UInt32) : List Action :=
  List.replicate 3 (.task ⟨msTicks, .ok, fun _ => .ok, Equiv.refl _⟩)

def packetAt (msTicks : UInt32) (packet : List UInt8) : List Action :=
  callAt msTicks ++ .host (.received packet) :: callAt msTicks

end Samples

theorem sessions_end_on_request_own :
    Along act EndsOnRequest bare
      (plugIn ++ packetAt 0 [cmdConnect] ++ packetAt 0 [cmdDisconnect] ++ callAt 0) :=
  (sessions_end_on_request _ _).1 _ (by decide +kernel)

/-- The request arrives while no session is open. -/
theorem stale_request_ends_session :
    ¬ Along act EndsOnRequest bare
      (plugIn ++ packetAt 0 [cmdDisconnect] ++ packetAt 0 [cmdConnect] ++ callAt 0) := by
  decide +kernel

def runsCleanUp (b : Board) : Action → Bool
  | .task _ => b.pc = .due
  | _ => false

/-- The clean-up does not run, and no subscription is cancelled, while a session is open. -/
def SparesSession (b : Board) (a : Action) : Prop :=
  b.host.connected = true → runsCleanUp b a = false ∧ (act b a).2.filterMap cancelled = []

def Pending (h : State) : Prop := 0 < h.scheduleDisconnect ∧ h.scheduleDisconnect < 0xFFFFFFFF

instance decidablePending (h : State) : Decidable (Pending h) :=
  inferInstanceAs (Decidable (_ ∧ _))

/-- No connect command is taken up while a clean-up is still to come. -/
def NoneToCome (b : Board) : Action → Prop
  | .task _ => ¬ (b.pc = .monitored ∧ waitingCommand b.host = some cmdConnect ∧ Pending b.host)
  | _ => True

def Undisturbed (b : Board) : Prop :=
  b.host.connected = true → ¬ Pending b.host ∧ b.pc ≠ .due

theorem pending_of_expired {h : State} {r : Readings} (hexp : Expired h r) : Pending h := by
  refine ⟨hexp.1, UInt32.lt_of_lt_of_le hexp.2 ?_⟩
  have hlt := r.msTicks.toNat_lt
  rw [UInt32.le_iff_toNat_le]
  simp only [UInt32.reduceToNat]
  omega

theorem Undisturbed.of_flags {b : Board} (hb : Undisturbed b) {h : State} {pc : Pc}
    {commands : List UInt8} (hpc : pc = .due → b.pc = .due)
    (hflags : h.connected = true → b.host.connected = true ∧
      h.scheduleDisconnect = b.host.scheduleDisconnect) : Undisturbed ⟨h, pc, commands⟩ := by
  intro hconn
  obtain ⟨hbefore, hsched⟩ := hflags hconn
  obtain ⟨hpending, hdue⟩ := hb hbefore
  refine ⟨?_, fun h => hdue (hpc h)⟩
  simp only [Pending, hsched]
  exact hpending

theorem receive_undisturbed {b : Board} (hb : Undisturbed b) (r : Readings)
    (hnone : ¬ (waitingCommand b.host = some cmdConnect ∧ Pending b.host))
    (commands : List UInt8) : Undisturbed ⟨(receive b.host r).1, .outside, commands⟩ := by
  have hflags := (receive_spec b.host r).1.flags
  have hsched : (receive b.host r).1.scheduleDisconnect = b.host.scheduleDisconnect :=
    hflags.scheduleDisconnect.trans (takenUp_other b.host).2
  by_cases hbefore : b.host.connected = true
  · exact hb.of_flags (fun h => by cases h) fun _ => ⟨hbefore, hsched⟩
  · intro hconn
    simp only [hflags.connected, takenUp] at hconn
    have hwait : waitingCommand b.host = some cmdConnect := by
      cases hw : waitingCommand b.host with
      | none =>
        simp only [hw, Option.map_none, Option.getD_none] at hconn
        exact absurd hconn hbefore
      | some c =>
        simp only [hw, Option.map_some, Option.getD_some, commanded] at hconn
        split_ifs at hconn with hc
        · rw [hc]
        · exact absurd hconn hbefore
        · exact absurd hconn hbefore
    refine ⟨?_, fun h => by cases h⟩
    simp only [Pending, hsched]
    exact fun hpending => hnone ⟨hwait, hpending⟩

theorem proceed_undisturbed {b : Board} (hb : Undisturbed b) (r : Readings)
    (hnone : NoneToCome b (.task r)) : Undisturbed (proceed b r).1 := by
  cases hpc : b.pc with
  | outside =>
    simp only [proceed, hpc]
    split_ifs with hexp
    · exact fun hconn => absurd (pending_of_expired hexp) (hb hconn).1
    · exact hb.of_flags (fun h => by cases h) fun hconn => ⟨hconn, rfl⟩
  | due =>
    simp only [proceed, hpc]
    intro hconn
    exact absurd hpc (hb ((cleanUp_flags b.host).connected.symm.trans hconn)).2
  | cleaned =>
    simp only [proceed, hpc]
    refine hb.of_flags (fun h => by cases h) fun hconn => ?_
    by_cases hends : b.host.connected = true ∧ b.host.doDisconnect = true
    · rw [(endSession_ends hends.1 hends.2 r).1] at hconn
      exact absurd hconn Bool.false_ne_true
    · rw [endSession_idle hends] at hconn ⊢
      exact ⟨hconn, rfl⟩
  | monitored =>
    simp only [proceed, hpc]
    exact receive_undisturbed hb r (fun h => hnone ⟨hpc, h⟩) _

theorem act_undisturbed {b : Board} (hb : Undisturbed b) {a : Action} (ha : NoneToCome b a) :
    Undisturbed (act b a).1 := by
  cases a with
  | task r => exact proceed_undisturbed hb r ha
  | host e =>
    simp only [act]
    split_ifs with he
    · refine hb.of_flags id fun hconn => ?_
      have hflags := (event_flags b.host he).2 hconn
      exact ⟨hflags.connected.symm.trans hconn, hflags.scheduleDisconnect⟩
    · exact hb
  | core corenum c => exact hb.of_flags id fun hconn => ⟨hconn, rfl⟩

theorem proceed_cancels_nothing {b : Board} (hpc : b.pc ≠ .due) (r : Readings) :
    (proceed b r).2.filterMap cancelled = [] := by
  cases h : b.pc with
  | outside => simp only [proceed, h, List.filterMap_nil]
  | due => exact absurd h hpc
  | cleaned =>
    simp only [proceed, h]
    by_cases hends : b.host.connected = true ∧ b.host.doDisconnect = true
    · exact (endSession_ends hends.1 hends.2 r).2.2.2.2
    · rw [endSession_idle hends]
      rfl
  | monitored =>
    simp only [proceed, h]
    exact (receive_spec b.host r).1.outs

theorem Undisturbed.spares {b : Board} (hb : Undisturbed b) (a : Action) : SparesSession b a := by
  intro hconn
  have hdue := (hb hconn).2
  cases a with
  | task r => exact ⟨by simpa [runsCleanUp] using hdue, proceed_cancels_nothing hdue r⟩
  | host e =>
    simp only [act]
    split_ifs with he
    · exact ⟨rfl, (event_flags b.host he).1⟩
    · exact ⟨rfl, rfl⟩
  | core corenum c => exact ⟨rfl, rfl⟩

theorem clean_up_strikes {b : Board} (hpc : b.pc = .monitored)
    (hwait : waitingCommand b.host = some cmdConnect) (hpending : 0 < b.host.scheduleDisconnect)
    (r : Readings) {r' : Readings} (hlate : b.host.scheduleDisconnect < r'.msTicks) :
    ¬ Along act SparesSession b (.task r :: List.replicate 2 (.task r')) := by
  obtain ⟨hout, hconn, -, hsched, -⟩ := connect_taken hpc hwait r
  rintro ⟨-, hrest⟩
  simp only [act] at hrest
  generalize (proceed b r).1 = d at hout hconn hsched hrest
  obtain ⟨-, hsecond, -⟩ := hrest
  have hexp : Expired d.host r' := by
    rw [Expired, hsched]
    exact ⟨hpending, hlate⟩
  simp only [act, proceed, hout, if_pos hexp] at hsecond
  exact absurd (hsecond hconn).1 (by simp [runsCleanUp])

/-- In every run in which no connect command is taken up while a clean-up is still to come, the
clean-up never runs in a session; where one is taken up, the clean-up runs in that session as
soon as a call reads a clock value beyond the scheduled time. -/
theorem clean_up_spares_session (cores : UInt8 → Core) (canpt : Canpt) :
    (∀ run : List Action, Along act NoneToCome (start cores canpt) run →
      Along act SparesSession (start cores canpt) run) ∧
    ∀ (b : Board) (r : Readings), ¬ NoneToCome b (.task r) →
      (∃ r' : Readings, b.host.scheduleDisconnect < r'.msTicks) ∧
      ∀ r' : Readings, b.host.scheduleDisconnect < r'.msTicks →
        ¬ Along act SparesSession b (.task r :: List.replicate 2 (.task r')) := by
  constructor
  · intro run hrun
    have hstart : Undisturbed (start cores canpt) := fun hconn => absurd hconn Bool.false_ne_true
    exact along_of_invariant (P := Undisturbed) (fun b a hb ha => act_undisturbed hb ha)
      (fun b a hb _ => hb.spares a) hstart hrun
  · intro b r hcome
    obtain ⟨hpc, hwait, hpending, hmax⟩ := not_not.mp hcome
    exact ⟨⟨{ r with msTicks := 0xFFFFFFFF }, hmax⟩,
      fun r' hlate => clean_up_strikes hpc hwait hpending r hlate⟩

instance decidableSparesSession (b : Board) (a : Action) : Decidable (SparesSession b a) :=
  have := decEq ((act b a).2.filterMap cancelled) []
  inferInstanceAs (Decidable (_ → _))

instance decidableNoneToCome (b : Board) : ∀ a, Decidable (NoneToCome b a)
  | .task _ => inferInstanceAs (Decidable (¬ (b.pc = .monitored ∧
      waitingCommand b.host = some cmdConnect ∧ Pending b.host)))
  | .host _ => inferInstanceAs (Decidable True)
  | .core _ _ => inferInstanceAs (Decidable True)

def replug : List Action := .host (.deviceUnattached 0) :: plugIn

theorem clean_up_spares_session_late :
    Along act SparesSession bare
      (plugIn ++ packetAt 0 [cmdConnect] ++ replug ++ callAt 1001 ++
        .task ⟨1001, .ok, fun _ => .ok, Equiv.refl _⟩ :: packetAt 1500 [cmdConnect]) :=
  (clean_up_spares_session _ _).1 _ (by decide +kernel)

/-- The device returns within the second and begins a session, which the clean-up then hits. -/
theorem clean_up_hits_session :
    ¬ Along act SparesSession bare (plugIn ++ packetAt 0 [cmdConnect] ++ replug ++
      packetAt 500 [cmdConnect] ++ .host (.subStarted 5 1) :: callAt 1001) := by
  decide +kernel

end AoaBoard.Host.Sessions
