import AoaBoard.Library.Slots
import AoaBoard.Host.Monitor
import Mathlib.Data.Finset.Card
import Mathlib.Data.Finset.Prod

/-!
# The subscriptions of the host

`running` lists the entries of `subs`. `live` is what it should list: the pairs
that have been started since the last clean-up and whose node has not detached
since. `subStarted` takes the first free entry without looking for the pair, and
the detachment of a node frees the entries of all nodes.
-/

namespace AoaBoard.Host.Subscriptions
open Library Library.Run Library.Slots Can Usb

def entry (s : Subscription) : Option (UInt8 × UInt8) :=
  if s.reqId = 0 then none else some (s.reqId, s.subId)

def table (h : State) (i : Fin maxNumSubscriptions) : Option (UInt8 × UInt8) := entry (h.subs i)

def running (h : State) : List (UInt8 × UInt8) := entries (table h)

structure Tabled where
  host : State
  live : Finset (UInt8 × UInt8)

def liveAfter (t : Tabled) : Event → Finset (UInt8 × UInt8)
  | .subStarted reqId subId => insert (reqId, subId) t.live
  | .nodeDetached reqId _ => t.live.filter fun p => p.1 ≠ reqId
  | .task r => if Expired t.host r then ∅ else t.live
  | _ => t.live

def tabledStep (t : Tabled) (e : Event) : Tabled × List Out :=
  (⟨(step t.host e).1, liveAfter t e⟩, (step t.host e).2)

/-- Each live pair has one entry, there is no other entry, and a clean-up would cancel these. -/
structure Exact (t : Tabled) : Prop where
  nodup : (running t.host).Nodup
  mem : ∀ p, p ∈ running t.host ↔ p ∈ t.live
  cancels : (handleDeviceDisconnected t.host).2.filterMap cancelled = running t.host

def reported (t : Tabled) : Event → Bool
  | .subStarted reqId _ => reqId ≠ 0
  | .nodeDetached _ _ => t.host.connected
  | _ => true

/-- A subscription names a node, a detached node is reported in a session, and the live pairs
fit into the table. -/
def Allowed (t : Tabled) (e : Event) : Prop :=
  reported t e = true ∧ (liveAfter t e).card ≤ maxNumSubscriptions

instance decidableAllowed (t : Tabled) (e : Event) : Decidable (Allowed t e) :=
  inferInstanceAs (Decidable (_ ∧ _))

/-- A started pair is not live, unless the table is full, and a detached node owns every live
pair. -/
def Separate (t : Tabled) : Event → Prop
  | .subStarted reqId subId => (reqId, subId) ∉ t.live ∨ maxNumSubscriptions ≤ t.live.card
  | .nodeDetached reqId _ => ∀ p ∈ t.live, p.1 = reqId
  | _ => True

theorem running_congr {h h' : State} (hsubs : h'.subs = h.subs) : running h' = running h := by
  have htable : table h' = table h := by
    funext i
    rw [table, table, hsubs]
  rw [running, running, htable]

theorem table_cancel (h : State) (i : Fin maxNumSubscriptions) :
    table (cancelSubscription h i).1 = Function.update (table h) i none := by
  funext j
  by_cases hid : (h.subs i).reqId = 0
  · have hnone : table h i = none := by simp [table, entry, hid]
    rw [← hnone, Function.update_eq_self]
    simp [cancelSubscription, hid]
  · by_cases hj : j = i
    · subst hj
      simp [cancelSubscription, hid, table, entry]
    · simp [cancelSubscription, hid, table, hj]

theorem cancel_outputs (h : State) (i : Fin maxNumSubscriptions) :
    (cancelSubscription h i).2.filterMap cancelled = (table h i).toList := by
  by_cases hid : (h.subs i).reqId = 0
  · simp [cancelSubscription, table, entry, hid]
  · simp [cancelSubscription, table, entry, hid, cancelled]

theorem cancel_run {is : List (Fin maxNumSubscriptions)} (hnodup : is.Nodup) (h : State) :
    (outputs cancelSubscription h is).filterMap cancelled = is.filterMap (table h) ∧
      ∀ i, table (after cancelSubscription h is) i = if i ∈ is then none else table h i := by
  induction is generalizing h with
  | nil => exact ⟨rfl, fun i => by simp⟩
  | cons i is ih =>
    obtain ⟨hi, hrest⟩ := List.nodup_cons.mp hnodup
    obtain ⟨houts, hafter⟩ := ih hrest (cancelSubscription h i).1
    rw [table_cancel] at houts hafter
    constructor
    · rw [outputs_cons, List.filterMap_append, cancel_outputs, houts, filterMap_update_of_notMem hi,
        List.filterMap_cons]
      cases table h i <;> rfl
    · intro j
      rw [after_cons, hafter]
      by_cases hj : j = i
      · simp [hj, hi]
      · simp [hj]

theorem cleanUp_cancels (h : State) :
    (handleDeviceDisconnected h).2.filterMap cancelled = running h :=
  (cancel_run (List.nodup_finRange maxNumSubscriptions) h).1

theorem cleanUp_empties (h : State) : running (handleDeviceDisconnected h).1 = [] := by
  apply entries_of_empty
  intro i
  rw [handleDeviceDisconnected, (cancel_run (List.nodup_finRange maxNumSubscriptions) h).2 i,
    if_pos (List.mem_finRange i)]

theorem table_update (h : State) (i : Fin maxNumSubscriptions) (s : Subscription) :
    table { h with subs := Function.update h.subs i s } =
      Function.update (table h) i (entry s) := by
  funext j
  by_cases hj : j = i
  · subst hj
    simp [table]
  · simp [table, hj]

theorem entry_eq_none_iff (s : Subscription) : entry s = none ↔ s.reqId = 0 := by
  simp [entry]

theorem subStarted_cases (h : State) {reqId : UInt8} (hid : reqId ≠ 0) (subId : UInt8) :
    (running h).length < maxNumSubscriptions ∧
        (running (subStarted h reqId subId)).Perm ((reqId, subId) :: running h) ∨
      (running h).length = maxNumSubscriptions ∧ subStarted h reqId subId = h := by
  simp only [subStarted]
  cases hfind : (List.finRange maxNumSubscriptions).find? fun i => (h.subs i).reqId = 0 with
  | some i =>
    have hfree : table h i = none :=
      (entry_eq_none_iff _).mpr (by simpa using List.find?_some hfind)
    have hentry : entry ⟨reqId, subId⟩ = some (reqId, subId) := by simp [entry, hid]
    refine Or.inl ⟨entries_length_lt hfree (reqId, subId), ?_⟩
    rw [running, table_update, hentry]
    exact entries_fill hfree (reqId, subId)
  | none =>
    refine Or.inr ⟨entries_length_full fun i hnone => ?_, rfl⟩
    have htaken := List.find?_eq_none.mp hfind i (List.mem_finRange i)
    exact absurd ((entry_eq_none_iff _).mp hnone) (by simpa using htaken)

theorem nodeDetached_empties {h : State} (hconn : h.connected = true) (reqId : UInt8)
    (done : HcdStatus) : running (nodeDetached h reqId done).1 = [] := by
  rw [nodeDetached, if_pos hconn, handleNodeDetached, sendNodeDetached]
  have hsubs := (sendCommand_keeps
    { h with subs := fun i => if (h.subs i).reqId ≠ 0 then ⟨0, 0⟩ else h.subs i }
    h.attachedCoreNum cmdNodeRemove [reqId] done).subs
  apply entries_of_empty
  intro i
  rw [table, hsubs, entry_eq_none_iff]
  simp only
  split_ifs with hid
  · rfl
  · exact not_not.mp hid

theorem task_running (h : State) (r : Readings) :
    running (androidHostTask h r).1 = if Expired h r then [] else running h := by
  have hreceive := (receive_spec (monitorTask h r).1 r).1.subs
  have htaken := (takenUp_other (monitorTask h r).1).1
  rw [androidHostTask_eq_receive, running_congr (hreceive.trans htaken), monitorTask_eq]
  simp only
  rw [running_congr (endSession_subs _ r)]
  split_ifs
  · exact cleanUp_empties { h with scheduleDisconnect := 0 }
  · rfl

theorem Exact.length_eq {t : Tabled} (ht : Exact t) : (running t.host).length = t.live.card := by
  have hlive : (running t.host).toFinset = t.live := by
    ext p
    rw [List.mem_toFinset, ht.mem]
  rw [← hlive, List.toFinset_card_of_nodup ht.nodup]

theorem exact_iff {h : State} {live : Finset (UInt8 × UInt8)} :
    Exact ⟨h, live⟩ ↔ (running h).Nodup ∧ ∀ p, p ∈ running h ↔ p ∈ live :=
  ⟨fun h => ⟨h.nodup, h.mem⟩, fun h => ⟨h.1, h.2, cleanUp_cancels _⟩⟩

theorem exact_empty {h : State} (hempty : running h = []) (live : Finset (UInt8 × UInt8)) :
    Exact ⟨h, live⟩ ↔ live = ∅ := by
  rw [exact_iff, hempty, Finset.eq_empty_iff_forall_notMem]
  simp

theorem exact_kept {t : Tabled} (ht : Exact t) {h : State} (hkept : running h = running t.host) :
    Exact ⟨h, t.live⟩ :=
  exact_iff.mpr ⟨hkept ▸ ht.nodup, fun p => hkept ▸ ht.mem p⟩

theorem subStarted_exact_iff {t : Tabled} (ht : Exact t) {reqId subId : UInt8} (hid : reqId ≠ 0)
    (hfits : (insert (reqId, subId) t.live).card ≤ maxNumSubscriptions) :
    Exact ⟨subStarted t.host reqId subId, insert (reqId, subId) t.live⟩ ↔
      (reqId, subId) ∉ t.live ∨ maxNumSubscriptions ≤ t.live.card := by
  have hlen := ht.length_eq
  by_cases hlive : (reqId, subId) ∈ t.live
  · simp only [hlive, not_true_eq_false, false_or]
    rw [Finset.insert_eq_of_mem hlive]
    rcases subStarted_cases t.host hid subId with ⟨hroom, hperm⟩ | ⟨hfull, heq⟩
    · refine iff_of_false (fun h => ?_) (by omega)
      have hnodup : ((reqId, subId) :: running t.host).Nodup := hperm.nodup_iff.mp h.nodup
      exact (List.nodup_cons.mp hnodup).1 ((ht.mem _).mpr hlive)
    · rw [heq]
      exact iff_of_true ht (by omega)
  · rw [Finset.card_insert_of_notMem hlive] at hfits
    simp only [hlive, not_false_iff, true_or, iff_true]
    rcases subStarted_cases t.host hid subId with ⟨-, hperm⟩ | ⟨hfull, -⟩
    · refine exact_iff.mpr ⟨?_, fun p => ?_⟩
      · rw [hperm.nodup_iff, List.nodup_cons, ht.mem]
        exact ⟨hlive, ht.nodup⟩
      · rw [hperm.mem_iff, List.mem_cons, Finset.mem_insert, ht.mem]
    · omega

theorem step_exact_iff {t : Tabled} (ht : Exact t) {e : Event} (he : Allowed t e) :
    Exact (tabledStep t e).1 ↔ Separate t e := by
  have hother {h : State} (hsubs : h.subs = t.host.subs) : Exact ⟨h, t.live⟩ ↔ True :=
    iff_of_true (exact_kept ht (running_congr hsubs)) trivial
  cases e with
  | received packet => exact hother rfl
  | sent done => exact hother rfl
  | registry nodes => exact hother rfl
  | nodeAttached reqId done =>
    apply hother
    simp only [step, nodeAttached]
    split_ifs
    · exact (handleNodeAttached_keeps t.host t.host.attachedCoreNum reqId done).subs
    · rfl
  | nodeDetached reqId done =>
    have hempty := exact_empty (nodeDetached_empties he.1 reqId done)
      (t.live.filter fun p => p.1 ≠ reqId)
    rw [Finset.filter_eq_empty_iff] at hempty
    simp only [ne_eq, not_not] at hempty
    exact hempty
  | valueUpdate reqId periphId buf len done =>
    apply hother
    simp only [step, valueUpdate]
    split_ifs
    · exact (sendCommand_keeps t.host _ _ _ done).subs
    · exact (sendCommand_keeps t.host _ _ _ done).subs
    · rfl
  | subStarted reqId subId => exact subStarted_exact_iff ht (by simpa [reported] using he.1) he.2
  | deviceAttached corenum => exact hother rfl
  | deviceUnattached msTicks => exact hother rfl
  | task r =>
    refine iff_of_true ?_ trivial
    have hrun := task_running t.host r
    simp only [tabledStep, step, liveAfter]
    split_ifs at hrun ⊢
    · exact (exact_empty hrun ∅).mpr rfl
    · exact exact_kept ht hrun

theorem init_exact (h : State) : Exact ⟨androidHostInit h, ∅⟩ :=
  (exact_empty (entries_of_empty fun _ => (entry_eq_none_iff _).mpr rfl) ∅).mpr rfl

/-- The table of subscriptions is exact in every state of a run if and only if no pair is
started that is live already, as long as there is a free entry, and no node detaches while
another one has a live subscription. -/
theorem subscriptions_exact_iff (h : State) (es : List Event)
    (hes : Along tabledStep Allowed ⟨androidHostInit h, ∅⟩ es) :
    (∀ pre, pre <+: es → Exact (after tabledStep ⟨androidHostInit h, ∅⟩ pre)) ↔
      Along tabledStep Separate ⟨androidHostInit h, ∅⟩ es :=
  reached_iff_along_of (I := fun _ => True) (P := Exact) (fun _ _ _ _ _ _ => trivial)
    (fun _ _ _ ht he => step_exact_iff ht he) trivial (init_exact h) hes

def inSession : State :=
  { powerUp (fun _ => ⟨.unattached, 0, fun _ => configuredPipe (fun _ => 0) 0⟩)
      ⟨fun _ => ⟨0, fun _ => 0⟩, Queue.blank⟩ with connected := true }

def detachFive (first second : UInt8 × UInt8) : List Event :=
  [.subStarted first.1 first.2, .subStarted second.1 second.2, .nodeDetached 5 .ok]

theorem subscriptions_exact_one_node :
    Exact (after tabledStep ⟨androidHostInit inSession, ∅⟩ (detachFive (5, 1) (5, 2))) := by
  have hexact := subscriptions_exact_iff inSession (detachFive (5, 1) (5, 2)) (by decide +kernel)
  refine hexact.mpr ⟨Or.inl ?_, Or.inl ?_, ?_, trivial⟩ _ (List.prefix_refl _)
  · decide
  · decide
  · change ∀ p ∈ ({(5, 2), (5, 1)} : Finset (UInt8 × UInt8)), p.1 = 5
    simp

theorem detached_node_clears_others :
    Along tabledStep Allowed ⟨androidHostInit inSession, ∅⟩ (detachFive (5, 1) (6, 1)) ∧
      ¬ Exact (after tabledStep ⟨androidHostInit inSession, ∅⟩ (detachFive (5, 1) (6, 1))) := by
  refine ⟨by decide +kernel, fun h => ?_⟩
  have hlive : ((6, 1) : UInt8 × UInt8) ∈ (after tabledStep ⟨androidHostInit inSession, ∅⟩
      (detachFive (5, 1) (6, 1))).live := by decide +kernel
  exact absurd ((h.mem _).mpr hlive) (by decide +kernel)

end AoaBoard.Host.Subscriptions
