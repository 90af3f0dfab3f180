import AoaBoard.Library.Bytes
import AoaBoard.Rf.Triggers

/-!
# What a notification carries

`rf_task` samples the peripheral to decide the trigger, and `sendTemperature`
and `sendBtn` sample it again for the message. `sendBtn` keeps the bit of `SW2`
only, while the trigger is decided on both buttons. A message carries the value
on which its trigger was decided if and only if the second sample, as sent, is
the first one; the thresholds then hold of the values carried as well.
-/

namespace AoaBoard.Rf
open Library Library.Bytes Library.Run

def carried : Out → ℕ
  | .send _ data => data.tail.foldl (fun n b => 256 * n + b.toNat) 0
  | _ => 0

/-- Each message that `rf_task` sends for entry `i`: the reading on which its trigger was
decided, and the value it carries. -/
def notices (i : Fin maxSubs) (s : RfState) (e : Input) : RfState × List (ℕ × ℕ) :=
  ((step s e).1,
    match e with
    | .task r => (sentFor (subId i) (rfTask s r).2).map fun o =>
      ((reading r i (s.subscribers i)).toNat, carried o)
    | .frame _ _ _ _ _ _ => [])

/-- The trigger of entry `i` fires and what is sent is not what decided it. -/
def Torn (i : Fin maxSubs) (s : RfState) : Input → Prop
  | .task r =>
    let sub := s.subscribers i
    Reads s ∧ InUse sub.addr ∧ (trigger sub.act sub.last sub.value (reading r i sub)).1 ∧
      ((sub.periphId = msgDevTemp ∧ r.sent i ≠ r.sample i) ∨
        (sub.periphId = msgDevBtn ∧ btnGet (r.sentPort i) &&& btnSw2 ≠ btnGet (r.port i)))
  | .frame _ _ _ _ _ _ => False

instance decidableTorn (i : Fin maxSubs) (s : RfState) : ∀ e, Decidable (Torn i s e)
  | .task _ => inferInstanceAs (Decidable (_ ∧ _ ∧ _ ∧ (_ ∧ _ ∨ _ ∧ _)))
  | .frame _ _ _ _ _ _ => inferInstanceAs (Decidable False)

structure Genuine (i : Fin maxSubs) (s : RfState) (es : List Input) : Prop where
  decided : ∀ n ∈ outputs (notices i) s es, n.2 = n.1
  gte : (s.subscribers i).act = msgSubGte → ∀ n ∈ outputs (notices i) s es,
    (s.subscribers i).threshold ≤ n.2
  lte : (s.subscribers i).act = msgSubLte → ∀ n ∈ outputs (notices i) s es,
    (n.2 : ℤ) ≤ (s.subscribers i).threshold
  dif : (s.subscribers i).act = msgSubDif →
    ((outputs (notices i) s es).map Prod.snd).IsChain (· ≠ ·)

theorem carried_sendTemperature (dst : Addr) (v : UInt16) :
    carried (sendTemperature dst v) = v.toNat := by
  have hbytes := word16_bytes v
  simpa [carried, sendTemperature] using hbytes

theorem carried_sendBtn (dst : Addr) (port : UInt32) :
    carried (sendBtn dst port) = (btnGet port &&& btnSw2).toNat := by
  simp [carried, sendBtn]

theorem reading_temp {r : Readings} {i : Fin maxSubs} {sub : Sub}
    (h : sub.periphId = msgDevTemp) : (reading r i sub).toNat = (r.sample i).toNat := by
  rw [reading, readPeripheral, if_pos h, UInt16.toNat_toUInt32]

theorem reading_btn {r : Readings} {i : Fin maxSubs} {sub : Sub}
    (h : sub.periphId = msgDevBtn) : (reading r i sub).toNat = (btnGet (r.port i)).toNat := by
  rw [reading, readPeripheral, h, if_neg (by decide), if_pos rfl, UInt8.toNat_toUInt32]

def sentValue (r : Readings) (i : Fin maxSubs) (sub : Sub) : ℕ :=
  if sub.periphId = msgDevTemp then (r.sent i).toNat else (btnGet (r.sentPort i) &&& btnSw2).toNat

theorem notify_carried {sub : Sub} (hknown : Known sub) (huse : InUse sub.addr) (r : Readings)
    (i : Fin maxSubs) : ∃ o, notify r i sub = [o] ∧ carried o = sentValue r i sub := by
  rw [notify, sentValue]
  rcases (hknown huse).1 with hp | hp
  · rw [if_pos hp, if_pos hp]
    exact ⟨_, rfl, carried_sendTemperature _ _⟩
  · rw [hp, if_neg (by decide), if_pos rfl, if_neg (by decide)]
    exact ⟨_, rfl, carried_sendBtn _ _⟩

theorem sentValue_eq_iff {sub : Sub} (hknown : Known sub) (huse : InUse sub.addr) (r : Readings)
    (i : Fin maxSubs) : sentValue r i sub = (reading r i sub).toNat ↔
      ¬ ((sub.periphId = msgDevTemp ∧ r.sent i ≠ r.sample i) ∨
        (sub.periphId = msgDevBtn ∧ btnGet (r.sentPort i) &&& btnSw2 ≠ btnGet (r.port i))) := by
  have hdistinct : msgDevTemp ≠ msgDevBtn := by decide
  rcases (hknown huse).1 with hp | hp
  · rw [reading_temp hp, sentValue, if_pos hp, hp, UInt16.toNat_inj]
    simp [hdistinct]
  · rw [reading_btn hp, sentValue, hp, if_neg hdistinct.symm, UInt8.toNat_inj]
    simp [hdistinct.symm]

theorem notices_task {s : RfState} (hdev : s.isCoordinator = false) {i : Fin maxSubs}
    (hknown : Known (s.subscribers i)) (r : Readings) :
    let sub := s.subscribers i
    (notices i s (.task r)).2 =
      if Reads s ∧ InUse sub.addr ∧ (trigger sub.act sub.last sub.value (reading r i sub)).1 then
        [((reading r i sub).toNat, sentValue r i sub)]
      else [] := by
  intro sub
  simp only [notices]
  by_cases hreads : Reads s
  · rw [(rfTask_entry hreads r hknown).2, messages]
    by_cases hfires : InUse sub.addr ∧ (trigger sub.act sub.last sub.value (reading r i sub)).1
    · obtain ⟨o, ho, hcarried⟩ := notify_carried hknown hfires.1 r i
      rw [if_pos hfires, if_pos ⟨hreads, hfires⟩, ho, List.map_singleton, hcarried]
    · rw [if_neg hfires, if_neg fun h => hfires h.2, List.map_nil]
  · rw [rfTask_idle hdev hreads, if_neg fun h => hreads h.1]
    rfl

structure Held (i : Fin maxSubs) (x : Sub) (s : RfState) : Prop where
  device : s.isCoordinator = false
  known : Known (s.subscribers i)
  taken : (s.subscribers i).addr ≠ noAddr
  same : ∃ last, s.subscribers i = { x with last := last }

section Run
variable {i : Fin maxSubs} {x : Sub} {s : RfState}

theorem Held.next (h : Held i x s) {e : Input} (hstays : Stays i s e) :
    Held i x (notices i s e).1 := by
  refine ⟨(step_isCoordinator s e).trans h.device, step_known h.device h.known e, hstays, ?_⟩
  obtain ⟨last, hlast⟩ := h.same
  cases e with
  | task r =>
    obtain ⟨last', hnext⟩ := (rfTask_sameSubs s r).entry i
    exact ⟨last', by simp only [notices, step, hnext, hlast]⟩
  | frame src buf len now trimpot port =>
    exact ⟨last, (frame_keeps_entry (by simp [source]) h.taken hstays).trans hlast⟩

theorem Held.act (h : Held i x s) : (s.subscribers i).act = x.act := by
  obtain ⟨last, hlast⟩ := h.same
  rw [hlast]

theorem Held.threshold (h : Held i x s) : (s.subscribers i).threshold = x.threshold := by
  obtain ⟨last, hlast⟩ := h.same
  rw [hlast]
  rfl

theorem Held.decided_iff (h : Held i x s) (e : Input) :
    (∀ n ∈ (notices i s e).2, n.2 = n.1) ↔ ¬ Torn i s e := by
  cases e with
  | frame src buf len now trimpot port => exact iff_of_true (by simp [notices]) fun hfalse => hfalse
  | task r =>
    rw [notices_task h.device h.known]
    simp only [Torn]
    by_cases hfires : Reads s ∧ InUse (s.subscribers i).addr ∧
        (trigger (s.subscribers i).act (s.subscribers i).last (s.subscribers i).value
          (reading r i (s.subscribers i))).1
    · rw [if_pos hfires, List.forall_mem_singleton, sentValue_eq_iff h.known hfires.2.1]
      simp only [hfires, true_and]
    · rw [if_neg hfires]
      exact iff_of_true (by simp) fun htorn => hfires ⟨htorn.1, htorn.2.1, htorn.2.2.1⟩

theorem Held.notice (h : Held i x s) {e : Input} (htorn : ¬ Torn i s e) {n : ℕ × ℕ}
    (hn : n ∈ (notices i s e).2) :
    n.2 = n.1 ∧ ∃ r, e = .task r ∧ n.1 = (reading r i (s.subscribers i)).toNat ∧ Reads s ∧
      InUse (s.subscribers i).addr ∧
      (trigger x.act (s.subscribers i).last (s.subscribers i).value
        (reading r i (s.subscribers i))).1 := by
  refine ⟨(h.decided_iff e).mpr htorn n hn, ?_⟩
  cases e with
  | frame src buf len now trimpot port => simp [notices] at hn
  | task r =>
    rw [notices_task h.device h.known] at hn
    split_ifs at hn with hfires
    · obtain ⟨hreads, huse, htrigger⟩ := hfires
      rw [h.act] at htrigger
      exact ⟨r, rfl, by rw [List.mem_singleton.mp hn], hreads, huse, htrigger⟩
    · simp at hn

theorem Held.gte (h : Held i x s) (hact : x.act = msgSubGte) {e : Input} (htorn : ¬ Torn i s e) :
    ∀ n ∈ (notices i s e).2, x.threshold ≤ n.2 := by
  intro n hn
  obtain ⟨hsent, r, -, hread, -, -, htrigger⟩ := h.notice htorn hn
  rw [hact, trigger, if_pos rfl, decide_eq_true_iff, UInt32.le_iff_toNat_le] at htrigger
  rw [hsent, hread, ← h.threshold]
  rcases (s.subscribers i).threshold_cases with ⟨hpos, hv⟩ | ⟨hneg, hv⟩ <;> omega

theorem Held.lte (h : Held i x s) (hact : x.act = msgSubLte) {e : Input} (htorn : ¬ Torn i s e) :
    ∀ n ∈ (notices i s e).2, (n.2 : ℤ) ≤ x.threshold := by
  intro n hn
  obtain ⟨hsent, r, -, hread, -, huse, htrigger⟩ := h.notice htorn hn
  have hsmall := (h.known huse).2
  rw [hact, trigger, if_neg (by decide), if_pos rfl, decide_eq_true_iff, UInt32.le_iff_toNat_le,
    UInt32.lt_iff_toNat_lt] at htrigger
  rw [hsent, hread, ← h.threshold]
  rcases (s.subscribers i).threshold_cases with ⟨hpos, hv⟩ | ⟨hneg, hv⟩ <;> omega

theorem Held.last_task (h : Held i x s) (r : Readings) :
    ((notices i s (.task r)).1.subscribers i).last =
      if Reads s ∧ InUse (s.subscribers i).addr then
        (trigger (s.subscribers i).act (s.subscribers i).last (s.subscribers i).value
          (reading r i (s.subscribers i))).2
      else (s.subscribers i).last := by
  simp only [notices, step]
  by_cases hreads : Reads s
  · rw [(rfTask_entry hreads r h.known).1, ticked]
    simp only [hreads, true_and]
    split_ifs <;> rfl
  · rw [rfTask_idle h.device hreads, if_neg fun hr => hreads hr.1]

theorem Held.dif (h : Held i x s) (hact : x.act = msgSubDif) {e : Input} (hstays : Stays i s e)
    (htorn : ¬ Torn i s e) :
    ((notices i s e).2 = [] ∧ ((notices i s e).1.subscribers i).last = (s.subscribers i).last) ∨
      ∃ n : ℕ × ℕ, (notices i s e).2 = [n] ∧ (s.subscribers i).last.toNat ≠ n.2 ∧
        ((notices i s e).1.subscribers i).last.toNat = n.2 := by
  cases e with
  | frame src buf len now trimpot port =>
    have hsame := frame_keeps_entry (by simp [source]) h.taken hstays
    exact Or.inl ⟨rfl, congrArg Sub.last hsame⟩
  | task r =>
    have hdecided := (h.decided_iff (.task r)).mpr htorn
    rw [notices_task h.device h.known] at hdecided
    rw [notices_task h.device h.known, h.last_task]
    by_cases hruns : Reads s ∧ InUse (s.subscribers i).addr
    · rw [h.act, hact, trigger_dif] at hdecided ⊢
      by_cases hcode : ((s.subscribers i).value.toNat : ℤ) <
          |((reading r i (s.subscribers i)).toNat : ℤ) - (s.subscribers i).last.toNat|
      · rw [if_pos hcode, if_pos ⟨hruns.1, hruns.2, rfl⟩] at hdecided
        rw [if_pos hcode, if_pos ⟨hruns.1, hruns.2, rfl⟩, if_pos hruns]
        have hsent : sentValue r i (s.subscribers i) = (reading r i (s.subscribers i)).toNat :=
          hdecided _ List.mem_cons_self
        have hne : (s.subscribers i).last.toNat ≠ sentValue r i (s.subscribers i) := by
          intro heq
          rw [← hsent, ← heq, sub_self, abs_zero] at hcode
          omega
        exact Or.inr ⟨_, rfl, hne, hsent.symm⟩
      · rw [if_neg hcode, if_neg (by simp), if_pos hruns]
        exact Or.inl ⟨rfl, rfl⟩
    · rw [if_neg fun hf => hruns ⟨hf.1, hf.2.1⟩, if_neg hruns]
      exact Or.inl ⟨rfl, rfl⟩

theorem Held.chain (h : Held i x s) (hact : x.act = msgSubDif) {es : List Input}
    (hstays : Along (notices i) (Stays i) s es)
    (hclear : Along (notices i) (fun t e => ¬ Torn i t e) s es) :
    ((s.subscribers i).last.toNat :: (outputs (notices i) s es).map Prod.snd).IsChain (· ≠ ·) := by
  induction es generalizing s with
  | nil => exact .singleton _
  | cons e es ih =>
    have hrest := ih (h.next hstays.1) hstays.2 hclear.2
    rw [outputs_cons]
    rcases h.dif hact hstays.1 hclear.1 with ⟨hnone, hlast⟩ | ⟨n, hone, hne, hlast⟩
    · rw [hnone, List.nil_append, ← hlast]
      exact hrest
    · rw [hone, List.singleton_append, List.map_cons]
      refine List.isChain_cons_cons.mpr ⟨hne, ?_⟩
      rw [← hlast]
      exact hrest

end Run

theorem along_notices_iff (i : Fin maxSubs) {C : RfState → Input → Prop} (s : RfState)
    (es : List Input) : Along (notices i) C s es ↔ Along step C s es := by
  have hstep (t : RfState) (e : Input) : (notices i t e).1 = (step t e).1 := rfl
  exact along_congr hstep s es

/-- While an entry of an end device stays registered, its messages carry what decided them,
and so keep its threshold, if and only if no call fires its trigger on a reading other than
the one it sends. -/
theorem notifications_genuine_iff (s : RfState) (cb : Callb) (pre : List Input) (i : Fin maxSubs)
    (es : List Input)
    (htaken : ((after step (rfInit s false cb) pre).subscribers i).addr ≠ noAddr)
    (hes : Along step (Stays i) (after step (rfInit s false cb) pre) es) :
    Genuine i (after step (rfInit s false cb) pre) es ↔
      Along step (fun t e => ¬ Torn i t e) (after step (rfInit s false cb) pre) es := by
  have hknown := run_known s cb pre i
  have hdev : (after step (rfInit s false cb) pre).isCoordinator = false :=
    run_isCoordinator (rfInit s false cb) pre
  generalize after step (rfInit s false cb) pre = u at htaken hes hknown hdev
  have hheld : Held i (u.subscribers i) u := ⟨hdev, hknown, htaken, _, rfl⟩
  rw [← along_notices_iff i] at hes ⊢
  have hdecided : (∀ n ∈ outputs (notices i) u es, n.2 = n.1) ↔
      Along (notices i) (fun t e => ¬ Torn i t e) u es := by
    rw [outputs_forall_iff_along]
    exact along_iff_of_allowed (P := Held i (u.subscribers i)) (fun t e ht _ => ht.decided_iff e)
      (fun t e ht hstays => ht.next hstays) hheld hes
  have hfact {Q : ℕ × ℕ → Prop} (hclear : Along (notices i) (fun t e => ¬ Torn i t e) u es)
      (hstep : ∀ t e, Held i (u.subscribers i) t → ¬ Torn i t e → ∀ n ∈ (notices i t e).2, Q n) :
      ∀ n ∈ outputs (notices i) u es, Q n := by
    rw [outputs_forall_iff_along]
    exact along_of_invariant (P := Held i (u.subscribers i)) (fun t e ht hc => ht.next hc.1)
      (fun t e ht hc => hstep t e ht hc.2) hheld ((along_and u es).mpr ⟨hes, hclear⟩)
  refine ⟨fun hg => hdecided.mp hg.decided, fun hclear => ⟨hdecided.mpr hclear, ?_, ?_, ?_⟩⟩
  · exact fun hact => hfact hclear fun t e ht htorn => ht.gte hact htorn
  · exact fun hact => hfact hclear fun t e ht htorn => ht.lte hact htorn
  · exact fun hact => (hheld.chain hact hes hclear).of_cons

def resampled (v w : UInt16) : Input := .task ⟨0, 0, 0, fun _ => v, 0, fun _ => w, 0⟩

theorem notifications_genuine_steady :
    let u := after step (rfInit powerUp false allCallb) [subscribeTemperature .gte 100 50]
    Genuine firstSub u [sampled 99, sampled 120] ∧
      outputs (notices firstSub) u [sampled 99, sampled 120] = [(120, 120)] := by
  intro u
  exact ⟨(notifications_genuine_iff powerUp allCallb [subscribeTemperature .gte 100 50] firstSub
    [sampled 99, sampled 120] (by decide) (by decide +kernel)).mpr (by decide +kernel),
    by decide +kernel⟩

theorem notification_below_threshold :
    let u := after step (rfInit powerUp false allCallb) [subscribeTemperature .gte 100 50]
    outputs (notices firstSub) u [resampled 120 90] = [(120, 90)] ∧
      ¬ Genuine firstSub u [resampled 120 90] := by
  intro u
  have hsent : outputs (notices firstSub) u [resampled 120 90] = [(120, 90)] := by decide +kernel
  refine ⟨hsent, fun h => ?_⟩
  have hdecided := h.decided
  rw [hsent] at hdecided
  exact absurd (hdecided _ List.mem_cons_self) (by decide)

end AoaBoard.Rf
