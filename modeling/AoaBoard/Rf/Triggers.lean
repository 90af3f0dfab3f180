import AoaBoard.Rf.InUse
import Mathlib.Data.List.TakeWhile
import Mathlib.Algebra.Order.Group.Abs
import Mathlib.Algebra.Order.Group.Int

/-!
# When a subscription notifies

`judge` says when a subscription has to notify, over the readings that the
`rf_task` calls take: a threshold is crossed from below or from above, or the
reading differs from the last reported one, by the threshold at least. The
code follows it for `GTE` and `LTE`. For `DIF` it leaves out the reading that
differs by exactly the threshold, and every reading when the threshold is
negative.
-/

namespace AoaBoard.Rf
open Library Library.Run

inductive Rule
  | gte
  | lte
  | dif

def Rule.act : Rule → UInt8
  | .gte => msgSubGte
  | .lte => msgSubLte
  | .dif => msgSubDif

structure History where
  previous : ℤ
  reported : ℤ

def Rule.Reports (a : Rule) (v : ℤ) (h : History) (r : ℤ) : Prop :=
  match a with
  | .gte => h.previous < v ∧ v ≤ r
  | .lte => v < h.previous ∧ r ≤ v
  | .dif => r ≠ h.reported ∧ v ≤ |r - h.reported|

instance Rule.decidableReports (a : Rule) (v : ℤ) (h : History) (r : ℤ) :
    Decidable (a.Reports v h r) :=
  match a with
  | .gte => inferInstanceAs (Decidable (_ ∧ _))
  | .lte => inferInstanceAs (Decidable (_ ∧ _))
  | .dif => inferInstanceAs (Decidable (_ ∧ _))

def judge (a : Rule) (v : ℤ) (h : History) (r : ℤ) : History × List Bool :=
  (⟨r, if a.Reports v h r then r else h.reported⟩, [decide (a.Reports v h r)])

def Rule.kept : Rule → History → ℤ
  | .gte, h => h.previous
  | .lte, h => h.previous
  | .dif, h => h.reported

def isMark : Out → Bool
  | .evaluated _ => true
  | _ => false

def marks (id : UInt8) : Out → Bool
  | .evaluated k => k == id
  | _ => false

def sentFor (id : UInt8) (outs : List Out) : List Out :=
  (outs.dropWhile fun o => !marks id o).tail.takeWhile fun o => !isMark o

def reading (r : Readings) (i : Fin maxSubs) (sub : Sub) : UInt32 := readPeripheral r i sub 0

def Reads (s : RfState) : Prop := s.isCoordinator = false ∧ s.subNumRegistered ≠ 0

instance decidableReads (s : RfState) : Decidable (Reads s) := inferInstanceAs (Decidable (_ ∧ _))

/-- An `rf_task` call that reads the peripherals shows the reading taken for entry `i` and
whether messages were sent for it. -/
def watch (i : Fin maxSubs) (s : RfState) (e : Input) : RfState × List (ℤ × Bool) :=
  ((step s e).1,
    match e with
    | .task r =>
      if Reads s then
        [((reading r i (s.subscribers i)).toNat, !(sentFor (subId i) (rfTask s r).2).isEmpty)]
      else []
    | .frame _ _ _ _ _ _ => [])

def Sub.threshold (sub : Sub) : ℤ := sub.value.toInt32.toInt

/-- The call reads a value for a `DIF` entry that has changed by exactly the threshold, or
has changed where the threshold is negative. -/
def Misses (i : Fin maxSubs) (s : RfState) : Input → Prop
  | .task r =>
    let sub := s.subscribers i
    let change : ℤ := (reading r i sub).toNat - sub.last.toNat
    Reads s ∧ sub.act = msgSubDif ∧ change ≠ 0 ∧ (|change| = sub.threshold ∨ sub.threshold < 0)
  | .frame _ _ _ _ _ _ => False

instance decidableMisses (i : Fin maxSubs) (s : RfState) : ∀ e, Decidable (Misses i s e)
  | .task _ => inferInstanceAs (Decidable (_ ∧ _ ∧ _ ∧ (_ ∨ _)))
  | .frame _ _ _ _ _ _ => inferInstanceAs (Decidable False)

def ticked (r : Readings) (i : Fin maxSubs) (sub : Sub) : Sub :=
  if InUse sub.addr then
    { sub with last := (trigger sub.act sub.last sub.value (reading r i sub)).2 }
  else sub

def messages (r : Readings) (i : Fin maxSubs) (sub : Sub) : List Out :=
  if InUse sub.addr ∧ (trigger sub.act sub.last sub.value (reading r i sub)).1 then notify r i sub
  else []

def Known (sub : Sub) : Prop :=
  InUse sub.addr → (sub.periphId = msgDevTemp ∨ sub.periphId = msgDevBtn) ∧ sub.last.toNat < 65536

theorem readPeripheral_known {r : Readings} {i : Fin maxSubs} {sub : Sub} (h : Known sub)
    (huse : InUse sub.addr) (read : UInt32) : readPeripheral r i sub read = reading r i sub := by
  rw [reading, readPeripheral, readPeripheral]
  rcases (h huse).1 with hp | hp
  · rw [if_pos hp, if_pos hp]
  · rw [hp]
    rfl

theorem evalSub_other (r : Readings) (st : RfState × UInt32) (j : Fin maxSubs) {i : Fin maxSubs}
    (hj : j ≠ i) : (evalSub r st j).1.1.subscribers i = st.1.subscribers i := by
  by_cases huse : (st.1.subscribers j).addr.hi ≠ 0 ∧ (st.1.subscribers j).addr.lo ≠ 0
  · simp only [evalSub, if_pos huse]
    exact Function.update_of_ne (Ne.symm hj) _ _
  · simp only [evalSub, if_neg huse]

theorem evalSub_self {r : Readings} {st : RfState × UInt32} {i : Fin maxSubs} {sub : Sub}
    (hsub : st.1.subscribers i = sub) (hknown : Known sub) :
    (evalSub r st i).1.1.subscribers i = ticked r i sub ∧
      (evalSub r st i).2 =
        if InUse sub.addr then .evaluated (subId i) :: messages r i sub else [] := by
  subst hsub
  by_cases huse : InUse (st.1.subscribers i).addr
  · have hread := readPeripheral_known (r := r) (i := i) hknown huse st.2
    simp only [ticked, messages, huse, true_and, if_true]
    rw [InUse] at huse
    simp only [evalSub, if_pos huse, hread, Function.update_self, and_self]
  · simp only [ticked, if_neg huse]
    rw [InUse] at huse
    simp only [evalSub, if_neg huse, and_self]

theorem not_marks_of_not_isMark {id : UInt8} {o : Out} (h : isMark o = false) :
    marks id o = false := by
  cases o <;> first | rfl | cases h

theorem notify_not_isMark (r : Readings) (i : Fin maxSubs) (sub : Sub) :
    ∀ o ∈ notify r i sub, isMark o = false := by
  simp only [notify]
  split_ifs <;> simp [sendTemperature, sendBtn, isMark]

theorem messages_not_isMark (r : Readings) (i : Fin maxSubs) (sub : Sub) :
    ∀ o ∈ messages r i sub, isMark o = false := by
  simp only [messages]
  split_ifs
  · exact notify_not_isMark r i sub
  · simp

theorem evalSub_marks (r : Readings) (st : RfState × UInt32) (j : Fin maxSubs) :
    (evalSub r st j).2 = [] ∨ ∃ rest, (evalSub r st j).2 = .evaluated (subId j) :: rest ∧
      ∀ o ∈ rest, isMark o = false := by
  by_cases huse : (st.1.subscribers j).addr.hi ≠ 0 ∧ (st.1.subscribers j).addr.lo ≠ 0
  · simp only [evalSub, if_pos huse]
    refine Or.inr ⟨_, rfl, ?_⟩
    split_ifs
    · exact notify_not_isMark r j _
    · simp
  · simp only [evalSub, if_neg huse, true_or]

theorem evalSub_marks_other (r : Readings) (st : RfState × UInt32) {i j : Fin maxSubs}
    (hj : j ≠ i) : ∀ o ∈ (evalSub r st j).2, marks (subId i) o = false := by
  rcases evalSub_marks r st j with h | ⟨rest, h, hrest⟩
  · simp [h]
  · rw [h]
    refine List.forall_mem_cons.mpr ⟨?_, fun o ho => not_marks_of_not_isMark (hrest o ho)⟩
    simpa [marks, subId_inj] using hj

theorem evalSubs_marks_other (r : Readings) (st : RfState × UInt32) {i : Fin maxSubs}
    {is : List (Fin maxSubs)} (hi : i ∉ is) :
    ∀ o ∈ outputs (evalSub r) st is, marks (subId i) o = false := by
  induction is generalizing st with
  | nil => simp
  | cons j is ih =>
    obtain ⟨hj, hrest⟩ := not_or.mp (mt List.mem_cons.mpr hi)
    rw [outputs_cons]
    exact List.forall_mem_append.mpr ⟨evalSub_marks_other r st (Ne.symm hj), ih _ hrest⟩

theorem evalSubs_starts_with_mark (r : Readings) (st : RfState × UInt32)
    (is : List (Fin maxSubs)) :
    ((outputs (evalSub r) st is).takeWhile fun o => !isMark o) = [] := by
  induction is generalizing st with
  | nil => rfl
  | cons j is ih =>
    rw [outputs_cons]
    rcases evalSub_marks r st j with h | ⟨rest, h, -⟩
    · rw [h, List.nil_append]
      exact ih _
    · rw [h, List.cons_append, List.takeWhile_cons_of_neg (by simp [isMark])]

theorem sentFor_nil_of_no_mark {id : UInt8} {outs : List Out} (h : ∀ o ∈ outs, marks id o = false) :
    sentFor id outs = [] := by
  have hdrop : (outs.dropWhile fun o => !marks id o) = [] := by
    rw [List.dropWhile_eq_nil_iff]
    intro o ho
    simp [h o ho]
  rw [sentFor, hdrop]
  rfl

theorem sentFor_around {id : UInt8} {before sent rest : List Out}
    (hbefore : ∀ o ∈ before, marks id o = false) (hsent : ∀ o ∈ sent, isMark o = false)
    (hrest : (rest.takeWhile fun o => !isMark o) = []) :
    sentFor id (before ++ .evaluated id :: sent ++ rest) = sent := by
  have hdrop : ((before ++ .evaluated id :: sent ++ rest).dropWhile fun o => !marks id o) =
      .evaluated id :: (sent ++ rest) := by
    rw [List.append_assoc, List.dropWhile_append_of_pos fun o ho => by simp [hbefore o ho],
      List.cons_append, List.dropWhile_cons_of_neg (by simp [marks])]
  rw [sentFor, hdrop, List.tail_cons, List.takeWhile_append_of_pos fun o ho => by simp [hsent o ho],
    hrest, List.append_nil]

theorem evalSubs_entry {r : Readings} (st : RfState × UInt32) {i : Fin maxSubs}
    (hknown : Known (st.1.subscribers i)) {is : List (Fin maxSubs)} (hnodup : is.Nodup)
    (hmem : i ∈ is) :
    (after (evalSub r) st is).1.subscribers i = ticked r i (st.1.subscribers i) ∧
      sentFor (subId i) (outputs (evalSub r) st is) = messages r i (st.1.subscribers i) := by
  have hother (st : RfState × UInt32) (j : Fin maxSubs) (hj : j ≠ i) :
      (evalSub r st j).1.1.subscribers i = st.1.subscribers i := evalSub_other r st j hj
  refine ⟨?_, ?_⟩
  · exact after_once (g := fun st : RfState × UInt32 => st.1.subscribers i) hother
      (fun u hu => (evalSub_self hu hknown).1) hnodup hmem rfl
  · obtain ⟨us, vs, t, hus, hvs, ht, hsplit⟩ :=
      outputs_around (g := fun st : RfState × UInt32 => st.1.subscribers i) hother hnodup hmem st
    have hround := (evalSub_self (r := r) ht hknown).2
    rw [hsplit, hround]
    by_cases huse : InUse (st.1.subscribers i).addr
    · rw [if_pos huse]
      exact sentFor_around (evalSubs_marks_other r st hus) (messages_not_isMark r i _)
        (evalSubs_starts_with_mark r _ vs)
    · have hquiet : messages r i (st.1.subscribers i) = [] := by simp [messages, huse]
      rw [if_neg huse, hquiet, List.append_nil]
      exact sentFor_nil_of_no_mark (List.forall_mem_append.mpr
        ⟨evalSubs_marks_other r st hus, evalSubs_marks_other r _ hvs⟩)

theorem rfTask_entry {s : RfState} (hreads : Reads s) (r : Readings) {i : Fin maxSubs}
    (hknown : Known (s.subscribers i)) :
    (rfTask s r).1.subscribers i = ticked r i (s.subscribers i) ∧
      sentFor (subId i) (rfTask s r).2 = messages r i (s.subscribers i) := by
  have hentry := evalSubs_entry (r := r) (s, 0) hknown (List.nodup_finRange maxSubs)
    (List.mem_finRange i)
  simp only [rfTask, hreads.1, Bool.false_eq_true, if_false, if_pos hreads.2]
  exact hentry

theorem rfTask_idle {s : RfState} (hdev : s.isCoordinator = false) (hreads : ¬ Reads s)
    (r : Readings) : rfTask s r = (s, []) := by
  have hzero : ¬ s.subNumRegistered ≠ 0 := fun h => hreads ⟨hdev, h⟩
  simp only [rfTask, hdev, Bool.false_eq_true, if_false, if_neg hzero]

theorem btnGet_le (port : UInt32) : (btnGet port).toNat ≤ 3 := by
  simp only [btnGet]
  split_ifs <;> decide

theorem reading_lt (r : Readings) (i : Fin maxSubs) (sub : Sub) :
    (reading r i sub).toNat < 65536 := by
  simp only [reading, readPeripheral]
  split_ifs
  · rw [UInt16.toNat_toUInt32]
    exact UInt16.toNat_lt _
  · rw [UInt8.toNat_toUInt32]
    have hle := btnGet_le (r.port i)
    omega
  · decide

theorem Sub.threshold_cases (sub : Sub) :
    (0 ≤ sub.threshold ∧ sub.threshold = sub.value.toNat) ∨
      (sub.threshold < 0 ∧ 2147483648 ≤ sub.value.toNat) := by
  have hlt := UInt32.toNat_lt sub.value
  have hsigned : sub.threshold = (sub.value.toNat : ℤ).bmod 4294967296 := by
    rw [Sub.threshold, ← Int32.toInt_toBitVec, UInt32.toBitVec_toInt32, BitVec.toInt_eq_toNat_bmod,
      UInt32.toNat_toBitVec]
  rw [hsigned, Int.bmod_def]
  split_ifs <;> omega

theorem trigger_dif (last value read : UInt32) :
    trigger msgSubDif last value read =
      if (value.toNat : ℤ) < |(read.toNat : ℤ) - last.toNat| then (true, read)
      else (false, last) := by
  have hcond : ((read < last ∧ value < last - read) ∨ (last < read ∧ value < read - last)) ↔
      (value.toNat : ℤ) < |(read.toNat : ℤ) - last.toNat| := by
    have hread := UInt32.toNat_lt read
    have hlast := UInt32.toNat_lt last
    simp only [UInt32.lt_iff_toNat_lt, UInt32.toNat_sub]
    rcases abs_cases ((read.toNat : ℤ) - last.toNat) with ⟨h, h'⟩ | ⟨h, h'⟩ <;> rw [h] <;> omega
  rw [trigger, if_neg (by decide), if_neg (by decide), if_pos rfl]
  simp only [hcond]

theorem trigger_gte {sub : Sub} {h : History} {read : UInt32}
    (hlast : (sub.last.toNat : ℤ) = h.previous) (hlt : sub.last.toNat < 65536)
    (hread : read.toNat < 65536) :
    trigger msgSubGte sub.last sub.value read =
      (decide (Rule.gte.Reports sub.threshold h read.toNat), read) := by
  have hcond : (sub.last < sub.value ∧ sub.value ≤ read) ↔
      Rule.gte.Reports sub.threshold h read.toNat := by
    simp only [Rule.Reports, UInt32.lt_iff_toNat_lt, UInt32.le_iff_toNat_le, ← hlast]
    rcases sub.threshold_cases with ⟨hpos, hv⟩ | ⟨hneg, hv⟩ <;> omega
  rw [trigger, if_pos rfl]
  simp only [hcond]

theorem trigger_lte {sub : Sub} {h : History} {read : UInt32}
    (hlast : (sub.last.toNat : ℤ) = h.previous) (hlt : sub.last.toNat < 65536)
    (hread : read.toNat < 65536) :
    trigger msgSubLte sub.last sub.value read =
      (decide (Rule.lte.Reports sub.threshold h read.toNat), read) := by
  have hcond : (sub.value < sub.last ∧ read ≤ sub.value) ↔
      Rule.lte.Reports sub.threshold h read.toNat := by
    simp only [Rule.Reports, UInt32.lt_iff_toNat_lt, UInt32.le_iff_toNat_le, ← hlast]
    rcases sub.threshold_cases with ⟨hpos, hv⟩ | ⟨hneg, hv⟩ <;> omega
  rw [trigger, if_neg (by decide), if_pos rfl]
  simp only [hcond]

theorem dif_reports_iff {sub : Sub} {h : History} {read : UInt32}
    (hlast : (sub.last.toNat : ℤ) = h.reported) (hlt : sub.last.toNat < 65536)
    (hread : read.toNat < 65536) :
    ((sub.value.toNat : ℤ) < |(read.toNat : ℤ) - sub.last.toNat| ↔
        Rule.dif.Reports sub.threshold h read.toNat) ↔
      ¬ ((read.toNat : ℤ) - sub.last.toNat ≠ 0 ∧
        (|(read.toNat : ℤ) - sub.last.toNat| = sub.threshold ∨ sub.threshold < 0)) := by
  simp only [Rule.Reports, ← hlast]
  rcases abs_cases ((read.toNat : ℤ) - sub.last.toNat) with ⟨habs, hsign⟩ | ⟨habs, hsign⟩ <;>
    rcases sub.threshold_cases with ⟨hpos, hv⟩ | ⟨hneg, hv⟩ <;> omega

theorem trigger_judge {a : Rule} {sub : Sub} {h : History} {read : UInt32} (hact : sub.act = a.act)
    (hlast : (sub.last.toNat : ℤ) = a.kept h) (hlt : sub.last.toNat < 65536)
    (hread : read.toNat < 65536) :
    ((judge a sub.threshold h read.toNat).2 = [(trigger sub.act sub.last sub.value read).1] ↔
      ¬ (sub.act = msgSubDif ∧ (read.toNat : ℤ) - sub.last.toNat ≠ 0 ∧
        (|(read.toNat : ℤ) - sub.last.toNat| = sub.threshold ∨ sub.threshold < 0))) ∧
    ((judge a sub.threshold h read.toNat).2 = [(trigger sub.act sub.last sub.value read).1] →
      ((trigger sub.act sub.last sub.value read).2.toNat : ℤ) =
        a.kept (judge a sub.threshold h read.toNat).1) := by
  rw [hact]
  cases a with
  | gte =>
    rw [Rule.act, trigger_gte hlast hlt hread]
    exact ⟨iff_of_true rfl fun hdif => absurd hdif.1 (by decide), fun _ => rfl⟩
  | lte =>
    rw [Rule.act, trigger_lte hlast hlt hread]
    exact ⟨iff_of_true rfl fun hdif => absurd hdif.1 (by decide), fun _ => rfl⟩
  | dif =>
    rw [Rule.act, trigger_dif]
    have hiff := dif_reports_iff (h := h) hlast hlt hread
    simp only [judge, Rule.kept, true_and, List.cons.injEq, and_true]
    rw [← hiff]
    by_cases hcode : (sub.value.toNat : ℤ) < |(read.toNat : ℤ) - sub.last.toNat|
    · rw [if_pos hcode, iff_true_left hcode, decide_eq_true_iff]
      exact ⟨Iff.rfl, fun hreports => by rw [if_pos hreports]⟩
    · rw [if_neg hcode, iff_false_left hcode, decide_eq_false_iff_not]
      exact ⟨Iff.rfl, fun hreports => by rw [if_neg hreports]; exact hlast⟩

theorem subRequest_known {buf : ℕ → UInt8} {trimpot : UInt16} {port : UInt32} {q : Request}
    (h : subRequest buf trimpot port = some q) :
    (q.pId = msgDevTemp ∨ q.pId = msgDevBtn) ∧ q.cval.toNat < 65536 := by
  simp only [subRequest] at h
  split_ifs at h
  · obtain rfl := Option.some.inj h
    exact ⟨Or.inl rfl, by rw [UInt16.toNat_toUInt32]; exact UInt16.toNat_lt _⟩
  · obtain rfl := Option.some.inj h
    have hle := btnGet_le port
    exact ⟨Or.inr rfl, by rw [UInt8.toNat_toUInt32]; omega⟩

theorem xbeeData_entry (s : RfState) (src : Addr) (buf : ℕ → UInt8) (len : UInt8) (now : UInt32)
    (trimpot : UInt16) (port : UInt32) (i : Fin maxSubs) :
    let s' := (xbeeData s src buf len now trimpot port).1
    s'.subscribers i = s.subscribers i ∨ (s'.subscribers i).addr = noAddr ∨
      ∃ q, subRequest (payload buf) trimpot port = some q ∧ (s.subscribers i).addr = noAddr ∧
        s'.subscribers i = ⟨src, q.pId, device buf, q.value, q.cval⟩ := by
  intro s'
  have hhandled := xbeeData_handled s src buf len now trimpot port
  simp only [s']
  generalize xbeeData s src buf len now trimpot port = res at hhandled
  cases hhandled with
  | subscribe _ =>
    rcases handleSubscribe_cases s src (device buf) (payload buf) (len.toNat - 1) trimpot port with
      h | ⟨q, hq, ⟨j, -, h⟩ | ⟨j, hfree, -, h⟩⟩
    · rw [h]
      exact Or.inl rfl
    · rw [h]
      exact Or.inl rfl
    · rw [h]
      by_cases hij : i = j
      · subst hij
        exact Or.inr (Or.inr ⟨q, hq, hfree, Function.update_self _ _ _⟩)
      · exact Or.inl (Function.update_of_ne hij _ _)
  | unsubscribe _ =>
    rcases handleUnsubscribe_cases s src (buf 1) with h | ⟨j, -, h⟩
    · rw [h]
      exact Or.inl rfl
    · rw [h]
      by_cases hij : i = j
      · subst hij
        simp only [removed, Function.update_self, true_or, or_true]
      · exact Or.inl (Function.update_of_ne hij _ _)
  | pollResponse _ => exact Or.inl (by rw [(handlePollResponse_subs s src now).2])
  | publish _ => exact Or.inl (by rw [(handlePublish_subs s src (payload buf) (len - 1) now).2])
  | _ => exact Or.inl rfl

theorem step_isCoordinator (s : RfState) (e : Input) :
    (step s e).1.isCoordinator = s.isCoordinator := by
  cases e with
  | task r => exact (rfTask_kept s r).isCoordinator
  | frame src buf len now trimpot port =>
    simp only [step]
    have hhandled := xbeeData_handled s src buf len now trimpot port
    generalize xbeeData s src buf len now trimpot port = res at hhandled
    cases hhandled with
    | subscribe _ => exact (handleSubscribe_sameNodes s _ _ _ _ _ _).1.isCoordinator
    | unsubscribe _ => exact (handleUnsubscribe_sameNodes s _ _).isCoordinator
    | pollResponse _ =>
      simp only [handlePollResponse]
      split <;> rfl
    | publish _ =>
      simp only [handlePublish]
      split <;> rfl
    | _ => rfl

theorem not_inUse_noAddr : ¬ InUse noAddr := fun h => h.1 rfl

theorem run_isCoordinator (s : RfState) (es : List Input) :
    (after step s es).isCoordinator = s.isCoordinator :=
  after_related (R := fun t u : RfState => u.isCoordinator = t.isCoordinator) (fun _ => rfl)
    (fun _ _ _ h h' => h'.trans h) step_isCoordinator s es

theorem ticked_known {sub : Sub} (h : Known sub) (r : Readings) (i : Fin maxSubs) :
    Known (ticked r i sub) := by
  by_cases huse : InUse sub.addr
  · rw [ticked, if_pos huse]
    refine fun _ => ⟨(h huse).1, ?_⟩
    simp only [trigger]
    split_ifs <;> first | exact reading_lt r i sub | exact (h huse).2
  · rw [ticked, if_neg huse]
    exact h

theorem step_known {s : RfState} (hdev : s.isCoordinator = false) {i : Fin maxSubs}
    (h : Known (s.subscribers i)) (e : Input) : Known ((step s e).1.subscribers i) := by
  cases e with
  | task r =>
    simp only [step]
    by_cases hreads : Reads s
    · rw [(rfTask_entry hreads r h).1]
      exact ticked_known h r i
    · rw [rfTask_idle hdev hreads]
      exact h
  | frame src buf len now trimpot port =>
    rcases xbeeData_entry s src buf len now trimpot port i with hsame | hfree | ⟨q, hq, -, hadded⟩
    · simp only [step]
      rw [hsame]
      exact h
    · intro huse
      exact absurd (hfree ▸ huse) not_inUse_noAddr
    · intro _
      simp only [step]
      rw [hadded]
      exact subRequest_known hq

theorem run_known (s : RfState) (cb : Callb) (es : List Input) (i : Fin maxSubs) :
    Known ((after step (rfInit s false cb) es).subscribers i) := by
  have hinit : Known ((rfInit s false cb).subscribers i) :=
    fun huse => absurd huse not_inUse_noAddr
  have hrun := after_invariant
    (P := fun t : RfState => t.isCoordinator = false ∧ Known (t.subscribers i))
    (fun t e ht _ => ⟨(step_isCoordinator t e).trans ht.1, step_known ht.1 ht.2 e⟩)
    ⟨rfl, hinit⟩ (along_trivial _ es)
  exact hrun.2

def Stays (i : Fin maxSubs) (s : RfState) (e : Input) : Prop :=
  ((step s e).1.subscribers i).addr ≠ noAddr

instance decidableStays (i : Fin maxSubs) (s : RfState) (e : Input) : Decidable (Stays i s e) :=
  inferInstanceAs (Decidable (_ ≠ _))

theorem frame_keeps_entry {s : RfState} {i : Fin maxSubs} {e : Input} (hframe : source e ≠ none)
    (htaken : (s.subscribers i).addr ≠ noAddr) (hstays : Stays i s e) :
    (step s e).1.subscribers i = s.subscribers i := by
  cases e with
  | task r => exact absurd rfl hframe
  | frame src buf len now trimpot port =>
    rcases xbeeData_entry s src buf len now trimpot port i with hsame | hfree | ⟨q, -, hfree, -⟩
    · exact hsame
    · exact absurd hfree hstays
    · exact absurd hfree htaken

structure Tracks (i : Fin maxSubs) (a : Rule) (v : ℤ) (s : RfState) (h : History) : Prop where
  device : s.isCoordinator = false
  inUse : InUse (s.subscribers i).addr
  known : Known (s.subscribers i)
  act : (s.subscribers i).act = a.act
  value : (s.subscribers i).threshold = v
  last : ((s.subscribers i).last.toNat : ℤ) = a.kept h

section Run
variable {i : Fin maxSubs} {a : Rule} {v : ℤ} {s : RfState} {h : History}

theorem Tracks.same (ht : Tracks i a v s h) {s' : RfState}
    (hdev : s'.isCoordinator = s.isCoordinator) (hsub : s'.subscribers i = s.subscribers i) :
    Tracks i a v s' h := by
  obtain ⟨hd, huse, hknown, hact, hvalue, hlast⟩ := ht
  rw [← hdev] at hd
  rw [← hsub] at huse hknown hact hvalue hlast
  exact ⟨hd, huse, hknown, hact, hvalue, hlast⟩

theorem Tracks.frame (ht : Tracks i a v s h) {e : Input} (hframe : source e ≠ none)
    (hstays : Stays i s e) : Tracks i a v (step s e).1 h := by
  have htaken : (s.subscribers i).addr ≠ noAddr := fun hfree =>
    not_inUse_noAddr (hfree ▸ ht.inUse)
  exact ht.same (step_isCoordinator s e) (frame_keeps_entry hframe htaken hstays)

theorem notify_ne_nil {sub : Sub} (hknown : Known sub) (huse : InUse sub.addr) (r : Readings) :
    notify r i sub ≠ [] := by
  rw [notify]
  rcases (hknown huse).1 with hp | hp
  · rw [if_pos hp]
    exact List.cons_ne_nil _ _
  · rw [hp]
    exact List.cons_ne_nil _ _

theorem Tracks.shows (ht : Tracks i a v s h) (hreads : Reads s) (r : Readings) :
    let sub := s.subscribers i
    (watch i s (.task r)).2 = [(((reading r i sub).toNat : ℤ),
      (trigger sub.act sub.last sub.value (reading r i sub)).1)] := by
  intro sub
  have hsent := (rfTask_entry hreads r ht.known).2
  have hempty : (messages r i sub).isEmpty =
      !(trigger sub.act sub.last sub.value (reading r i sub)).1 := by
    simp only [messages, ht.inUse, true_and, sub]
    cases (trigger sub.act sub.last sub.value (reading r i sub)).1 with
    | false => rfl
    | true => simpa using notify_ne_nil ht.known ht.inUse r
  simp only [watch, if_pos hreads, hsent]
  rw [hempty, Bool.not_not]

theorem Tracks.task (ht : Tracks i a v s h) (hreads : Reads s) (r : Readings) :
    let sub := s.subscribers i
    let read := reading r i sub
    ((judge a v h read.toNat).2 = [(trigger sub.act sub.last sub.value read).1] ↔
      ¬ Misses i s (.task r)) ∧
    (¬ Misses i s (.task r) → Tracks i a v (step s (.task r)).1 (judge a v h read.toNat).1) := by
  intro sub read
  have hread : read.toNat < 65536 := reading_lt r i sub
  obtain ⟨hiff, hkept⟩ := trigger_judge ht.act ht.last (ht.known ht.inUse).2 hread
  rw [ht.value] at hiff hkept
  have hmisses : (judge a v h read.toNat).2 = [(trigger sub.act sub.last sub.value read).1] ↔
      ¬ Misses i s (.task r) := by
    rw [hiff]
    simp only [Misses, hreads, true_and, ht.value, sub, read]
  refine ⟨hmisses, fun hmiss => ?_⟩
  have hentry : (step s (.task r)).1.subscribers i =
      { sub with last := (trigger sub.act sub.last sub.value read).2 } := by
    rw [step, (rfTask_entry hreads r ht.known).1, ticked, if_pos ht.inUse]
  refine ⟨(step_isCoordinator s _).trans ht.device, ?_, step_known ht.device ht.known _, ?_, ?_, ?_⟩
  all_goals rw [hentry]
  · exact ht.inUse
  · exact ht.act
  · exact ht.value
  · exact hkept (hmisses.mpr hmiss)

theorem Tracks.quiet (ht : Tracks i a v s h) {e : Input} (hstays : Stays i s e)
    (hnone : (watch i s e).2 = []) : ¬ Misses i s e ∧ Tracks i a v (watch i s e).1 h := by
  cases e with
  | frame src buf len now trimpot port =>
    exact ⟨fun hmiss => hmiss, ht.frame (by simp [source]) hstays⟩
  | task r =>
    have hreads : ¬ Reads s := by
      intro hreads
      simp [watch, hreads] at hnone
    refine ⟨fun hmiss => hreads hmiss.1, ?_⟩
    simp only [watch, step, rfTask_idle ht.device hreads]
    exact ht

theorem Tracks.shown (ht : Tracks i a v s h) {e : Input} (hsome : (watch i s e).2 ≠ []) :
    ∃ r b, (watch i s e).2 = [(r, b)] ∧ ((judge a v h r).2 = [b] ↔ ¬ Misses i s e) ∧
      (¬ Misses i s e → Tracks i a v (watch i s e).1 (judge a v h r).1) := by
  cases e with
  | frame src buf len now trimpot port => exact absurd rfl hsome
  | task r =>
    have hreads : Reads s := by
      by_contra hreads
      simp [watch, hreads] at hsome
    exact ⟨_, _, ht.shows hreads r, ht.task hreads r⟩

end Run

theorem watch_fst (i : Fin maxSubs) (s : RfState) (e : Input) :
    (watch i s e).1 = (step s e).1 := rfl

theorem after_watch (i : Fin maxSubs) (s : RfState) (es : List Input) :
    after (watch i) s es = after step s es :=
  after_congr (watch_fst i) s es

theorem along_watch_iff (i : Fin maxSubs) {C : RfState → Input → Prop} (s : RfState)
    (es : List Input) : Along (watch i) C s es ↔ Along step C s es :=
  along_congr (watch_fst i) s es

def Registers (s : RfState) (i : Fin maxSubs) (a : Rule) (q : Request) : Input → Prop
  | .frame src buf len now trimpot port => InUse src ∧ device buf = a.act ∧
    subRequest (payload buf) trimpot port = some q ∧ (s.subscribers i).addr = noAddr ∧
    ((xbeeData s src buf len now trimpot port).1.subscribers i).addr = src
  | .task _ => False

def Request.threshold (q : Request) : ℤ := q.value.toInt32.toInt

theorem registers_tracks {s : RfState} {i : Fin maxSubs} {a : Rule} {q : Request} {e : Input}
    (hdev : s.isCoordinator = false) (h : Registers s i a q e) :
    Tracks i a q.threshold (step s e).1 ⟨q.cval.toNat, q.cval.toNat⟩ := by
  cases e with
  | task r => exact h.elim
  | frame src buf len now trimpot port =>
    obtain ⟨huse, hact, hq, hfree, htaken⟩ := h
    have hentry : (step s (.frame src buf len now trimpot port)).1.subscribers i =
        ⟨src, q.pId, device buf, q.value, q.cval⟩ := by
      rcases xbeeData_entry s src buf len now trimpot port i with hsame | hzero | ⟨q', hq', -, heq⟩
      · rw [hsame, hfree] at htaken
        exact absurd (htaken ▸ huse) not_inUse_noAddr
      · rw [hzero] at htaken
        exact absurd (htaken ▸ huse) not_inUse_noAddr
      · obtain rfl := Option.some.inj (hq'.symm.trans hq)
        exact heq
    refine ⟨(step_isCoordinator s _).trans hdev, ?_, ?_, ?_, ?_, ?_⟩
    all_goals rw [hentry]
    · exact huse
    · exact fun _ => subRequest_known hq
    · exact hact
    · rfl
    · cases a <;> rfl

def withSub (s : RfState) (i : Fin maxSubs) (sub : Sub) : RfState :=
  { s with subscribers := Function.update s.subscribers i sub }

theorem rfTask_withSub {s : RfState} (hdev : s.isCoordinator = false) {i j : Fin maxSubs}
    (hj : j ≠ i) (hknown : Known (s.subscribers j)) (sub : Sub) (r : Readings) :
    (rfTask (withSub s i sub) r).1.subscribers j = (rfTask s r).1.subscribers j ∧
      sentFor (subId j) (rfTask (withSub s i sub) r).2 = sentFor (subId j) (rfTask s r).2 := by
  have hsame : (withSub s i sub).subscribers j = s.subscribers j := Function.update_of_ne hj _ _
  by_cases hreads : Reads s
  · obtain ⟨hentry, hsent⟩ := rfTask_entry hreads r hknown
    have hreads' : Reads (withSub s i sub) := hreads
    obtain ⟨hentry', hsent'⟩ := rfTask_entry hreads' r (hsame.symm ▸ hknown)
    rw [hentry, hsent, hentry', hsent', hsame]
    exact ⟨rfl, rfl⟩
  · have hreads' : ¬ Reads (withSub s i sub) := hreads
    have hdev' : (withSub s i sub).isCoordinator = false := hdev
    rw [rfTask_idle hdev hreads, rfTask_idle hdev' hreads']
    exact ⟨hsame, rfl⟩

/-- The subscription of entry `i` follows the rule in the run `es` from `s`, where `r0` is the
reading when it was registered, and whatever it holds makes no difference to the others. -/
structure Follows (i : Fin maxSubs) (a : Rule) (v r0 : ℤ) (s : RfState) (es : List Input) :
    Prop where
  notified : (outputs (watch i) s es).map Prod.snd =
    outputs (judge a v) ⟨r0, r0⟩ ((outputs (watch i) s es).map Prod.fst)
  replaced : a = .dif → (((after step s es).subscribers i).last.toNat : ℤ) =
    (after (judge a v) ⟨r0, r0⟩ ((outputs (watch i) s es).map Prod.fst)).reported
  others : ∀ j, j ≠ i → ∀ sub r,
    (rfTask (withSub (after step s es) i sub) r).1.subscribers j =
        (rfTask (after step s es) r).1.subscribers j ∧
      sentFor (subId j) (rfTask (withSub (after step s es) i sub) r).2 =
        sentFor (subId j) (rfTask (after step s es) r).2

/-- A subscription of an end device follows its rule in a run if and only if no `rf_task` call
of the run misses a change for it. -/
theorem triggers_followed_iff (s : RfState) (cb : Callb) (pre : List Input) (e : Input)
    (i : Fin maxSubs) (a : Rule) (q : Request)
    (he : Registers (after step (rfInit s false cb) pre) i a q e) (es : List Input)
    (hes : Along step (Stays i) (after step (rfInit s false cb) (pre ++ [e])) es) :
    Follows i a q.threshold q.cval.toNat (after step (rfInit s false cb) (pre ++ [e])) es ↔
      Along step (fun t f => ¬ Misses i t f) (after step (rfInit s false cb) (pre ++ [e])) es := by
  have hknown (j : Fin maxSubs) := run_known s cb ((pre ++ [e]) ++ es) j
  rw [after_append] at hknown
  have hdev : (after step (rfInit s false cb) pre).isCoordinator = false :=
    run_isCoordinator (rfInit s false cb) pre
  have ht := registers_tracks hdev he
  have hstart : after step (rfInit s false cb) (pre ++ [e]) =
      (step (after step (rfInit s false cb) pre) e).1 := after_append _ _ _
  rw [hstart] at hes hknown ⊢
  generalize (step (after step (rfInit s false cb) pre) e).1 = u at hes hknown ht
  have hdev : (after step u es).isCoordinator = false := (run_isCoordinator u es).trans ht.device
  rw [← along_watch_iff i] at hes ⊢
  have hanswers := answers_iff_along (R := Tracks i a q.threshold) (fun _ _ _ ht => ht.quiet)
    (fun _ _ _ ht _ => ht.shown) (fun _ _ => rfl) ht hes
  refine ⟨fun hf => hanswers.mp hf.notified, fun hd => ⟨hanswers.mpr hd, ?_, ?_⟩⟩
  · rintro rfl
    have hrel := related_of_along (R := Tracks i .dif q.threshold) (fun _ _ _ ht => ht.quiet)
      (fun _ _ _ ht _ => ht.shown) ht hes hd
    rw [after_watch] at hrel
    exact hrel.last
  · exact fun j hj sub r => rfTask_withSub hdev hj (hknown j) sub r

def subscribeTemperature (a : Rule) (v : UInt8) (r0 : UInt16) : Input :=
  .frame ⟨0x13A200, 7⟩ (fun k => [msgSub ||| a.act, msgDevTemp, 0, v].getD k 0) 4 0 r0 0

def firstSub : Fin maxSubs := ⟨0, Nat.zero_lt_succ 19⟩

def sampled (v : UInt16) : Input := .task ⟨0, 0, 0, fun _ => v, 0, fun _ => v, 0⟩

theorem triggers_followed_crossing :
    let e := subscribeTemperature .gte 100 50
    let u := after step (rfInit powerUp false allCallb) [e]
    Registers (rfInit powerUp false allCallb) firstSub .gte ⟨msgDevTemp, 100, 50⟩ e ∧
      Follows firstSub .gte 100 50 u [sampled 99, sampled 120, sampled 130] := by
  intro e u
  have he : Registers (rfInit powerUp false allCallb) firstSub .gte ⟨msgDevTemp, 100, 50⟩ e :=
    ⟨by decide, by decide, rfl, by decide, by decide⟩
  exact ⟨he, (triggers_followed_iff powerUp allCallb [] e firstSub .gte _ he
    [sampled 99, sampled 120, sampled 130] (by decide +kernel)).mpr (by decide +kernel)⟩

theorem change_by_threshold_not_notified :
    let e := subscribeTemperature .dif 5 10
    let u := after step (rfInit powerUp false allCallb) [e]
    Registers (rfInit powerUp false allCallb) firstSub .dif ⟨msgDevTemp, 5, 10⟩ e ∧
      Along step (Stays firstSub) u [sampled 15] ∧
      ¬ Follows firstSub .dif 5 10 u [sampled 15] := by
  intro e u
  refine ⟨⟨by decide, by decide, rfl, by decide, by decide⟩, by decide +kernel, fun h => ?_⟩
  exact absurd h.notified (by decide +kernel)

end AoaBoard.Rf
