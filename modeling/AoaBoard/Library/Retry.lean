import Mathlib.Data.List.Basic

/-!
# Attempts at a plan

A plan is a list of commands for a device. An attempt gives them one after the
other and ends with the first answer that is not good; the next attempt begins
the plan anew.
-/

namespace AoaBoard.Library.Retry

variable {β κ ο : Type*} (perform : β → κ → β × ο) (good : κ → ο → Bool)

def attempt : β → List κ → β × List (κ × ο)
  | b, [] => (b, [])
  | b, k :: ks =>
    let r := perform b k
    if good k r.2 then
      let t := attempt r.1 ks
      (t.1, (k, r.2) :: t.2)
    else (r.1, [(k, r.2)])

def passed (log : List (κ × ο)) : Bool := log.all fun x => good x.1 x.2

/-- At most so many attempts, until one passes. -/
def trials (plan : List κ) : ℕ → β → β × List (List (κ × ο))
  | 0, b => (b, [])
  | n + 1, b =>
    let t := attempt perform good b plan
    if passed good t.2 then (t.1, [t.2])
    else
      let r := trials plan n t.1
      (r.1, t.2 :: r.2)

variable {perform good}

@[simp] theorem attempt_nil (b : β) : attempt perform good b [] = (b, []) := rfl

theorem attempt_cons_good {b : β} {k : κ} (h : good k (perform b k).2) (ks : List κ) :
    attempt perform good b (k :: ks) =
      ((attempt perform good (perform b k).1 ks).1,
        (k, (perform b k).2) :: (attempt perform good (perform b k).1 ks).2) := by
  rw [attempt, if_pos h]

theorem attempt_cons_bad {b : β} {k : κ} (h : ¬good k (perform b k).2) (ks : List κ) :
    attempt perform good b (k :: ks) = ((perform b k).1, [(k, (perform b k).2)]) := by
  rw [attempt, if_neg h]

theorem attempt_append_failed {b : β} {ks : List κ}
    (h : ¬passed good (attempt perform good b ks).2) (ls : List κ) :
    attempt perform good b (ks ++ ls) = attempt perform good b ks := by
  induction ks generalizing b with
  | nil => exact absurd rfl h
  | cons k ks ih =>
    by_cases hgood : good k (perform b k).2
    · rw [attempt_cons_good hgood] at h ⊢
      have hrest : ¬passed good (attempt perform good (perform b k).1 ks).2 := by
        simpa [passed, hgood] using h
      rw [List.cons_append, attempt_cons_good hgood, ih hrest]
    · rw [List.cons_append, attempt_cons_bad hgood, attempt_cons_bad hgood]

theorem attempt_passed {b : β} {ks : List κ} (h : passed good (attempt perform good b ks).2) :
    (attempt perform good b ks).2.map Prod.fst = ks := by
  induction ks generalizing b with
  | nil => rfl
  | cons k ks ih =>
    by_cases hgood : good k (perform b k).2
    · rw [attempt_cons_good hgood] at h ⊢
      rw [List.map_cons, ih (by simpa [passed, hgood] using h)]
    · rw [attempt_cons_bad hgood] at h
      exact absurd (by simpa [passed] using h) hgood

theorem attempt_commands (b : β) (ks : List κ) :
    (attempt perform good b ks).2.map Prod.fst <+: ks := by
  induction ks generalizing b with
  | nil => exact List.prefix_rfl
  | cons k ks ih =>
    by_cases hgood : good k (perform b k).2
    · rw [attempt_cons_good hgood, List.map_cons]
      exact (List.prefix_cons_inj k).mpr (ih _)
    · rw [attempt_cons_bad hgood]
      exact ⟨ks, rfl⟩

section Trials
variable {plan : List κ} {n : ℕ} {b : β}

theorem trials_succ_passed (h : passed good (attempt perform good b plan).2) (n : ℕ) :
    trials perform good plan (n + 1) b =
      ((attempt perform good b plan).1, [(attempt perform good b plan).2]) := by
  rw [trials, if_pos h]

theorem trials_succ_failed (h : ¬passed good (attempt perform good b plan).2) (n : ℕ) :
    trials perform good plan (n + 1) b =
      ((trials perform good plan n (attempt perform good b plan).1).1,
        (attempt perform good b plan).2 ::
          (trials perform good plan n (attempt perform good b plan).1).2) := by
  rw [trials, if_neg h]

theorem trials_length (n : ℕ) (b : β) : (trials perform good plan n b).2.length ≤ n := by
  induction n generalizing b with
  | zero => simp [trials]
  | succ n ih =>
    by_cases h : passed good (attempt perform good b plan).2
    · rw [trials_succ_passed h]
      simp
    · rw [trials_succ_failed h]
      simpa using ih _

theorem trials_mem {n : ℕ} {b : β} : ∀ l ∈ (trials perform good plan n b).2,
    ∃ b', l = (attempt perform good b' plan).2 := by
  induction n generalizing b with
  | zero => simp [trials]
  | succ n ih =>
    by_cases h : passed good (attempt perform good b plan).2
    · rw [trials_succ_passed h]
      intro l hl
      exact ⟨b, List.mem_singleton.mp hl⟩
    · rw [trials_succ_failed h]
      intro l hl
      rcases List.mem_cons.mp hl with rfl | hl
      · exact ⟨b, rfl⟩
      · exact ih l hl

/-- What every failed attempt keeps holds before the last attempt if that passes, and at the end
otherwise. -/
theorem trials_rule {I : β → List (List (κ × ο)) → Prop}
    (hfailed : ∀ b logs, I b logs → ¬passed good (attempt perform good b plan).2 →
      I (attempt perform good b plan).1 (logs ++ [(attempt perform good b plan).2]))
    (logs : List (List (κ × ο))) (h : I b logs) (n : ℕ) :
    (∃ b' logs', I b' (logs ++ logs') ∧ passed good (attempt perform good b' plan).2 ∧
        trials perform good plan n b =
          ((attempt perform good b' plan).1, logs' ++ [(attempt perform good b' plan).2]) ∧
        logs'.length < n) ∨
      (trials perform good plan n b).2.length = n ∧
        (∀ l ∈ (trials perform good plan n b).2, ¬passed good l) ∧
        I (trials perform good plan n b).1 (logs ++ (trials perform good plan n b).2) := by
  induction n generalizing b logs with
  | zero => exact Or.inr ⟨rfl, by simp [trials], by simpa [trials] using h⟩
  | succ n ih =>
    by_cases hpass : passed good (attempt perform good b plan).2
    · left
      exact ⟨b, [], by simpa using h, hpass, trials_succ_passed hpass n, by simp⟩
    · rw [trials_succ_failed hpass]
      rcases ih _ (hfailed b logs h hpass) with
        ⟨b', logs', hI, hpass', heq, hlen⟩ | ⟨hlen, hall, hI⟩
      · left
        refine ⟨b', (attempt perform good b plan).2 :: logs', by simpa using hI, hpass', ?_, ?_⟩
        · rw [heq, List.cons_append]
        · simpa using hlen
      · right
        refine ⟨by simpa using hlen, ?_, by simpa using hI⟩
        intro l hl
        rcases List.mem_cons.mp hl with rfl | hl
        · exact hpass
        · exact hall l hl

end Trials

end AoaBoard.Library.Retry
