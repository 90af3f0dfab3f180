import Mathlib.Logic.Basic
import Mathlib.Data.List.Basic

/-!
# Finite runs of an event-driven machine with outputs

A machine is a function from a state and an event to the next state and the
outputs of that step. `after` and `outputs` execute a list of events, and
`Along` says that every step of the execution meets a condition on the state
before the step and the event. The rules below turn one-step facts into facts
about whole runs.
-/

namespace AoaBoard.Library.Run

variable {σ ε ο : Type*}

def after (step : σ → ε → σ × List ο) : σ → List ε → σ
  | s, [] => s
  | s, e :: es => after step (step s e).1 es

def outputs (step : σ → ε → σ × List ο) : σ → List ε → List ο
  | _, [] => []
  | s, e :: es => (step s e).2 ++ outputs step (step s e).1 es

def Along (step : σ → ε → σ × List ο) (C : σ → ε → Prop) : σ → List ε → Prop
  | _, [] => True
  | s, e :: es => C s e ∧ Along step C (step s e).1 es

variable {step : σ → ε → σ × List ο} {C D : σ → ε → Prop}

instance decidableAlong [∀ s e, Decidable (C s e)] :
    ∀ (s : σ) (es : List ε), Decidable (Along step C s es)
  | _, [] => inferInstanceAs (Decidable True)
  | s, e :: es =>
    have := decidableAlong (step s e).1 es
    inferInstanceAs (Decidable (C s e ∧ Along step C (step s e).1 es))

@[simp] theorem after_nil (s : σ) : after step s [] = s := rfl

@[simp] theorem after_cons (s : σ) (e : ε) (es : List ε) :
    after step s (e :: es) = after step (step s e).1 es := rfl

@[simp] theorem outputs_nil (s : σ) : outputs step s [] = [] := rfl

@[simp] theorem outputs_cons (s : σ) (e : ε) (es : List ε) :
    outputs step s (e :: es) = (step s e).2 ++ outputs step (step s e).1 es := rfl

theorem after_append (s : σ) (es fs : List ε) :
    after step s (es ++ fs) = after step (after step s es) fs := by
  induction es generalizing s with
  | nil => rfl
  | cons e es ih => exact ih _

theorem outputs_append (s : σ) (es fs : List ε) :
    outputs step s (es ++ fs) = outputs step s es ++ outputs step (after step s es) fs := by
  induction es generalizing s with
  | nil => rfl
  | cons e es ih => simp only [List.cons_append, outputs_cons, after_cons, ih, List.append_assoc]

theorem after_congr {π : Type*} {step' : σ → ε → σ × List π}
    (h : ∀ s e, (step' s e).1 = (step s e).1) (s : σ) (es : List ε) :
    after step' s es = after step s es := by
  induction es generalizing s with
  | nil => rfl
  | cons e es ih => rw [after_cons, after_cons, h, ih]

theorem outputs_forall {Q : ο → Prop} (h : ∀ s e, ∀ o ∈ (step s e).2, Q o) (s : σ) (es : List ε) :
    ∀ o ∈ outputs step s es, Q o := by
  induction es generalizing s with
  | nil => simp
  | cons e es ih =>
    intro o ho
    rcases List.mem_append.mp ho with ho | ho
    · exact h s e o ho
    · exact ih _ o ho

theorem outputs_forall_iff_along {Q : ο → Prop} (s : σ) (es : List ε) :
    (∀ o ∈ outputs step s es, Q o) ↔ Along step (fun t e => ∀ o ∈ (step t e).2, Q o) s es := by
  induction es generalizing s with
  | nil => simp [Along]
  | cons e es ih => rw [outputs_cons, List.forall_mem_append, ih, Along]

theorem outputs_length_le {n : ℕ} (h : ∀ s e, (step s e).2.length ≤ n) (s : σ) (es : List ε) :
    (outputs step s es).length ≤ n * es.length := by
  induction es generalizing s with
  | nil => simp
  | cons e es ih =>
    have hrest := ih (step s e).1
    have hfirst := h s e
    rw [outputs_cons, List.length_append, List.length_cons, Nat.mul_succ]
    omega

section Pass
variable {ι α : Type*} {pass : σ → ι → σ × List ο} {g : σ → α} {i : ι}

theorem after_other (hother : ∀ s j, j ≠ i → g (pass s j).1 = g s) {is : List ι}
    (hmem : i ∉ is) (s : σ) : g (after pass s is) = g s := by
  induction is generalizing s with
  | nil => rfl
  | cons j is ih =>
    obtain ⟨hj, hrest⟩ := not_or.mp (mt List.mem_cons.mpr hmem)
    rw [after_cons, ih hrest, hother s j (Ne.symm hj)]

theorem after_once (hother : ∀ s j, j ≠ i → g (pass s j).1 = g s) {x y : α}
    (hself : ∀ s, g s = x → g (pass s i).1 = y) {is : List ι} (hnodup : is.Nodup)
    (hmem : i ∈ is) {s : σ} (hs : g s = x) : g (after pass s is) = y := by
  induction is generalizing s with
  | nil => simp at hmem
  | cons j is ih =>
    obtain ⟨hj, hrest⟩ := List.nodup_cons.mp hnodup
    rcases List.mem_cons.mp hmem with rfl | htail
    · rw [after_cons, after_other hother hj, hself s hs]
    · have hne : j ≠ i := fun h => hj (h ▸ htail)
      exact ih hrest htail ((hother s j hne).trans hs)

theorem outputs_around (hother : ∀ s j, j ≠ i → g (pass s j).1 = g s) {is : List ι}
    (hnodup : is.Nodup) (hmem : i ∈ is) (s : σ) : ∃ us vs t, i ∉ us ∧ i ∉ vs ∧ g t = g s ∧
      outputs pass s is = outputs pass s us ++ (pass t i).2 ++ outputs pass (pass t i).1 vs := by
  obtain ⟨us, vs, rfl⟩ := List.append_of_mem hmem
  have hus : i ∉ us := fun h => (List.nodup_append.mp hnodup).2.2 i h i List.mem_cons_self rfl
  have hvs : i ∉ vs := (List.nodup_cons.mp (List.nodup_append.mp hnodup).2.1).1
  refine ⟨us, vs, after pass s us, hus, hvs, after_other hother hus s, ?_⟩
  rw [outputs_append, outputs_cons, List.append_assoc]

end Pass

theorem along_append (s : σ) (es fs : List ε) :
    Along step C s (es ++ fs) ↔ Along step C s es ∧ Along step C (after step s es) fs := by
  induction es generalizing s with
  | nil => simp [Along]
  | cons e es ih => simp only [List.cons_append, Along, after_cons, ih, and_assoc]

theorem along_congr {π : Type*} {step' : σ → ε → σ × List π}
    (h : ∀ s e, (step' s e).1 = (step s e).1) (s : σ) (es : List ε) :
    Along step' C s es ↔ Along step C s es := by
  induction es generalizing s with
  | nil => exact Iff.rfl
  | cons e es ih => rw [Along, Along, h, ih]

theorem along_of_forall_mem {c : ε → Prop} (s : σ) (es : List ε) (h : ∀ e ∈ es, c e) :
    Along step (fun _ e => c e) s es := by
  induction es generalizing s with
  | nil => trivial
  | cons e es ih =>
    exact ⟨h e List.mem_cons_self, ih _ fun f hf => h f (List.mem_cons_of_mem e hf)⟩

theorem along_trivial (s : σ) (es : List ε) : Along step (fun _ _ => True) s es :=
  along_of_forall_mem s es fun _ _ => trivial

theorem along_of_invariant {P : σ → Prop} (hkeep : ∀ s e, P s → C s e → P (step s e).1)
    (hfact : ∀ s e, P s → C s e → D s e) {s : σ} (hs : P s) {es : List ε}
    (hes : Along step C s es) : Along step D s es := by
  induction es generalizing s with
  | nil => trivial
  | cons e es ih => exact ⟨hfact s e hs hes.1, ih (hkeep s e hs hes.1) hes.2⟩

theorem after_invariant {P : σ → Prop} (hkeep : ∀ s e, P s → C s e → P (step s e).1)
    {s : σ} (hs : P s) {es : List ε} (hes : Along step C s es) : P (after step s es) := by
  induction es generalizing s with
  | nil => exact hs
  | cons e es ih => exact ih (hkeep s e hs hes.1) hes.2

theorem after_related {R : σ → σ → Prop} (hrefl : ∀ s, R s s)
    (htrans : ∀ s t u, R s t → R t u → R s u) (hstep : ∀ s e, R s (step s e).1) (s : σ)
    (es : List ε) : R s (after step s es) :=
  after_invariant (P := R s) (fun t e ht _ => htrans s t _ ht (hstep t e)) (hrefl s)
    (along_trivial s es)

/-- What every step does to the state and the outputs, and what composes, every run does. -/
theorem run_composes {Q : σ → σ × List ο → Prop} (hrefl : ∀ s, Q s (s, []))
    (htrans : ∀ s r q, Q s r → Q r.1 q → Q s (q.1, r.2 ++ q.2)) (hstep : ∀ s e, Q s (step s e))
    (s : σ) (es : List ε) : Q s (after step s es, outputs step s es) := by
  induction es generalizing s with
  | nil => exact hrefl s
  | cons e es ih => exact htrans s (step s e) _ (hstep s e) (ih (step s e).1)

/-- Two machines whose steps keep a relation and have the same outputs have the same runs. -/
theorem simulates {τ : Type*} {step' : τ → ε → τ × List ο} {R : σ → τ → Prop} {E : ε → Prop}
    (hstep : ∀ s t e, E e → R s t → R (step s e).1 (step' t e).1 ∧ (step s e).2 = (step' t e).2)
    {s : σ} {t : τ} (hst : R s t) {es : List ε} (hes : ∀ e ∈ es, E e) :
    R (after step s es) (after step' t es) ∧ outputs step s es = outputs step' t es := by
  induction es generalizing s t with
  | nil => exact ⟨hst, rfl⟩
  | cons e es ih =>
    obtain ⟨he, hrest⟩ := List.forall_mem_cons.mp hes
    obtain ⟨hnext, houtput⟩ := hstep s t e he hst
    obtain ⟨hend, houtputs⟩ := ih hnext hrest
    rw [outputs_cons, outputs_cons, houtput, houtputs]
    exact ⟨hend, rfl⟩

theorem along_iff_of_invariant {P : σ → Prop} (hiff : ∀ s e, P s → (C s e ↔ D s e))
    (hkeep : ∀ s e, P s → D s e → P (step s e).1) {s : σ} (hs : P s) (es : List ε) :
    Along step C s es ↔ Along step D s es := by
  induction es generalizing s with
  | nil => exact Iff.rfl
  | cons e es ih =>
    simp only [Along, hiff s e hs]
    constructor
    · rintro ⟨hd, hrest⟩
      exact ⟨hd, (ih (hkeep s e hs hd)).mp hrest⟩
    · rintro ⟨hd, hrest⟩
      exact ⟨hd, (ih (hkeep s e hs hd)).mpr hrest⟩

theorem along_and (s : σ) (es : List ε) :
    Along step (fun t e => C t e ∧ D t e) s es ↔ Along step C s es ∧ Along step D s es := by
  induction es generalizing s with
  | nil => exact (and_self_iff).symm
  | cons e es ih => rw [Along, Along, Along, ih, and_and_and_comm]

/-- Two step conditions that agree on the allowed steps from the invariant's states have the
same runs among those whose steps are allowed. -/
theorem along_iff_of_allowed {A : σ → ε → Prop} {P : σ → Prop}
    (hiff : ∀ s e, P s → A s e → (C s e ↔ D s e)) (hkeep : ∀ s e, P s → A s e → P (step s e).1)
    {s : σ} (hs : P s) {es : List ε} (hes : Along step A s es) :
    Along step C s es ↔ Along step D s es := by
  induction es generalizing s with
  | nil => exact Iff.rfl
  | cons e es ih =>
    obtain ⟨he, hrest⟩ := hes
    rw [Along, Along, hiff s e hs he, ih (hkeep s e hs he) hrest]

/-- Where an invariant holds as long as the property does, and each allowed step keeps the
property exactly under `D`, the property holds in every state of a run if and only if every
step meets `D`. -/
theorem reached_iff_along_of {I P : σ → Prop}
    (hkeep : ∀ s e, I s → P s → C s e → P (step s e).1 → I (step s e).1)
    (hiff : ∀ s e, I s → P s → C s e → (P (step s e).1 ↔ D s e)) {s : σ} (hi : I s) (hp : P s)
    {es : List ε} (hes : Along step C s es) :
    (∀ pre, pre <+: es → P (after step s pre)) ↔ Along step D s es := by
  induction es generalizing s with
  | nil =>
    refine ⟨fun _ => trivial, fun _ pre hpre => ?_⟩
    rw [List.prefix_nil.mp hpre]
    exact hp
  | cons e es ih =>
    obtain ⟨he, hrest⟩ := hes
    constructor
    · intro h
      have hp' : P (step s e).1 := h [e] ⟨es, rfl⟩
      have hnext := hkeep s e hi hp he hp'
      refine ⟨(hiff s e hi hp he).mp hp', (ih hnext hp' hrest).mp fun pre hpre => ?_⟩
      exact h (e :: pre) (List.cons_prefix_cons.mpr ⟨rfl, hpre⟩)
    · rintro ⟨hd, hds⟩ pre hpre
      have hp' : P (step s e).1 := (hiff s e hi hp he).mpr hd
      have hnext := hkeep s e hi hp he hp'
      cases pre with
      | nil => exact hp
      | cons f pre =>
        obtain ⟨rfl, hpre'⟩ := List.cons_prefix_cons.mp hpre
        exact (ih hnext hp' hrest).mpr hds pre hpre'

theorem reached_iff_along {I P : σ → Prop} {c : ε → Prop}
    (hkeep : ∀ s e, I s → P s → c e → P (step s e).1 → I (step s e).1)
    (hiff : ∀ s e, I s → P s → c e → (P (step s e).1 ↔ D s e)) {s : σ} (hi : I s) (hp : P s)
    {es : List ε} (hes : ∀ e ∈ es, c e) :
    (∀ pre, pre <+: es → P (after step s pre)) ↔ Along step D s es :=
  reached_iff_along_of (C := fun _ e => c e) hkeep hiff hi hp (along_of_forall_mem s es hes)

theorem history_invariant {P : List ο → σ → Prop}
    (hkeep : ∀ h s e, P h s → C s e → P (h ++ (step s e).2) (step s e).1)
    {h : List ο} {s : σ} (hs : P h s) {es : List ε} (hes : Along step C s es) :
    P (h ++ outputs step s es) (after step s es) := by
  induction es generalizing h s with
  | nil => simpa using hs
  | cons e es ih =>
    have hnext := ih (hkeep h s e hs hes.1) hes.2
    rwa [List.append_assoc] at hnext

section Refinement
variable {α β τ : Type*} {watch : σ → ε → σ × List (α × β)} {spec : τ → α → τ × List β}
  {R : σ → τ → Prop}

/-- A machine that shows, at some of its steps, what it was given and what it answered. It
gives the answers of `spec` if and only if every step meets `D`, provided that a silent step
keeps the relation, and that a step which shows something meets `D` exactly when it answers as
`spec` does, in which case it keeps the relation. -/
theorem answers_iff_along
    (hquiet : ∀ s e t, R s t → C s e → (watch s e).2 = [] → D s e ∧ R (watch s e).1 t)
    (hshown : ∀ s e t, R s t → C s e → (watch s e).2 ≠ [] → ∃ a b, (watch s e).2 = [(a, b)] ∧
      ((spec t a).2 = [b] ↔ D s e) ∧ (D s e → R (watch s e).1 (spec t a).1))
    (hsingle : ∀ t a, (spec t a).2.length = 1) {s : σ} {t : τ} (hst : R s t) {es : List ε}
    (hes : Along watch C s es) :
    (outputs watch s es).map Prod.snd = outputs spec t ((outputs watch s es).map Prod.fst) ↔
      Along watch D s es := by
  induction es generalizing s t with
  | nil => exact iff_of_true rfl trivial
  | cons e es ih =>
    obtain ⟨he, hrest⟩ := hes
    rw [outputs_cons, Along]
    by_cases hnil : (watch s e).2 = []
    · obtain ⟨hd, hnext⟩ := hquiet s e t hst he hnil
      rw [hnil, List.nil_append, and_iff_right hd]
      exact ih hnext hrest
    · obtain ⟨a, b, hab, hiff, hkeep⟩ := hshown s e t hst he hnil
      obtain ⟨c, hc⟩ := List.length_eq_one_iff.mp (hsingle t a)
      rw [hab, ← hiff]
      simp only [List.cons_append, List.nil_append, List.map_cons, outputs_cons, hc,
        List.cons.injEq, and_true]
      rw [eq_comm (a := b)]
      refine and_congr_right fun hcb => ih (hkeep (hiff.mp ?_)) hrest
      rw [hc, hcb]

theorem related_of_along
    (hquiet : ∀ s e t, R s t → C s e → (watch s e).2 = [] → D s e ∧ R (watch s e).1 t)
    (hshown : ∀ s e t, R s t → C s e → (watch s e).2 ≠ [] → ∃ a b, (watch s e).2 = [(a, b)] ∧
      ((spec t a).2 = [b] ↔ D s e) ∧ (D s e → R (watch s e).1 (spec t a).1))
    {s : σ} {t : τ} (hst : R s t) {es : List ε} (hes : Along watch C s es)
    (hds : Along watch D s es) :
    R (after watch s es) (after spec t ((outputs watch s es).map Prod.fst)) := by
  induction es generalizing s t with
  | nil => exact hst
  | cons e es ih =>
    obtain ⟨he, hrest⟩ := hes
    obtain ⟨hd, hds⟩ := hds
    rw [outputs_cons, after_cons]
    by_cases hnil : (watch s e).2 = []
    · rw [hnil, List.nil_append]
      exact ih (hquiet s e t hst he hnil).2 hrest hds
    · obtain ⟨a, b, hab, -, hkeep⟩ := hshown s e t hst he hnil
      rw [hab, List.cons_append, List.nil_append, List.map_cons, after_cons]
      exact ih (hkeep hd) hrest hds

end Refinement

end AoaBoard.Library.Run
