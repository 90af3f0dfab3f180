import AoaBoard.Library.Run
import Mathlib.Logic.Function.Basic

/-!
# Parties that exchange messages

Each party is a machine. What its outputs put into the air stays there: a
message may be lost, come late, come more than once and overtake others, but a
party hears nothing that was not sent. The run leaves one record for each step.
A property of the parties and a property of the messages that refer to what has
happened so far carry each other through every run, provided that what has
happened only adds to them and that a party which hears good messages stays
sound and sends good messages.
-/

namespace AoaBoard.Library.Network
open Run

variable {ι σ α μ ο : Type*} [DecidableEq ι]

/-- `own` are the inputs that come from a party itself, `carries` says which inputs bring a
message to it. -/
structure System (ι σ α μ ο : Type*) where
  react : ι → σ → α → σ × List ο
  sent : ι → ο → Option μ
  own : ι → α → Prop
  carries : ι → μ → α → Prop

structure Net (ι σ μ : Type*) where
  party : ι → σ
  air : List μ

structure Record (ι σ α ο : Type*) where
  party : ι
  before : σ
  input : α
  after : σ
  outputs : List ο

def System.record (S : System ι σ α μ ο) (i : ι) (s : σ) (a : α) : Record ι σ α ο :=
  ⟨i, s, a, (S.react i s a).1, (S.react i s a).2⟩

def System.step (S : System ι σ α μ ο) (n : Net ι σ μ) (e : ι × α) :
    Net ι σ μ × List (Record ι σ α ο) :=
  let r := S.record e.1 (n.party e.1) e.2
  (⟨Function.update n.party e.1 r.after, n.air ++ r.outputs.filterMap (S.sent e.1)⟩, [r])

def System.Heard (S : System ι σ α μ ο) (n : Net ι σ μ) (e : ι × α) : Prop :=
  S.own e.1 e.2 ∨ ∃ m ∈ n.air, S.carries e.1 m e.2

/-- `Sound` and `Good` carry each other. -/
structure Carried (S : System ι σ α μ ο) (Sound : List (Record ι σ α ο) → ι → σ → Prop)
    (Good : List (Record ι σ α ο) → μ → Prop) : Prop where
  sound_mono : ∀ {h h' i s}, h ⊆ h' → Sound h i s → Sound h' i s
  good_mono : ∀ {h h' m}, h ⊆ h' → Good h m → Good h' m
  sound_step : ∀ {h i s a}, Sound h i s → (S.own i a ∨ ∃ m, Good h m ∧ S.carries i m a) →
    Sound (h ++ [S.record i s a]) i (S.react i s a).1
  good_step : ∀ {h i s a}, Sound h i s → (S.own i a ∨ ∃ m, Good h m ∧ S.carries i m a) →
    ∀ o ∈ (S.react i s a).2, ∀ m, S.sent i o = some m → Good (h ++ [S.record i s a]) m

variable {S : System ι σ α μ ο} {Sound : List (Record ι σ α ο) → ι → σ → Prop}
  {Good : List (Record ι σ α ο) → μ → Prop}

omit [DecidableEq ι] in
theorem heard_good {h : List (Record ι σ α ο)} {n : Net ι σ μ} {e : ι × α}
    (hair : ∀ m ∈ n.air, Good h m) (he : S.Heard n e) :
    S.own e.1 e.2 ∨ ∃ m, Good h m ∧ S.carries e.1 m e.2 := by
  rcases he with hown | ⟨m, hm, hcarries⟩
  · exact Or.inl hown
  · exact Or.inr ⟨m, hair m hm, hcarries⟩

theorem Carried.step (hc : Carried S Sound Good) {h : List (Record ι σ α ο)} {n : Net ι σ μ}
    {e : ι × α} (hparty : ∀ i, Sound h i (n.party i)) (hair : ∀ m ∈ n.air, Good h m)
    (he : S.Heard n e) : (∀ i, Sound (h ++ (S.step n e).2) i ((S.step n e).1.party i)) ∧
      ∀ m ∈ (S.step n e).1.air, Good (h ++ (S.step n e).2) m := by
  have hsub : h ⊆ h ++ (S.step n e).2 := List.subset_append_left _ _
  have hgood := heard_good hair he
  constructor
  · intro i
    by_cases hi : i = e.1
    · subst hi
      simp only [System.step, Function.update_self]
      exact hc.sound_step (hparty e.1) hgood
    · simp only [System.step, Function.update_of_ne hi]
      exact hc.sound_mono hsub (hparty i)
  · intro m hm
    rcases List.mem_append.mp hm with hm | hm
    · exact hc.good_mono hsub (hair m hm)
    · obtain ⟨o, ho, hsent⟩ := List.mem_filterMap.mp hm
      exact hc.good_step (hparty e.1) hgood o ho m hsent

/-- In every state that is reached the parties are sound and the messages in the air good. -/
theorem Carried.run (hc : Carried S Sound Good) {n : Net ι σ μ} {es : List (ι × α)}
    (hstart : ∀ i, Sound [] i (n.party i)) (hair : n.air = [])
    (hes : Along S.step S.Heard n es) :
    (∀ i, Sound (outputs S.step n es) i ((after S.step n es).party i)) ∧
      ∀ m ∈ (after S.step n es).air, Good (outputs S.step n es) m := by
  have hrun := @history_invariant _ _ _ S.step S.Heard
    (fun h n => (∀ i, Sound h i (n.party i)) ∧ ∀ m ∈ n.air, Good h m)
    (fun h n e hn he => hc.step hn.1 hn.2 he) [] n ⟨hstart, by simp [hair]⟩ es hes
  rwa [List.nil_append] at hrun

end AoaBoard.Library.Network
