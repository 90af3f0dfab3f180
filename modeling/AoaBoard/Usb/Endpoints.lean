import AoaBoard.Usb.Queues
import Mathlib.Data.Fintype.Card

/-!
# The lists of endpoints

`InsertEndpoint` puts an endpoint at the head of its list and `RemoveEndpoint`
looks for it from the static ED on. The lists hold the open endpoints, each one
in the list of its kind.
-/

namespace AoaBoard.Usb.Ohci
open Library.Links

namespace Lists
variable {S S' : Shape} {L : ListHead → List (Fin maxEd)} {e : Fin maxEd} {d : Endpoint}
  {h : ListHead} {u m : List (Fin maxEd)}

theorem congr (hL : Lists S L) (hstatic : S'.staticEDs = S.staticEDs)
    (heds : ∀ e, (S'.eds e).opened = (S.eds e).opened ∧ ((S.eds e).opened = true →
      (S'.eds e).nextED = (S.eds e).nextED ∧ (S'.eds e).listIndex = (S.eds e).listIndex)) :
    Lists S' L where
  chains := by
    rw [hstatic]
    exact hL.chains.congr fun h e he => ((heds e).2 ((hL.mem h e).mp he).1).1
  mem := fun h e => by
    rw [(heds e).1, hL.mem h e]
    exact and_congr_right fun he => by rw [((heds e).2 he).2]

theorem setEd (hL : Lists S L) (hopened : d.opened = (S.eds e).opened)
    (hsame : (S.eds e).opened = true → d.nextED = (S.eds e).nextED ∧
      d.listIndex = (S.eds e).listIndex) : Lists (S.setEd e d) L := by
  refine hL.congr rfl fun e' => ?_
  by_cases he : e' = e
  · subst he
    rw [Shape.setEd_eds, Function.update_self]
    exact ⟨hopened, hsame⟩
  · rw [Shape.setEd_eds, Function.update_of_ne he]
    exact ⟨rfl, fun _ => ⟨rfl, rfl⟩⟩

theorem not_mem (hL : Lists S L) (he : (S.eds e).opened = false) (h : ListHead) : e ∉ L h :=
  fun hmem => by simp [((hL.mem h e).mp hmem).1] at he

theorem mem_self (hL : Lists S L) (he : (S.eds e).opened = true) :
    e ∈ L (S.eds e).listIndex := (hL.mem _ e).mpr ⟨he, rfl⟩

theorem nextED_setEd (S : Shape) (e : Fin maxEd) (d : Endpoint) :
    (fun x => ((S.setEd e d).eds x).nextED) =
      Function.update (fun x => (S.eds x).nextED) e d.nextED := by
  funext x
  by_cases hx : x = e
  · subst hx
    simp
  · simp [hx]

theorem insert (hL : Lists S L) (he : (S.eds e).opened = false) (hopened : d.opened = true)
    (hnext : d.nextED = S.staticEDs d.listIndex) :
    Lists { S.setEd e d with staticEDs := Function.update S.staticEDs d.listIndex (some e) }
      (Function.update L d.listIndex (e :: L d.listIndex)) where
  chains := by
    have hchains := hL.chains.push (c := d.listIndex) (hL.not_mem he)
    rw [← hnext, ← nextED_setEd] at hchains
    exact hchains
  mem := fun h x => by
    have hx : x ≠ e → (x ∈ L h ↔ ((S.setEd e d).eds x).opened = true ∧
        ((S.setEd e d).eds x).listIndex = h) := fun hne => by
      rw [Shape.setEd_eds, Function.update_of_ne hne]
      exact hL.mem h x
    have hself : (S.setEd e d).eds e = d := Function.update_self _ _ _
    by_cases hh : h = d.listIndex
    · subst hh
      rw [Function.update_self, List.mem_cons]
      by_cases hne : x = e
      · subst hne
        exact iff_of_true (Or.inl rfl) (hself.symm ▸ ⟨hopened, rfl⟩)
      · rw [or_iff_right hne]
        exact hx hne
    · rw [Function.update_of_ne hh]
      by_cases hne : x = e
      · subst hne
        refine iff_of_false (hL.not_mem he h) fun hmem => hh ?_
        have hindex := hmem.2
        simp only [hself] at hindex
        exact hindex.symm
      · exact hx hne

theorem split (hL : Lists S L) (he : (S.eds e).opened = true) :
    ∃ u m, L (S.eds e).listIndex = u ++ e :: m ∧ e ∉ u ++ m := by
  obtain ⟨u, m, hum⟩ := List.append_of_mem (hL.mem_self he)
  have hnodup := hL.chains.nodup (S.eds e).listIndex
  rw [hum] at hnodup
  exact ⟨u, m, hum, (List.nodup_middle.mp hnodup |> List.nodup_cons.mp).1⟩

theorem close (hL : Lists S L) (he : (S.eds e).opened = true)
    (hum : L (S.eds e).listIndex = u ++ e :: m) (hnot : e ∉ u ++ m)
    (hchains : Chains (fun x => (S'.eds x).nextED) S'.staticEDs
      (Function.update L (S.eds e).listIndex (u ++ m)))
    (heds : ∀ x, (S'.eds x).opened = (S.eds x).opened ∧ (S'.eds x).listIndex = (S.eds x).listIndex)
    (hclosed : d.opened = false) :
    Lists (S'.setEd e d) (Function.update L (S.eds e).listIndex (u ++ m)) := by
  have hgone : ∀ h, e ∉ Function.update L (S.eds e).listIndex (u ++ m) h := fun h hmem => by
    by_cases hh : h = (S.eds e).listIndex
    · subst hh
      rw [Function.update_self] at hmem
      exact hnot hmem
    · rw [Function.update_of_ne hh] at hmem
      exact hh (hL.chains.apart hmem (hL.mem_self he))
  refine ⟨?_, fun h x => ?_⟩
  · rw [nextED_setEd]
    exact hchains.update hgone
  · by_cases hx : x = e
    · subst hx
      rw [Shape.setEd_eds, Function.update_self]
      exact iff_of_false (hgone h) (by simp [hclosed])
    · rw [Shape.setEd_eds, Function.update_of_ne hx, (heds x).1, (heds x).2, ← hL.mem h x]
      by_cases hh : h = (S.eds e).listIndex
      · subst hh
        rw [Function.update_self, hum]
        simp [hx]
      · rw [Function.update_of_ne hh]

end Lists

section Remove
variable {s : Host} {L : ListHead → List (Fin maxEd)} {e b first : Fin maxEd}
  {u m : List (Fin maxEd)}

theorem findPrev_eq {fuel : ℕ}
    (h : Linked (fun x => (s.eds x).nextED) (some first) (u ++ b :: e :: m))
    (he : e ∉ u ++ [b]) (hfuel : u.length < fuel) : findPrev s e fuel first = some b := by
  induction u generalizing first fuel with
  | nil =>
    obtain ⟨k, rfl⟩ : ∃ k, fuel = k + 1 := ⟨fuel - 1, by simp at hfuel; omega⟩
    obtain rfl := Option.some.inj h.1
    simp only [findPrev, if_pos h.2.1]
  | cons c u ih =>
    obtain ⟨k, rfl⟩ : ∃ k, fuel = k + 1 := ⟨fuel - 1, by simp at hfuel; omega⟩
    obtain rfl := Option.some.inj h.1
    have hrest : ∃ n, (s.eds first).nextED = some n ∧ n ≠ e ∧
        Linked (fun x => (s.eds x).nextED) (some n) (u ++ b :: e :: m) := by
      have hlinked := h.2
      cases u with
      | nil => exact ⟨b, hlinked.1, fun heq => he (by simp [heq]), rfl, hlinked.2⟩
      | cons n u => exact ⟨n, hlinked.1, fun heq => he (by simp [heq]), rfl, hlinked.2⟩
    obtain ⟨n, hn, hne, hlinked⟩ := hrest
    have hne' : some n ≠ some e := fun heq => hne (Option.some.inj heq)
    simp only [findPrev, hn, if_neg hne']
    exact ih hlinked (fun hmem => he (List.mem_cons_of_mem _ hmem)) (by simpa using hfuel)

theorem removeEndpoint_eq (hL : Lists s.shape L) (he : (s.shape.eds e).opened = true) :
    ∃ s' u m, removeEndpoint s e = some s' ∧ L (s.eds e).listIndex = u ++ e :: m ∧ e ∉ u ++ m ∧
      Chains (fun x => (s'.shape.eds x).nextED) s'.shape.staticEDs
        (Function.update L (s.eds e).listIndex (u ++ m)) ∧
      s' = { s with eds := s'.eds, staticEDs := s'.staticEDs } ∧
      ∀ x, s'.eds x = { s.eds x with nextED := (s'.eds x).nextED } := by
  obtain ⟨u, m, hum, hnot⟩ := hL.split he
  have hlinked := hL.chains.linked (s.eds e).listIndex
  rw [show L (s.eds e).listIndex = u ++ e :: m from hum] at hlinked
  cases u using List.reverseRecOn with
  | nil =>
    have hfirst : s.staticEDs (s.eds e).listIndex = some e := hlinked.1
    refine ⟨{ s with
        staticEDs := Function.update s.staticEDs (s.eds e).listIndex (s.eds e).nextED },
      [], m, by simp only [removeEndpoint, if_pos hfirst], hum, hnot, ?_, rfl, fun _ => rfl⟩
    exact hL.chains.pop hum
  | append_singleton v b =>
    have hvb : v ++ [b] ++ e :: m = v ++ b :: e :: m := by simp
    have hnotv : e ∉ v ++ [b] := fun hmem => hnot (List.mem_append_left m hmem)
    rw [hvb] at hlinked
    obtain ⟨first, hfirst, hne⟩ :
        ∃ first, s.staticEDs (s.eds e).listIndex = some first ∧ first ≠ e := by
      cases v with
      | nil => exact ⟨b, hlinked.1, fun heq => hnotv (by simp [heq])⟩
      | cons c v => exact ⟨c, hlinked.1, fun heq => hnotv (by simp [heq])⟩
    have hne' : some first ≠ some e := fun heq => hne (Option.some.inj heq)
    have hlen : v.length < maxEd := by
      have hcard := (hL.chains.nodup (s.eds e).listIndex).length_le_card
      rw [show L (s.eds e).listIndex = _ from hum, Fintype.card_fin, hvb] at hcard
      simp only [List.length_append, List.length_cons] at hcard
      omega
    rw [show s.shape.staticEDs = s.staticEDs from rfl, hfirst] at hlinked
    have hprev := findPrev_eq hlinked hnotv hlen
    refine ⟨s.setEd b { s.eds b with nextED := (s.eds e).nextED }, v ++ [b], m,
      by simp only [removeEndpoint, hfirst, if_neg hne', hprev, Option.map_some], hum, hnot, ?_,
      rfl, fun x => ?_⟩
    · rw [shape_setEd, Lists.nextED_setEd, List.append_assoc]
      have hchains := hL.chains.unlink (c := (s.eds e).listIndex) (u := v)
        ((show L (s.eds e).listIndex = _ from hum).trans hvb)
      exact hchains
    · by_cases hx : x = b
      · subst hx
        simp [Host.setEd]
      · simp [Host.setEd, hx]

end Remove

end AoaBoard.Usb.Ohci
