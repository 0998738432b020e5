import Mathlib.Data.Finset.Card
import Mathlib.Data.Set.Basic

/-!
This module contains exact covers of a set of points by members of a family of sets.
-/

variable {α ν : Type*}

structure ExactCover (ext : ν → Set α) (target : Set α) (cover : Finset ν) : Prop where
  unique : ∀ a ∈ target, ∃! s, s ∈ cover ∧ a ∈ ext s
  sound : ∀ s ∈ cover, ext s ⊆ target

namespace ExactCover

variable {ext : ν → Set α} {target : Set α} {M S : Finset ν}

theorem card_le (hM : ExactCover ext target M) (hS : ExactCover ext target S)
    (hne : ∀ m ∈ M, (ext m).Nonempty) (hmax : ∀ s ∈ S, ∃ m ∈ M, ext s ⊆ ext m)
    : M.card ≤ S.card := by
  choose! f hf using hmax
  apply Finset.card_le_card_of_surjOn f
  intro m hm
  obtain ⟨a, ha⟩ := hne m hm
  have htarget := hM.sound m hm ha
  obtain ⟨s, ⟨hs, has⟩, _⟩ := hS.unique a htarget
  have hfm : f s = m := (hM.unique a htarget).unique ⟨(hf s hs).1, (hf s hs).2 has⟩ ⟨hm, ha⟩
  exact ⟨s, hs, hfm⟩

end ExactCover
