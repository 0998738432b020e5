/-!
This module contains runs of transition systems whose steps meet a condition.
-/

/--
The states that a run reaches if each of its steps meets the condition.
-/
inductive Run (step : σ → α → σ → Prop) (meets : σ → α → Prop) : σ → σ → Prop where
  | refl (s : σ) : Run step meets s s
  | tail {s t u : σ} {a : α} (h : Run step meets s t) (hmeets : meets t a) (hstep : step t a u)
    : Run step meets s u

namespace Run

variable {step : σ → α → σ → Prop} {meets : σ → α → Prop} {s t : σ}

theorem invariant {inv : σ → Prop} (h : Run step meets s t) (hstart : inv s)
    (hpreserved : ∀ s a t, inv s → meets s a → step s a t → inv t) : inv t := by
  induction h with
  | refl => exact hstart
  | tail _ hmeets hstep ih => exact hpreserved _ _ _ ih hmeets hstep

def Visits (step : σ → α → σ → Prop) (meets : σ → α → Prop) (p : σ → Prop) (s t : σ) : Prop :=
  ∃ u, Run step meets s u ∧ p u ∧ Run step meets u t

theorem Visits.last {p : σ → Prop} (h : Run step meets s t) (ht : p t) : Visits step meets p s t :=
  ⟨t, h, ht, .refl t⟩

theorem Visits.tail {p : σ → Prop} {u : σ} {a : α} (h : Visits step meets p s t) (hmeets : meets t a)
    (hstep : step t a u) : Visits step meets p s u := by
  obtain ⟨v, hsv, hv, hvt⟩ := h
  exact ⟨v, hsv, hv, hvt.tail hmeets hstep⟩

def exec (step : σ → α → Option σ) (meets : σ → α → Prop) [∀ s a, Decidable (meets s a)] (s : σ)
    : List α → Option σ
  | [] => some s
  | a :: actions => if meets s a then (step s a).bind (exec step meets · actions) else none

theorem of_exec {step : σ → α → Option σ} {meets : σ → α → Prop} [∀ s a, Decidable (meets s a)]
    {s t : σ} {actions : List α} (h : exec step meets s actions = some t)
    : Run (fun s a t => step s a = some t) meets s t := by
  suffices hfrom : ∀ r, Run (fun s a t => step s a = some t) meets r s
      → Run (fun s a t => step s a = some t) meets r t from hfrom s (.refl s)
  induction actions generalizing s with
  | nil =>
    intro r hrun
    simp only [exec, Option.some.injEq] at h
    rw [← h]
    exact hrun
  | cons a actions ih =>
    intro r hrun
    rw [exec] at h
    split at h
    . next hmeets =>
      rw [Option.bind_eq_some_iff] at h
      obtain ⟨s', hstep, h⟩ := h
      apply ih h r
      apply hrun.tail hmeets hstep
    . simp at h

end Run
