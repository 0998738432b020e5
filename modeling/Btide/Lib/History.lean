/-!
This module contains runs of transition systems together with the steps that they consist of, and the
rules for runs that end.
-/

/--
A run and its steps, the last one first. A step is kept with the state that it was taken in.
-/
inductive Trace (step : σ → α → σ → Prop) (s : σ) : List (σ × α) → σ → Prop where
  | nil : Trace step s [] s
  | cons {t u : σ} {a : α} {hist : List (σ × α)} (h : Trace step s hist t) (hstep : step t a u)
    : Trace step s ((t, a) :: hist) u

namespace Trace

variable {step : σ → α → σ → Prop} {s t u : σ} {hist hist' : List (σ × α)} {inv : σ → Prop}

theorem invariant (h : Trace step s hist t) (hstart : inv s)
    (hpreserved : ∀ s a t, inv s → step s a t → inv t) : inv t := by
  induction h with
  | nil => exact hstart
  | cons _ hstep ih => exact hpreserved _ _ _ ih hstep

theorem exists_step {a : α} (h : Trace step s hist u) (hmem : (t, a) ∈ hist) : ∃ v, step t a v := by
  induction h with
  | nil => simp at hmem
  | cons _ hstep ih =>
    rw [List.mem_cons, Prod.mk.injEq] at hmem
    rcases hmem with ⟨rfl, rfl⟩ | hmem
    . exact ⟨_, hstep⟩
    . exact ih hmem

theorem trans (h : Trace step s hist t) (h' : Trace step t hist' u) : Trace step s (hist' ++ hist) u := by
  induction h' with
  | nil => exact h
  | cons _ hstep ih => exact ih.cons hstep

theorem mono {step' : σ → α → σ → Prop} (h : Trace step s hist t)
    (himp : ∀ s a t, step s a t → step' s a t) : Trace step' s hist t := by
  induction h with
  | nil => exact .nil
  | cons _ hstep ih => exact ih.cons (himp _ _ _ hstep)

theorem strengthen (h : Trace step s hist t) (hstart : inv s)
    (hpreserved : ∀ s a t, inv s → step s a t → inv t)
    : Trace (fun s a t => inv s ∧ step s a t) s hist t := by
  induction h with
  | nil => exact .nil
  | cons hrun hstep ih => exact ih.cons ⟨hrun.invariant hstart hpreserved, hstep⟩

theorem with_mem (h : Trace step s hist t)
    : Trace (fun s a t => (s, a) ∈ hist ∧ step s a t) s hist t := by
  induction h with
  | nil => exact .nil
  | cons _ hstep ih =>
    refine .cons (ih.mono ?_) ⟨List.mem_cons_self, hstep⟩
    intro _ _ _ h
    exact ⟨List.mem_cons_of_mem _ h.1, h.2⟩

theorem holds_of_mem {p : σ → Prop} {a : α} (h : Trace step s hist u) (hmem : (t, a) ∈ hist)
    (hstart : inv s) (hpreserved : ∀ s a t, inv s → step s a t → inv t)
    (hbegins : ∀ u, inv t → step t a u → p u)
    (hkeeps : ∀ s a t, inv s → p s → step s a t → p t) : p u := by
  induction h with
  | nil => simp at hmem
  | cons hrun hstep ih =>
    have hinv := hrun.invariant hstart hpreserved
    rw [List.mem_cons] at hmem
    cases hmem with
    | inl heq =>
      rw [Prod.mk.injEq] at heq
      rw [← heq.1, ← heq.2] at hstep
      rw [← heq.1] at hinv
      exact hbegins _ hinv hstep
    | inr hmem => exact hkeeps _ _ _ hinv (ih hmem) hstep

theorem length_add_le {measure : σ → Nat} (h : Trace step s hist t) (hstart : inv s)
    (hlower : ∀ s a t, inv s → step s a t → inv t ∧ measure t < measure s)
    : hist.length + measure t ≤ measure s := by
  have hpreserved (s : σ) (a : α) (t : σ) (hinv : inv s) (hstep : step s a t) : inv t :=
    (hlower s a t hinv hstep).1
  induction h with
  | nil => simp
  | cons hrun hstep ih =>
    have hless := (hlower _ _ _ (hrun.invariant hstart hpreserved) hstep).2
    rw [List.length_cons]
    omega

theorem exists_final {measure : σ → Nat} {final : σ → Prop}
    (hprogress : ∀ s, inv s → ¬ final s → ∃ a t, step s a t ∧ inv t ∧ measure t < measure s)
    (hstart : inv s) : ∃ hist t, Trace step s hist t ∧ inv t ∧ final t := by
  induction hm : measure s using Nat.strongRecOn generalizing s with
  | ind m ih =>
    by_cases hfinal : final s
    . exact ⟨[], s, .nil, hstart, hfinal⟩
    . obtain ⟨a, t, hstep, hinv, hless⟩ := hprogress s hstart hfinal
      rw [hm] at hless
      obtain ⟨hist, u, hrun, hend⟩ := ih (measure t) hless hinv rfl
      exact ⟨hist ++ [(s, a)], u, (Trace.nil.cons hstep).trans hrun, hend⟩

end Trace
