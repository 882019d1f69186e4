/-
# Loops in small steps

A loop is a function `step` that takes each of its states to the next one or ends with a
result.  `Leads` is what can be reached, `Ends` that the loop comes to a result; both are
followed from the first step (`Ends.head`), and what the loop is at along the way decides
nothing about the result (`Ends.of_leads`, `Ends.unique`, `Ends.not_forever`).  A property
that every step keeps holds in every state (`Leads.invariant`).
-/
import Mathlib.Data.Nat.Notation
import Mathlib.Logic.Relation

namespace LoopSteps

variable {σ ρ : Type} {step : σ → σ ⊕ ρ} {s t : σ} {r r' : ρ}

/-- The states on the way from `s`. -/
def Leads (step : σ → σ ⊕ ρ) : σ → σ → Prop :=
  Relation.ReflTransGen fun s t => step s = .inl t

/-- From `s` the loop comes to the result `r`. -/
def Ends (step : σ → σ ⊕ ρ) (s : σ) (r : ρ) : Prop := ∃ t, Leads step s t ∧ step t = .inr r

theorem ends_of_eq_inr (h : step s = .inr r) : Ends step s r := ⟨s, .refl, h⟩

theorem Ends.head (h : step s = .inl t) (ht : Ends step t r) : Ends step s r := by
  obtain ⟨u, hu, hr⟩ := ht
  exact ⟨u, Relation.ReflTransGen.head h hu, hr⟩

/-- The result is the same in the next state. -/
theorem Ends.of_eq_inl (hr : Ends step s r) (h : step s = .inl t) : Ends step t r := by
  obtain ⟨u, hu, hr⟩ := hr
  rcases hu.cases_head with rfl | ⟨t', ht', hu⟩
  · rw [h] at hr
    cases hr
  · rw [h] at ht'
    obtain rfl := Sum.inl.inj ht'
    exact ⟨u, hu, hr⟩

/-- The result is the same in every state on the way. -/
theorem Ends.of_leads (hr : Ends step s r) (h : Leads step s t) : Ends step t r := by
  induction h with
  | refl => exact hr
  | tail _ hstep ih => exact ih.of_eq_inl hstep

theorem Ends.unique (h : Ends step s r) (h' : Ends step s r') : r = r' := by
  obtain ⟨t, ht, hr⟩ := h
  obtain ⟨u, hu, hr'⟩ := h'.of_leads ht
  rcases hu.cases_head with rfl | ⟨v, hv, -⟩
  · rw [hr] at hr'
    exact Sum.inr.inj hr'
  · rw [hr] at hv
    cases hv

/-- A loop that comes to a result does not go on forever. -/
theorem Ends.not_forever (h : Ends step s r) (run : ℕ → σ) (hstart : run 0 = s) :
    ¬ ∀ n, step (run n) = .inl (run (n + 1)) := by
  intro hrun
  obtain ⟨t, ht, hr⟩ := h
  -- every state on the way to the result is one of the run
  have hmem : ∃ n, run n = t := by
    clear hr
    induction ht with
    | refl => exact ⟨0, hstart⟩
    | tail _ hstep ih =>
        obtain ⟨n, rfl⟩ := ih
        rw [hrun n] at hstep
        exact ⟨n + 1, Sum.inl.inj hstep⟩
  obtain ⟨n, rfl⟩ := hmem
  rw [hrun n] at hr
  cases hr

/-- What every step keeps holds in every state on the way. -/
theorem Leads.invariant {P : σ → Prop} (hstep : ∀ s t, P s → step s = .inl t → P t) (hs : P s)
    (h : Leads step s t) : P t := by
  induction h with
  | refl => exact hs
  | tail _ hst ih => exact hstep _ _ ih hst

end LoopSteps
