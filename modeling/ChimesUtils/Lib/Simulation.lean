import ChimesUtils.Lib.Run

/-!
# Forward simulation

A system refines another one when each of its steps is matched by a run of the other, with the same
visible labels.

* `ForwardSimulation`: the relation of the states, and the run that matches a step;
* `ForwardSimulation.run`: a run is matched by a run.
-/

namespace ChimesUtils.Lib

variable {σ τ ℓ κ ο : Type}

/-- `R` relates the states of the two systems; `see` and `see'` tell which labels are visible. -/
structure ForwardSimulation (Step : σ → ℓ → σ → Prop) (step' : τ → κ → Option τ)
    (see : ℓ → Option ο) (see' : κ → Option ο) (R : σ → τ → Prop) : Prop where
  step : ∀ s l s' t, R s t → Step s l s' →
    ∃ ks t', runAll step' ks t = some t' ∧ ks.filterMap see' = (see l).toList ∧ R s' t'

variable {Step : σ → ℓ → σ → Prop} {step' : τ → κ → Option τ} {see : ℓ → Option ο}
  {see' : κ → Option ο} {R : σ → τ → Prop}

/-- **All runs.** -/
theorem ForwardSimulation.run (h : ForwardSimulation Step step' see see' R) {s₀ s : σ} {t₀ : τ}
    {ls : List ℓ} (hR : R s₀ t₀) (hrun : Run Step s₀ ls s) :
    ∃ ks t, runAll step' ks t₀ = some t ∧ ks.filterMap see' = ls.filterMap see ∧ R s t := by
  induction hrun with
  | refl => exact ⟨[], t₀, rfl, rfl, hR⟩
  | @snoc ls s s' l _ hs ih =>
    obtain ⟨ks, t, ht, hks, hst⟩ := ih
    obtain ⟨ks', t', ht', hks', hst'⟩ := h.step s l s' t hst hs
    refine ⟨ks ++ ks', t', ?_, ?_, hst'⟩
    · rw [runAll_append, ht]
      exact ht'
    · rw [List.filterMap_append, List.filterMap_append, hks, hks']
      cases hl : see l <;> simp [hl]

theorem stutter {l : ℓ} {s' : σ} {t : τ} (hl : see l = none) (hR : R s' t) :
    ∃ ks t', runAll step' ks t = some t' ∧ ks.filterMap see' = (see l).toList ∧ R s' t' :=
  ⟨[], t, rfl, by rw [hl]; rfl, hR⟩

theorem match_step {l : ℓ} {k : κ} {s' : σ} {t t' : τ} (ht : step' t k = some t')
    (hk : see' k = see l) (hR : R s' t') :
    ∃ ks t', runAll step' ks t = some t' ∧ ks.filterMap see' = (see l).toList ∧ R s' t' := by
  refine ⟨[k], t', by rw [runAll, ht]; rfl, ?_, hR⟩
  rw [← hk]
  cases hsee : see' k <;> simp [hsee]

end ChimesUtils.Lib
