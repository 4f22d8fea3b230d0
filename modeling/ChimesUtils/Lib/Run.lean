import Mathlib

/-!
# Runs of a labelled system

A system is a step relation on states with labels, or a partial step function (`Steps`). `Run Step s₀
ls s` says that the labels `ls` lead from `s₀` to `s`.

* `Run.invariant`: what holds at the start and is kept by every step holds in every state reached;
* `Under Good Step`: the steps that meet a condition on the state before and the label;
* `runAll`: the state after a list of labels, computed;
* `Throughout P`: `P` holds in every state that a list of labels passes through, and
  `AllSteps Good`: every step it takes meets a condition (`throughout_iff_allSteps`).
-/

namespace ChimesUtils.Lib

variable {σ ℓ : Type}

/-- The labels lead from `s₀` to the state. -/
inductive Run (Step : σ → ℓ → σ → Prop) (s₀ : σ) : List ℓ → σ → Prop
  | refl : Run Step s₀ [] s₀
  | snoc {ls : List ℓ} {s s' : σ} {l : ℓ} :
      Run Step s₀ ls s → Step s l s' → Run Step s₀ (ls ++ [l]) s'

/-- The steps of a partial step function. -/
def Steps (step : σ → ℓ → Option σ) (s : σ) (l : ℓ) (s' : σ) : Prop := step s l = some s'

/-- The steps that meet a condition. -/
def Under (Good : σ → ℓ → Prop) (Step : σ → ℓ → σ → Prop) (s : σ) (l : ℓ) (s' : σ) : Prop :=
  Good s l ∧ Step s l s'

/-- The state after the labels. -/
def runAll (step : σ → ℓ → Option σ) : List ℓ → σ → Option σ
  | [], s => some s
  | l :: ls, s => (step s l).bind (runAll step ls)

/-- The predicate holds in every state that the labels pass through. -/
def Throughout (P : σ → Prop) (step : σ → ℓ → Option σ) : List ℓ → σ → Prop
  | [], s => P s
  | l :: ls, s => P s ∧ ∀ s', step s l = some s' → Throughout P step ls s'

/-- Every label meets the condition in the state where it comes. -/
def AllSteps (Good : σ → ℓ → Prop) (step : σ → ℓ → Option σ) : List ℓ → σ → Prop
  | [], _ => True
  | l :: ls, s => Good s l ∧ ∀ s', step s l = some s' → AllSteps Good step ls s'

instance AllSteps.decidable {Good : σ → ℓ → Prop} [∀ s l, Decidable (Good s l)]
    {step : σ → ℓ → Option σ} : ∀ ls s, Decidable (AllSteps Good step ls s)
  | [], _ => isTrue trivial
  | l :: ls, s =>
    haveI : ∀ s', Decidable (AllSteps Good step ls s') := AllSteps.decidable ls
    inferInstanceAs (Decidable (Good s l ∧ ∀ s' ∈ step s l, AllSteps Good step ls s'))

section Rules

variable {Step : σ → ℓ → σ → Prop} {s₀ s : σ} {ls : List ℓ}

/-- **Invariants.** -/
theorem Run.invariant {Inv : σ → Prop} (h : Run Step s₀ ls s) (h0 : Inv s₀)
    (hstep : ∀ s l s', Inv s → Step s l s' → Inv s') : Inv s := by
  induction h with
  | refl => exact h0
  | snoc _ hs ih => exact hstep _ _ _ ih hs

theorem Run.cons {l : ℓ} {s₁ : σ} (hl : Step s₀ l s₁) (h : Run Step s₁ ls s) :
    Run Step s₀ (l :: ls) s := by
  induction h with
  | refl => exact List.nil_append [l] ▸ .snoc .refl hl
  | snoc _ hs ih => exact .snoc ih hs

theorem runAll_append {step : σ → ℓ → Option σ} (ls ls' : List ℓ) (s : σ) :
    runAll step (ls ++ ls') s = (runAll step ls s).bind (runAll step ls') := by
  induction ls generalizing s with
  | nil => rfl
  | cons l ls ih =>
    rw [List.cons_append, runAll, runAll, Option.bind_assoc]
    congr 1
    funext s'
    exact ih s'

theorem run_of_runAll {step : σ → ℓ → Option σ} (h : runAll step ls s₀ = some s) :
    Run (Steps step) s₀ ls s := by
  induction ls generalizing s₀ with
  | nil => cases h; exact .refl
  | cons l ls ih =>
    obtain ⟨s₁, hl, hs⟩ := Option.bind_eq_some_iff.mp h
    exact .cons hl (ih hs)

theorem run_under_of_runAll {step : σ → ℓ → Option σ} {Good : σ → ℓ → Prop}
    (hgood : AllSteps Good step ls s₀) (h : runAll step ls s₀ = some s) :
    Run (Under Good (Steps step)) s₀ ls s := by
  induction ls generalizing s₀ with
  | nil => cases h; exact .refl
  | cons l ls ih =>
    obtain ⟨s₁, hl, hs⟩ := Option.bind_eq_some_iff.mp h
    exact .cons ⟨hgood.1, hl⟩ (ih (hgood.2 s₁ hl) hs)

theorem AllSteps.of_forall {step : σ → ℓ → Option σ} {Good : σ → ℓ → Prop}
    (h : ∀ l ∈ ls, ∀ s, Good s l) : AllSteps Good step ls s₀ := by
  induction ls generalizing s₀ with
  | nil => trivial
  | cons l ls ih =>
    rw [List.forall_mem_cons] at h
    exact ⟨h.1 s₀, fun _ _ => ih h.2⟩

theorem AllSteps.imp {step : σ → ℓ → Option σ} {Good Good' : σ → ℓ → Prop}
    (h : AllSteps Good step ls s₀) (himp : ∀ s l, Good s l → Good' s l) : AllSteps Good' step ls s₀ := by
  induction ls generalizing s₀ with
  | nil => trivial
  | cons l ls ih => exact ⟨himp s₀ l h.1, fun s' hs => ih (h.2 s' hs)⟩

/-- **Exact conditions.** If good steps keep an invariant that implies `P`, and every other step from
the invariant breaks `P`, then `P` holds throughout just when all steps are good. -/
theorem throughout_iff_allSteps {step : σ → ℓ → Option σ} {P Inv : σ → Prop} {Good : σ → ℓ → Prop}
    (hP : ∀ s, Inv s → P s)
    (hgood : ∀ s l s', Inv s → Good s l → step s l = some s' → Inv s')
    (hbad : ∀ s l, Inv s → ¬ Good s l → ∃ s', step s l = some s' ∧ ¬ P s') (h : Inv s₀) :
    Throughout P step ls s₀ ↔ AllSteps Good step ls s₀ := by
  induction ls generalizing s₀ with
  | nil => exact iff_of_true (hP s₀ h) trivial
  | cons l ls ih =>
    by_cases hl : Good s₀ l
    · have hnext : ∀ s', step s₀ l = some s' →
          (Throughout P step ls s' ↔ AllSteps Good step ls s') :=
        fun s' hs => ih (hgood s₀ l s' h hl hs)
      constructor
      · rintro ⟨-, hrest⟩
        exact ⟨hl, fun s' hs => (hnext s' hs).mp (hrest s' hs)⟩
      · rintro ⟨-, hrest⟩
        exact ⟨hP s₀ h, fun s' hs => (hnext s' hs).mpr (hrest s' hs)⟩
    · refine iff_of_false ?_ fun hall => hl hall.1
      rintro ⟨-, hrest⟩
      obtain ⟨s', hs, hbroken⟩ := hbad s₀ l h hl
      -- the broken state is the first of the rest
      refine hbroken ?_
      have hs' := hrest s' hs
      cases ls with
      | nil => exact hs'
      | cons _ _ => exact hs'.1

/-- Conditions that agree under an invariant are met by the same runs. -/
theorem allSteps_congr {step : σ → ℓ → Option σ} {Inv : σ → Prop} {Q : ℓ → Prop}
    {Good Good' : σ → ℓ → Prop} (hstep : ∀ s l s', Inv s → Q l → step s l = some s' → Inv s')
    (hiff : ∀ s l, Inv s → (Good s l ↔ Good' s l)) (hQ : ∀ l ∈ ls, Q l) (h : Inv s₀) :
    AllSteps Good step ls s₀ ↔ AllSteps Good' step ls s₀ := by
  induction ls generalizing s₀ with
  | nil => rfl
  | cons l ls ih =>
    rw [List.forall_mem_cons] at hQ
    refine and_congr (hiff s₀ l h) (forall₂_congr fun s' hs => ?_)
    exact ih hQ.2 (hstep s₀ l s' h hQ.1 hs)

/-- A law of the steps holds at every step just when all steps are good, if the two agree under an
invariant that good steps keep. -/
theorem allSteps_iff_of_good {step : σ → ℓ → Option σ} {Inv : σ → Prop} {P Good : σ → ℓ → Prop}
    (hgood : ∀ s l s', Inv s → Good s l → step s l = some s' → Inv s')
    (hiff : ∀ s l, Inv s → (P s l ↔ Good s l)) (h : Inv s₀) :
    AllSteps P step ls s₀ ↔ AllSteps Good step ls s₀ := by
  induction ls generalizing s₀ with
  | nil => rfl
  | cons l ls ih =>
    rw [AllSteps, AllSteps, hiff s₀ l h]
    refine and_congr_right fun hl => forall₂_congr fun s' hs => ?_
    exact ih (hgood s₀ l s' h hl hs)

end Rules

end ChimesUtils.Lib
