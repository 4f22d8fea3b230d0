import ChimesUtils.GlobalData.Interleaving

/-!
# Overflow of deadlines

The sum `timestamp + expired` is taken by `get` and by resizing, long after the value has been stored;
the expiry is not checked when it is.

* `Quiet P`, `CacheSystem.Calm P`: sections and states without panic that keep the property `P` of the
  data, and `Calm.step`: one step;
* `CacheSystem.Sound`: no stored sum overflows, expiries compare as they should, and nobody has panicked;
* `sound_iff_fits`: in a run all states are sound just when every value fits that is put;
* `alive_iff_sums`: in a debug build nobody panics just when every sum fits that is taken, and
  `outlivesSmaller_iff`: in a release build expiries compare as they should just for the values that fit.
-/

namespace ChimesUtils

open Lib

namespace ValuePaire

/-- The deadline is a `u64`. -/
def Fits (f : ValuePaire) : Prop := f.timestamp + f.expired < 2 ^ 64

/-- `get` considers the value expired at `tm`. -/
def GetExpired (p : Profile) (f : ValuePaire) (tm : ℕ) : Prop :=
  0 < f.expired ∧ ∃ ts ∈ f.deadline p, ts < tm

/-- Resizing considers the value expired at `t`. -/
def ResizingExpired (p : Profile) (f : ValuePaire) (t : ℕ) : Prop := ∃ ts ∈ f.deadline p, ts ≤ t

/-- At no time is the value considered expired before a value of the same time with an expiry that is
smaller and not zero. -/
def OutlivesSmaller (p : Profile) (f : ValuePaire) : Prop :=
  ∀ g : ValuePaire, g.timestamp = f.timestamp → 0 < g.expired → g.expired ≤ f.expired →
    ∀ t, (f.GetExpired p t → g.GetExpired p t) ∧ (f.ResizingExpired p t → g.ResizingExpired p t)

variable {p : Profile} {f : ValuePaire}

theorem Fits.deadline_eq (h : f.Fits) : f.deadline p = some (f.timestamp + f.expired) :=
  Profile.addU64_of_lt h

theorem Fits.outlivesSmaller (h : f.Fits) : f.OutlivesSmaller p := by
  intro g htime hpos hle t
  have hg : g.Fits := by
    unfold Fits at h ⊢
    omega
  unfold GetExpired ResizingExpired
  rw [h.deadline_eq, hg.deadline_eq]
  simp only [Option.mem_some_iff, exists_eq_left']
  omega

/-- **Release builds.** Just the values whose sum does not wrap outlive those with a smaller expiry. -/
theorem outlivesSmaller_iff (htime : f.timestamp + 1 < 2 ^ 64) (hexp : f.expired < 2 ^ 64) :
    f.OutlivesSmaller .release ↔ f.Fits := by
  refine ⟨fun h => ?_, Fits.outlivesSmaller⟩
  by_contra hfits
  have hover : ¬ f.timestamp + f.expired < 2 ^ 64 := hfits
  -- the wrapped sum lies before the time of the value itself
  have hwrapped : f.GetExpired .release f.timestamp :=
    ⟨by omega, (f.timestamp + f.expired) % 2 ^ 64, if_neg hfits, by omega⟩
  have hpos : 1 ≤ f.expired := by omega
  obtain ⟨-, ts, hts, hlt⟩ := (h ⟨f.value, f.key, f.timestamp, 1⟩ rfl one_pos hpos f.timestamp).1 hwrapped
  have hone : (⟨f.value, f.key, f.timestamp, 1⟩ : ValuePaire).Fits := htime
  rw [hone.deadline_eq] at hts
  cases hts
  exact absurd hlt (by simp)

end ValuePaire

/-! ## Sections that do not panic -/

/-- Every stored value fits. -/
def AppData.AllFit (d : AppData) : Prop := ∀ key f, d.lookup key = some f → f.Fits

theorem AppData.AllFit.insert {d : AppData} (h : d.AllFit) {value : ValuePaire} (hv : value.Fits) :
    AppData.AllFit (AList.insert value.key value d) :=
  AppData.forall_insert (P := fun _ f => f.Fits) h hv

theorem AppData.AllFit.erase {d : AppData} (h : d.AllFit) (key : Text) :
    AppData.AllFit (AList.erase key d) :=
  AppData.forall_erase h key

/-- The section does not panic; it leaves a mutex that is not poisoned, and data with the property. -/
def Quiet (P : AppData → Prop) {β : Type} (m : Prog AppData β) (d : AppData) : Prop :=
  match m (.free d) with
  | .returned _ s => s.poisoned = false ∧ P s.data
  | .panicked _ => False
  | .blocked s => s.poisoned = false ∧ P s.data

section Sections

variable {P : AppData → Prop} {p : Profile} {d : AppData}

theorem quiet_collect (h : P d) {t : ℕ} (hsum : CacheCall.Summable p d) :
    Quiet P (collectExpired p t) d := by
  obtain ⟨keys, hkeys⟩ := Option.isSome_iff_exists.mp (collectKeys_isSome_iff (t := t).mpr hsum)
  unfold Quiet
  rw [collectExpired_free, hkeys]
  exact ⟨rfl, h⟩

theorem quiet_get (h : P d) {key : Text} (tm : ℕ) (hsum : ∀ f, d.lookup key = some f →
    0 < f.expired → (f.deadline p).isSome = true) : Quiet P (globalAppDataGet p key tm) d := by
  unfold Quiet
  cases hk : d.lookup key with
  | none =>
    rw [globalAppDataGet_free_none hk]
    exact ⟨rfl, h⟩
  | some mpt =>
    rw [globalAppDataGet_free_some hk]
    split_ifs with hexp
    · obtain ⟨ts, hts⟩ := Option.isSome_iff_exists.mp (hsum mpt hk hexp)
      rw [hts]
      dsimp only
      split_ifs
      · exact ⟨rfl, h⟩
      · exact ⟨rfl, h⟩
    · exact ⟨rfl, h⟩

end Sections

namespace CacheSystem

/-- The values whose sum a step takes. -/
def summed (s : CacheSystem) : CacheLabel → List ValuePaire
  | .collect i _ =>
    if s.threads i = .resizing ∧ s.cell.locked = false ∧ 10 < s.cell.data.keys.length then
      s.cell.data.values
    else []
  | .get i key =>
    if s.threads i = .idle ∧ s.cell.locked = false then
      ((s.cell.data.lookup key).filter fun f => 0 < f.expired).toList
    else []
  | _ => []

theorem exists_lookup_of_mem_summed {s : CacheSystem} {l : CacheLabel} {f : ValuePaire}
    (h : f ∈ s.summed l) : ∃ key, s.cell.data.lookup key = some f := by
  cases l with
  | collect i order =>
    rw [summed] at h
    split_ifs at h
    · exact mem_values.mp h
    · cases h
  | get i key =>
    rw [summed] at h
    split_ifs at h
    · exact ⟨key, (Option.filter_eq_some_iff.mp (Option.mem_toList.mp h)).1⟩
    · cases h
  | _ => cases h

/-! ## States without panic -/

/-- Nobody has panicked, with the lock or without, and the data have the property. -/
structure Calm (P : AppData → Prop) (s : CacheSystem) : Prop where
  data : P s.cell.data
  unpoisoned : s.cell.poisoned = false
  noPanic : ∀ i, s.threads i ≠ .panicked

namespace Calm

variable {P : AppData → Prop} {p : Profile} {s s' : CacheSystem}

theorem new (h : P ∅) (t : ℕ) : Calm P (.new t) where
  data := h
  unpoisoned := rfl
  noPanic i h := by cases h

theorem setPhase (h : Calm P s) (i : ℕ) {ph : Phase} (hph : ph ≠ .panicked) :
    Calm P (s.setPhase i ph) := by
  refine ⟨h.data, h.unpoisoned, fun j => ?_⟩
  rw [setPhase_threads]
  split_ifs
  · exact hph
  · exact h.noPanic j

theorem free (h : Calm P s) (hlocked : s.cell.locked = false) : s.cell = .free s.cell.data :=
  (eq_free_or_poisoned hlocked).resolve_right fun hp => by rw [h.unpoisoned] at hp; cases hp

/-- **A section** that does not panic. -/
theorem enter (h : Calm P s) {β : Type} {i : ℕ} {m : Prog AppData β}
    {next : β → CacheSystem → CacheSystem} (hs : s.enter i m next = some s')
    (hm : s.cell.locked = false → Quiet P m s.cell.data)
    (hnext : ∀ b s₁, Calm P s₁ → Calm P (next b s₁)) : Calm P s' := by
  rw [CacheSystem.enter] at hs
  split_ifs at hs with hlocked
  have hquiet := hm (by simpa using hlocked)
  rw [h.free (by simpa using hlocked)] at hs
  unfold Quiet at hquiet
  cases hrun : m (.free s.cell.data) with
  | returned b c =>
    rw [hrun] at hs hquiet
    cases hs
    exact hnext b _ ⟨hquiet.2, hquiet.1, h.noPanic⟩
  | panicked c =>
    rw [hrun] at hquiet
    exact hquiet.elim
  | blocked c =>
    rw [hrun] at hs hquiet
    cases hs
    exact setPhase (s := { s with cell := c }) ⟨hquiet.2, hquiet.1, h.noPanic⟩ i (by decide)

/-- **One step** that takes no sum without result and keeps the property. -/
theorem step (h : Calm P s) {l : CacheLabel} (herase : ∀ d key, P d → P (AList.erase key d))
    (hput : ∀ i, l = .put i → ∀ value, s.threads i = .stamped value → s.cell.locked = false →
      P (AList.insert value.key value s.cell.data))
    (hsum : ∀ f ∈ s.summed l, (f.deadline p).isSome = true) (hs : s.step p l = some s') :
    Calm P s' := by
  cases step_cases hs with
  | tick => exact ⟨h.data, h.unpoisoned, h.noPanic⟩
  | @stamp i => exact h.setPhase i Phase.noConfusion
  | @put i value _ hi hs =>
    refine h.enter hs (fun hlocked => ⟨rfl, hput i rfl value hi hlocked⟩) fun _ s₁ h₁ => ?_
    exact setPhase (s := s₁.recordPut value) ⟨h₁.data, h₁.unpoisoned, h₁.noPanic⟩ i (by decide)
  | @startResizing i => exact h.setPhase i (by decide)
  | @collect i order _ hi hs =>
    refine h.enter hs (fun hlocked => quiet_collect h.data fun hlen => ?_) fun _ s₁ h₁ =>
      h₁.setPhase i Phase.noConfusion
    rwa [summed, if_pos ⟨hi, hlocked, hlen⟩] at hsum
  | @removeNext i key keys _ hi hs =>
    exact h.enter hs (fun _ => ⟨rfl, herase _ key h.data⟩) fun _ s₁ h₁ =>
      h₁.setPhase i Phase.noConfusion
  | @finish i => exact h.setPhase i (by decide)
  | @remove i key _ hi hs =>
    exact h.enter hs (fun _ => ⟨rfl, herase _ key h.data⟩) fun _ s₁ h₁ =>
      ⟨h₁.data, h₁.unpoisoned, h₁.noPanic⟩
  | @get i key _ hi hs =>
    refine h.enter hs (fun hlocked => quiet_get h.data s.now fun f hf hpos => ?_) fun _ _ h₁ => h₁
    rw [summed, if_pos ⟨hi, hlocked⟩, hf] at hsum
    exact hsum f (by simpa using hpos)

end Calm

/-! ## Sound states -/

/-- No sum of a stored value overflows, no stored value is considered expired before one with a smaller
expiry, and nobody has panicked, with the lock or without. -/
structure Sound (p : Profile) (s : CacheSystem) : Prop where
  fits : ∀ key f, s.cell.data.lookup key = some f → f.timestamp + f.expired < 2 ^ 64
  outlives : ∀ key f, s.cell.data.lookup key = some f → f.OutlivesSmaller p
  unpoisoned : s.cell.poisoned = false
  noPanic : ∀ i, s.threads i ≠ .panicked

/-- A value that is put now fits: its timestamp and its expiry add up to a `u64`. -/
def PutFits (s : CacheSystem) : CacheLabel → Prop
  | .put i => ∀ value, s.threads i = .stamped value → s.cell.locked = false →
      value.timestamp + value.expired < 2 ^ 64
  | _ => True

section Sound

variable {p : Profile} {s s' : CacheSystem}

theorem Calm.sound (h : Calm AppData.AllFit s) : s.Sound p :=
  ⟨h.data, fun key f hf => (h.data key f hf).outlivesSmaller, h.unpoisoned, h.noPanic⟩

theorem Calm.step_of_putFits (h : Calm AppData.AllFit s) {l : CacheLabel} (hgood : PutFits s l)
    (hs : s.step p l = some s') : Calm AppData.AllFit s' := by
  refine h.step (fun d key hd => hd.erase key) ?_ (fun f hf => ?_) hs
  · rintro i rfl value hi hlocked
    exact h.data.insert (hgood value hi hlocked)
  · obtain ⟨key, hkey⟩ := exists_lookup_of_mem_summed hf
    rw [(h.data key f hkey).deadline_eq]
    rfl

theorem Calm.not_sound_of_put (h : Calm AppData.AllFit s) {l : CacheLabel} (hbad : ¬ PutFits s l) :
    ∃ s', s.step p l = some s' ∧ ¬ s'.Sound p := by
  cases l with
  | put i =>
    simp only [PutFits, not_forall] at hbad
    obtain ⟨value, hi, hlocked, hfits⟩ := hbad
    have hstep : s.step p (.put i) = some ((({ s with
        cell := .free (AList.insert value.key value s.cell.data) } : CacheSystem).recordPut
          value).setPhase i .resizing) := by
      rw [CacheSystem.step, hi]
      show s.enter i (putValue value) _ = _
      rw [CacheSystem.enter, if_neg (by rw [hlocked]; decide), h.free hlocked]
      rfl
    refine ⟨_, hstep, fun hsound => hfits ?_⟩
    exact hsound.fits value.key value (AList.lookup_insert _)
  | _ => exact absurd trivial hbad

theorem allFit_empty : AppData.AllFit ∅ := fun key f h => by simp at h

end Sound

/-- **Overflow.** For every profile and every run of any number of threads: in all states that it passes
through no deadline overflows, no value is considered expired before one of the same time with a
smaller expiry that is not zero, and nobody has panicked, just when every value that is put fits. -/
theorem sound_iff_fits (p : Profile) (t : ℕ) (ls : List CacheLabel) :
    Throughout (Sound p) (step p) ls (new t) ↔ AllSteps PutFits (step p) ls (new t) :=
  throughout_iff_allSteps (fun _ h => h.sound) (fun _ _ _ h hgood hs => h.step_of_putFits hgood hs)
    (fun _ _ h hbad => h.not_sound_of_put hbad) (Calm.new allFit_empty t)

/-! ## The sums that are taken -/

/-- Every sum that the step takes fits. -/
def SumsFit (s : CacheSystem) (l : CacheLabel) : Prop := ∀ f ∈ s.summed l, f.Fits

theorem Calm.not_calm_of_sum {s : CacheSystem} (h : Calm (fun _ => True) s) {l : CacheLabel}
    (hbad : ¬ SumsFit s l) :
    ∃ s', s.step .debug l = some s' ∧ ¬ Calm (fun _ => True) s' := by
  simp only [SumsFit, not_forall] at hbad
  obtain ⟨f, hf, hfits⟩ := hbad
  have hnone : f.deadline .debug = none := if_neg hfits
  have hpanic : ∀ {β : Type} {i : ℕ} {m : Prog AppData β} {next : β → CacheSystem → CacheSystem},
      s.cell.locked = false → m (.free s.cell.data) = .panicked ⟨false, true, s.cell.data⟩ →
      ∃ s', s.enter i m next = some s' ∧ ¬ Calm (fun _ => True) s' := by
    intro β i m next hlocked hm
    rw [CacheSystem.enter, if_neg (by rw [hlocked]; decide), h.free hlocked, hm]
    exact ⟨_, rfl, fun hcalm => by cases hcalm.unpoisoned⟩
  cases l with
  | collect i order =>
    rw [summed] at hf
    split_ifs at hf with hi
    · rw [CacheSystem.step, if_pos hi.1]
      refine hpanic hi.2.1 ?_
      have hkeys : collectKeys .debug s.now s.cell.data = none := by
        rw [← Option.not_isSome_iff_eq_none, collectKeys_isSome_iff]
        intro hsum
        have := hsum hi.2.2 f hf
        rw [hnone] at this
        cases this
      rw [collectExpired_free, hkeys]
    · cases hf
  | get i key =>
    rw [summed] at hf
    split_ifs at hf with hi
    · obtain ⟨hk, hpos⟩ := Option.filter_eq_some_iff.mp (Option.mem_toList.mp hf)
      rw [CacheSystem.step, if_pos hi.1]
      refine hpanic hi.2 ?_
      rw [globalAppDataGet_free_some hk, if_pos (by simpa using hpos), hnone]
    · cases hf
  | _ => cases hf

/-- **Debug builds.** In all states of a run nobody has panicked and the mutex is not poisoned, just when
every sum fits that a get or a resizing takes. -/
theorem alive_iff_sums (t : ℕ) (ls : List CacheLabel) :
    Throughout (Calm fun _ => True) (step .debug) ls (new t) ↔ AllSteps SumsFit (step .debug) ls (new t) :=
  throughout_iff_allSteps (fun _ h => h)
    (fun _ _ _ h hgood hs => h.step (fun _ _ _ => trivial) (fun _ _ _ _ _ => trivial)
      (fun f hf => by rw [(hgood f hf).deadline_eq]; rfl) hs)
    (fun _ _ h hbad => h.not_calm_of_sum hbad) (Calm.new trivial t)

/-- A value that is to stay for ever, and a get. -/
def foreverRun : List CacheLabel :=
  [.stamp 0 ['k'] ['v'] (2 ^ 64 - 1), .put 0, .collect 0 [], .finish 0, .tick 2, .get 0 ['k']]

/-- The get panics with the lock held; a release build finds the value expired at once. -/
theorem foreverRun_panics :
    (∃ s, Run (Steps (step .debug)) (new 1) foreverRun s ∧ s.threads 0 = .panicked ∧
      s.cell.poisoned = true ∧ ¬ s.Sound .debug) ∧
    ValuePaire.GetExpired .release ⟨['v'], ['k'], 1, 2 ^ 64 - 1⟩ 2 ∧
    ¬ ValuePaire.GetExpired .release ⟨['v'], ['k'], 1, 60000⟩ 2 := by
  refine ⟨?_, ⟨by decide, 0, rfl, by decide⟩, ?_⟩
  · have hview : (runAll (step .debug) foreverRun (new 1)).map
        (fun s => (s.threads 0, s.cell.poisoned)) = some (.panicked, true) := by decide +kernel
    obtain ⟨s, hs, hv⟩ := Option.map_eq_some_iff.mp hview
    obtain ⟨hthread, hpoisoned⟩ := Prod.mk.inj hv
    exact ⟨s, run_of_runAll hs, hthread, hpoisoned, fun hsound => hsound.noPanic 0 hthread⟩
  · rintro ⟨-, ts, hts, hlt⟩
    cases hts
    exact absurd hlt (by decide)

end CacheSystem

end ChimesUtils
