import ChimesUtils.GlobalData.AppData
import ChimesUtils.Lib.Run

/-!
# What resizing leaves

Resizing removes by the key that a value carries. In every state that calls lead to, this is the key it
is stored under, so the values that go are the expired ones and no others.

* `CacheCall.run_returned_cases`: what a call that returns does to the map;
* `Clear.step`: the invariant of the states between calls;
* `resizing_exact`: the keys in every reached state, and what resizing makes of it.
-/

namespace ChimesUtils

open Lib

namespace CacheCall

/-- The cache after a call that returns. -/
def step (p : Profile) (s : MutexCell AppData) (c : CacheCall) : Option (MutexCell AppData) :=
  match c.run p s with
  | .returned _ s' => some s'
  | _ => none

/-- The map in which a call looks for expired values. -/
def resized (d : AppData) : CacheCall → Option (AppData × ℕ)
  | insert key val exp timestamp t => some (AList.insert key ⟨val, key, timestamp, exp⟩ d, t)
  | resizing t => some (d, t)
  | _ => none

/-- The map after a call that looks for no expired values. -/
def edited (d : AppData) : CacheCall → AppData
  | remove key => AList.erase key d
  | _ => d

end CacheCall

section Cases

variable {p : Profile} {d : AppData} {s' : MutexCell AppData} {r : CacheReply}

theorem globalAppDataResizing_returned {t : ℕ}
    (h : globalAppDataResizing p t (.free d) = .returned () s') :
    ∃ keys, collectKeys p t d = some keys ∧
      s' = .free (keys.foldl (fun d key => AList.erase key d) d) := by
  rw [globalAppDataResizing_free] at h
  cases hkeys : collectKeys p t d with
  | none =>
    rw [hkeys] at h
    cases h
  | some keys =>
    rw [hkeys] at h
    cases h
    exact ⟨keys, rfl, rfl⟩

theorem returned_of_bind {β γ : Type} {m : Prog AppData β} {f : β → γ} {s : MutexCell AppData} {c : γ}
    (h : (do let b ← m; return f b : Prog AppData γ) s = .returned c s') :
    ∃ b, m s = .returned b s' := by
  cases hm : m s with
  | returned b s₁ =>
    rw [Prog.bind_returned hm] at h
    cases h
    exact ⟨b, rfl⟩
  | panicked s₁ =>
    rw [Prog.bind_panicked hm] at h
    cases h
  | blocked s₁ =>
    rw [Prog.bind_blocked hm] at h
    cases h

/-- **What a call does** that returns: it drops the keys collected in the map that it resizes, or edits
the map. -/
theorem CacheCall.run_returned_cases {c : CacheCall} (h : c.run p (.free d) = .returned r s') :
    (∃ d₁ t keys, c.resized d = some (d₁, t) ∧ collectKeys p t d₁ = some keys ∧
        s' = .free (keys.foldl (fun d key => AList.erase key d) d₁)) ∨
      s' = .free (c.edited d) := by
  cases c with
  | insert key val exp timestamp t =>
    obtain ⟨b, hb⟩ := returned_of_bind (f := fun _ => CacheReply.done) h
    have hput : globalAppDataInsertWithExpire p key val exp timestamp t (.free d) =
        globalAppDataResizing p t (.free (AList.insert key ⟨val, key, timestamp, exp⟩ d)) := rfl
    rw [hput] at hb
    obtain ⟨keys, hkeys, hs⟩ := globalAppDataResizing_returned hb
    exact Or.inl ⟨_, t, keys, rfl, hkeys, hs⟩
  | remove key =>
    cases h
    exact Or.inr rfl
  | get key tm =>
    obtain ⟨b, hb⟩ := returned_of_bind (f := CacheReply.found) h
    right
    cases hk : d.lookup key with
    | none =>
      rw [globalAppDataGet_free_none hk] at hb
      cases hb
      rfl
    | some mpt =>
      rw [globalAppDataGet_free_some hk] at hb
      split_ifs at hb
      · cases hts : mpt.deadline p with
        | none =>
          rw [hts] at hb
          cases hb
        | some ts =>
          rw [hts] at hb
          dsimp only at hb
          split_ifs at hb
          cases hb
          rfl
      · cases hb
        rfl
  | resizing t =>
    obtain ⟨b, hb⟩ := returned_of_bind (f := fun _ => CacheReply.done) h
    obtain ⟨keys, hkeys, hs⟩ := globalAppDataResizing_returned hb
    exact Or.inl ⟨d, t, keys, rfl, hkeys, hs⟩

end Cases

/-! ## Reached states -/

/-- The lock is free, and every value is stored under its own key. -/
structure Clear (s : MutexCell AppData) : Prop where
  free : s = .free s.data
  keyed : s.data.Keyed

/-- **One call** keeps the keys. -/
theorem Clear.step {p : Profile} {s s' : MutexCell AppData} {c : CacheCall} (h : Clear s)
    (hs : c.step p s = some s') : Clear s' := by
  have hrun : ∃ r, c.run p (.free s.data) = .returned r s' := by
    rw [CacheCall.step] at hs
    rw [← h.free]
    cases hr : c.run p s with
    | returned r s₁ =>
      rw [hr] at hs
      exact ⟨r, by rw [Option.some.inj hs]⟩
    | panicked s₁ => rw [hr] at hs; cases hs
    | blocked s₁ => rw [hr] at hs; cases hs
  obtain ⟨r, hrun⟩ := hrun
  rcases CacheCall.run_returned_cases hrun with ⟨d₁, t, keys, hd₁, -, rfl⟩ | rfl
  · refine ⟨rfl, AppData.forall_foldl_erase ?_ keys⟩
    cases c with
    | insert key val exp timestamp t =>
      cases hd₁
      exact h.keyed.insert ⟨val, key, timestamp, exp⟩
    | resizing t =>
      cases hd₁
      exact h.keyed
    | _ => cases hd₁
  · refine ⟨rfl, ?_⟩
    cases c with
    | remove key => exact h.keyed.erase key
    | _ => exact h.keyed

/-- Resizing leaves a map that is not too large, and the values of a larger one that have not expired. -/
structure Resized (t : ℕ) (d d' : AppData) : Prop where
  small : d.keys.length ≤ 10 → d' = d
  large : 10 < d.keys.length → ∀ k f, d'.lookup k = some f ↔
    d.lookup k = some f ∧ t < f.timestamp + f.expired

/-- **One resizing.** -/
theorem Clear.resizing {p : Profile} {s : MutexCell AppData} (h : Clear s)
    (hfits : ∀ k f, s.data.lookup k = some f → f.timestamp + f.expired < 2 ^ 64) (t : ℕ) :
    ∃ d', globalAppDataResizing p t s = .returned () (.free d') ∧ Resized t s.data d' := by
  have hdeadline : ∀ k f, s.data.lookup k = some f →
      f.deadline p = some (f.timestamp + f.expired) :=
    fun k f hk => Profile.addU64_of_lt (hfits k f hk)
  obtain ⟨keys, hkeys⟩ := exists_collectKeys (p := p) hfits t
  have hrun := globalAppDataResizing_free p t s.data
  rw [hkeys, ← h.free] at hrun
  refine ⟨_, hrun, ?_, ?_⟩
  · intro hlen
    rw [collectKeys, if_neg (not_lt.mpr hlen)] at hkeys
    cases hkeys
    rfl
  · intro hlen k f
    rw [lookup_foldl_erase]
    have hmem := mem_collectKeys hkeys h.keyed (k := k)
    rw [and_iff_right hlen] at hmem
    by_cases hk : k ∈ keys
    · obtain ⟨f', hf', ts, hts, hle⟩ := hmem.mp hk
      rw [if_pos hk]
      refine iff_of_false (Option.some_ne_none f).symm ?_
      rintro ⟨hf, hlt⟩
      rw [hf'] at hf
      cases hf
      rw [hdeadline k f hf'] at hts
      cases hts
      omega
    · rw [if_neg hk]
      refine ⟨fun hf => ⟨hf, ?_⟩, And.left⟩
      by_contra hle
      exact hk (hmem.mpr ⟨f, hf, _, hdeadline k f hf, not_lt.mp hle⟩)

/-- **Reached states.** After every sequence of calls from the empty cache, every value is stored under
its own key; and if no sum of the stored values overflows, one resizing at any time leaves a map of at
most ten keys as it is, and of a larger one exactly the values with `t < timestamp + expired`. -/
theorem resizing_exact (p : Profile) {cs : List CacheCall} {s : MutexCell AppData}
    (h : Run (Steps (CacheCall.step p)) (.free ∅) cs s) :
    s.data.Keyed ∧ ((∀ k f, s.data.lookup k = some f → f.timestamp + f.expired < 2 ^ 64) →
      ∀ t, ∃ d', globalAppDataResizing p t s = .returned () (.free d') ∧ Resized t s.data d') := by
  have hempty : Clear (.free ∅) := ⟨rfl, fun k f hk => by cases hk⟩
  have hclear : Clear s := h.invariant hempty fun _ _ _ hi hs => hi.step hs
  exact ⟨hclear.keyed, hclear.resizing⟩

/-- Eleven keys, the first one with a short expiry. -/
def elevenKeys : List CacheCall :=
  .insert ['x'] ['v'] 5 0 0 ::
    "abcdefghij".toList.map fun c => .insert [c] ['w'] 100 1 1

theorem resizing_elevenKeys : ∃ s, Run (Steps (CacheCall.step .debug)) (.free ∅) elevenKeys s ∧
    s.data.keys.length = 11 ∧ s.data.Keyed ∧
    ∃ d', globalAppDataResizing .debug 5 s = .returned () (.free d') ∧ Resized 5 s.data d' := by
  have hview : (runAll (CacheCall.step .debug) elevenKeys (.free ∅)).map (fun s =>
      (s.data.keys.length, s.data.values.all fun f => decide (f.timestamp + f.expired < 2 ^ 64))) =
        some (11, true) := by decide +kernel
  obtain ⟨s, hs, hv⟩ := Option.map_eq_some_iff.mp hview
  obtain ⟨hlen, hall⟩ := Prod.mk.inj hv
  have hrun := run_of_runAll hs
  obtain ⟨hkeyed, hresizing⟩ := resizing_exact .debug hrun
  refine ⟨s, hrun, hlen, hkeyed, hresizing (fun k f hk => ?_) 5⟩
  exact of_decide_eq_true (List.all_eq_true.mp hall f (mem_values.mpr ⟨k, hk⟩))

end ChimesUtils
