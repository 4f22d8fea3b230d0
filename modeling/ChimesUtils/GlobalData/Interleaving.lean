import ChimesUtils.GlobalData.Ttl
import ChimesUtils.Lib.Run

/-!
# Resizing next to other clients

Threads call the cache functions; every section that holds the lock is one step, and so is the
reading of the clock for a new value. A thread that has collected the expired keys removes them one
by one later, without another look at their values.

`CacheSystem.promise` remembers the insertions: the last value put under a key with an expiry, and
the time until which it should stay. `promise_kept` says when it does. `Move` lists what a step can do.
-/

namespace ChimesUtils

open Lib

/-- Where a thread is. -/
inductive Phase where
  | idle
  /-- It has built a value and is about to lock. -/
  | stamped (value : ValuePaire)
  /-- It is about to collect expired keys. -/
  | resizing
  /-- It has collected these keys and not yet removed them. -/
  | removing (keys : List Text)
  /-- It has panicked. -/
  | panicked
  /-- It waits for a lock that it holds itself. -/
  | stuck
  deriving DecidableEq

/-- The cache, the clock and the threads. -/
structure CacheSystem where
  cell : MutexCell AppData
  now : ℕ
  threads : ℕ → Phase
  promise : Text → Option (Text × ℕ)

/-- A step of the system. -/
inductive CacheLabel where
  /-- The clock moves on. -/
  | tick (t : ℕ)
  | stamp (i : ℕ) (key val : Text) (exp : ℕ)
  | put (i : ℕ)
  | startResizing (i : ℕ)
  /-- The collected keys in the order of the hash map. -/
  | collect (i : ℕ) (order : List Text)
  | removeNext (i : ℕ)
  | finish (i : ℕ)
  | remove (i : ℕ) (key : Text)
  | get (i : ℕ) (key : Text)

namespace CacheSystem

/-- The empty cache at time `t`. -/
def new (t : ℕ) : CacheSystem := ⟨.free ∅, t, fun _ => .idle, fun _ => none⟩

def setPhase (s : CacheSystem) (i : ℕ) (ph : Phase) : CacheSystem :=
  { s with threads := Function.update s.threads i ph }

/-- Thread `i` runs a section that takes the lock, which no thread holds. -/
def enter {β : Type} (s : CacheSystem) (i : ℕ) (m : Prog AppData β)
    (next : β → CacheSystem → CacheSystem) : Option CacheSystem :=
  if s.cell.locked then none
  else match m s.cell with
    | .returned b c => some (next b { s with cell := c })
    | .panicked c => some ({ s with cell := c }.setPhase i .panicked)
    | .blocked c => some ({ s with cell := c }.setPhase i .stuck)

/-- Remember an insertion that completes now, if it has an expiry. -/
def recordPut (s : CacheSystem) (value : ValuePaire) : CacheSystem :=
  let promised := if 0 < value.expired then some (value.value, s.now + value.expired) else none
  { s with promise := Function.update s.promise value.key promised }

def recordRemove (s : CacheSystem) (key : Text) : CacheSystem :=
  { s with promise := Function.update s.promise key none }

theorem setPhase_threads (s : CacheSystem) (i j : ℕ) (ph : Phase) :
    (s.setPhase i ph).threads j = if j = i then ph else s.threads j := Function.update_apply ..

theorem recordPut_promise (s : CacheSystem) (value : ValuePaire) (key : Text) :
    (s.recordPut value).promise key = if key = value.key then
      (if 0 < value.expired then some (value.value, s.now + value.expired) else none)
      else s.promise key := Function.update_apply ..

theorem recordRemove_promise (s : CacheSystem) (key k : Text) :
    (s.recordRemove key).promise k = if k = key then none else s.promise k := Function.update_apply ..

/-- One step. -/
def step (p : Profile) (s : CacheSystem) : CacheLabel → Option CacheSystem
  | .tick t => if s.now ≤ t then some { s with now := t } else none
  | .stamp i key val exp =>
    if s.threads i = .idle then some (s.setPhase i (.stamped ⟨val, key, s.now, exp⟩)) else none
  | .put i =>
    match s.threads i with
    | .stamped value =>
      s.enter i (putValue value) fun _ s => (s.recordPut value).setPhase i .resizing
    | _ => none
  | .startResizing i => if s.threads i = .idle then some (s.setPhase i .resizing) else none
  | .collect i order =>
    if s.threads i = .resizing then
      (s.enter i (collectExpired p s.now) fun keys s =>
        s.setPhase i (.removing (if order.isPerm keys then order else keys)))
    else none
  | .removeNext i =>
    match s.threads i with
    | .removing (key :: keys) =>
      s.enter i (globalAppDataRemove key) fun _ s => s.setPhase i (.removing keys)
    | _ => none
  | .finish i => if s.threads i = .removing [] then some (s.setPhase i .idle) else none
  | .remove i key =>
    if s.threads i = .idle then s.enter i (globalAppDataRemove key) fun _ s => s.recordRemove key
    else none
  | .get i key =>
    if s.threads i = .idle then s.enter i (globalAppDataGet p key s.now) fun _ s => s else none

/-- What one step can do. -/
inductive Move (p : Profile) (s : CacheSystem) : CacheLabel → CacheSystem → Prop
  | tick {t : ℕ} : s.now ≤ t → Move p s (.tick t) { s with now := t }
  | stamp {i exp : ℕ} {key val : Text} : s.threads i = .idle →
      Move p s (.stamp i key val exp) (s.setPhase i (.stamped ⟨val, key, s.now, exp⟩))
  | put {i : ℕ} {value : ValuePaire} {s' : CacheSystem} : s.threads i = .stamped value →
      s.enter i (putValue value) (fun _ s => (s.recordPut value).setPhase i .resizing) = some s' →
      Move p s (.put i) s'
  | startResizing {i : ℕ} : s.threads i = .idle → Move p s (.startResizing i) (s.setPhase i .resizing)
  | collect {i : ℕ} {order : List Text} {s' : CacheSystem} : s.threads i = .resizing →
      s.enter i (collectExpired p s.now) (fun keys s =>
        s.setPhase i (.removing (if order.isPerm keys then order else keys))) = some s' →
      Move p s (.collect i order) s'
  | removeNext {i : ℕ} {key : Text} {keys : List Text} {s' : CacheSystem} :
      s.threads i = .removing (key :: keys) →
      s.enter i (globalAppDataRemove key) (fun _ s => s.setPhase i (.removing keys)) = some s' →
      Move p s (.removeNext i) s'
  | finish {i : ℕ} : s.threads i = .removing [] → Move p s (.finish i) (s.setPhase i .idle)
  | remove {i : ℕ} {key : Text} {s' : CacheSystem} : s.threads i = .idle →
      s.enter i (globalAppDataRemove key) (fun _ s => s.recordRemove key) = some s' →
      Move p s (.remove i key) s'
  | get {i : ℕ} {key : Text} {s' : CacheSystem} : s.threads i = .idle →
      s.enter i (globalAppDataGet p key s.now) (fun _ s => s) = some s' → Move p s (.get i key) s'

theorem step_cases {p : Profile} {s s' : CacheSystem} {l : CacheLabel} (h : s.step p l = some s') :
    Move p s l s' := by
  cases l with
  | tick t =>
    rw [step] at h
    split_ifs at h with ht
    cases h
    exact .tick ht
  | stamp i key val exp =>
    rw [step] at h
    split_ifs at h with hi
    cases h
    exact .stamp hi
  | put i =>
    cases hi : s.threads i with
    | stamped value =>
      rw [step, hi] at h
      exact .put hi h
    | _ => rw [step, hi] at h; cases h
  | startResizing i =>
    rw [step] at h
    split_ifs at h with hi
    cases h
    exact .startResizing hi
  | collect i order =>
    rw [step] at h
    split_ifs at h with hi
    exact .collect hi h
  | removeNext i =>
    cases hi : s.threads i with
    | removing keys =>
      cases keys with
      | nil => rw [step, hi] at h; cases h
      | cons key keys =>
        rw [step, hi] at h
        exact .removeNext hi h
    | _ => rw [step, hi] at h; cases h
  | finish i =>
    rw [step] at h
    split_ifs at h with hi
    cases h
    exact .finish hi
  | remove i key =>
    rw [step] at h
    split_ifs at h with hi
    exact .remove hi h
  | get i key =>
    rw [step] at h
    split_ifs at h with hi
    exact .get hi h

/-- The value promised for a key is bound to it as long as its time lasts. -/
def Kept (s : CacheSystem) : Prop :=
  ∀ key value untl, s.promise key = some (value, untl) → s.now < untl →
    ∃ f, s.cell.data.lookup key = some f ∧ f.value = value

/-- A value with an expiry is put under a key that no thread is about to remove, at the time it was
stamped with, and its deadline does not wrap. -/
def Good (p : Profile) (s : CacheSystem) : CacheLabel → Prop
  | .put i => ∀ value, s.threads i = .stamped value → 0 < value.expired →
      value.timestamp = s.now ∧
      (∀ ts, value.deadline p = some ts → ts = value.timestamp + value.expired) ∧
      ∀ j keys, s.threads j = .removing keys → value.key ∉ keys
  | _ => True

/-! ## The invariant -/

/-- Every promise is held by a value with that deadline, and no key that a thread is about to remove
has a promise that still runs. -/
structure Inv (p : Profile) (s : CacheSystem) : Prop where
  keyed : s.cell.data.Keyed
  held : ∀ key value untl, s.promise key = some (value, untl) → s.now < untl →
    ∃ f, s.cell.data.lookup key = some f ∧ f.value = value ∧
      ∀ ts, f.deadline p = some ts → ts = untl
  pending : ∀ i keys, s.threads i = .removing keys → ∀ key ∈ keys, ∀ value untl,
    s.promise key = some (value, untl) → untl ≤ s.now

section Invariant

variable {p : Profile} {s s' : CacheSystem} {i : ℕ}

/-- Entering a section: it returns and the thread goes on, or the thread ends there. -/
theorem enter_cases {β : Type} {m : Prog AppData β} {next : β → CacheSystem → CacheSystem}
    {Q : β → AppData → Prop} (h : s.enter i m next = some s')
    (hm : s.cell.locked = false → m.Ends s.cell Q) :
    (∃ b c, Q b c.data ∧ s' = next b { s with cell := c }) ∨
      ∃ c ph, c.data = s.cell.data ∧ (ph = .panicked ∨ ph = .stuck) ∧
        s' = { s with cell := c }.setPhase i ph := by
  rw [enter] at h
  split_ifs at h with hl
  have hends := hm (by simpa using hl)
  rw [Prog.Ends] at hends
  cases hc : m s.cell with
  | returned b c =>
    rw [hc] at h hends
    exact Or.inl ⟨b, c, hends, (Option.some.inj h).symm⟩
  | panicked c =>
    rw [hc] at h hends
    exact Or.inr ⟨c, _, hends, Or.inl rfl, (Option.some.inj h).symm⟩
  | blocked c =>
    rw [hc] at h hends
    exact Or.inr ⟨c, _, hends, Or.inr rfl, (Option.some.inj h).symm⟩

theorem Inv.new (t : ℕ) : Inv p (.new t) where
  keyed k f h := by simp [CacheSystem.new, MutexCell.free] at h
  held _ _ _ h := by cases h
  pending _ _ h := by cases h

theorem Inv.setPhase (h : Inv p s) {ph : Phase} (hph : ∀ keys, ph = .removing keys → ∀ key ∈ keys,
    ∀ value untl, s.promise key = some (value, untl) → untl ≤ s.now) : Inv p (s.setPhase i ph) := by
  refine ⟨h.keyed, h.held, fun j keys hj => ?_⟩
  rw [setPhase_threads] at hj
  split_ifs at hj
  · exact hph keys hj
  · exact h.pending j keys hj

theorem Inv.setCell (h : Inv p s) {c : MutexCell AppData} (hc : c.data = s.cell.data) :
    Inv p { s with cell := c } :=
  ⟨hc ▸ h.keyed, fun key value untl h1 h2 => hc ▸ h.held key value untl h1 h2, h.pending⟩

theorem Inv.endThread (h : Inv p s) {c : MutexCell AppData} (hc : c.data = s.cell.data) {ph : Phase}
    (hph : ph = .panicked ∨ ph = .stuck) : Inv p ({ s with cell := c }.setPhase i ph) :=
  (h.setCell hc).setPhase fun keys hk => by rcases hph with rfl | rfl <;> cases hk

theorem Inv.enter {β : Type} {m : Prog AppData β} {next : β → CacheSystem → CacheSystem}
    {Q : β → AppData → Prop} (h : Inv p s) (hs : s.enter i m next = some s')
    (hm : s.cell.locked = false → m.Ends s.cell Q)
    (hnext : ∀ b c, Q b c.data → Inv p (next b { s with cell := c })) : Inv p s' := by
  rcases enter_cases hs hm with ⟨b, c, hc, rfl⟩ | ⟨c, ph, hc, hph, rfl⟩
  · exact hnext b c hc
  · exact h.endThread hc hph

theorem Inv.tick (h : Inv p s) {t : ℕ} (ht : s.now ≤ t) : Inv p { s with now := t } :=
  ⟨h.keyed, fun key value untl h1 h2 => h.held key value untl h1 (lt_of_le_of_lt ht h2),
    fun i keys hi key hk value untl h1 => (h.pending i keys hi key hk value untl h1).trans ht⟩

/-- A put under the condition. -/
theorem Inv.put (h : Inv p s) {value : ValuePaire} (hi : s.threads i = .stamped value)
    (hgood : Good p s (.put i)) {c : MutexCell AppData}
    (hc : c.data = s.cell.data.insert value.key value) :
    Inv p (({ s with cell := c }.recordPut value).setPhase i .resizing) := by
  have hkeyed : AppData.Keyed c.data := hc ▸ h.keyed.insert value
  refine Inv.setPhase ⟨hkeyed, fun key v untl hp hnow => ?_, fun j keys hj key hk v untl hp => ?_⟩
    fun keys hk => by cases hk
  · show ∃ f, c.data.lookup key = some f ∧ _
    rw [recordPut_promise] at hp
    rw [hc, AppData.lookup_insert]
    split_ifs at hp ⊢ with hkey hexp
    · cases hp
      obtain ⟨hstamp, hsum, -⟩ := hgood value hi hexp
      exact ⟨value, rfl, rfl, fun ts hts => by rw [hsum ts hts, hstamp]⟩
    · exact h.held key v untl hp hnow
  · rw [recordPut_promise] at hp
    split_ifs at hp with hkey hexp
    · exact absurd (hkey ▸ hk) ((hgood value hi hexp).2.2 j keys hj)
    · exact h.pending j keys hj key hk v untl hp

/-- Collected keys have no promise that still runs. -/
theorem Inv.collected (h : Inv p s) {keys : List Text}
    (hkeys : collectKeys p s.now s.cell.data = some keys) {key : Text} (hk : key ∈ keys)
    {value : Text} {untl : ℕ} (hp : s.promise key = some (value, untl)) : untl ≤ s.now := by
  by_contra hnow
  obtain ⟨-, f, hf, ts, hts, hle⟩ := (mem_collectKeys hkeys h.keyed).mp hk
  obtain ⟨f', hf', -, hdeadline⟩ := h.held key value untl hp (by omega)
  rw [hf] at hf'
  cases hf'
  have := hdeadline ts hts
  omega

theorem Inv.erase (h : Inv p s) {key : Text}
    (hkey : ∀ value untl, s.promise key = some (value, untl) → untl ≤ s.now)
    {c : MutexCell AppData} (hc : c.data = s.cell.data.erase key) : Inv p { s with cell := c } := by
  have hkeyed : AppData.Keyed c.data := hc ▸ h.keyed.erase key
  refine ⟨hkeyed, fun k value untl hp hnow => ?_, h.pending⟩
  show ∃ f, c.data.lookup k = some f ∧ _
  have hkk : k ≠ key := by
    rintro rfl
    exact absurd (hkey value untl hp) (by simpa using hnow)
  rw [hc, AppData.lookup_erase, if_neg hkk]
  exact h.held k value untl hp hnow

theorem Inv.recordRemove (h : Inv p s) (key : Text) : Inv p (s.recordRemove key) := by
  have hne : ∀ {k v}, (s.recordRemove key).promise k = some v → s.promise k = some v := by
    intro k v hp
    rw [recordRemove_promise] at hp
    split_ifs at hp
    exact hp
  exact ⟨h.keyed, fun k value untl hp => h.held k value untl (hne hp),
    fun i keys hi k hk value untl hp => h.pending i keys hi k hk value untl (hne hp)⟩

/-- **One step** under the condition keeps the invariant. -/
theorem Inv.step (h : Inv p s) {l : CacheLabel} (hgood : Good p s l)
    (hs : s.step p l = some s') : Inv p s' := by
  cases step_cases hs with
  | tick ht => exact h.tick ht
  | stamp => exact h.setPhase fun keys hk => by cases hk
  | @put i value _ hi hs => exact h.enter hs (putValue_ends value) fun _ _ hc => h.put hi hgood hc
  | startResizing => exact h.setPhase fun keys hk => by cases hk
  | collect hi hs =>
    refine h.enter hs (collectExpired_ends s.now) fun keys c hc => ?_
    obtain ⟨hc, hkeys⟩ := hc
    refine (h.setCell hc).setPhase fun keys' hk key hkey value untl hp => ?_
    cases hk
    split_ifs at hkey with hperm
    · exact h.collected hkeys ((List.isPerm_iff.mp hperm).mem_iff.mp hkey) hp
    · exact h.collected hkeys hkey hp
  | @removeNext i key keys _ hi hs =>
    have hpending := h.pending i _ hi
    refine h.enter hs (globalAppDataRemove_ends key) fun _ c hc => ?_
    refine (h.erase (hpending key List.mem_cons_self) hc).setPhase fun keys' hk k hkk => ?_
    cases hk
    exact hpending k (List.mem_cons_of_mem _ hkk)
  | finish => exact h.setPhase fun keys hk => by cases hk
  | @remove i key _ hi hs =>
    -- the promise of the key is withdrawn with its value
    refine h.enter hs (globalAppDataRemove_ends key) fun _ c hc => ?_
    refine (h.recordRemove key).erase (fun value untl hp => ?_) hc
    rw [recordRemove_promise, if_pos rfl] at hp
    cases hp
  | @get i key _ hi hs =>
    exact h.enter hs (globalAppDataGet_ends key s.now) fun _ _ hc => h.setCell hc

end Invariant

/-- **Promises.** In every run in which each put of a value with an expiry meets `Good`, every value
stays bound to its key from its insertion until its expiry, or until the next insertion or removal
of the key by a client. -/
theorem promise_kept (p : Profile) {t : ℕ} {ls : List CacheLabel} {s : CacheSystem}
    (h : Run (Under (Good p) (Steps (step p))) (new t) ls s) : s.Kept := by
  have hinv : Inv p s := h.invariant (Inv.new t) fun _ _ _ hi hs => hi.step hs.1 hs.2
  intro key value untl hp hnow
  obtain ⟨f, hf, hv, -⟩ := hinv.held key value untl hp hnow
  exact ⟨f, hf, hv⟩

/-- Insertions by thread `i`, each followed by its resizing. -/
def inserts (i : ℕ) (kes : List (Text × ℕ)) : List CacheLabel :=
  kes.flatMap fun ke => [.stamp i ke.1 ['v'] ke.2, .put i, .collect i [], .finish i]

/-- Thread `1` fills the cache, collects the other keys and removes three of them. -/
def otherRemovals : List CacheLabel :=
  inserts 1 ("abcdefghi".toList.map fun c => ([c], 0)) ++
    [.stamp 1 ['j'] ['v'] 0, .put 1, .tick 3, .collect 1 [], .removeNext 1, .removeNext 1, .removeNext 1]

/-- Every put is of a value without expiry. -/
def unpromised (s : CacheSystem) : CacheLabel → Bool
  | .put i =>
    match s.threads i with
    | .stamped value => value.expired == 0
    | _ => true
  | _ => true

theorem good_of_unpromised {p : Profile} {s : CacheSystem} {l : CacheLabel} (h : s.unpromised l) :
    Good p s l := by
  cases l with
  | put i =>
    intro value hi hpos
    rw [unpromised, hi] at h
    exact absurd (beq_iff_eq.mp h) hpos.ne'
  | _ => trivial

theorem promise_kept_one : ∃ s, Run (Under (Good .debug) (Steps (step .debug))) (new 0)
    (.stamp 0 ['k'] ['v'] 5 :: .put 0 :: otherRemovals) s ∧
      (s.promise ['k'] = some (['v'], 5) ∧ s.now = 3 ∧ s.cell.data.keys.length = 8) ∧ s.Kept := by
  have hgood : AllSteps (Good .debug) (step .debug) (.stamp 0 ['k'] ['v'] 5 :: .put 0 :: otherRemovals)
      (new 0) := by
    have hrest : ∀ s₂ ∈ runAll (step .debug) [.stamp 0 ['k'] ['v'] 5, .put 0] (new 0),
        AllSteps (fun s l => s.unpromised l = true) (step .debug) otherRemovals s₂ := by
      decide +kernel
    refine ⟨trivial, fun s₁ h₁ => ⟨?_, fun s₂ h₂ => ?_⟩⟩
    · cases h₁
      rintro value hv -
      cases hv
      refine ⟨rfl, fun ts hts => by cases hts; rfl, fun j keys hj => ?_⟩
      rw [setPhase_threads] at hj
      split_ifs at hj
      cases hj
    · have hs₂ : runAll (step .debug) [.stamp 0 ['k'] ['v'] 5, .put 0] (new 0) = some s₂ :=
        Option.bind_eq_some_iff.mpr ⟨s₁, h₁, Option.bind_eq_some_iff.mpr ⟨s₂, h₂, rfl⟩⟩
      exact (hrest s₂ hs₂).imp fun _ _ => good_of_unpromised
  have hview : (runAll (step .debug) (.stamp 0 ['k'] ['v'] 5 :: .put 0 :: otherRemovals) (new 0)).map
      (fun s => (s.promise ['k'], s.now, s.cell.data.keys.length)) =
        some (some (['v'], 5), 3, 8) := by
    decide +kernel
  obtain ⟨s, hs, hv⟩ := Option.map_eq_some_iff.mp hview
  simp only [Prod.mk.injEq] at hv
  have hrun := run_under_of_runAll hgood hs
  exact ⟨s, hrun, hv, promise_kept .debug hrun⟩

/-- Thread `1` collects an expired key, thread `2` inserts it again, thread `1` removes it. -/
def lateRemoval : List CacheLabel :=
  inserts 0 ((['k'], 1) :: ("abcdefghij".toList.map fun c => ([c], 100))) ++
    [.tick 5, .startResizing 1, .collect 1 [], .stamp 2 ['k'] ['w'] 100, .put 2, .removeNext 1]

theorem promise_lost : ∃ s, Run (Steps (step .release)) (new 0) lateRemoval s ∧
    s.promise ['k'] = some (['w'], 105) ∧ s.now = 5 ∧ s.cell.data.lookup ['k'] = none ∧ ¬ s.Kept := by
  have hview : (runAll (step .release) lateRemoval (new 0)).map
      (fun s => (s.promise ['k'], s.now, s.cell.data.lookup ['k'])) =
        some (some (['w'], 105), 5, none) := by
    decide +kernel
  obtain ⟨s, hs, hv⟩ := Option.map_eq_some_iff.mp hview
  simp only [Prod.mk.injEq] at hv
  obtain ⟨hp, hnow, hk⟩ := hv
  refine ⟨s, run_of_runAll hs, hp, hnow, hk, fun hkept => ?_⟩
  obtain ⟨f, hf, -⟩ := hkept _ _ _ hp (by omega)
  rw [hk] at hf
  cases hf

end CacheSystem

end ChimesUtils
