import ChimesUtils.Rust
import ChimesUtils.Lib.Mutex

/-!
# The global cache

`APP_DATA` is a map behind a mutex. Every function takes the clock values it reads as arguments, and
the build profile, since the sum `timestamp + expired` can overflow. The map is an association list;
the order of a hash map is not specified, and here the last insertion stands first.

* `globalAppDataResizing_free`, `globalAppDataGet_free`, …: what each function does from a free
  mutex;
* `CacheCall.allComplete_iff_allSafe`: in a run of calls all complete and release the lock exactly
  if every one of them meets `CacheCall.Safe`.
-/

namespace ChimesUtils

open Lib

/-- `ValuePaire`. -/
structure ValuePaire where
  value : Text
  key : Text
  timestamp : ℕ
  expired : ℕ
  deriving DecidableEq

/-- The map of `APP_DATA`. -/
abbrev AppData := AList fun _ : Text => ValuePaire

/-- `values()`. -/
def AppData.values (d : AppData) : List ValuePaire := d.entries.map Sigma.snd

/-- `timestamp + expired`. -/
def ValuePaire.deadline (p : Profile) (f : ValuePaire) : Option ℕ := p.addU64 f.timestamp f.expired

def globalAppDataRemove (key : Text) : Prog AppData Unit :=
  Prog.withLock (Prog.modify fun d => d.erase key)

/-- The keys whose value has expired at `t`, in the order of the values. -/
def expiredKeys (p : Profile) (t : ℕ) : List ValuePaire → Option (List Text)
  | [] => some []
  | f :: values =>
    match f.deadline p with
    | some ts => (expiredKeys p t values).map fun keys => if ts ≤ t then f.key :: keys else keys
    | none => none

/-- The keys that resizing collects while it holds the lock. -/
def collectKeys (p : Profile) (t : ℕ) (d : AppData) : Option (List Text) :=
  if 10 < d.keys.length then expiredKeys p t d.values else some []

/-- The part of resizing that holds the lock. -/
def collectExpired (p : Profile) (t : ℕ) : Prog AppData (List Text) :=
  Prog.withLock do
    let dts ← Prog.read
    Prog.expect (collectKeys p t dts)

def globalAppDataResizing (p : Profile) (t : ℕ) : Prog AppData Unit := do
  let keys ← collectExpired p t
  Prog.forEach globalAppDataRemove keys

/-- The part of an insertion that holds the lock. -/
def putValue (value : ValuePaire) : Prog AppData Unit :=
  Prog.withLock (Prog.modify fun d => d.insert value.key value)

/-- `global_app_data_insert_with_expire`, with the clock read for the value and by resizing. -/
def globalAppDataInsertWithExpire (p : Profile) (key val : Text) (exp timestamp t : ℕ) :
    Prog AppData Unit := do
  putValue ⟨val, key, timestamp, exp⟩
  globalAppDataResizing p t

/-- `global_app_data_insert`: expiry after a minute. -/
def globalAppDataInsert (p : Profile) (key val : Text) (timestamp t : ℕ) : Prog AppData Unit :=
  globalAppDataInsertWithExpire p key val (1000 * 60) timestamp t

/-- `global_app_data_get`: an expired value is removed while the guard `dt` is alive. -/
def globalAppDataGet (p : Profile) (key : Text) (tm : ℕ) : Prog AppData (Option Text) :=
  Prog.withLock do
    let dt ← Prog.read
    match dt.lookup key with
    | none => return none
    | some mpt =>
      if 0 < mpt.expired then
        let ts ← Prog.expect (mpt.deadline p)
        if ts < tm then
          globalAppDataRemove key
          return none
        else return some mpt.value
      else return some mpt.value

/-! ## From a free mutex -/

section Free

variable {p : Profile}

theorem globalAppDataRemove_free (key : Text) (d : AppData) :
    globalAppDataRemove key (.free d) = .returned () (.free (d.erase key)) := rfl

theorem forEach_remove_free (keys : List Text) (d : AppData) :
    Prog.forEach globalAppDataRemove keys (.free d) =
      .returned () (.free (keys.foldl (fun d key => d.erase key) d)) := by
  induction keys generalizing d with
  | nil => rfl
  | cons key keys ih =>
    rw [Prog.forEach]
    exact (Prog.bind_returned (globalAppDataRemove_free key d)).trans (ih _)

theorem collectExpired_free (p : Profile) (t : ℕ) (d : AppData) :
    collectExpired p t (.free d) = match collectKeys p t d with
      | some keys => .returned keys (.free d)
      | none => .panicked ⟨false, true, d⟩ := by
  rw [collectExpired, Prog.withLock_free, Prog.bind_returned (Prog.read_apply _)]
  cases collectKeys p t d <;> rfl

/-- Resizing collects keys under the lock and removes them one by one; it panics, and poisons the
lock, if a sum overflows. -/
theorem globalAppDataResizing_free (p : Profile) (t : ℕ) (d : AppData) :
    globalAppDataResizing p t (.free d) = match collectKeys p t d with
      | some keys => .returned () (.free (keys.foldl (fun d key => d.erase key) d))
      | none => .panicked ⟨false, true, d⟩ := by
  have hcollect := collectExpired_free p t d
  cases h : collectKeys p t d with
  | some keys =>
    rw [h] at hcollect
    exact (Prog.bind_returned hcollect).trans (forEach_remove_free keys d)
  | none =>
    rw [h] at hcollect
    exact Prog.bind_panicked hcollect

theorem globalAppDataGet_free_none {key : Text} {d : AppData} (h : d.lookup key = none) (tm : ℕ) :
    globalAppDataGet p key tm (.free d) = .returned none (.free d) := by
  rw [globalAppDataGet, Prog.withLock_free, Prog.bind_returned (Prog.read_apply _), h]
  rfl

/-- A get of a present value: it blocks on its own guard if the value has expired. -/
theorem globalAppDataGet_free_some {key : Text} {d : AppData} {mpt : ValuePaire}
    (h : d.lookup key = some mpt) (tm : ℕ) : globalAppDataGet p key tm (.free d) =
      if 0 < mpt.expired then
        match mpt.deadline p with
        | some ts => if ts < tm then .blocked ⟨true, false, d⟩
          else .returned (some mpt.value) (.free d)
        | none => .panicked ⟨false, true, d⟩
      else .returned (some mpt.value) (.free d) := by
  rw [globalAppDataGet, Prog.withLock_free, Prog.bind_returned (Prog.read_apply _), h]
  dsimp only
  split_ifs with hexp
  · cases mpt.deadline p with
    | none => rfl
    | some ts =>
      rw [Prog.bind_returned (show Prog.expect (some ts) ⟨true, false, d⟩ = .returned ts _ from rfl)]
      dsimp only
      split_ifs <;> rfl
  · rfl

/-! ### From a mutex that is not held -/

theorem putValue_ends (value : ValuePaire) {s : MutexCell AppData} (hs : s.locked = false) :
    (putValue value).Ends s fun _ d => d = s.data.insert value.key value :=
  Prog.ends_withLock hs rfl

theorem globalAppDataRemove_ends (key : Text) {s : MutexCell AppData} (hs : s.locked = false) :
    (globalAppDataRemove key).Ends s fun _ d => d = s.data.erase key :=
  Prog.ends_withLock hs rfl

theorem collectExpired_ends (t : ℕ) {s : MutexCell AppData} (hs : s.locked = false) :
    (collectExpired p t).Ends s fun keys d => d = s.data ∧ collectKeys p t s.data = some keys := by
  refine Prog.ends_withLock hs ?_
  rw [Prog.Ends, ← collectExpired, collectExpired_free]
  cases collectKeys p t s.data with
  | some keys => exact ⟨rfl, rfl⟩
  | none => rfl

theorem globalAppDataGet_ends (key : Text) (tm : ℕ) {s : MutexCell AppData} (hs : s.locked = false) :
    (globalAppDataGet p key tm).Ends s fun _ d => d = s.data := by
  refine Prog.ends_withLock hs ?_
  rw [Prog.Ends, ← globalAppDataGet]
  cases hk : s.data.lookup key with
  | none => rw [globalAppDataGet_free_none hk]; rfl
  | some mpt =>
    rw [globalAppDataGet_free_some hk]
    split_ifs
    · cases mpt.deadline p with
      | none => rfl
      | some ts =>
        dsimp only
        split_ifs <;> rfl
    · rfl

end Free

/-! ## Keys and values -/

/-- Every value is stored under its own key. -/
def AppData.Keyed (d : AppData) : Prop := ∀ k f, d.lookup k = some f → f.key = k

theorem AppData.lookup_insert (d : AppData) (key : Text) (value : ValuePaire) (k : Text) :
    (AList.insert key value d).lookup k = if k = key then some value else d.lookup k := by
  split_ifs with hk
  · rw [hk, AList.lookup_insert]
  · exact AList.lookup_insert_ne hk

theorem AppData.lookup_erase (d : AppData) (key k : Text) :
    (AList.erase key d).lookup k = if k = key then none else d.lookup k := by
  split_ifs with hk
  · rw [hk, AList.lookup_erase]
  · exact AList.lookup_erase_ne hk

theorem AppData.forall_insert {P : Text → ValuePaire → Prop} {d : AppData}
    (h : ∀ k f, d.lookup k = some f → P k f) {key : Text} {value : ValuePaire} (hv : P key value) :
    ∀ k f, (AList.insert key value d).lookup k = some f → P k f := by
  intro k f hk
  rw [AppData.lookup_insert] at hk
  split_ifs at hk with hkey
  · rwa [← Option.some.inj hk, hkey]
  · exact h k f hk

theorem AppData.forall_erase {P : Text → ValuePaire → Prop} {d : AppData}
    (h : ∀ k f, d.lookup k = some f → P k f) (key : Text) :
    ∀ k f, (AList.erase key d).lookup k = some f → P k f := by
  intro k f hk
  rw [AppData.lookup_erase] at hk
  split_ifs at hk
  exact h k f hk

theorem AppData.forall_foldl_erase {P : Text → ValuePaire → Prop} {d : AppData}
    (h : ∀ k f, d.lookup k = some f → P k f) (keys : List Text) :
    ∀ k f, (keys.foldl (fun d key => AList.erase key d) d).lookup k = some f → P k f := by
  induction keys generalizing d with
  | nil => exact h
  | cons key keys ih => exact ih (AppData.forall_erase h key)

theorem AppData.Keyed.insert {d : AppData} (h : d.Keyed) (value : ValuePaire) :
    AppData.Keyed (AList.insert value.key value d) :=
  AppData.forall_insert (P := fun k f => f.key = k) h rfl

theorem AppData.Keyed.erase {d : AppData} (h : d.Keyed) (key : Text) :
    AppData.Keyed (AList.erase key d) :=
  AppData.forall_erase h key

theorem mem_values {d : AppData} {f : ValuePaire} : f ∈ d.values ↔ ∃ k, d.lookup k = some f := by
  rw [AppData.values, List.mem_map]
  constructor
  · rintro ⟨⟨k, f⟩, h, rfl⟩
    exact ⟨k, AList.mem_lookup_iff.mpr h⟩
  · rintro ⟨k, h⟩
    exact ⟨⟨k, f⟩, AList.mem_lookup_iff.mp h, rfl⟩

theorem lookup_foldl_erase (keys : List Text) (d : AppData) (k : Text) :
    (keys.foldl (fun d key => d.erase key) d).lookup k = if k ∈ keys then none else d.lookup k := by
  induction keys generalizing d with
  | nil => rfl
  | cons key keys ih =>
    rw [List.foldl_cons, ih, AppData.lookup_erase]
    by_cases hk : k = key
    · simp [hk]
    · simp [hk]

theorem mem_expiredKeys {p : Profile} {t : ℕ} {values : List ValuePaire} {keys : List Text}
    (h : expiredKeys p t values = some keys) {k : Text} :
    k ∈ keys ↔ ∃ f ∈ values, f.key = k ∧ ∃ ts, f.deadline p = some ts ∧ ts ≤ t := by
  induction values generalizing keys with
  | nil =>
    cases h
    simp
  | cons f values ih =>
    rw [expiredKeys] at h
    cases hts : f.deadline p with
    | none =>
      rw [hts] at h
      cases h
    | some ts =>
      rw [hts] at h
      obtain ⟨ks, hks, rfl⟩ := Option.map_eq_some_iff.mp h
      rw [List.exists_mem_cons_iff, ← ih hks, hts]
      by_cases hle : ts ≤ t
      · rw [if_pos hle, List.mem_cons]
        simp [hle, eq_comm]
      · simp [hle]

theorem mem_collectKeys {p : Profile} {t : ℕ} {d : AppData} {keys : List Text}
    (h : collectKeys p t d = some keys) (hd : d.Keyed) {k : Text} :
    k ∈ keys ↔ 10 < d.keys.length ∧ ∃ f, d.lookup k = some f ∧ ∃ ts, f.deadline p = some ts ∧ ts ≤ t := by
  rw [collectKeys] at h
  split_ifs at h with hlen
  · rw [mem_expiredKeys h, and_iff_right hlen]
    constructor
    · rintro ⟨f, hf, rfl, hts⟩
      obtain ⟨k, hk⟩ := mem_values.mp hf
      rw [hd k f hk]
      exact ⟨f, hk, hts⟩
    · rintro ⟨f, hk, hts⟩
      exact ⟨f, mem_values.mpr ⟨k, hk⟩, hd k f hk, hts⟩
  · cases h
    simp [hlen]

/-! ## Calls -/

/-- A call of a cache function, with the clock values it reads. -/
inductive CacheCall where
  | insert (key val : Text) (exp timestamp t : ℕ)
  | remove (key : Text)
  | get (key : Text) (tm : ℕ)
  | resizing (t : ℕ)

/-- What a call returns. -/
inductive CacheReply where
  | done
  | found (v : Option Text)
  deriving DecidableEq

namespace CacheCall

variable (p : Profile)

/-- Run a call. -/
def run : CacheCall → Prog AppData CacheReply
  | insert key val exp timestamp t => do
    globalAppDataInsertWithExpire p key val exp timestamp t
    return .done
  | remove key => do
    globalAppDataRemove key
    return .done
  | get key tm => do
    let v ← globalAppDataGet p key tm
    return .found v
  | resizing t => do
    globalAppDataResizing p t
    return .done

theorem run_globalAppDataInsert (key val : Text) (timestamp t : ℕ) :
    (insert key val (1000 * 60) timestamp t).run p = (do
      globalAppDataInsert p key val timestamp t
      return .done) := rfl

/-- No sum that resizing computes overflows into a panic. -/
def Summable (d : AppData) : Prop :=
  10 < d.keys.length → ∀ f ∈ d.values, (f.deadline p).isSome = true

/-- The lock is not poisoned, the call is no get of an expired value, and no sum it computes panics. -/
def Safe (c : CacheCall) (s : MutexCell AppData) : Prop :=
  s.poisoned = false ∧ match c with
    | insert key val exp timestamp _ => Summable p (s.data.insert key ⟨val, key, timestamp, exp⟩)
    | remove _ => True
    | get key tm => ∀ mpt, s.data.lookup key = some mpt → 0 < mpt.expired →
        ∃ ts, mpt.deadline p = some ts ∧ tm ≤ ts
    | resizing _ => Summable p s.data

/-- The call returns and the lock is released. -/
def Completes (c : CacheCall) (s : MutexCell AppData) : Prop :=
  ∃ r s', c.run p s = .returned r s' ∧ s'.locked = false

/-- The calls are made one after the other, and each one returns with the lock released. -/
def AllComplete : List CacheCall → MutexCell AppData → Prop
  | [], _ => True
  | c :: cs, s => ∃ r s', c.run p s = .returned r s' ∧ s'.locked = false ∧ AllComplete cs s'

/-- Every call of the run is safe in the state it is made in. -/
def AllSafe : List CacheCall → MutexCell AppData → Prop
  | [], _ => True
  | c :: cs, s => c.Safe p s ∧ ∀ r s', c.run p s = .returned r s' → AllSafe cs s'

end CacheCall

section Completion

variable {p : Profile}

theorem expiredKeys_isSome_iff {t : ℕ} {values : List ValuePaire} :
    (expiredKeys p t values).isSome = true ↔ ∀ f ∈ values, (f.deadline p).isSome = true := by
  induction values with
  | nil => simp [expiredKeys]
  | cons f values ih =>
    rw [expiredKeys, List.forall_mem_cons, ← ih]
    cases f.deadline p <;> simp

theorem collectKeys_isSome_iff {t : ℕ} {d : AppData} :
    (collectKeys p t d).isSome = true ↔ CacheCall.Summable p d := by
  rw [collectKeys, CacheCall.Summable]
  split_ifs with h
  · rw [expiredKeys_isSome_iff, imp_iff_right h]
  · simp [h]

theorem exists_collectKeys {d : AppData}
    (h : ∀ k f, d.lookup k = some f → f.timestamp + f.expired < 2 ^ 64) (t : ℕ) :
    ∃ keys, collectKeys p t d = some keys := by
  refine Option.isSome_iff_exists.mp (collectKeys_isSome_iff.mpr fun _ f hf => ?_)
  obtain ⟨k, hk⟩ := mem_values.mp hf
  have hdeadline : f.deadline p = some (f.timestamp + f.expired) := Profile.addU64_of_lt (h k f hk)
  rw [hdeadline]
  rfl

theorem eq_free_or_poisoned {s : MutexCell AppData} (h : s.locked = false) :
    s = .free s.data ∨ s.poisoned = true := by
  obtain ⟨l, q, d⟩ := s
  rcases q
  · exact Or.inl (by cases h; rfl)
  · exact Or.inr rfl

theorem run_returned_free {c : CacheCall} {s s' : MutexCell AppData} {r : CacheReply}
    (hs : s.locked = false) (h : c.run p s = .returned r s') : s = .free s.data := by
  rcases eq_free_or_poisoned hs with hf | hq
  · exact hf
  · have hlock : ∀ {β : Type} (body : Prog AppData β), Prog.withLock body s = .panicked s :=
      fun body => Prog.withLock_poisoned hs hq
    have hpanic : c.run p s = .panicked s := by
      cases c with
      | insert key val exp timestamp t =>
        exact Prog.bind_panicked (Prog.bind_panicked (hlock _))
      | remove key => exact Prog.bind_panicked (hlock _)
      | get key tm => exact Prog.bind_panicked (hlock _)
      | resizing t => exact Prog.bind_panicked (Prog.bind_panicked (hlock _))
    rw [hpanic] at h
    cases h

theorem resizing_completes_iff (t : ℕ) (d : AppData) :
    (CacheCall.resizing t).Completes p (.free d) ↔ CacheCall.Summable p d := by
  rw [← collectKeys_isSome_iff (t := t), CacheCall.Completes, CacheCall.run]
  have h := globalAppDataResizing_free p t d
  cases hk : collectKeys p t d with
  | some keys =>
    rw [hk] at h
    exact iff_of_true ⟨_, _, Prog.bind_returned h, rfl⟩ rfl
  | none =>
    rw [hk] at h
    rw [Prog.bind_panicked h]
    simp

/-- **One call.** It returns and releases the lock exactly if it is safe. -/
theorem CacheCall.completes_iff_safe (c : CacheCall) {s : MutexCell AppData}
    (hs : s.locked = false) : c.Completes p s ↔ c.Safe p s := by
  by_cases hq : s.poisoned = true
  · refine iff_of_false (fun ⟨r, s', h, _⟩ => ?_) fun h => ?_
    · have hf := congrArg MutexCell.poisoned (run_returned_free hs h)
      rw [hq] at hf
      cases hf
    · rw [h.1] at hq
      cases hq
  · have hf : s = .free s.data := (eq_free_or_poisoned hs).resolve_right hq
    unfold Safe
    rw [and_iff_right (by simpa using hq), hf]
    cases c with
    | insert key val exp timestamp t => exact resizing_completes_iff t _
    | remove key =>
      exact iff_of_true ⟨_, _, Prog.bind_returned (globalAppDataRemove_free key _), rfl⟩ trivial
    | resizing t => exact resizing_completes_iff t _
    | get key tm =>
      change Completes p (.get key tm) (.free s.data) ↔ ∀ mpt, s.data.lookup key = some mpt → _
      cases hk : s.data.lookup key with
      | none =>
        exact iff_of_true ⟨_, _, Prog.bind_returned (globalAppDataGet_free_none hk tm), rfl⟩
          fun mpt h => by cases h
      | some mpt =>
        have h := globalAppDataGet_free_some (p := p) hk tm
        have hmpt : (∀ m, some mpt = some m → 0 < m.expired →
              ∃ ts, m.deadline p = some ts ∧ tm ≤ ts) ↔
            (0 < mpt.expired → ∃ ts, mpt.deadline p = some ts ∧ tm ≤ ts) := by simp
        rw [hmpt]
        split_ifs at h with hexp
        · rw [imp_iff_right hexp]
          cases hd : mpt.deadline p with
          | none =>
            rw [hd] at h
            rw [Completes, run, Prog.bind_panicked h]
            simp
          | some ts =>
            rw [hd] at h
            dsimp only at h
            split_ifs at h with hlt
            · rw [Completes, run, Prog.bind_blocked h]
              simpa using hlt
            · refine iff_of_true ⟨_, _, Prog.bind_returned h, rfl⟩ ⟨ts, rfl, ?_⟩
              omega
        · exact iff_of_true ⟨_, _, Prog.bind_returned h, rfl⟩ fun h => absurd h hexp

/-- **Runs of calls.** From a lock that is not held, every call of a run returns and releases the
lock exactly if every call is safe in the state it is made in. -/
theorem CacheCall.allComplete_iff_allSafe (p : Profile) (cs : List CacheCall)
    {s : MutexCell AppData} (hs : s.locked = false) : AllComplete p cs s ↔ AllSafe p cs s := by
  induction cs generalizing s with
  | nil => exact Iff.rfl
  | cons c cs ih =>
    rw [AllComplete, AllSafe, ← completes_iff_safe c hs]
    constructor
    · rintro ⟨r, s', h, hl, hcs⟩
      refine ⟨⟨r, s', h, hl⟩, fun r₁ s₁ h₁ => ?_⟩
      rw [h] at h₁
      cases h₁
      exact (ih hl).mp hcs
    · rintro ⟨⟨r, s', h, hl⟩, hcs⟩
      exact ⟨r, s', h, hl, (ih hl).mpr (hcs r s' h)⟩

end Completion

/-- A value that expires after one millisecond is inserted and read two milliseconds later. -/
theorem get_expired_blocks :
    (CacheCall.insert ['k'] ['v'] 1 0 0).run .debug (.free ∅) =
        .returned .done (.free (AList.insert ['k'] ⟨['v'], ['k'], 0, 1⟩ ∅)) ∧
      (CacheCall.get ['k'] 2).run .debug (.free (AList.insert ['k'] ⟨['v'], ['k'], 0, 1⟩ ∅)) =
        .blocked ⟨true, false, AList.insert ['k'] ⟨['v'], ['k'], 0, 1⟩ ∅⟩ ∧
      ¬ CacheCall.AllComplete .debug [.insert ['k'] ['v'] 1 0 0, .get ['k'] 2] (.free ∅) := by
  refine ⟨rfl, rfl, ?_⟩
  rintro ⟨r, s', h, -, ⟨r₂, s₂, h₂, -⟩⟩
  cases h
  cases h₂

theorem insert_get_complete :
    CacheCall.AllComplete .debug [.insert ['k'] ['v'] 5 0 0, .get ['k'] 3] (.free ∅) := by
  refine (CacheCall.allComplete_iff_allSafe .debug _ rfl).mpr
    ⟨⟨rfl, fun h => absurd h (by decide)⟩, fun r s' h => ?_⟩
  cases h
  refine ⟨⟨rfl, fun mpt h _ => ?_⟩, fun _ _ _ => trivial⟩
  cases h
  exact ⟨5, rfl, by decide⟩

end ChimesUtils
