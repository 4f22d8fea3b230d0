import ChimesUtils.Wechat.Token

/-!
# The most recent token

The server takes a token back when it issues the next one for the application. `latest` is the token
that is still good. Two calls that both miss the cache may set their entries in the other order; the
older token then stays until it expires.

* `InOrder`: an entry is only replaced by a token that was issued later;
* `current_of_inOrder`: then the entry is the most recent token whenever no call is in progress.
-/

namespace ChimesUtils

open Lib

/-- The place and the text of the last token issued for an application. -/
def latest : List Issue → Text → Option (ℕ × Text)
  | [], _ => none
  | iss :: older, app =>
    if iss.request.appId = app then some (older.length, iss.token) else latest older app

namespace TokenSystem

/-- No call for the application is in progress. -/
def Settled (conf : ℕ → TokioAccessToken) (s : TokenSystem) (app : Text) : Prop :=
  ∀ i, (conf i).appId = app → (s.calls i).busy = false

/-- The entry of a client is the last token issued for its application. -/
def Current (s : TokenSystem) (c : TokioAccessToken) : Prop :=
  (s.cache c.rkey).map (fun mcx => (mcx.serial, mcx.accessToken)) = latest s.issued c.appId

/-- The step belongs to a call of `get` whose answers arrive, and an entry is replaced by a later
token. -/
def InOrder (conf : ℕ → TokioAccessToken) (s : TokenSystem) : TokenLabel → Prop
  | .set i => ∀ old ∈ s.cache (conf i).rkey, ∀ access ∈ (s.calls i).answer,
      old.serial < access.serial
  | .lose .. => False
  | .clear => False
  | _ => True

instance (conf : ℕ → TokioAccessToken) (s : TokenSystem) : ∀ l, Decidable (s.InOrder conf l)
  | .set i => inferInstanceAs (Decidable (∀ old ∈ s.cache (conf i).rkey,
      ∀ access ∈ (s.calls i).answer, old.serial < access.serial))
  | .lose .. | .clear => isFalse not_false
  | .tick _ | .read _ | .fetch .. | .refuse _ => isTrue trivial

end TokenSystem

section Latest

variable {issued : List Issue} {app : Text} {v : ℕ × Text}

theorem latest_lt (h : latest issued app = some v) : v.1 < issued.length := by
  induction issued with
  | nil => cases h
  | cons iss older ih =>
    rw [latest] at h
    split_ifs at h
    · cases h
      exact Nat.lt_succ_self _
    · exact Nat.lt_succ_of_lt (ih h)

theorem latest_cons_self (iss : Issue) (issued : List Issue) :
    latest (iss :: issued) iss.request.appId = some (issued.length, iss.token) := if_pos rfl

theorem latest_cons_of_ne {iss : Issue} (h : iss.request.appId ≠ app) (issued : List Issue) :
    latest (iss :: issued) app = latest issued app := if_neg h

end Latest

namespace TokenSystem

/-- No token is newer than the last one. -/
def NotNewer (issued : List Issue) (app : Text) (tok : TokioToken) : Prop :=
  ∃ v, latest issued app = some v ∧ tok.serial ≤ v.1

/-- The last token of an application is cached, or a call is about to set it. -/
structure LatestInv (conf : ℕ → TokioAccessToken) (s : TokenSystem) : Prop where
  cache : ∀ i mcx, s.cache (conf i).rkey = some mcx → NotNewer s.issued (conf i).appId mcx
  fetched : ∀ i access, s.calls i = .fetched access → NotNewer s.issued (conf i).appId access
  found : ∀ i v, latest s.issued (conf i).appId = some v →
    (∃ mcx, s.cache (conf i).rkey = some mcx ∧ (mcx.serial, mcx.accessToken) = v) ∨
      ∃ j access, (conf j).appId = (conf i).appId ∧ s.calls j = .fetched access ∧
        (access.serial, access.accessToken) = v

section Invariant

variable {conf : ℕ → TokioAccessToken} {s s' : TokenSystem} {l : TokenLabel} {i : ℕ}
  {ph : CallPhase} {app : Text} {tok : TokioToken}

theorem NotNewer.cons {issued : List Issue} (h : NotNewer issued app tok) (iss : Issue) :
    NotNewer (iss :: issued) app tok := by
  obtain ⟨v, hv, hle⟩ := h
  by_cases happ : iss.request.appId = app
  · have hlt := latest_lt hv
    refine ⟨(issued.length, iss.token), happ ▸ latest_cons_self iss issued, ?_⟩
    show tok.serial ≤ issued.length
    omega
  · exact ⟨v, (latest_cons_of_ne happ issued).trans hv, hle⟩

theorem LatestInv.setCall (h : LatestInv conf s) (hold : ∀ access, s.calls i ≠ .fetched access)
    (hph : ∀ access, ph ≠ .fetched access) : LatestInv conf (s.setCall i ph) := by
  refine ⟨h.cache, fun j access hj => ?_, fun j v hv => ?_⟩
  · rw [setCall_calls] at hj
    split_ifs at hj
    · exact absurd hj (hph access)
    · exact h.fetched j access hj
  · rcases h.found j v hv with hcache | ⟨k, access, happ, hk, heq⟩
    · exact Or.inl hcache
    · have hne : k ≠ i := fun hki => hold access (hki ▸ hk)
      refine Or.inr ⟨k, access, happ, ?_, heq⟩
      rw [setCall_calls, if_neg hne]
      exact hk

theorem LatestInv.fetch (h : LatestInv conf s) (hi : s.calls i = .missed) (token : Text) :
    LatestInv conf ((s.issue token (conf i).request).setCall i
      (.fetched ⟨token, s.now, 7200, s.issued.length⟩)) := by
  have happ : (conf i).request.appId = (conf i).appId := rfl
  refine ⟨fun j mcx hj => (h.cache j mcx hj).cons _, fun j access hj => ?_, fun j v hv => ?_⟩
  · rw [setCall_calls] at hj
    split_ifs at hj with heq
    · cases hj
      rw [heq]
      exact ⟨_, latest_cons_self ⟨token, (conf i).request⟩ s.issued, le_rfl⟩
    · exact (h.fetched j access hj).cons _
  · by_cases hsame : (conf i).appId = (conf j).appId
    · refine Or.inr ⟨i, _, hsame, Function.update_self .., ?_⟩
      have hlatest := latest_cons_self ⟨token, (conf i).request⟩ s.issued
      rw [happ, hsame] at hlatest
      exact Option.some.inj (hlatest.symm.trans hv)
    · have hv' : latest s.issued (conf j).appId = some v :=
        (latest_cons_of_ne (happ ▸ hsame) s.issued).symm.trans hv
      rcases h.found j v hv' with hcache | ⟨k, access, hk, hcall, heq⟩
      · exact Or.inl hcache
      · have hne : k ≠ i := by
          rintro rfl
          rw [hi] at hcall
          cases hcall
        refine Or.inr ⟨k, access, hk, ?_, heq⟩
        rw [setCall_calls, if_neg hne]
        exact hcall

/-- A call sets its entry, which replaces an older one. -/
theorem LatestInv.set (h : LatestInv conf s) (hi : s.calls i = .fetched tok)
    (horder : ∀ old ∈ s.cache (conf i).rkey, old.serial < tok.serial) :
    LatestInv conf
      ({ s with cache := Function.update s.cache (conf i).rkey (some tok) }.give i tok) := by
  refine ⟨fun j mcx hj => ?_, fun j access hj => ?_, fun j v hv => ?_⟩
  · have hj' : Function.update s.cache (conf i).rkey (some tok) (conf j).rkey = some mcx := hj
    rw [Function.update_apply] at hj'
    split_ifs at hj' with hkey
    · cases hj'
      rw [TokioAccessToken.rkey_inj.mp hkey]
      exact h.fetched i tok hi
    · exact h.cache j mcx hj'
  · rw [give_calls] at hj
    split_ifs at hj
    exact h.fetched j access hj
  · rcases h.found j v hv with ⟨mcx, hcache, heq⟩ | ⟨k, access, hk, hcall, heq⟩
    · refine Or.inl ⟨mcx, ?_, heq⟩
      show Function.update s.cache (conf i).rkey (some tok) (conf j).rkey = some mcx
      rw [Function.update_apply]
      split_ifs with hkey
      · -- the entry would be the last token, and the new one is later
        obtain ⟨v', hv', hle⟩ := h.fetched i tok hi
        have hlt : mcx.serial < tok.serial := horder mcx (hkey ▸ hcache)
        rw [← TokioAccessToken.rkey_inj.mp hkey] at hv'
        obtain rfl : v = v' := Option.some.inj (hv.symm.trans hv')
        have : mcx.serial = v.1 := congrArg Prod.fst heq
        omega
      · exact hcache
    · by_cases hki : k = i
      · subst hki
        rw [hi] at hcall
        cases hcall
        refine Or.inl ⟨tok, ?_, heq⟩
        show Function.update s.cache (conf k).rkey (some tok) (conf j).rkey = some tok
        rw [TokioAccessToken.rkey_inj.mpr hk]
        exact Function.update_self ..
      · refine Or.inr ⟨k, access, hk, ?_, heq⟩
        rw [give_calls, if_neg hki]
        exact hcall

theorem LatestInv.step {p : Profile} (h : LatestInv conf s) (horder : s.InOrder conf l)
    (hs : s.step p conf l = some s') : LatestInv conf s' := by
  cases step_cases hs with
  | tick => exact ⟨h.cache, h.fetched, h.found⟩
  | @hit i mcx hi =>
    have hidle : ∀ access, s.calls i ≠ .fetched access := by
      intro access heq
      rw [hi] at heq
      cases heq
    exact LatestInv.setCall (s := { s with returned := (i, mcx) :: s.returned })
      ⟨h.cache, h.fetched, h.found⟩ hidle fun _ heq => by cases heq
  | miss hi hph =>
    refine h.setCall (fun access heq => ?_) fun access heq => ?_
    · rw [hi] at heq
      cases heq
    · rcases hph with rfl | rfl <;> cases heq
  | fetch hi => exact h.fetch hi _
  | lose => exact absurd horder not_false
  | refuse hi =>
    refine h.setCall (fun access heq => ?_) fun access heq => by cases heq
    rw [hi] at heq
    cases heq
  | @set i access hi =>
    refine h.set hi fun old hold => horder old hold access ?_
    rw [hi]
    rfl
  | clear => exact absurd horder not_false

theorem LatestInv.new (t : ℕ) : LatestInv conf (new t) :=
  ⟨fun _ _ h => (by cases h), fun _ _ h => (by cases h), fun _ _ h => (by cases h)⟩

theorem LatestInv.current (h : LatestInv conf s) (hsettled : s.Settled conf (conf i).appId) :
    s.Current (conf i) := by
  unfold Current
  cases hlast : latest s.issued (conf i).appId with
  | none =>
    cases hcache : s.cache (conf i).rkey with
    | none => rfl
    | some mcx =>
      obtain ⟨v, hv, -⟩ := h.cache i mcx hcache
      rw [hlast] at hv
      cases hv
  | some v =>
    rcases h.found i v hlast with ⟨mcx, hcache, rfl⟩ | ⟨k, access, happ, hcall, -⟩
    · rw [hcache]
      rfl
    · have hidle := hsettled k happ
      rw [hcall] at hidle
      cases hidle

end Invariant

/-- **The entry is current.** In every run of calls of `get`, by any number of clients, whose answers
arrive and in which an entry is only replaced by a token that was issued later: whenever no call for
an application is in progress, its entry is the token that the server has issued last. -/
theorem current_of_inOrder (p : Profile) (conf : ℕ → TokioAccessToken) {t : ℕ}
    {ls : List TokenLabel} {s : TokenSystem}
    (h : Run (Under (InOrder conf) (Steps (step p conf))) (new t) ls s) (i : ℕ)
    (hsettled : s.Settled conf (conf i).appId) : s.Current (conf i) := by
  have hinv : LatestInv conf s := h.invariant (LatestInv.new t) fun _ _ _ hi hs => hi.step hs.1 hs.2
  exact hinv.current hsettled

/-- Two clients of one application, and any number of clients of another one. -/
def twoOf (i : ℕ) : TokioAccessToken := ⟨[], if i < 2 then ['a'] else ['b'], ['s']⟩

/-- Both clients miss the cache and fetch a token; one sets its entry, and then the other. -/
def bothMiss (i j : ℕ) : List TokenLabel :=
  [.read 0, .read 1, .fetch 0 ['x'], .fetch 1 ['y'], .set i, .set j]

theorem settled_twoOf {s : TokenSystem} (h0 : s.calls 0 = .idle) (h1 : s.calls 1 = .idle) :
    s.Settled twoOf ['a'] := by
  intro i hi
  by_cases hlt : i < 2
  · interval_cases i
    · rw [h0]
      rfl
    · rw [h1]
      rfl
  · simp [twoOf, hlt] at hi

theorem current_bothMiss : ∃ s,
    Run (Under (InOrder twoOf) (Steps (step .release twoOf))) (new 0) (bothMiss 0 1) s ∧
    s.cache (twoOf 0).rkey = some ⟨['y'], 0, 7200, 1⟩ ∧ s.Settled twoOf ['a'] ∧
    s.Current (twoOf 0) := by
  have hview : ∃ s ∈ runAll (step .release twoOf) (bothMiss 0 1) (new 0),
      s.cache (twoOf 0).rkey = some ⟨['y'], 0, 7200, 1⟩ ∧ s.calls 0 = .idle ∧ s.calls 1 = .idle := by
    decide +kernel
  obtain ⟨s, hs, hcache, h0, h1⟩ := hview
  have hgood : AllSteps (InOrder twoOf) (step .release twoOf) (bothMiss 0 1) (new 0) := by
    decide +kernel
  have hrun := run_under_of_runAll hgood hs
  have hsettled := settled_twoOf h0 h1
  exact ⟨s, hrun, hcache, hsettled, current_of_inOrder .release twoOf hrun 0 hsettled⟩

/-- The other way round, the entry is a token that the server has taken back. -/
theorem not_current_bothMiss : ∃ s,
    Run (Steps (step .release twoOf)) (new 0) (bothMiss 1 0) s ∧ s.Settled twoOf ['a'] ∧
    s.cache (twoOf 0).rkey = some ⟨['x'], 0, 7200, 0⟩ ∧ latest s.issued ['a'] = some (1, ['y']) ∧
    ¬ s.Current (twoOf 0) := by
  have hview : ∃ s ∈ runAll (step .release twoOf) (bothMiss 1 0) (new 0),
      s.cache (twoOf 0).rkey = some ⟨['x'], 0, 7200, 0⟩ ∧ latest s.issued ['a'] = some (1, ['y']) ∧
      s.calls 0 = .idle ∧ s.calls 1 = .idle := by decide +kernel
  obtain ⟨s, hs, hcache, hlatest, h0, h1⟩ := hview
  refine ⟨s, run_of_runAll hs, settled_twoOf h0 h1, hcache, hlatest, fun h => ?_⟩
  have happ : (twoOf 0).appId = ['a'] := rfl
  rw [Current, hcache, happ, hlatest] at h
  cases h

end TokenSystem

end ChimesUtils
