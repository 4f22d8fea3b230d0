import ChimesUtils.Database.Multiple

/-!
# Failed links

`get_multiple_rbatis` and `get_multiple_rbatis_async` have a map each. A link that fails is logged, and
the handle is inserted all the same.

* `Connections.step`: a call of the one function, which runs to its end, and a step of a call of the
  other;
* `lawful_iff`: when the maps hold linked handles only, and a URL without one is linked again.
-/

namespace ChimesUtils

open Lib

/-- One of the functions: its map and its calls, and the URLs of the links that the calls have begun. -/
structure LinkCache where
  rbs : MultiRb
  attempts : List Text

namespace LinkCache

def new : LinkCache := ⟨.new, []⟩

/-- A call up to `link`. -/
def onCall (s : LinkCache) (url : Text) : LinkCache where
  rbs := s.rbs.onCall url
  attempts := if (s.rbs.map url).isSome then s.attempts else s.attempts ++ [url]

/-- A call from the end of `link`. -/
def onLinked (s : LinkCache) (call : ℕ) (url : Text) (ok : Bool) : LinkCache :=
  { s with rbs := s.rbs.onLinked call url ok }

/-- `get_multiple_rbatis`: `block_on` runs the link to its end. -/
def getMultipleRbatis (s : LinkCache) (url : Text) (ok : Bool) : LinkCache :=
  if (s.rbs.map url).isSome then s.onCall url else (s.onCall url).onLinked s.rbs.calls url ok

/-- A step of `get_multiple_rbatis_async`. -/
def asyncStep (s : LinkCache) : MultiRbLabel → Option LinkCache
  | .call url => some (s.onCall url)
  | .linked call ok => (s.rbs.linking call).map fun url => s.onLinked call url ok
  | .dropped call => (s.rbs.step (.dropped call)).map fun rbs => { s with rbs := rbs }

theorem asyncStep_rbs (s : LinkCache) (l : MultiRbLabel) :
    (s.asyncStep l).map LinkCache.rbs = s.rbs.step l := by
  cases l with
  | call url => rfl
  | linked call ok =>
    rw [asyncStep, Option.map_map]
    rfl
  | dropped call => rfl

/-- A handle that is linked to the URL is in the map. -/
def Linked (s : LinkCache) (url : Text) : Prop :=
  ∃ rb, s.rbs.map url = some rb ∧ rb.linked = some url

/-- Every handle in the map is linked to its URL. -/
def OnlyLinked (s : LinkCache) : Prop := ∀ url rb, s.rbs.map url = some rb → rb.linked = some url

end LinkCache

/-- The two functions. -/
structure Connections where
  sync : LinkCache
  async : LinkCache

inductive ConnectionLabel where
  /-- A call of `get_multiple_rbatis`, and the outcome of its link if it comes to one. -/
  | sync (url : Text) (ok : Bool)
  /-- A step of a call of `get_multiple_rbatis_async`. -/
  | async (l : MultiRbLabel)
  deriving DecidableEq

namespace Connections

def new : Connections := ⟨.new, .new⟩

def step (s : Connections) : ConnectionLabel → Option Connections
  | .sync url ok => some { s with sync := s.sync.getMultipleRbatis url ok }
  | .async l => (s.async.asyncStep l).map fun c => { s with async := c }

/-- The step is the end of a link that fails. -/
def FailedLink (s : Connections) : ConnectionLabel → Prop
  | .sync url ok => s.sync.rbs.map url = none ∧ ok = false
  | .async (.linked call ok) => (s.async.rbs.linking call).isSome ∧ ok = false
  | .async _ => False

/-- A failed link leaves the maps as they were, a call for a URL without a linked handle begins a link,
and every handle in the maps is linked. -/
structure Lawful (s : Connections) (l : ConnectionLabel) : Prop where
  failed : s.FailedLink l → ∀ s', s.step l = some s' →
    s'.sync.rbs.map = s.sync.rbs.map ∧ s'.async.rbs.map = s.async.rbs.map
  syncRetries : ∀ url ok, l = .sync url ok → ¬ s.sync.Linked url → ∀ s', s.step l = some s' →
    s'.sync.attempts = s.sync.attempts ++ [url]
  asyncRetries : ∀ url, l = .async (.call url) → ¬ s.async.Linked url → ∀ s', s.step l = some s' →
    s'.async.attempts = s.async.attempts ++ [url]
  linked : ∀ s', s.step l = some s' → s'.sync.OnlyLinked ∧ s'.async.OnlyLinked

end Connections

/-! ## One function -/

namespace LinkCache

variable {s s' : LinkCache} {url : Text} {call : ℕ} {ok : Bool}

theorem onlyLinked_new : new.OnlyLinked := fun _ _ h => by cases h

theorem onCall_map (s : LinkCache) (url : Text) : (s.onCall url).rbs.map = s.rbs.map := by
  unfold onCall MultiRb.onCall
  cases s.rbs.map url with
  | none => rfl
  | some rb => rfl

theorem OnlyLinked.onCall (h : s.OnlyLinked) (url : Text) : (s.onCall url).OnlyLinked := by
  intro url' rb hmap
  rw [onCall_map] at hmap
  exact h url' rb hmap

theorem onLinked_map (s : LinkCache) (call : ℕ) (url : Text) (ok : Bool) :
    (s.onLinked call url ok).rbs.map = Function.update s.rbs.map url
      (some (((Handle.new call).link url ok).addSqlIntercept .multipleDatabaseIntercepter)) := rfl

/-- **The end of a link.** The map has linked handles only, just when it had them for the other URLs
and the link is a success. -/
theorem OnlyLinked.onLinked (h : s.OnlyLinked) (call : ℕ) (url : Text) :
    (s.onLinked call url true).OnlyLinked := by
  intro url' rb hmap
  rw [onLinked_map] at hmap
  by_cases he : url' = url
  · rw [he, Function.update_self] at hmap
    rw [he, ← Option.some.inj hmap]
    rfl
  · rw [Function.update_of_ne he] at hmap
    exact h url' rb hmap

theorem not_onlyLinked_onLinked (s : LinkCache) (call : ℕ) (url : Text) :
    ¬ (s.onLinked call url false).OnlyLinked := by
  intro h
  have hlinked := h url _ (congrFun (onLinked_map s call url false) url ▸ Function.update_self _ _ _)
  cases hlinked

theorem OnlyLinked.attempts_onCall (h : s.OnlyLinked) (hurl : ¬ s.Linked url) :
    (s.onCall url).attempts = s.attempts ++ [url] := by
  have hnone : (s.rbs.map url).isSome ≠ true := by
    intro hsome
    obtain ⟨rb, hrb⟩ := Option.isSome_iff_exists.mp hsome
    exact hurl ⟨rb, hrb, h url rb hrb⟩
  exact if_neg hnone

theorem OnlyLinked.getMultipleRbatis (h : s.OnlyLinked) (hok : s.rbs.map url = none → ok = true) :
    (s.getMultipleRbatis url ok).OnlyLinked := by
  unfold LinkCache.getMultipleRbatis
  by_cases hsome : (s.rbs.map url).isSome = true
  · rw [if_pos hsome]
    exact h.onCall url
  · rw [if_neg hsome, hok (by simpa using hsome)]
    exact (h.onCall url).onLinked _ url

theorem attempts_getMultipleRbatis (s : LinkCache) (url : Text) (ok : Bool) :
    (s.getMultipleRbatis url ok).attempts = (s.onCall url).attempts := by
  unfold LinkCache.getMultipleRbatis
  split_ifs <;> rfl

theorem OnlyLinked.asyncStep {l : MultiRbLabel} (h : s.OnlyLinked)
    (hok : ∀ call ok, l = .linked call ok → (s.rbs.linking call).isSome → ok = true)
    (hs : s.asyncStep l = some s') : s'.OnlyLinked := by
  cases l with
  | call url =>
    cases hs
    exact h.onCall url
  | linked call ok =>
    obtain ⟨url, hurl, rfl⟩ := Option.map_eq_some_iff.mp hs
    have htrue : ok = true := hok call ok rfl (by rw [hurl]; rfl)
    rw [htrue]
    exact h.onLinked call url
  | dropped call =>
    cases hs
    exact h

end LinkCache

/-! ## Both functions -/

namespace Connections

variable {s s' : Connections} {l : ConnectionLabel}

/-- Linked handles only, in both maps. -/
def OnlyLinked (s : Connections) : Prop := s.sync.OnlyLinked ∧ s.async.OnlyLinked

theorem OnlyLinked.step (h : s.OnlyLinked) (hok : ¬ s.FailedLink l) (hs : s.step l = some s') :
    s'.OnlyLinked := by
  cases l with
  | sync url ok =>
    cases hs
    refine ⟨h.1.getMultipleRbatis fun hnone => ?_, h.2⟩
    by_contra hfalse
    exact hok ⟨hnone, by simpa using hfalse⟩
  | async l =>
    obtain ⟨c, hc, rfl⟩ := Option.map_eq_some_iff.mp hs
    refine ⟨h.1, h.2.asyncStep ?_ hc⟩
    rintro call ok rfl hsome
    by_contra hfalse
    exact hok ⟨hsome, by simpa using hfalse⟩

theorem not_onlyLinked_of_failedLink (hfail : s.FailedLink l) :
    ∃ s', s.step l = some s' ∧ ¬ s'.OnlyLinked := by
  cases l with
  | sync url ok =>
    obtain ⟨hnone, rfl⟩ := hfail
    refine ⟨_, rfl, fun h =>
      LinkCache.not_onlyLinked_onLinked (s.sync.onCall url) s.sync.rbs.calls url ?_⟩
    have hsync := h.1
    rw [LinkCache.getMultipleRbatis, if_neg (by rw [hnone]; exact Bool.false_ne_true)] at hsync
    exact hsync
  | async l =>
    cases l with
    | linked call ok =>
      obtain ⟨hsome, rfl⟩ := hfail
      obtain ⟨url, hurl⟩ := Option.isSome_iff_exists.mp hsome
      refine ⟨{ s with async := s.async.onLinked call url false }, ?_, fun h =>
        LinkCache.not_onlyLinked_onLinked s.async call url h.2⟩
      rw [step, LinkCache.asyncStep, hurl]
      rfl
    | call => cases hfail
    | dropped => cases hfail

/-- **One step** from maps with linked handles only is lawful just when it is no failed link. -/
theorem lawful_iff_not_failedLink (h : s.OnlyLinked) : s.Lawful l ↔ ¬ s.FailedLink l := by
  constructor
  · intro hlaw hfail
    obtain ⟨s', hs, hbad⟩ := not_onlyLinked_of_failedLink hfail
    exact hbad (hlaw.linked s' hs)
  · intro hok
    refine ⟨fun hfail => absurd hfail hok, ?_, ?_, fun s' hs => h.step hok hs⟩
    · rintro url ok rfl hurl s' hs
      cases hs
      exact (LinkCache.attempts_getMultipleRbatis _ _ _).trans (h.1.attempts_onCall hurl)
    · rintro url rfl hurl s' hs
      cases hs
      exact h.2.attempts_onCall hurl

/-- **Links.** For every order of calls of the two functions and every outcome of the links, all steps
are lawful just when no link fails. -/
theorem lawful_iff (ls : List ConnectionLabel) :
    AllSteps Lawful step ls new ↔ AllSteps (fun s l => ¬ s.FailedLink l) step ls new :=
  allSteps_iff_of_good (fun _ _ _ => OnlyLinked.step) (fun _ _ => lawful_iff_not_failedLink)
    ⟨LinkCache.onlyLinked_new, LinkCache.onlyLinked_new⟩

/-- The link fails, and the server is back for the second call. -/
def outage : List ConnectionLabel := [.sync ['u'] false, .sync ['u'] true]

/-- The second call gets the handle that is not linked, without another attempt. -/
theorem not_lawful_outage : ¬ AllSteps Lawful step outage new ∧
    (runAll step outage new).map (fun s => (s.sync.attempts, s.sync.rbs.returned.map fun r =>
      (s.sync.rbs.map r.url).map Handle.linked)) = some ([['u']], [some none, some none]) := by
  refine ⟨fun h => ?_, by decide⟩
  have hfailed := h.1.failed ⟨rfl, rfl⟩ _ rfl
  have hmap := congrFun hfailed.1 ['u']
  cases hmap

end Connections

end ChimesUtils
