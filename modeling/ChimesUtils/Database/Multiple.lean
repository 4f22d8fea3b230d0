import ChimesUtils.Lib.Run
import ChimesUtils.Rust

/-!
# The connections by URL

`get_multiple_rbatis_async` looks the URL up in a map, and where it is missing links a new `Rbatis` and
inserts it. Other calls run while it waits for the link. What a call returns is a reference to the slot
of the URL. The map moves to another allocation when it grows, and its slots move with it; which
allocation a map has that has come to a number of entries is a parameter.

* `MultiRb.step`: a call up to its wait, and a call from the end of its wait;
* `oneHandle_iff`: when each URL has one handle for all calls.
-/

namespace ChimesUtils

open Lib

inductive SqlIntercept where
  | multipleDatabaseIntercepter
  deriving DecidableEq

/-- An `Rbatis` that a call has made, with the URL it is linked to. -/
structure Handle where
  call : ℕ
  linked : Option Text
  intercepts : List SqlIntercept
  deriving DecidableEq

/-- `Rbatis::new`. -/
def Handle.new (call : ℕ) : Handle := ⟨call, none, []⟩

/-- `link`, which may fail. -/
def Handle.link (rb : Handle) (url : Text) (ok : Bool) : Handle :=
  if ok then { rb with linked := some url } else rb

def Handle.addSqlIntercept (rb : Handle) (i : SqlIntercept) : Handle :=
  { rb with intercepts := rb.intercepts ++ [i] }

/-- A reference to the slot of a URL, taken when the map had the number of entries. -/
structure SlotRef where
  url : Text
  entries : ℕ
  deriving DecidableEq

/-- `STATIC_MULTI_RB`, and the calls. -/
structure MultiRb where
  map : Text → Option Handle
  /-- How many entries the map has. None is ever removed. -/
  entries : ℕ
  /-- How many calls there have been. -/
  calls : ℕ
  /-- The calls that wait for the link, with their URLs. -/
  linking : ℕ → Option Text
  /-- What has been inserted. -/
  published : List (Text × Handle)
  /-- What the calls have returned. -/
  returned : List SlotRef

inductive MultiRbLabel where
  | call (url : Text)
  /-- The link of the call is over. -/
  | linked (call : ℕ) (ok : Bool)
  /-- The call is given up while it waits. -/
  | dropped (call : ℕ)
  deriving DecidableEq

namespace MultiRb

def new : MultiRb := ⟨fun _ => none, 0, 0, fun _ => none, [], []⟩

/-- `get_multiple_rbatis_async` up to `link`. -/
def onCall (s : MultiRb) (url : Text) : MultiRb :=
  match s.map url with
  | some _ => { s with calls := s.calls + 1, returned := s.returned ++ [⟨url, s.entries⟩] }
  | none => { s with calls := s.calls + 1, linking := Function.update s.linking s.calls (some url) }

/-- How many entries the map has after an insertion. An entry of the URL is overwritten; a full map may
move even then, but by that time the URL has had two handles. -/
def entriesWith (s : MultiRb) (url : Text) : ℕ :=
  if (s.map url).isSome then s.entries else s.entries + 1

/-- `get_multiple_rbatis_async` from the end of `link`. -/
def onLinked (s : MultiRb) (call : ℕ) (url : Text) (ok : Bool) : MultiRb :=
  let rb := ((Handle.new call).link url ok).addSqlIntercept .multipleDatabaseIntercepter
  { s with
    map := Function.update s.map url (some rb)
    entries := s.entriesWith url
    linking := Function.update s.linking call none
    published := s.published ++ [(url, rb)]
    returned := s.returned ++ [⟨url, s.entriesWith url⟩] }

def step (s : MultiRb) : MultiRbLabel → Option MultiRb
  | .call url => some (s.onCall url)
  | .linked call ok => (s.linking call).map fun url => s.onLinked call url ok
  | .dropped call => some { s with linking := Function.update s.linking call none }

section Laws

variable (alloc : ℕ → ℕ)

/-- Each URL has one handle: one has been published, it is still in the map, and all calls have
returned the same reference. -/
structure OneHandle (s : MultiRb) : Prop where
  once : s.published.Pairwise fun p q => p.1 ≠ q.1
  kept : ∀ p ∈ s.published, s.map p.1 = some p.2
  same : ∀ p ∈ s.returned, ∀ q ∈ s.returned, p.url = q.url → alloc p.entries = alloc q.entries

/-- A link is over when nothing has been published under its URL, and a call comes when the map has
not moved since a call for the URL returned. -/
structure Quiet (s : MultiRb) (l : MultiRbLabel) : Prop where
  unpublished : ∀ call ok, l = .linked call ok → ∀ url ∈ s.linking call, s.map url = none
  unmoved : ∀ url, l = .call url → ∀ r ∈ s.returned, r.url = url → alloc r.entries = alloc s.entries

end Laws

/-! ## One step -/

variable {alloc : ℕ → ℕ} {s s' : MultiRb} {l : MultiRbLabel}

variable (alloc) in
structure Inv (s : MultiRb) : Prop where
  once : s.published.Pairwise fun p q => p.1 ≠ q.1
  published : ∀ url rb, s.map url = some rb ↔ (url, rb) ∈ s.published
  returned : ∀ r ∈ s.returned, (s.map r.url).isSome = true
  same : ∀ p ∈ s.returned, ∀ q ∈ s.returned, p.url = q.url → alloc p.entries = alloc q.entries

theorem inv_new : new.Inv alloc where
  once := List.Pairwise.nil
  published := fun _ _ => iff_of_false (fun h => by cases h) List.not_mem_nil
  returned := List.forall_mem_nil _
  same := List.forall_mem_nil _

theorem Inv.oneHandle (h : s.Inv alloc) : s.OneHandle alloc where
  once := h.once
  kept := fun p hp => (h.published p.1 p.2).mpr hp
  same := h.same

theorem same_concat {returned : List SlotRef} {r : SlotRef}
    (h : ∀ p ∈ returned, ∀ q ∈ returned, p.url = q.url → alloc p.entries = alloc q.entries)
    (hr : ∀ p ∈ returned, p.url = r.url → alloc p.entries = alloc r.entries) :
    ∀ p ∈ returned ++ [r], ∀ q ∈ returned ++ [r], p.url = q.url →
      alloc p.entries = alloc q.entries := by
  intro p hp q hq hurl
  rcases List.mem_append.mp hp with hp | hp <;> rcases List.mem_append.mp hq with hq | hq
  · exact h p hp q hq hurl
  · rw [List.mem_singleton.mp hq] at hurl ⊢
    exact hr p hp hurl
  · rw [List.mem_singleton.mp hp] at hurl ⊢
    exact (hr q hq hurl.symm).symm
  · rw [List.mem_singleton.mp hp, List.mem_singleton.mp hq]

theorem Inv.onCall {url : Text} (h : s.Inv alloc)
    (hunmoved : ∀ r ∈ s.returned, r.url = url → alloc r.entries = alloc s.entries) :
    (s.onCall url).Inv alloc := by
  unfold MultiRb.onCall
  cases hurl : s.map url with
  | none => exact ⟨h.once, h.published, h.returned, h.same⟩
  | some rb =>
    refine ⟨h.once, h.published, fun r hr => ?_, same_concat h.same hunmoved⟩
    rcases List.mem_append.mp hr with hr | hr
    · exact h.returned r hr
    · rw [List.mem_singleton.mp hr]
      exact Option.isSome_iff_exists.mpr ⟨rb, hurl⟩

theorem Inv.onLinked {url : Text} (h : s.Inv alloc) (hurl : s.map url = none) (call : ℕ) (ok : Bool) :
    (s.onLinked call url ok).Inv alloc := by
  -- no earlier handle and no earlier reference has this URL
  have hne : ∀ p ∈ s.published, p.1 ≠ url := by
    intro p hp he
    have hmap := (h.published p.1 p.2).mpr hp
    rw [he, hurl] at hmap
    cases hmap
  have hfresh : ∀ r ∈ s.returned, r.url ≠ url := by
    intro r hr he
    have hsome := h.returned r hr
    rw [he, hurl] at hsome
    cases hsome
  have hmap : (s.onLinked call url ok).map = Function.update s.map url (some
      (((Handle.new call).link url ok).addSqlIntercept .multipleDatabaseIntercepter)) := rfl
  refine ⟨?_, fun url' rb' => ?_, fun r hr => ?_,
    same_concat h.same fun r hr he => absurd he (hfresh r hr)⟩
  · refine List.pairwise_append.mpr ⟨h.once, List.pairwise_singleton _ _, fun p hp q hq => ?_⟩
    rw [List.mem_singleton.mp hq]
    exact hne p hp
  · show _ ↔ (url', rb') ∈ s.published ++ [_]
    rw [hmap, List.mem_append, List.mem_singleton, Prod.mk.injEq]
    by_cases he : url' = url
    · rw [he, Function.update_self, Option.some.injEq]
      constructor
      · intro hrb
        exact Or.inr ⟨rfl, hrb.symm⟩
      · rintro (hmem | ⟨-, hrb⟩)
        · exact absurd rfl (hne _ hmem)
        · exact hrb.symm
    · rw [Function.update_of_ne he, h.published url' rb', or_iff_left fun hc => he hc.1]
  · rw [hmap]
    rcases List.mem_append.mp hr with hr | hr
    · rw [Function.update_of_ne (hfresh r hr)]
      exact h.returned r hr
    · rw [List.mem_singleton.mp hr, Function.update_self]
      rfl

theorem Inv.step (h : s.Inv alloc) (hgood : s.Quiet alloc l) (hs : s.step l = some s') :
    s'.Inv alloc := by
  cases l with
  | call url =>
    cases hs
    exact h.onCall (hgood.unmoved url rfl)
  | linked call ok =>
    obtain ⟨url, hurl, rfl⟩ := Option.map_eq_some_iff.mp hs
    exact h.onLinked (hgood.unpublished call ok rfl url hurl) call ok
  | dropped call =>
    cases hs
    exact ⟨h.once, h.published, h.returned, h.same⟩

theorem not_oneHandle_of_published (h : s.Inv alloc) {url : Text} (hmap : s.map url ≠ none)
    (call : ℕ) (ok : Bool) : ¬ (s.onLinked call url ok).OneHandle alloc := by
  intro hone
  obtain ⟨rb, hrb⟩ := Option.ne_none_iff_exists'.mp hmap
  have honce := (List.pairwise_append.mp hone.once).2.2
  exact honce (url, rb) ((h.published url rb).mp hrb) _ (List.mem_singleton.mpr rfl) rfl

theorem not_oneHandle_of_moved (h : s.Inv alloc) {r : SlotRef} (hr : r ∈ s.returned)
    (hmoved : alloc r.entries ≠ alloc s.entries) : ¬ (s.onCall r.url).OneHandle alloc := by
  intro hone
  obtain ⟨rb, hrb⟩ := Option.isSome_iff_exists.mp (h.returned r hr)
  have hsame := hone.same
  rw [onCall, hrb] at hsame
  exact hmoved (hsame r (List.mem_append_left _ hr) ⟨r.url, s.entries⟩
    (List.mem_append_right _ (List.mem_singleton.mpr rfl)) rfl)

theorem not_oneHandle_of_not_quiet (h : s.Inv alloc) (hbad : ¬ s.Quiet alloc l) :
    ∃ s', s.step l = some s' ∧ ¬ s'.OneHandle alloc := by
  by_cases hpub : ∀ call ok, l = .linked call ok → ∀ url ∈ s.linking call, s.map url = none
  · have hmoved : ¬ ∀ url, l = .call url → ∀ r ∈ s.returned, r.url = url →
        alloc r.entries = alloc s.entries := fun h => hbad ⟨hpub, h⟩
    push Not at hmoved
    obtain ⟨_, rfl, r, hr, rfl, hne⟩ := hmoved
    exact ⟨_, rfl, not_oneHandle_of_moved h hr hne⟩
  · push Not at hpub
    obtain ⟨call, ok, rfl, url, hurl, hmap⟩ := hpub
    have hlinking : s.linking call = some url := hurl
    refine ⟨s.onLinked call url ok, ?_, not_oneHandle_of_published h hmap call ok⟩
    rw [step, hlinking]
    rfl

/-! ## All runs -/

/-- **One handle.** For every order of any calls, each URL has at most one published handle, which is
never replaced and to which all calls return the same reference, just when no link is over at a time
when another call has published a handle under the same URL, and no call comes when the map has moved
since an earlier call for its URL returned. -/
theorem oneHandle_iff (alloc : ℕ → ℕ) (ls : List MultiRbLabel) :
    Throughout (OneHandle alloc) step ls new ↔ AllSteps (Quiet alloc) step ls new :=
  throughout_iff_allSteps (fun _ => Inv.oneHandle) (fun _ _ _ => Inv.step)
    (fun _ _ => not_oneHandle_of_not_quiet) inv_new

/-- Two calls for one URL, the second before the link of the first is over. -/
def twoCalls : List MultiRbLabel := [.call ['u'], .call ['u'], .linked 0 true, .linked 1 true]

/-- Four URLs one after the other, and the first once more. -/
def fourUrls : List MultiRbLabel :=
  [.call ['u'], .linked 0 true, .call ['v'], .linked 1 true, .call ['w'], .linked 2 true, .call ['x'],
    .linked 3 true, .call ['u']]

/-- The allocations of a map that has room for three entries, for seven, for fourteen and so on. -/
def stdAlloc (entries : ℕ) : ℕ :=
  if entries ≤ 3 then 2 else if entries ≤ 7 then 3 else Nat.clog 2 (entries * 8 / 7)

/-- The second handle replaces the first. When the map grows, the first slot moves. -/
theorem not_oneHandle_twoCalls :
    ¬ Throughout (OneHandle stdAlloc) step twoCalls new ∧
      ¬ Throughout (OneHandle stdAlloc) step fourUrls new := by
  constructor
  · intro h
    have hlast := (h.2 _ rfl).2 _ rfl |>.2 _ rfl |>.2 _ rfl
    have hkept := hlast.kept (['u'], ⟨0, some ['u'], [.multipleDatabaseIntercepter]⟩)
      (List.mem_cons_self)
    exact absurd hkept (by decide)
  · intro h
    have hlast := (h.2 _ rfl).2 _ rfl |>.2 _ rfl |>.2 _ rfl |>.2 _ rfl |>.2 _ rfl |>.2 _ rfl
      |>.2 _ rfl |>.2 _ rfl
    have hsame := hlast.same ⟨['u'], 1⟩ List.mem_cons_self ⟨['u'], 4⟩ (by decide) rfl
    exact absurd hsame (by decide)

end MultiRb

end ChimesUtils
