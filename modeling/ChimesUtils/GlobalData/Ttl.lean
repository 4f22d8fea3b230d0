import ChimesUtils.GlobalData.AppData

/-!
# The cache as a time-to-live map

A time-to-live map keeps the latest insertion of every key since its last removal and hides it once
its time is over; it never forgets. The cache agrees with it as long as resizing drops no value that
the map still shows, and no get meets an expired value.

* `TtlMap`: the abstract map;
* `Sim`: the relation between the two, kept by every call (`Sim.run`);
* `replies_eq_ttlReplies`: along a run the replies are the same.
-/

namespace ChimesUtils

open Lib

/-- An insertion: its value, its time and its expiry. -/
structure Insertion where
  value : Text
  since : ℕ
  expiry : ℕ

/-- Whether an insertion is shown at time `t`; with expiry zero it always is. -/
def Insertion.Shown (x : Insertion) (t : ℕ) : Prop := x.expiry = 0 ∨ t ≤ x.since + x.expiry

instance (x : Insertion) (t : ℕ) : Decidable (x.Shown t) :=
  inferInstanceAs (Decidable (x.expiry = 0 ∨ t ≤ x.since + x.expiry))

/-- The latest insertion of every key since its last removal. -/
def TtlMap : Type := Text → Option Insertion

namespace TtlMap

def empty : TtlMap := fun _ => none

def insert (A : TtlMap) (key : Text) (x : Insertion) : TtlMap :=
  fun k => if k = key then some x else A k

def remove (A : TtlMap) (key : Text) : TtlMap := fun k => if k = key then none else A k

/-- The value of a key at time `t`. -/
def get (A : TtlMap) (key : Text) (t : ℕ) : Option Text :=
  ((A key).filter fun x => x.Shown t).map Insertion.value

end TtlMap

namespace CacheCall

/-- A call on the time-to-live map. -/
def ttlStep (A : TtlMap) : CacheCall → TtlMap
  | insert key val exp timestamp _ => A.insert key ⟨val, timestamp, exp⟩
  | remove key => A.remove key
  | get _ _ => A
  | resizing _ => A

/-- The reply of the time-to-live map. -/
def ttlReply (A : TtlMap) : CacheCall → CacheReply
  | get key tm => .found (A.get key tm)
  | _ => .done

/-- The replies of the time-to-live map along a run. -/
def ttlReplies : List CacheCall → TtlMap → List (Option CacheReply)
  | [], _ => []
  | c :: cs, A => some (c.ttlReply A) :: ttlReplies cs (c.ttlStep A)

/-- The replies of the cache along a run; a call that does not return ends it. -/
def replies (p : Profile) : List CacheCall → MutexCell AppData → List (Option CacheReply)
  | [], _ => []
  | c :: cs, s =>
    match c.run p s with
    | .returned r s' => some r :: replies p cs s'
    | _ => [none]

/-- The clock values a call reads, in order. -/
def readings : CacheCall → List ℕ
  | insert _ _ _ timestamp t => [timestamp, t]
  | remove _ => []
  | get _ tm => [tm]
  | resizing t => [t]

/-- The deadline of an inserted value is a `u64`. -/
def Bounded : CacheCall → Prop
  | insert _ _ exp timestamp _ => timestamp + exp < 2 ^ 64
  | _ => True

/-- With more than ten keys, no value never expires or expires just at `t`. -/
def Sheds (t : ℕ) (d : AppData) : Prop :=
  10 < d.keys.length → ∀ f ∈ d.values, f.expired ≠ 0 ∧ f.timestamp + f.expired ≠ t

/-- Resizing meets only values it may drop or keep, and a get meets no expired value. -/
def Lossless (c : CacheCall) (d : AppData) : Prop :=
  match c with
  | insert key val exp timestamp t => Sheds t (d.insert key ⟨val, key, timestamp, exp⟩)
  | remove _ => True
  | get key tm => ∀ f, d.lookup key = some f → f.expired = 0 ∨ tm ≤ f.timestamp + f.expired
  | resizing t => Sheds t d

/-- Every call of the run is lossless in the state it is made in. -/
def AllLossless (p : Profile) : List CacheCall → MutexCell AppData → Prop
  | [], _ => True
  | c :: cs, s => c.Lossless s.data ∧ ∀ r s', c.run p s = .returned r s' → AllLossless p cs s'

end CacheCall

/-! ## The simulation -/

/-- At time `now`, the cache holds an insertion of the map as it is, or the insertion is over. -/
structure Sim (now : ℕ) (d : AppData) (A : TtlMap) : Prop where
  keyed : d.Keyed
  bounded : ∀ k f, d.lookup k = some f → f.timestamp + f.expired < 2 ^ 64
  held : ∀ k f, d.lookup k = some f → A k = some ⟨f.value, f.timestamp, f.expired⟩
  gone : ∀ k, d.lookup k = none → ∀ x, A k = some x → x.expiry ≠ 0 ∧ x.since + x.expiry < now

namespace Sim

variable {p : Profile} {now : ℕ} {d : AppData} {A : TtlMap}

theorem new : Sim 0 ∅ .empty where
  keyed k f h := by simp at h
  bounded k f h := by simp at h
  held k f h := by simp at h
  gone k _ x h := by cases h

theorem mono (h : Sim now d A) {t : ℕ} (ht : now ≤ t) : Sim t d A where
  keyed := h.keyed
  bounded := h.bounded
  held := h.held
  gone k hk x hx := ⟨(h.gone k hk x hx).1, lt_of_lt_of_le (h.gone k hk x hx).2 ht⟩

theorem deadline (h : Sim now d A) {k : Text} {f : ValuePaire} (hk : d.lookup k = some f) :
    f.deadline p = some (f.timestamp + f.expired) := Profile.addU64_of_lt (h.bounded k f hk)

theorem insert (h : Sim now d A) (key val : Text) {exp timestamp : ℕ}
    (hsum : timestamp + exp < 2 ^ 64) :
    Sim now (d.insert key ⟨val, key, timestamp, exp⟩) (A.insert key ⟨val, timestamp, exp⟩) := by
  refine ⟨h.keyed.insert ⟨val, key, timestamp, exp⟩, AppData.forall_insert h.bounded hsum,
    fun k f hk => ?_, fun k hk x hx => ?_⟩
  · rw [AppData.lookup_insert] at hk
    rw [TtlMap.insert]
    split_ifs at hk ⊢
    · cases hk
      rfl
    · exact h.held k f hk
  · rw [AppData.lookup_insert] at hk
    rw [TtlMap.insert] at hx
    split_ifs at hk hx
    exact h.gone k hk x hx

theorem remove (h : Sim now d A) (key : Text) : Sim now (d.erase key) (A.remove key) := by
  refine ⟨h.keyed.erase key, AppData.forall_erase h.bounded key, fun k f hk => ?_,
    fun k hk x hx => ?_⟩
  · rw [AppData.lookup_erase] at hk
    rw [TtlMap.remove]
    split_ifs at hk ⊢
    exact h.held k f hk
  · rw [AppData.lookup_erase] at hk
    rw [TtlMap.remove] at hx
    split_ifs at hk hx
    exact h.gone k hk x hx

/-- **Resizing** drops only insertions that are over. -/
theorem resizing (h : Sim now d A) {t : ℕ} (ht : now ≤ t) (hd : CacheCall.Sheds t d) :
    ∃ d', globalAppDataResizing p t (.free d) = .returned () (.free d') ∧ Sim t d' A := by
  obtain ⟨keys, hkeys⟩ := exists_collectKeys (p := p) h.bounded t
  refine ⟨_, by rw [globalAppDataResizing_free, hkeys], ?_⟩
  refine ⟨AppData.forall_foldl_erase h.keyed keys, AppData.forall_foldl_erase h.bounded keys,
    AppData.forall_foldl_erase h.held keys, fun k hk x hx => ?_⟩
  rw [lookup_foldl_erase] at hk
  split_ifs at hk with hmem
  · -- a collected key: its value is neither without expiry nor just at its deadline
    obtain ⟨hlen, f, hf, ts, hts, hle⟩ := (mem_collectKeys hkeys h.keyed).mp hmem
    rw [h.deadline hf] at hts
    cases hts
    rw [h.held k f hf] at hx
    cases hx
    obtain ⟨hexp, hne⟩ := hd hlen f (mem_values.mpr ⟨k, hf⟩)
    exact ⟨hexp, lt_of_le_of_ne hle hne⟩
  · exact (h.mono ht).gone k hk x hx

/-- **A get** of no expired value replies as the map does. -/
theorem get (h : Sim now d A) {key : Text} {tm : ℕ} (ht : now ≤ tm)
    (hget : ∀ f, d.lookup key = some f → f.expired = 0 ∨ tm ≤ f.timestamp + f.expired) :
    globalAppDataGet p key tm (.free d) = .returned (A.get key tm) (.free d) := by
  cases hk : d.lookup key with
  | none =>
    have hnone : A.get key tm = none := by
      rw [TtlMap.get]
      cases hA : A key with
      | none => rfl
      | some x =>
        obtain ⟨hexp, hover⟩ := h.gone key hk x hA
        have hhidden : ¬ x.Shown tm := by
          rintro (h0 | hle)
          · exact hexp h0
          · omega
        simp [hhidden]
    rw [globalAppDataGet_free_none hk, hnone]
  | some f =>
    have hshown : (⟨f.value, f.timestamp, f.expired⟩ : Insertion).Shown tm := hget f hk
    have hsome : A.get key tm = some f.value := by
      rw [TtlMap.get, h.held key f hk]
      simp [hshown]
    rw [globalAppDataGet_free_some hk, h.deadline hk, hsome]
    split_ifs with hexp
    · have hle : ¬ f.timestamp + f.expired < tm := not_lt.mpr ((hget f hk).resolve_left (by omega))
      exact if_neg hle
    · rfl

/-- **One call.** A lossless call replies as the map does, and the two stay related. -/
theorem run (h : Sim now d A) {c : CacheCall} (hclock : (now :: c.readings).Pairwise (· ≤ ·))
    (hsum : c.Bounded) (hc : c.Lossless d) :
    ∃ d' now', c.run p (.free d) = .returned (c.ttlReply A) (.free d') ∧
      Sim now' d' (c.ttlStep A) ∧ ∀ t, (∀ r ∈ now :: c.readings, r ≤ t) → now' ≤ t := by
  cases c with
  | insert key val exp timestamp t =>
    simp only [CacheCall.readings, List.pairwise_cons, List.forall_mem_cons] at hclock
    have ht : now ≤ t := hclock.1.2.1
    obtain ⟨d', hrun, hsim⟩ := (h.insert key val hsum).resizing (p := p) ht hc
    exact ⟨d', t, Prog.bind_returned hrun, hsim, fun u hu => hu t (by simp [CacheCall.readings])⟩
  | remove key =>
    exact ⟨_, now, Prog.bind_returned (globalAppDataRemove_free key d), h.remove key,
      fun u hu => hu now List.mem_cons_self⟩
  | resizing t =>
    simp only [CacheCall.readings, List.pairwise_cons, List.forall_mem_cons] at hclock
    obtain ⟨d', hrun, hsim⟩ := h.resizing (p := p) hclock.1.1 hc
    exact ⟨d', t, Prog.bind_returned hrun, hsim, fun u hu => hu t (by simp [CacheCall.readings])⟩
  | get key tm =>
    simp only [CacheCall.readings, List.pairwise_cons, List.forall_mem_cons] at hclock
    exact ⟨d, now, Prog.bind_returned (h.get hclock.1.1 hc), h,
      fun u hu => hu now List.mem_cons_self⟩

end Sim

/-- **Runs.** Under a clock that never goes back, with deadlines below `2 ^ 64`, a run of lossless
calls replies as the time-to-live map does. -/
theorem CacheCall.replies_eq_ttlReplies (p : Profile) {cs : List CacheCall}
    (hclock : (cs.flatMap CacheCall.readings).Pairwise (· ≤ ·)) (hsum : ∀ c ∈ cs, c.Bounded)
    (hcs : CacheCall.AllLossless p cs (.free ∅)) :
    CacheCall.replies p cs (.free ∅) = CacheCall.ttlReplies cs .empty := by
  suffices h : ∀ now d A, Sim now d A → (now :: cs.flatMap readings).Pairwise (· ≤ ·) →
      AllLossless p cs (.free d) → replies p cs (.free d) = ttlReplies cs A from
    h 0 ∅ .empty Sim.new (List.pairwise_cons.mpr ⟨fun _ _ => Nat.zero_le _, hclock⟩) hcs
  clear hclock hcs
  induction cs with
  | nil => exact fun _ _ _ _ _ _ => rfl
  | cons c cs ih =>
    intro now d A h hclock hcs
    rw [List.forall_mem_cons] at hsum
    rw [List.flatMap_cons, ← List.cons_append, List.pairwise_append] at hclock
    obtain ⟨d', now', hrun, hsim, hnow⟩ := h.run (p := p) hclock.1 hsum.1 hcs.1
    rw [replies, hrun, ttlReplies]
    refine congrArg _ (ih hsum.2 now' d' _ hsim (List.pairwise_cons.mpr ⟨fun t ht => ?_, hclock.2.1⟩)
      (hcs.2 _ _ hrun))
    exact hnow t fun r hr => hclock.2.2 r hr t ht

theorem CacheCall.replies_insert_get :
    CacheCall.replies .debug [.insert ['k'] ['v'] 5 0 0, .get ['k'] 5] (.free ∅) =
      [some .done, some (.found (some ['v']))] := by
  refine CacheCall.replies_eq_ttlReplies .debug (by decide) (by simp [Bounded]) ⟨?_, fun r s' h => ?_⟩
  · exact fun h => absurd h (by decide)
  · cases h
    refine ⟨fun f h => ?_, fun _ _ _ => trivial⟩
    cases h
    exact Or.inr (by decide)

/-- Eleven keys, the first one without expiry: the eleventh insertion drops it. -/
def CacheCall.crowd : List CacheCall :=
  .insert ['x'] ['v'] 0 0 0 ::
    (["a", "b", "c", "d", "e", "f", "g", "h", "i", "j"].map fun k => .insert k.toList ['w'] 100 1 1) ++
    [.get ['x'] 1]

theorem CacheCall.replies_crowd :
    (crowd.flatMap readings).Pairwise (· ≤ ·) ∧
      (replies .release crowd (.free ∅)).getLast? = some (some (.found none)) ∧
      (ttlReplies crowd .empty).getLast? = some (some (.found (some ['v']))) ∧
      replies .release crowd (.free ∅) ≠ ttlReplies crowd .empty := by
  decide +kernel

end ChimesUtils
