import ChimesUtils.Lib.Upsert
import ChimesUtils.Rust

/-!
# The gateway table

`add_proxy_info` keeps the proxies of each application in a list, under the name of the application. A
record with a known name and address updates the one in the list.

* `records_addAll`: each list comes from the records with its key, by inserting or updating;
* `isTable_addAll`: the keys, the order and the completeness of the table, after any additions;
* `lastWins_iff`: when the stored record is the last one added.
-/

namespace ChimesUtils

open Lib

/-- `GatewayProxyInfo`, for any types of the load and of the time. -/
@[ext]
structure GatewayProxyInfo (Load Time : Type) where
  appId : Option Text
  appName : Option Text
  proxyAddress : Option Text
  rewriteUrl : Option Bool
  echoText : Option Text
  proxyPrefix : Option Text
  proxyToken : Option Text
  loadAvg : Option Load
  loadCount : Option ℕ
  healthStatus : Option ℕ
  livingTime : Option Time
  deriving DecidableEq

structure GatewayProxyManagement (Load Time : Type) where
  appName : Text
  proxyList : List (GatewayProxyInfo Load Time)

/-- `MAP_GATEWAY_PROXY`. -/
abbrev GatewayProxyMap (Load Time : Type) := Text → Option (GatewayProxyManagement Load Time)

variable {Load Time : Type}

namespace GatewayProxyInfo

/-- The application and the address. -/
def pair (r : GatewayProxyInfo Load Time) : Option Text × Option Text := (r.appName, r.proxyAddress)

/-- The key of the record's list. -/
def key (r : GatewayProxyInfo Load Time) : Text := r.appName.getD []

/-- What an update copies. -/
def update (bit dt : GatewayProxyInfo Load Time) : GatewayProxyInfo Load Time :=
  { bit with healthStatus := dt.healthStatus, loadAvg := dt.loadAvg, proxyToken := dt.proxyToken }

end GatewayProxyInfo

open GatewayProxyInfo

namespace GatewayProxyManagement

/-- The loop over the list, with `found`. -/
def updateLoop (dt : GatewayProxyInfo Load Time) :
    List (GatewayProxyInfo Load Time) → Bool → List (GatewayProxyInfo Load Time) × Bool
  | [], found => ([], found)
  | bit :: rest, found =>
    if bit.appName = dt.appName ∧ bit.proxyAddress = dt.proxyAddress then
      (bit.update dt :: (updateLoop dt rest true).1, (updateLoop dt rest true).2)
    else (bit :: (updateLoop dt rest found).1, (updateLoop dt rest found).2)

def insertOrUpdateProxyInfo (m : GatewayProxyManagement Load Time) (dt : GatewayProxyInfo Load Time) :
    GatewayProxyManagement Load Time :=
  let (list, found) := updateLoop dt m.proxyList false
  { m with proxyList := if found then list else list ++ [dt] }

end GatewayProxyManagement

open GatewayProxyManagement

namespace GatewayProxyMap

/-- `add_proxy_info`, which always returns true. -/
def addProxyInfo (m : GatewayProxyMap Load Time) (dt : GatewayProxyInfo Load Time) :
    GatewayProxyMap Load Time :=
  let appName := dt.appName.getD []
  match m appName with
  | some management => Function.update m appName (some (management.insertOrUpdateProxyInfo dt))
  | none => Function.update m appName (some ⟨appName, [dt]⟩)

def addAll (hist : List (GatewayProxyInfo Load Time)) : GatewayProxyMap Load Time :=
  hist.foldl addProxyInfo fun _ => none

/-- The list under a key. -/
def records (m : GatewayProxyMap Load Time) (k : Text) : List (GatewayProxyInfo Load Time) :=
  (m k).elim [] proxyList

/-- The record stored for an application and an address. -/
def stored (m : GatewayProxyMap Load Time) (p : Option Text × Option Text) :
    Option (GatewayProxyInfo Load Time) :=
  (m.records (p.1.getD [])).find? fun r => r.pair = p

/-- The map is a table of the records added. -/
structure IsTable (hist : List (GatewayProxyInfo Load Time)) (m : GatewayProxyMap Load Time) :
    Prop where
  keyed : ∀ k, ∀ r ∈ m.records k, r.appName.getD [] = k
  distinct : ∀ (k k' : Text) (i i' : ℕ) (r r' : GatewayProxyInfo Load Time),
    (m.records k)[i]? = some r → (m.records k')[i']? = some r' → r.pair = r'.pair → k = k' ∧ i = i'
  /-- The records of a list are in order of first appearance. -/
  ordered : ∀ k, (m.records k).Pairwise fun r r' =>
    (hist.map pair).idxOf r.pair < (hist.map pair).idxOf r'.pair
  present : ∀ dt ∈ hist, ∃ k, ∃ r ∈ m.records k, r.pair = dt.pair
  twice : ∀ dt, (m.addProxyInfo dt).addProxyInfo dt = m.addProxyInfo dt

/-! ## One addition -/

theorem pair_update (bit dt : GatewayProxyInfo Load Time) (_ : bit.pair = dt.pair) :
    (bit.update dt).pair = bit.pair := rfl

theorem updateLoop_eq (dt : GatewayProxyInfo Load Time) (list : List (GatewayProxyInfo Load Time))
    (found : Bool) :
    updateLoop dt list found =
      (list.map fun bit => if bit.pair = dt.pair then bit.update dt else bit,
        found || decide (dt.pair ∈ list.map pair)) := by
  induction list generalizing found with
  | nil => simp [updateLoop]
  | cons bit rest ih =>
    have hpair : (bit.appName = dt.appName ∧ bit.proxyAddress = dt.proxyAddress) ↔
        bit.pair = dt.pair := by
      unfold pair
      rw [Prod.mk.injEq]
    rw [updateLoop, ih, ih]
    by_cases h : bit.pair = dt.pair
    · rw [if_pos (hpair.mpr h), List.map_cons, List.map_cons, if_pos h]
      simp [h]
    · rw [if_neg fun hc => h (hpair.mp hc), List.map_cons, List.map_cons, if_neg h]
      simp [Ne.symm h]

theorem proxyList_insertOrUpdateProxyInfo (m : GatewayProxyManagement Load Time)
    (dt : GatewayProxyInfo Load Time) :
    (m.insertOrUpdateProxyInfo dt).proxyList = upsert pair update m.proxyList dt := by
  show (if (updateLoop dt m.proxyList false).2 = true then (updateLoop dt m.proxyList false).1
    else (updateLoop dt m.proxyList false).1 ++ [dt]) = _
  rw [updateLoop_eq, Bool.false_or, upsert]
  by_cases h : dt.pair ∈ m.proxyList.map pair
  · rw [if_pos (decide_eq_true h), if_pos h]
  · rw [if_neg (by simpa using h), if_neg h]
    congr 1
    refine (List.map_congr_left fun bit hbit => if_neg fun he => h ?_).trans (List.map_id _)
    rw [← he]
    exact List.mem_map_of_mem hbit

theorem addProxyInfo_eq (m : GatewayProxyMap Load Time) (dt : GatewayProxyInfo Load Time) :
    m.addProxyInfo dt = Function.update m dt.key
      (some ((m dt.key).elim ⟨dt.key, [dt]⟩ fun management =>
        management.insertOrUpdateProxyInfo dt)) := by
  unfold addProxyInfo
  show (match m dt.key with | some _ => _ | none => _) = _
  cases m dt.key <;> rfl

theorem records_addProxyInfo (m : GatewayProxyMap Load Time) (dt : GatewayProxyInfo Load Time)
    (k : Text) :
    (m.addProxyInfo dt).records k =
      if dt.key = k then upsert pair update (m.records k) dt else m.records k := by
  rw [addProxyInfo_eq]
  unfold records
  by_cases h : dt.key = k
  · rw [if_pos h, ← h, Function.update_self, Option.elim_some]
    cases m dt.key with
    | none => exact (if_neg List.not_mem_nil).symm
    | some management => exact proxyList_insertOrUpdateProxyInfo management dt
  · rw [if_neg h, Function.update_of_ne fun he => h he.symm]

theorem addProxyInfo_twice (m : GatewayProxyMap Load Time) (dt : GatewayProxyInfo Load Time) :
    (m.addProxyInfo dt).addProxyInfo dt = m.addProxyInfo dt := by
  have hsame : ∀ management : GatewayProxyManagement Load Time,
      upsert pair update management.proxyList dt = management.proxyList →
        management.insertOrUpdateProxyInfo dt = management := by
    intro management h
    rw [← proxyList_insertOrUpdateProxyInfo] at h
    calc management.insertOrUpdateProxyInfo dt
        = ⟨management.appName, (management.insertOrUpdateProxyInfo dt).proxyList⟩ := rfl
      _ = management := by rw [h]
  rw [addProxyInfo_eq (m.addProxyInfo dt), addProxyInfo_eq m, Function.update_idem,
    Function.update_self, Option.elim_some]
  congr 2
  refine hsame _ ?_
  cases m dt.key with
  | none => exact (if_pos (List.mem_singleton.mpr rfl)).trans (by simp [update])
  | some management =>
    rw [Option.elim_some, proxyList_insertOrUpdateProxyInfo]
    exact upsert_upsert pair_update (fun _ => rfl) (fun _ _ => rfl) _ dt

/-! ## All additions -/

/-- **The lists.** Under each key, the records with this key have been inserted or have updated. -/
theorem records_addAll (hist : List (GatewayProxyInfo Load Time)) (k : Text) :
    (addAll hist).records k = upsertAll pair update (hist.filter fun dt => dt.key = k) := by
  induction hist using List.reverseRecOn with
  | nil => rfl
  | append_singleton hist dt ih =>
    rw [addAll, List.foldl_concat, records_addProxyInfo, List.filter_append]
    by_cases h : dt.key = k
    · rw [if_pos h, List.filter_cons_of_pos (by simpa using h), List.filter_nil, upsertAll_concat, ← ih]
      rfl
    · rw [if_neg h, List.filter_cons_of_neg (by simpa using h), List.filter_nil, List.append_nil, ← ih]
      rfl

variable {hist : List (GatewayProxyInfo Load Time)} {k : Text} {r : GatewayProxyInfo Load Time}

theorem exists_of_mem_records (h : r ∈ (addAll hist).records k) :
    ∃ dt ∈ hist, dt.key = k ∧ dt.pair = r.pair := by
  rw [records_addAll] at h
  have hpair := (mem_keys_upsertAll pair_update r.pair _).mp (List.mem_map_of_mem h)
  obtain ⟨dt, hdt, he⟩ := List.mem_map.mp hpair
  exact ⟨dt, List.mem_of_mem_filter hdt, by simpa using List.of_mem_filter hdt, he⟩

theorem key_of_mem_records (h : r ∈ (addAll hist).records k) : r.key = k := by
  obtain ⟨dt, -, hkey, hpair⟩ := exists_of_mem_records h
  rw [← hkey]
  exact (congrArg (fun p => p.1.getD []) hpair).symm

theorem pairs_filter (hist : List (GatewayProxyInfo Load Time)) (k : Text) :
    (hist.filter fun dt => dt.key = k).map pair =
      (hist.map pair).filter fun p => p.1.getD [] = k := by
  rw [List.filter_map]
  rfl

/-- **The table.** After any additions, every record is under the key of its application, no two records
share the application and the address, the lists are in order of first appearance, every application
and address added is there, and adding a record again changes nothing. -/
theorem isTable_addAll (hist : List (GatewayProxyInfo Load Time)) : IsTable hist (addAll hist) where
  keyed := fun k r hr => key_of_mem_records hr
  distinct := fun k k' i i' r r' hr hr' hpair => by
    have hk : k = k' := by
      rw [← key_of_mem_records (List.mem_of_getElem? hr),
        ← key_of_mem_records (List.mem_of_getElem? hr')]
      exact congrArg (fun p => p.1.getD []) hpair
    subst hk
    refine ⟨rfl, ?_⟩
    have hnodup := nodup_keys_upsertAll pair_update (hist.filter fun dt => dt.key = k)
    rw [← records_addAll] at hnodup
    have hi : i < (((addAll hist).records k).map pair).length := by
      rw [List.length_map]
      exact (List.getElem?_eq_some_iff.mp hr).1
    refine (List.getElem?_inj hi hnodup).mp ?_
    rw [List.getElem?_map, List.getElem?_map, hr, hr', Option.map_some, Option.map_some, hpair]
  ordered := fun k => by
    have hpairs := pairwise_keys_upsertAll pair_update (hist.filter fun dt => dt.key = k)
    rw [← records_addAll, List.pairwise_map, pairs_filter] at hpairs
    refine hpairs.imp_of_mem fun hr hr' hlt => idxOf_lt_of_filter ?_ ?_ hlt
    · exact decide_eq_true (key_of_mem_records hr)
    · exact decide_eq_true (key_of_mem_records hr')
  present := fun dt hdt => by
    have hmem : dt.pair ∈ ((addAll hist).records dt.key).map pair := by
      rw [records_addAll, mem_keys_upsertAll pair_update]
      exact List.mem_map_of_mem (List.mem_filter.mpr ⟨hdt, by simp⟩)
    obtain ⟨r, hr, hpair⟩ := List.mem_map.mp hmem
    exact ⟨dt.key, r, hr, hpair⟩
  twice := addProxyInfo_twice _

/-! ## The last record -/

/-- The records added with an application and an address. -/
def addedWith (hist : List (GatewayProxyInfo Load Time)) (p : Option Text × Option Text) :
    List (GatewayProxyInfo Load Time) :=
  hist.filter fun dt => dt.pair = p

/-- The stored record is the last one added. -/
def LastWins (hist : List (GatewayProxyInfo Load Time)) (p : Option Text × Option Text) : Prop :=
  (addAll hist).stored p = (addedWith hist p).getLast?

/-- The first and the last record agree in the fields that an update does not copy. -/
def Agree (hist : List (GatewayProxyInfo Load Time)) (p : Option Text × Option Text) : Prop :=
  ∀ a ∈ (addedWith hist p).head?, ∀ b ∈ (addedWith hist p).getLast?,
    a.appId = b.appId ∧ a.rewriteUrl = b.rewriteUrl ∧ a.echoText = b.echoText ∧
      a.proxyPrefix = b.proxyPrefix ∧ a.loadCount = b.loadCount ∧ a.livingTime = b.livingTime

theorem foldl_update (rest : List (GatewayProxyInfo Load Time)) (a : GatewayProxyInfo Load Time) :
    rest.foldl update a = a.update ((a :: rest).getLast (List.cons_ne_nil a rest)) := by
  induction rest using List.reverseRecOn with
  | nil => rfl
  | append_singleton rest b ih =>
    rw [List.foldl_concat, ih]
    simp [update]

/-- **The stored record** is the first one added, with three fields of the last one. -/
theorem stored_addAll (hist : List (GatewayProxyInfo Load Time)) (p : Option Text × Option Text) :
    (addAll hist).stored p =
      (addedWith hist p).head?.bind fun a => (addedWith hist p).getLast?.map a.update := by
  have hfilter : (hist.filter fun dt => dt.key = p.1.getD []).filter (fun dt => dt.pair = p) =
      addedWith hist p := by
    rw [List.filter_filter]
    refine List.filter_congr fun dt _ => ?_
    by_cases h : dt.pair = p
    · have hkey : dt.key = p.1.getD [] := congrArg (fun q => q.1.getD []) h
      simp [h, hkey]
    · simp [h]
  rw [stored, records_addAll, find_upsertAll pair_update, hfilter]
  cases addedWith hist p with
  | nil => rfl
  | cons a rest =>
    rw [List.head?_cons, Option.bind_some, List.getLast?_eq_some_getLast (List.cons_ne_nil a rest),
      Option.map_some, ← foldl_update]

/-- **Last write wins** just when the first and the last record added for the application and the
address agree in the application's id, the rewriting, the echo text, the prefix, the load count and the
living time. -/
theorem lastWins_iff (hist : List (GatewayProxyInfo Load Time)) (p : Option Text × Option Text) :
    LastWins hist p ↔ Agree hist p := by
  have hpair : ∀ dt ∈ addedWith hist p, dt.pair = p := fun dt hdt => by
    simpa using List.of_mem_filter hdt
  unfold LastWins Agree
  rw [stored_addAll]
  cases hadded : addedWith hist p with
  | nil => exact iff_of_true rfl fun a ha => by cases ha
  | cons a rest =>
    rw [hadded] at hpair
    rw [List.head?_cons, List.getLast?_eq_some_getLast (List.cons_ne_nil a rest)]
    set b := (a :: rest).getLast (List.cons_ne_nil a rest) with hb
    have hab : a.pair = b.pair :=
      (hpair a List.mem_cons_self).trans (hpair b (List.getLast_mem _)).symm
    have hname : a.appName = b.appName := congrArg Prod.fst hab
    have haddress : a.proxyAddress = b.proxyAddress := congrArg Prod.snd hab
    rw [Option.bind_some, Option.map_some, Option.some.injEq]
    constructor
    · rintro hupdate _ ⟨⟩ _ ⟨⟩
      rw [GatewayProxyInfo.ext_iff] at hupdate
      obtain ⟨h1, -, -, h2, h3, h4, -, -, h5, -, h6⟩ := hupdate
      exact ⟨h1, h2, h3, h4, h5, h6⟩
    · intro h
      obtain ⟨h1, h2, h3, h4, h5, h6⟩ := h a rfl b rfl
      rw [GatewayProxyInfo.ext_iff]
      exact ⟨h1, hname, haddress, h2, h3, h4, rfl, rfl, h5, rfl, h6⟩

/-- A proxy that is added again with a new prefix. -/
def newPrefix : List (GatewayProxyInfo ℕ ℕ) :=
  [⟨none, some ['a'], none, none, none, some ['/', 'v', '1'], none, none, none, none, none⟩,
    ⟨none, some ['a'], none, none, none, some ['/', 'v', '2'], none, none, none, none, none⟩]

/-- The table keeps the old one. -/
theorem not_lastWins_newPrefix :
    (some ['a'], none) ∈ newPrefix.map pair ∧ ¬ LastWins newPrefix (some ['a'], none) := by
  refine ⟨by decide, fun h => ?_⟩
  have hfield := congrArg (Option.map proxyPrefix) h
  exact absurd hfield (by decide)

end GatewayProxyMap

end ChimesUtils
