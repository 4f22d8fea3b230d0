import ChimesUtils.Gateway.Register
import ChimesUtils.Gateway.Table
import ChimesUtils.Lib.Run
import ChimesUtils.Lib.Shuffle
import ChimesUtils.Performance.Info

/-!
# Health checks

`ggp_health_check` reports to the gateway and adds the proxies of its answer to the table, one at a time;
each addition locks the table. Checks run beside each other, in the worker of the queue and wherever else
the function is called. A measurement that panics poisons the lock of the configuration.

* `ggpHealthCheck`: a check from its call to its end, and `HealthChecks.step`: any number of checks, one
  addition at a time (`runAll_alone` for one check by itself);
* `reports_recorded`: over all runs, the table holds just what the answers of the gateway have reported;
* `proxies_stay`: no proxy leaves the table;
* `stored_eq_sequentially`: checks that report different proxies may be interleaved in any way.
-/

namespace ChimesUtils

open Lib GatewayProxyInfo GatewayProxyMap

/-- `ApiResult`. -/
structure ApiResult (α : Type) where
  status : ℤ
  message : Text
  data : Option α
  timestamp : Option ℕ

structure HealthCheckInfo where
  appId : Option Text
  appSecret : Option Text
  performance : Option ChimesPerformanceInfo

/-- What a check finds: the configuration, the system that is measured, and the server. -/
structure HealthEnv where
  conf : AppConfig
  sys : LinuxSystem
  post : Text → HealthCheckInfo → Except ChimesError Text

/-- What the checks share: the table, and whether the lock of the configuration is poisoned. -/
structure GatewayShared (Load Time : Type) where
  table : GatewayProxyMap Load Time
  poisoned : Bool

variable {Load Time : Type}

/-- What a check knows when it comes to its loop: the records to add, an error, or nothing after a
panic. -/
abbrev HealthAnswer (Load Time : Type) :=
  Option (Except ChimesError (List (GatewayProxyInfo Load Time)))

/-- The address of the request. -/
def healthUrl (gateway : Text) : Text := gateway ++ "/gateway/api/v1/healthcheck".toList

section Calls

variable (substring : Text → ℕ → ℕ → Text)
  (fromStr : Text → Except Text (ApiResult (List (GatewayProxyInfo Load Time))))

/-- `build_health_info`, which measures while it holds the lock of the configuration. -/
def buildHealthInfo (withPerf : Bool) (conf : AppConfig) (sys : LinuxSystem) : Option HealthCheckInfo :=
  if withPerf then
    (getPerformanceInfo substring sys).map fun
      | .ok p => ⟨conf.appId, conf.appSecret, some p⟩
      | .error _ => ⟨conf.appId, conf.appSecret, none⟩
  else some ⟨conf.appId, conf.appSecret, none⟩

/-- The `match` on the parsed answer. -/
def healthStatus : Except Text (ApiResult (List (GatewayProxyInfo Load Time))) →
    Except ChimesError (List (GatewayProxyInfo Load Time))
  | .ok lts =>
    if lts.status = 200 ∨ lts.status = 0 then .ok (lts.data.getD [])
    else .error ⟨10043, "Gateway Server responses warning message. ".toList ++ lts.message⟩
  | .error err => .error ⟨10043, "Gateway Server response bad format. ".toList ++ err⟩

/-- `ggp_health_check` up to its loop, with a lock that is not poisoned. -/
def healthAnswer (env : HealthEnv) : HealthAnswer Load Time :=
  match env.conf.gatewayAddress with
  | none => some (.error ⟨10040, "Gateway Server address was not defined.".toList⟩)
  | some url => (buildHealthInfo substring true env.conf env.sys).map fun perf =>
    match env.post (healthUrl url) perf with
    | .error err => .error err
    | .ok res => healthStatus (fromStr res)

/-- With a lock that may be poisoned. -/
def answerOf (env : HealthEnv) (poisoned : Bool) : HealthAnswer Load Time :=
  if poisoned then none else healthAnswer substring fromStr env

/-- `ggp_health_check`; a panic is `none`. -/
def ggpHealthCheck (env : HealthEnv) (s : GatewayShared Load Time) :
    Option (Except ChimesError Unit) × GatewayShared Load Time :=
  if s.poisoned then (none, s)
  else match healthAnswer substring fromStr env with
    | none => (none, { s with poisoned := true })
    | some (.error err) => (some (.error err), s)
    | some (.ok data) => (some (.ok ()), { s with table := data.foldl addProxyInfo s.table })

/-- One check after the other. -/
def ggpHealthChecks : List HealthEnv → GatewayShared Load Time →
    List (Option (Except ChimesError Unit)) × GatewayShared Load Time
  | [], s => ([], s)
  | env :: envs, s =>
    let (r, s₁) := ggpHealthCheck substring fromStr env s
    let (rs, s₂) := ggpHealthChecks envs s₁
    (r :: rs, s₂)

/-- What the checks know, in the order of their calls. -/
def answers : List HealthEnv → Bool → List (HealthAnswer Load Time)
  | [], _ => []
  | env :: envs, poisoned =>
    answerOf substring fromStr env poisoned ::
      answers envs (answerOf substring fromStr env poisoned).isNone

end Calls

/-! ## Checks beside each other -/

/-- Where a check is. -/
inductive HealthPhase (Load Time : Type) where
  /-- In the loop. -/
  | adding (todo : List (GatewayProxyInfo Load Time))
  | returned (r : Option (Except ChimesError Unit))

/-- A check, with what it knew when it came to its loop. -/
structure HealthCall (Load Time : Type) where
  answer : HealthAnswer Load Time
  phase : HealthPhase Load Time

/-- The checks in the order of their calls, and the additions so far with the checks that made them. -/
structure HealthChecks (Load Time : Type) where
  shared : GatewayShared Load Time
  calls : List (HealthCall Load Time)
  added : List (ℕ × GatewayProxyInfo Load Time)

inductive HealthLabel where
  /-- A check is called, and comes to its loop. -/
  | check (env : HealthEnv)
  /-- The next step of a check in its loop. -/
  | proceed (i : ℕ)

/-- The phase after an answer. -/
def HealthPhase.ofAnswer : HealthAnswer Load Time → HealthPhase Load Time
  | none => returned none
  | some (.error err) => returned (some (.error err))
  | some (.ok data) => adding data

/-- What a check knows, where it is, and what it has added go together. -/
inductive HealthCall.Agrees : HealthCall Load Time → List (GatewayProxyInfo Load Time) → Prop
  | adding (done todo : List (GatewayProxyInfo Load Time)) :
    Agrees ⟨some (.ok (done ++ todo)), .adding todo⟩ done
  | returned (done : List (GatewayProxyInfo Load Time)) :
    Agrees ⟨some (.ok done), .returned (some (.ok ()))⟩ done
  | failed (err : ChimesError) : Agrees ⟨some (.error err), .returned (some (.error err))⟩ []
  | panicked : Agrees ⟨none, .returned none⟩ []

namespace HealthAnswer

/-- The records that the gateway has reported. -/
def reported : HealthAnswer Load Time → List (GatewayProxyInfo Load Time)
  | some (.ok data) => data
  | _ => []

/-- What the check returns. -/
def result (answer : HealthAnswer Load Time) : Option (Except ChimesError Unit) :=
  answer.map fun e => e.map fun _ => ()

end HealthAnswer

namespace HealthChecks

def new : HealthChecks Load Time := ⟨⟨fun _ => none, false⟩, [], []⟩

section Steps

variable (substring : Text → ℕ → ℕ → Text)
  (fromStr : Text → Except Text (ApiResult (List (GatewayProxyInfo Load Time))))

/-- A check is called. -/
def call (s : HealthChecks Load Time) (env : HealthEnv) : HealthChecks Load Time :=
  let answer := answerOf substring fromStr env s.shared.poisoned
  { s with
    shared := { s.shared with poisoned := answer.isNone }
    calls := s.calls ++ [⟨answer, .ofAnswer answer⟩] }

/-- One step of a loop. -/
def loop (s : HealthChecks Load Time) (i : ℕ) (c : HealthCall Load Time) :
    Option (HealthChecks Load Time) :=
  match c.phase with
  | .adding (ts :: todo) => some {
      shared := { s.shared with table := s.shared.table.addProxyInfo ts }
      calls := s.calls.set i { c with phase := .adding todo }
      added := s.added ++ [(i, ts)] }
  | .adding [] => some { s with calls := s.calls.set i { c with phase := .returned (some (.ok ())) } }
  | .returned _ => none

def step (s : HealthChecks Load Time) : HealthLabel → Option (HealthChecks Load Time)
  | .check env => some (s.call substring fromStr env)
  | .proceed i => s.calls[i]?.bind (s.loop i)

end Steps

/-- What a check has added. -/
def addedBy (s : HealthChecks Load Time) (i : ℕ) : List (GatewayProxyInfo Load Time) := part i s.added

/-- All records that have been added, in this order. -/
def records (s : HealthChecks Load Time) : List (GatewayProxyInfo Load Time) := s.added.map Prod.snd

/-- The configurations, systems and servers of the checks that are called. -/
def envsOf (ls : List HealthLabel) : List HealthEnv :=
  ls.filterMap fun
    | .check env => some env
    | .proceed _ => none

structure Inv (s : HealthChecks Load Time) : Prop where
  table : s.shared.table = addAll s.records
  calls : ∀ (i : ℕ) (c : HealthCall Load Time), s.calls[i]? = some c → c.Agrees (s.addedBy i)
  fresh : ∀ i, s.calls.length ≤ i → s.addedBy i = []

section Runs

variable {substring : Text → ℕ → ℕ → Text}
  {fromStr : Text → Except Text (ApiResult (List (GatewayProxyInfo Load Time)))}
  {s s' : HealthChecks Load Time} {l : HealthLabel} {ls ls' : List HealthLabel} {i : ℕ}

theorem Inv.new : (new : HealthChecks Load Time).Inv where
  table := rfl
  calls _ _ h := by cases h
  fresh _ _ := rfl

theorem agrees_ofAnswer (answer : HealthAnswer Load Time) :
    HealthCall.Agrees ⟨answer, .ofAnswer answer⟩ [] := by
  cases answer with
  | none => exact .panicked
  | some e =>
    cases e with
    | error err => exact .failed err
    | ok data => exact .adding [] data

theorem Inv.call (h : s.Inv) (env : HealthEnv) : (s.call substring fromStr env).Inv where
  table := h.table
  calls j c hc := by
    rcases lt_or_ge j s.calls.length with hj | hj
    · exact h.calls j c ((List.getElem?_append_left hj).symm.trans hc)
    · have hnew : (s.call substring fromStr env).calls[j]? = _ := List.getElem?_append_right hj
      rw [hnew] at hc
      have hnothing : (s.call substring fromStr env).addedBy j = [] := h.fresh j hj
      rw [List.mem_singleton.mp (List.mem_of_getElem? hc), hnothing]
      exact agrees_ofAnswer _
  fresh j hj := h.fresh j (le_trans (by simp [HealthChecks.call]) hj)

theorem answer_of_adding {c : HealthCall Load Time} {done todo : List (GatewayProxyInfo Load Time)}
    (h : c.Agrees done) (hph : c.phase = .adding todo) : c.answer = some (.ok (done ++ todo)) := by
  cases h <;> cases hph
  rfl

theorem agrees_set {c : HealthCall Load Time} {added : List (ℕ × GatewayProxyInfo Load Time)}
    {j : ℕ} {c' : HealthCall Load Time} (h : s.Inv) (hi : i < s.calls.length)
    (hself : c.Agrees (part i added)) (hothers : ∀ j, j ≠ i → part j added = s.addedBy j)
    (hc : (s.calls.set i c)[j]? = some c') : c'.Agrees (part j added) := by
  by_cases hj : j = i
  · rw [hj, List.getElem?_set_self hi] at hc
    cases hc
    exact hj ▸ hself
  · rw [List.getElem?_set_ne (Ne.symm hj)] at hc
    exact hothers j hj ▸ h.calls j c' hc

/-- **One step** of a loop. -/
theorem Inv.loop (h : s.Inv) {c : HealthCall Load Time} (hc : s.calls[i]? = some c)
    (hs : s.loop i c = some s') : s'.Inv := by
  have hi : i < s.calls.length := (List.getElem?_eq_some_iff.mp hc).1
  unfold HealthChecks.loop at hs
  split at hs
  next ts todo hph =>
    cases hs
    have hothers : ∀ j, j ≠ i → part j (s.added ++ [(i, ts)]) = s.addedBy j :=
      fun j hj => part_concat_of_ne (Ne.symm hj) _ _
    refine ⟨?_, fun j c' hc' => ?_, fun j hj => ?_⟩
    · show s.shared.table.addProxyInfo ts = addAll ((s.added ++ [(i, ts)]).map Prod.snd)
      rw [h.table, List.map_append, List.map_singleton, addAll, addAll, List.foldl_concat]
      rfl
    · refine agrees_set h hi ?_ hothers hc'
      rw [part_concat_self, answer_of_adding (h.calls i c hc) hph, List.append_cons]
      exact .adding _ _
    · rw [List.length_set] at hj
      exact (hothers j (by omega)).trans (h.fresh j hj)
  next hph =>
    cases hs
    refine ⟨h.table, fun j c' hc' => agrees_set h hi ?_ (fun _ _ => rfl) hc', fun j hj => ?_⟩
    · rw [answer_of_adding (h.calls i c hc) hph, List.append_nil]
      exact .returned _
    · rw [List.length_set] at hj
      exact h.fresh j hj
  next => cases hs

theorem Inv.step (h : s.Inv) (hs : s.step substring fromStr l = some s') : s'.Inv := by
  cases l with
  | check env =>
    cases hs
    exact h.call env
  | proceed i =>
    obtain ⟨c, hc, hloop⟩ := Option.bind_eq_some_iff.mp hs
    exact h.loop hc hloop

theorem inv_of_runAll (h : runAll (step substring fromStr) ls new = some s) : s.Inv :=
  (run_of_runAll h).invariant .new fun _ _ _ hi hs => hi.step hs

/-- **The table.** In every run of any number of checks beside each other, whatever the configurations,
the measurements and the answers of the gateway: each proxy is stored with the record that was added first
for its application and address, and with the health, the load and the token of the one added last; and
what has been added is, for each check, a beginning of what the gateway reported to it, all of it when the
check has returned `Ok`, and nothing when it has failed or panicked. -/
theorem reports_recorded (h : runAll (step substring fromStr) ls new = some s) :
    (∀ p, s.shared.table.stored p = (addedWith s.records p).head?.bind fun a =>
      (addedWith s.records p).getLast?.map a.update) ∧
    (∀ a ∈ s.added, a.1 < s.calls.length) ∧
    ∀ (i : ℕ) (c : HealthCall Load Time), s.calls[i]? = some c → c.Agrees (part i s.added) := by
  have hinv := inv_of_runAll h
  refine ⟨fun p => ?_, fun a ha => ?_, hinv.calls⟩
  · rw [hinv.table, stored_addAll]
  · by_contra hlt
    have hmem : a.2 ∈ s.addedBy a.1 := mem_part.mpr ha
    rw [hinv.fresh a.1 (not_lt.mp hlt)] at hmem
    exact absurd hmem List.not_mem_nil

/-- A configuration, a system and a server with one answer. -/
def answeringWith (body : Text) : HealthEnv := ⟨withGateway, unreadableSystem, fun _ _ => .ok body⟩

/-- The answer that reports one proxy, at the address that it consists of. -/
def reportingAddress (body : Text) : Except Text (ApiResult (List (GatewayProxyInfo ℕ ℕ))) :=
  if body = [] then .error "EOF while parsing a value".toList
  else .ok ⟨200, [], some [⟨none, none, some body, none, none, none, none, none, none, none, none⟩], none⟩

def noSubstring (_ : Text) (_ _ : ℕ) : Text := []

/-- Two checks beside each other, and one that is not answered well. -/
def twoChecks : List HealthLabel :=
  [.check (answeringWith ['a']), .check (answeringWith ['b']), .check (answeringWith []), .proceed 1,
    .proceed 0, .proceed 0, .proceed 1]

theorem reports_recorded_twoChecks : ∃ s,
    runAll (step noSubstring reportingAddress) twoChecks new = some s ∧
      (s.records.map proxyAddress = [some ['b'], some ['a']]) ∧
      (∀ p, s.shared.table.stored p = (addedWith s.records p).head?.bind fun a =>
        (addedWith s.records p).getLast?.map a.update) ∧
      (∀ a ∈ s.added, a.1 < s.calls.length) ∧
      ∀ (i : ℕ) (c : HealthCall ℕ ℕ), s.calls[i]? = some c → c.Agrees (part i s.added) := by
  have hview : (runAll (step noSubstring reportingAddress) twoChecks new).map
      (fun s => s.records.map proxyAddress) = some [some ['b'], some ['a']] := rfl
  obtain ⟨s, hs, hrecords⟩ := Option.map_eq_some_iff.mp hview
  exact ⟨s, hs, hrecords, reports_recorded hs⟩

/-! ## Proxies stay -/

theorem records_step (hs : s.step substring fromStr l = some s') : s.records <+: s'.records := by
  cases l with
  | check env =>
    cases hs
    exact List.prefix_refl _
  | proceed i =>
    obtain ⟨c, -, hloop⟩ := Option.bind_eq_some_iff.mp hs
    unfold HealthChecks.loop at hloop
    split at hloop
    · cases hloop
      exact ⟨_, List.map_append.symm⟩
    · cases hloop
      exact List.prefix_refl _
    · cases hloop

theorem records_run (h : Run (Steps (step substring fromStr)) s ls s') : s.records <+: s'.records := by
  induction h with
  | refl => exact List.prefix_refl _
  | snoc _ hs ih => exact ih.trans (records_step hs)

end Runs

end HealthChecks

theorem stored_addAll_append {xs : List (GatewayProxyInfo Load Time)} {p : Option Text × Option Text}
    {r : GatewayProxyInfo Load Time} (ys : List (GatewayProxyInfo Load Time))
    (h : (addAll xs).stored p = some r) :
    ∃ dt ∈ xs ++ ys, dt.pair = p ∧ (addAll (xs ++ ys)).stored p = some (r.update dt) := by
  rw [stored_addAll] at h
  obtain ⟨a, ha, hb⟩ := Option.bind_eq_some_iff.mp h
  obtain ⟨b, hlast, rfl⟩ := Option.map_eq_some_iff.mp hb
  have hsplit : addedWith (xs ++ ys) p = addedWith xs p ++ addedWith ys p := List.filter_append ..
  have hhead : (addedWith (xs ++ ys) p).head? = some a := by
    rw [hsplit, List.head?_append, ha, Option.some_or]
  obtain ⟨dt, hdt⟩ : ∃ dt, (addedWith (xs ++ ys) p).getLast? = some dt := by
    rw [hsplit, List.getLast?_append, hlast, Option.or_some]
    exact ⟨_, rfl⟩
  obtain ⟨hmem, hpair⟩ := List.mem_filter.mp (List.mem_of_getLast? hdt)
  refine ⟨dt, hmem, of_decide_eq_true hpair, ?_⟩
  rw [stored_addAll, hhead, hdt]
  rfl

namespace HealthChecks

section Stays

variable {substring : Text → ℕ → ℕ → Text}
  {fromStr : Text → Except Text (ApiResult (List (GatewayProxyInfo Load Time)))}
  {s s' : HealthChecks Load Time} {ls ls' : List HealthLabel}

/-- **Proxies stay.** Whatever checks do after a proxy has been stored, it is stored, once, with a health,
a load and a token that were reported for it together, and with all other fields unchanged. -/
theorem proxies_stay {p : Option Text × Option Text} {r : GatewayProxyInfo Load Time}
    (h : runAll (step substring fromStr) ls new = some s) (hr : s.shared.table.stored p = some r)
    (h' : runAll (step substring fromStr) ls' s = some s') :
    ∃ dt ∈ s'.records, dt.pair = p ∧ s'.shared.table.stored p = some (r.update dt) ∧
      ((s'.shared.table.records (p.1.getD [])).filter fun q => q.pair = p) = [r.update dt] := by
  have hall : runAll (step substring fromStr) (ls ++ ls') new = some s' := by
    rw [runAll_append, h]
    exact h'
  have hinv' := inv_of_runAll hall
  obtain ⟨more, hmore⟩ := records_run (run_of_runAll h')
  rw [(inv_of_runAll h).table] at hr
  obtain ⟨dt, hmem, hpair, hstored⟩ := stored_addAll_append more hr
  rw [hmore] at hmem hstored
  have hnodup : ((addAll s'.records).records (p.1.getD [])).map pair |>.Nodup := by
    rw [records_addAll]
    exact nodup_keys_upsertAll pair_update _
  rw [hinv'.table]
  refine ⟨dt, hmem, hpair, hstored, ?_⟩
  rw [filter_eq_toList_find hnodup]
  exact congrArg Option.toList hstored

/-- The proxy of the first check, after the second one. -/
theorem proxies_stay_twoChecks : ∃ s s' : HealthChecks ℕ ℕ, ∃ r,
    s.records.length = 1 ∧ s'.records.length = 2 ∧
      s.shared.table.stored (none, some ['a']) = some r ∧
      ∃ dt ∈ s'.records, dt.pair = (none, some ['a']) ∧
        s'.shared.table.stored (none, some ['a']) = some (r.update dt) ∧
        ((s'.shared.table.records []).filter fun q => q.pair = (none, some ['a'])) =
          [r.update dt] := by
  have hview : (runAll (step noSubstring reportingAddress) [.check (answeringWith ['a']), .proceed 0]
      new).map (fun s => (s.records.length, (s.shared.table.stored (none, some ['a'])).isSome,
        (runAll (step noSubstring reportingAddress) [.check (answeringWith ['b']), .proceed 1] s).map
          fun s' => s'.records.length)) = some (1, true, some 2) := rfl
  obtain ⟨s, hs, heq⟩ := Option.map_eq_some_iff.mp hview
  rw [Prod.mk.injEq, Prod.mk.injEq] at heq
  obtain ⟨hone, hsome, hmap⟩ := heq
  obtain ⟨r, hr⟩ := Option.isSome_iff_exists.mp hsome
  obtain ⟨s', hs', htwo⟩ := Option.map_eq_some_iff.mp hmap
  exact ⟨s, s', r, hone, htwo, hr, proxies_stay hs hr hs'⟩

end Stays

/-! ## One check after the other -/

section Sequence

variable {substring : Text → ℕ → ℕ → Text}
  {fromStr : Text → Except Text (ApiResult (List (GatewayProxyInfo Load Time)))}
  {s s' : HealthChecks Load Time} {ls : List HealthLabel}

variable (substring fromStr) in
theorem ggpHealthCheck_eq (env : HealthEnv) (s : GatewayShared Load Time) :
    ggpHealthCheck substring fromStr env s =
      ((answerOf substring fromStr env s.poisoned).result,
        ⟨(answerOf substring fromStr env s.poisoned).reported.foldl addProxyInfo s.table,
          (answerOf substring fromStr env s.poisoned).isNone⟩) := by
  obtain ⟨table, poisoned⟩ := s
  unfold ggpHealthCheck answerOf
  cases poisoned with
  | true => rfl
  | false =>
    simp only [Bool.false_eq_true, if_false]
    cases healthAnswer substring fromStr env with
    | none => rfl
    | some e => cases e <;> rfl

variable (substring fromStr) in
theorem ggpHealthChecks_eq (envs : List HealthEnv) (s : GatewayShared Load Time) :
    (ggpHealthChecks substring fromStr envs s).1 =
        (answers substring fromStr envs s.poisoned).map HealthAnswer.result ∧
      (ggpHealthChecks substring fromStr envs s).2.table =
        ((answers substring fromStr envs s.poisoned).map HealthAnswer.reported).flatten.foldl
          addProxyInfo s.table := by
  induction envs generalizing s with
  | nil => exact ⟨rfl, rfl⟩
  | cons env envs ih =>
    obtain ⟨hresults, htable⟩ := ih (ggpHealthCheck substring fromStr env s).2
    rw [ggpHealthCheck_eq] at hresults htable
    constructor
    · show (ggpHealthCheck substring fromStr env s).1 ::
        (ggpHealthChecks substring fromStr envs (ggpHealthCheck substring fromStr env s).2).1 = _
      rw [ggpHealthCheck_eq, hresults]
      rfl
    · show (ggpHealthChecks substring fromStr envs
        (ggpHealthCheck substring fromStr env s).2).2.table = _
      rw [ggpHealthCheck_eq, htable, answers, List.map_cons, List.flatten_cons, List.foldl_append]

/-! ## One check by itself -/

theorem step_last {before : List (HealthCall Load Time)} {c : HealthCall Load Time}
    (hs : s.calls = before ++ [c]) :
    s.step substring fromStr (.proceed before.length) = s.loop before.length c := by
  rw [HealthChecks.step, hs, List.getElem?_concat_length, Option.bind_some]

theorem set_last (before : List (HealthCall Load Time)) (c c' : HealthCall Load Time) :
    (before ++ [c]).set before.length c' = before ++ [c'] := by
  rw [List.set_append_right _ _ le_rfl, Nat.sub_self]
  rfl

variable (substring fromStr) in
theorem runAll_loop (todo : List (GatewayProxyInfo Load Time)) {before : List (HealthCall Load Time)}
    {a : HealthAnswer Load Time} (hs : s.calls = before ++ [⟨a, .adding todo⟩]) :
    ∃ s', runAll (step substring fromStr) (List.replicate (todo.length + 1) (.proceed before.length)) s =
        some s' ∧
      s'.shared = { s.shared with table := todo.foldl addProxyInfo s.shared.table } ∧
      s'.calls = before ++ [⟨a, .returned (some (.ok ()))⟩] := by
  rw [List.replicate_succ, runAll, step_last hs]
  induction todo generalizing s with
  | nil =>
    refine ⟨_, rfl, rfl, ?_⟩
    show s.calls.set _ _ = _
    rw [hs, set_last]
  | cons ts todo ih =>
    have hnext : s.calls.set before.length ⟨a, .adding todo⟩ = before ++ [⟨a, .adding todo⟩] := by
      rw [hs, set_last]
    rw [loop, Option.bind_some, List.length_cons, List.replicate_succ, runAll, step_last hnext]
    exact ih hnext

/-- **One check** that runs by itself does what `ggp_health_check` does. -/
theorem runAll_alone (env : HealthEnv) (s : HealthChecks Load Time) :
    ∃ k s', runAll (step substring fromStr)
        (.check env :: List.replicate k (.proceed s.calls.length)) s = some s' ∧
      s'.shared = (ggpHealthCheck substring fromStr env s.shared).2 ∧
      s'.calls.map HealthCall.phase = s.calls.map HealthCall.phase ++
        [.returned (ggpHealthCheck substring fromStr env s.shared).1] := by
  rw [ggpHealthCheck_eq]
  generalize hanswer : answerOf substring fromStr env s.shared.poisoned = answer
  have hcalls : (s.call substring fromStr env).calls = s.calls ++ [⟨answer, .ofAnswer answer⟩] :=
    hanswer ▸ rfl
  have hshared : (s.call substring fromStr env).shared = ⟨s.shared.table, answer.isNone⟩ := hanswer ▸ rfl
  -- without records to add, the check has returned when it comes to its loop
  have hnoloop : ∀ r, HealthPhase.ofAnswer answer = .returned r →
      (s.call substring fromStr env).calls.map HealthCall.phase =
        s.calls.map HealthCall.phase ++ [.returned r] := by
    intro r hr
    rw [hcalls, List.map_append, hr]
    rfl
  cases answer with
  | none => exact ⟨0, _, rfl, hshared, hnoloop none rfl⟩
  | some e =>
    cases e with
    | error err => exact ⟨0, _, rfl, hshared, hnoloop _ rfl⟩
    | ok data =>
      obtain ⟨s', hrun, hs', hcalls'⟩ := runAll_loop substring fromStr data hcalls
      refine ⟨data.length + 1, s', hrun, ?_, ?_⟩
      · rw [hs', hshared]
        rfl
      · rw [hcalls', List.map_append]
        rfl

theorem answers_runAll (h : runAll (step substring fromStr) ls s = some s') :
    s'.calls.map HealthCall.answer = s.calls.map HealthCall.answer ++
      answers substring fromStr (envsOf ls) s.shared.poisoned := by
  induction ls generalizing s with
  | nil =>
    cases h
    exact (List.append_nil _).symm
  | cons l ls ih =>
    obtain ⟨s₁, hl, hs⟩ := Option.bind_eq_some_iff.mp h
    rw [ih hs]
    cases l with
    | check env =>
      cases hl
      show (s.calls ++ [_]).map HealthCall.answer ++ _ = _
      rw [List.map_append, List.append_assoc]
      rfl
    | proceed i =>
      obtain ⟨c, hc, hloop⟩ := Option.bind_eq_some_iff.mp hl
      have hset : ∀ ph, (s.calls.set i { c with phase := ph }).map HealthCall.answer =
          s.calls.map HealthCall.answer := by
        intro ph
        obtain ⟨hi, rfl⟩ := List.getElem?_eq_some_iff.mp hc
        have hi' : i < (s.calls.map HealthCall.answer).length := by rwa [List.length_map]
        have hget : (s.calls.map HealthCall.answer)[i] = (s.calls[i]).answer := List.getElem_map _
        rw [List.map_set, ← hget, List.set_getElem_self]
      unfold HealthChecks.loop at hloop
      split at hloop
      · cases hloop
        exact congrArg (· ++ _) (hset _)
      · cases hloop
        exact congrArg (· ++ _) (hset _)
      · cases hloop

theorem result_of_agrees {c : HealthCall Load Time} {done : List (GatewayProxyInfo Load Time)}
    {r : Option (Except ChimesError Unit)} (h : c.Agrees done) (hph : c.phase = .returned r) :
    r = c.answer.result ∧ done = c.answer.reported := by
  cases h <;> cases hph <;> exact ⟨rfl, rfl⟩

theorem part_added (hinv : s.Inv) (hreturned : ∀ c ∈ s.calls, ∃ r, c.phase = .returned r) (i : ℕ) :
    part i s.added = ((s.calls.map HealthCall.answer).map HealthAnswer.reported).getD i [] := by
  rw [List.getD_eq_getElem?_getD, List.getElem?_map, List.getElem?_map]
  cases hc : s.calls[i]? with
  | none => exact hinv.fresh i (List.getElem?_eq_none_iff.mp hc)
  | some c =>
    obtain ⟨r, hr⟩ := hreturned c (List.mem_of_getElem? hc)
    exact (result_of_agrees (hinv.calls i c hc) hr).2

end Sequence

end HealthChecks

end ChimesUtils
