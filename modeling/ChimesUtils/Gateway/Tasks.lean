import ChimesUtils.Gateway.Register
import ChimesUtils.Queue.Registered

/-!
# The tasks for the gateway

`ggp_delay_register` and `ggp_add_health_check_task` register a handler, create a task and add it, each
after waiting for a lock. Any number of calls run beside the workers of the queue.

* `GatewayTasks.step`: the calls, one await at a time, and the steps of the queue in between;
* `handled_first`: over all runs, the handler of the registration has been invoked before a worker
  removes its task, and no worker removes a health check.
-/

namespace ChimesUtils

open Lib

/-- What the two functions pass on. -/
structure TaskCall where
  cookie : Text
  cycle : Bool
  period : ℕ
  handlerType : Text
  deriving DecidableEq

/-- `ggp_add_health_check_task`. -/
def ggpAddHealthCheckTask : TaskCall :=
  ⟨"health_check".toList, true, 60, "execute_healthcheck".toList⟩

/-- `ggp_delay_register`. -/
def ggpDelayRegister : TaskCall := ⟨"register".toList, false, 10, "execute_register".toList⟩

/-- The task of a call. -/
def TaskCall.task (c : TaskCall) (id : Text) (now : ℕ) : ProcessTask :=
  ProcessTask.newWithCookieFn c.cookie c.cycle c.period c.handlerType id now

/-- Where a call is. -/
inductive TaskCallPhase where
  /-- At `queue_registry_handler`. -/
  | asked (c : TaskCall)
  | registered (c : TaskCall)
  /-- At `queue_add`. -/
  | holding (task : ProcessTask)
  | done
  deriving DecidableEq

/-- The queue and the calls. -/
structure GatewayTasks where
  base : QueueState
  calls : List TaskCallPhase

inductive GatewayLabel where
  /-- `ggp_add_health_check_task` is called, with the configuration at that time. -/
  | healthCheck (conf : AppConfig)
  /-- `ggp_delay_register` is called. -/
  | delayRegister (conf : AppConfig)
  /-- The next step of a call, with the random id if it creates its task. -/
  | proceed (i : ℕ) (id : Text)
  /-- A step of the queue that creates and adds no task. -/
  | other (l : QueueLabel)

namespace GatewayTasks

def new (t : ℕ) : GatewayTasks := ⟨.new t, []⟩

/-- Both functions begin with the test of the configuration. -/
def begin (s : GatewayTasks) (c : TaskCall) (conf : AppConfig) : GatewayTasks :=
  if conf.appId.isSome ∧ conf.appSecret.isSome then { s with calls := s.calls ++ [.asked c] } else s

/-- What the next step of a call asks of the queue, and where the call is then. -/
def asks (s : GatewayTasks) (i : ℕ) (id : Text) : Option (QueueLabel × TaskCallPhase) :=
  match s.calls[i]? with
  | some (.asked c) => some (.registerHandler c.handlerType, .registered c)
  | some (.registered c) =>
    some (.create c.cycle c.period c.cookie c.handlerType id, .holding (c.task id s.base.now))
  | some (.holding task) => some (.add task, .done)
  | some .done => none
  | none => none

/-- The steps of the queue that are no client's creation or addition. -/
def isOther : QueueLabel → Bool
  | .create .. => false
  | .add _ => false
  | _ => true

def step (p : Profile) (s : GatewayTasks) : GatewayLabel → Option GatewayTasks
  | .healthCheck conf => some (s.begin ggpAddHealthCheckTask conf)
  | .delayRegister conf => some (s.begin ggpDelayRegister conf)
  | .proceed i id => (s.asks i id).bind fun a =>
    (s.base.step p a.1).map fun base => ⟨base, s.calls.set i a.2⟩
  | .other l => if isOther l then (s.base.step p l).map fun base => { s with base := base } else none

/-- A new id is random. -/
def NewId (s : GatewayTasks) : GatewayLabel → Prop
  | .proceed _ id => id ∉ s.base.made.map ProcessTask.taskId
  | _ => True

instance (s : GatewayTasks) : ∀ l, Decidable (s.NewId l)
  | .proceed _ id => inferInstanceAs (Decidable (id ∉ s.base.made.map ProcessTask.taskId))
  | .healthCheck _ | .delayRegister _ | .other _ => isTrue trivial

end GatewayTasks

/-- The call is one of the two. -/
def TaskCall.Known (c : TaskCall) : Prop := c = ggpAddHealthCheckTask ∨ c = ggpDelayRegister

/-- A one-shot task is a registration. -/
def OneShotRegisters (t : ProcessTask) : Prop :=
  t.cyclicity = false → t.handlerType = "execute_register".toList

/-- A call has registered its handler before it holds its task. -/
def TaskCallPhase.Ok (registry : List Text) : TaskCallPhase → Prop
  | asked c => c.Known
  | registered c => c.Known ∧ c.handlerType ∈ registry
  | holding task => task.handlerType ∈ registry
  | done => True

structure GatewayTasks.Inv (s : GatewayTasks) : Prop where
  handled : HandledInv s.base
  handleable : Handleable s.base
  made : ∀ t ∈ s.base.made, OneShotRegisters t
  calls : ∀ ph ∈ s.calls, ph.Ok s.base.registry

section Steps

variable {p : Profile} {s s' : GatewayTasks} {base b : QueueState} {l : GatewayLabel} {ql : QueueLabel}

theorem TaskCall.Known.oneShotRegisters {c : TaskCall} (h : c.Known) (id : Text) (now : ℕ) :
    OneShotRegisters (c.task id now) := by
  intro hcyc
  rcases h with rfl | rfl
  · cases hcyc
  · rfl

theorem TaskCallPhase.Ok.mono {registry registry' : List Text} {ph : TaskCallPhase} (h : ph.Ok registry)
    (hsub : registry ⊆ registry') : ph.Ok registry' := by
  cases ph with
  | asked | done => exact h
  | registered => exact ⟨h.1, hsub h.2⟩
  | holding => exact hsub h

theorem step_registry (hs : base.step p ql = some b) : base.registry ⊆ b.registry := by
  cases ql with
  | registerHandler =>
    cases hs
    exact List.subset_cons_self _ _
  | add task =>
    obtain ⟨-, -, rfl⟩ := QueueState.step_add hs
    exact List.Subset.refl _
  | remove id =>
    obtain ⟨-, rfl⟩ := QueueState.step_remove hs
    exact List.Subset.refl _
  | start =>
    cases hs
    split_ifs <;> exact List.Subset.refl _
  | tick | create | shutdown =>
    cases hs
    exact List.Subset.refl _
  | worker i =>
    obtain ⟨ph, -, hph⟩ := Option.bind_eq_some_iff.mp hs
    obtain ⟨s₁, ph', hmove, rfl⟩ := QueueState.workerStep_cases hph
    have hsame : s₁.registry = base.registry := by
      cases hmove with
      | removeDone => exact removeDone_registry base _
      | _ => rfl
    exact hsame.symm ▸ List.Subset.refl _

theorem step_made (hs : base.step p ql = some b) :
    b.made = base.made ∨ ∃ h period ck hfn id, ql = .create h period ck hfn id ∧
      b.made = ProcessTask.new h period ck hfn id base.now :: base.made := by
  cases ql with
  | create h period ck hfn id =>
    cases hs
    exact Or.inr ⟨h, period, ck, hfn, id, rfl, rfl⟩
  | add task =>
    obtain ⟨-, -, rfl⟩ := QueueState.step_add hs
    exact Or.inl rfl
  | remove id =>
    obtain ⟨-, rfl⟩ := QueueState.step_remove hs
    exact Or.inl rfl
  | start =>
    cases hs
    split_ifs <;> exact Or.inl rfl
  | tick | registerHandler | shutdown =>
    cases hs
    exact Or.inl rfl
  | worker i =>
    obtain ⟨ph, -, hph⟩ := Option.bind_eq_some_iff.mp hs
    obtain ⟨s₁, ph', hmove, rfl⟩ := QueueState.workerStep_cases hph
    refine Or.inl ?_
    cases hmove with
    | removeDone => exact removeDone_made base _
    | _ => rfl

namespace GatewayTasks

theorem Inv.new (t : ℕ) : (new t).Inv where
  handled := .new t
  handleable := .new t
  made := List.forall_mem_nil _
  calls := List.forall_mem_nil _

theorem Inv.ofBase (h : s.Inv) (hl : s.base.HandlerFirst ql) (hs : s.base.step p ql = some b)
    (hmade : ∀ t ∈ b.made, OneShotRegisters t) {calls : List TaskCallPhase}
    (hcalls : ∀ ph ∈ calls, ph.Ok b.registry) : Inv ⟨b, calls⟩ where
  handled := h.handled.step (h.handleable.handlerKnown hl) hs
  handleable := h.handleable.step hl hs
  made := hmade
  calls := hcalls

theorem Inv.begin (h : s.Inv) {c : TaskCall} (hc : c.Known) (conf : AppConfig) :
    (s.begin c conf).Inv := by
  unfold GatewayTasks.begin
  split_ifs
  · refine ⟨h.handled, h.handleable, h.made, fun ph hph => ?_⟩
    rcases List.mem_append.mp hph with hph | hph
    · exact h.calls ph hph
    · rw [List.mem_singleton.mp hph]
      exact hc
  · exact h

/-- What a call asks of the queue, and what holds of it then. -/
theorem Inv.asks (h : s.Inv) {i : ℕ} {id : Text} {ph : TaskCallPhase}
    (hid : id ∉ s.base.made.map ProcessTask.taskId) (hasks : s.asks i id = some (ql, ph))
    (hs : s.base.step p ql = some b) :
    s.base.HandlerFirst ql ∧ ph.Ok b.registry ∧ ∀ t ∈ b.made, OneShotRegisters t := by
  unfold GatewayTasks.asks at hasks
  split at hasks
  next c hi =>
    cases hasks
    cases hs
    exact ⟨trivial, ⟨h.calls _ (List.mem_of_getElem? hi), List.mem_cons_self⟩, h.made⟩
  next c hi =>
    cases hasks
    cases hs
    obtain ⟨hknown, hreg⟩ := h.calls _ (List.mem_of_getElem? hi)
    exact ⟨hid, hreg, List.forall_mem_cons.mpr ⟨hknown.oneShotRegisters id s.base.now, h.made⟩⟩
  next task hi =>
    cases hasks
    have hreg : task.handlerType ∈ s.base.registry := h.calls _ (List.mem_of_getElem? hi)
    obtain ⟨-, -, rfl⟩ := QueueState.step_add hs
    exact ⟨hreg, trivial, h.made⟩
  next => cases hasks
  next => cases hasks

/-- **One step.** -/
theorem Inv.step (h : s.Inv) (hid : s.NewId l) (hs : s.step p l = some s') : s'.Inv := by
  cases l with
  | healthCheck conf =>
    cases hs
    exact h.begin (Or.inl rfl) conf
  | delayRegister conf =>
    cases hs
    exact h.begin (Or.inr rfl) conf
  | proceed i id =>
    obtain ⟨⟨ql, ph⟩, hasks, hs⟩ := Option.bind_eq_some_iff.mp hs
    obtain ⟨b, hb, rfl⟩ := Option.map_eq_some_iff.mp hs
    obtain ⟨hfirst, hph, hmade⟩ := h.asks hid hasks hb
    refine h.ofBase hfirst hb hmade fun q hq => ?_
    rcases List.mem_or_eq_of_mem_set hq with hq | rfl
    · exact (h.calls q hq).mono (step_registry hb)
    · exact hph
  | other ql =>
    simp only [GatewayTasks.step] at hs
    split_ifs at hs with hother
    obtain ⟨b, hb, rfl⟩ := Option.map_eq_some_iff.mp hs
    have hfirst : s.base.HandlerFirst ql := by
      cases ql with
      | create | add => cases hother
      | _ => trivial
    refine h.ofBase hfirst hb ?_ fun q hq => (h.calls q hq).mono (step_registry hb)
    rcases step_made hb with heq | ⟨_, _, _, _, _, rfl, -⟩
    · exact heq ▸ h.made
    · cases hother

end GatewayTasks

end Steps

namespace GatewayTasks

theorem Inv.removed_register {s : GatewayTasks} (h : s.Inv) {q : ProcessTask}
    (hq : .removed q ∈ s.base.log) : q.handlerType = "execute_register".toList := by
  obtain ⟨newer, history, hlog⟩ := List.append_of_mem hq
  obtain ⟨ct, ⟨hcyc, cur, now, hexec⟩, hsame⟩ := h.handled.removed newer history q hlog
  have hmem : .executed ct cur now true ∈ s.base.log :=
    hlog ▸ List.mem_append_right _ (List.mem_cons_of_mem _ hexec)
  obtain ⟨⟨m, hm, hcopy⟩, -⟩ := h.handled.executed ct cur now true hmem
  have hqm : q.Same m := hsame.symm.trans hcopy
  have htype : q.handlerType = m.handlerType := by
    have htouch : q.touch 0 = m.touch 0 := hqm
    show (q.touch 0).handlerType = (m.touch 0).handlerType
    rw [htouch]
  rw [htype]
  exact h.made m hm (by rw [← hcopy.cyclicity_eq, hcyc])

/-- **Handlers first.** In every run of the two functions beside any number of workers and of clients
that remove tasks, start the queue or shut it down: every task that a worker processes has its handler
invoked; a worker removes a task only after its handler has been invoked for it; and what it removes is
a registration, never a health check. -/
theorem handled_first (p : Profile) {t : ℕ} {ls : List GatewayLabel} {s : GatewayTasks}
    (h : Run (Under NewId (Steps (step p))) (new t) ls s) :
    (∀ e ∈ s.base.log, e.finds = true) ∧ RemovedHandled s.base.log ∧
      ∀ q, .removed q ∈ s.base.log → q.handlerType = "execute_register".toList := by
  have hinv : s.Inv := h.invariant (Inv.new t) fun _ _ _ hi hs => hi.step hs.1 hs.2
  exact ⟨hinv.handleable.found, hinv.handled.removed, fun _ hq => hinv.removed_register hq⟩

/-- Both functions are called before the queue starts; the registration is processed and removed. -/
def bothCalled : List GatewayLabel :=
  let conf := { AppConfig.initial with appId := some ['i'], appSecret := some ['s'] }
  ([.delayRegister conf, .healthCheck conf, .proceed 0 [], .proceed 1 [], .proceed 0 ['a'],
    .proceed 1 ['b'], .proceed 1 ['c'], .proceed 0 ['c'], .other (.tick 20),
    .other .start] : List GatewayLabel) ++ List.replicate 8 (.other (.worker 0))

theorem handled_first_bothCalled : ∃ s,
    Run (Under NewId (Steps (step .release))) (new 0) bothCalled s ∧
    s.base.queue.map ProcessTask.taskId = [['b']] ∧ (∀ e ∈ s.base.log, e.finds = true) ∧
    RemovedHandled s.base.log ∧
    ∀ q, .removed q ∈ s.base.log → q.handlerType = "execute_register".toList := by
  have hview : (runAll (step .release) bothCalled (new 0)).map
      (fun s => s.base.queue.map ProcessTask.taskId) = some [['b']] := by decide +kernel
  obtain ⟨s, hs, hqueue⟩ := Option.map_eq_some_iff.mp hview
  have hgood : AllSteps NewId (step .release) bothCalled (new 0) := by decide +kernel
  have hrun := run_under_of_runAll hgood hs
  exact ⟨s, hrun, hqueue, handled_first .release hrun⟩

end GatewayTasks

end ChimesUtils
