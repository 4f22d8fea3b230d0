import ChimesUtils.Queue.Handled

/-!
# Handlers registered first

Nothing unregisters a handler. A client that registers the handler before it adds a task therefore
leaves no moment at which a worker finds the task due without a handler.

* `Handleable`: every task of the queue and of a snapshot has its handler in the registry, and every
  task that has been processed had;
* `Handleable.handlerKnown`, `Handleable.step`: so it is at every step of a worker, and stays.
-/

namespace ChimesUtils

open Lib

/-- A created task gets an id of its own, and a task is added when its handler is registered. -/
def QueueState.HandlerFirst (s : QueueState) : QueueLabel → Prop
  | .create _ _ _ _ id => id ∉ s.made.map ProcessTask.taskId
  | .add task => task.handlerType ∈ s.registry
  | _ => True

/-- The event is no `process_task` without a handler. -/
def QueueEvent.finds : QueueEvent → Bool
  | executed _ _ _ invoked => invoked
  | _ => true

/-- The tasks that a worker may process have their handlers registered. -/
structure Handleable (s : QueueState) : Prop where
  queue : ∀ t ∈ s.queue, t.handlerType ∈ s.registry
  loops : ∀ ph ∈ s.loops, ∀ t ∈ ph.toVisit, t.handlerType ∈ s.registry
  found : ∀ e ∈ s.log, e.finds = true

section Handlers

variable {p : Profile} {s s₁ s' : QueueState} {ph ph' : LoopPhase} {l : QueueLabel}

theorem Handleable.new (t : ℕ) : Handleable (QueueState.new t) :=
  ⟨List.forall_mem_nil _, List.forall_mem_nil _, List.forall_mem_nil _⟩

/-- A worker finds the handlers of the tasks that it processes. -/
theorem Handleable.handlerKnown (h : Handleable s) (hl : s.HandlerFirst l) : s.HandlerKnown p l := by
  cases l with
  | worker i =>
    rintro ⟨cur, ct⟩ hct -
    obtain ⟨todo, remove, hi, -⟩ := QueueState.processes_eq_some.mp hct
    exact h.loops _ (List.mem_of_getElem? hi) ct List.mem_cons_self
  | create => exact hl
  | tick | add | remove | registerHandler | start | shutdown => trivial

theorem Handleable.shrink (h : Handleable s) {queue : List ProcessTask} (hsub : queue ⊆ s.queue) :
    Handleable { s with queue := queue } :=
  ⟨fun t ht => h.queue t (hsub ht), h.loops, h.found⟩

theorem Handleable.record (h : Handleable s) {e : QueueEvent} (he : e.finds = true) :
    Handleable (s.record e) :=
  ⟨h.queue, h.loops, List.forall_mem_cons.mpr ⟨he, h.found⟩⟩

theorem removeDone_registry (s : QueueState) (rct : ProcessTask) :
    (s.removeDone rct).registry = s.registry := by
  rcases QueueState.removeDone_cases s rct with ⟨t, -, -, heq⟩ | ⟨-, heq⟩
  · rw [heq]
    rfl
  · rw [heq]

theorem Handleable.removeDone (h : Handleable s) (rct : ProcessTask) :
    Handleable (s.removeDone rct) := by
  rcases QueueState.removeDone_cases s rct with ⟨t, -, -, heq⟩ | ⟨-, heq⟩
  · rw [heq]
    exact (h.shrink fun u hu => List.mem_of_mem_eraseP hu).record rfl
  · rw [heq]
    exact h

theorem Handleable.execute (h : Handleable s) (cur : ℕ) {ct : ProcessTask}
    (hct : ct.handlerType ∈ s.registry) : Handleable (s.execute cur ct) := by
  refine ⟨fun t ht => ?_, h.loops, List.forall_mem_cons.mpr ⟨decide_eq_true hct, h.found⟩⟩
  obtain ⟨t', ht', rfl⟩ := List.mem_map.mp ht
  split_ifs
  · exact h.queue t' ht'
  · exact h.queue t' ht'

theorem Handleable.move (h : Handleable s) (hmove : QueueState.Move p s ph s₁ ph')
    (hph : ∀ t ∈ ph.toVisit, t.handlerType ∈ s.registry) :
    Handleable s₁ ∧ ∀ t ∈ ph'.toVisit, t.handlerType ∈ s₁.registry := by
  cases hmove with
  | enter | leave | readClock | lock | release | wait | wake => exact ⟨h, List.forall_mem_nil _⟩
  | take => exact ⟨h.record rfl, h.queue⟩
  | panic => exact ⟨h.record rfl, List.forall_mem_nil _⟩
  | skip => exact ⟨h.record rfl, fun t ht => hph t (List.mem_cons_of_mem _ ht)⟩
  | @execute cur ct =>
    have hrec := (h.record (e := .tested cur ct) rfl).execute cur (hph ct List.mem_cons_self)
    exact ⟨hrec, fun t ht => hph t (List.mem_cons_of_mem _ ht)⟩
  | removeDone => exact ⟨h.removeDone _, List.forall_mem_nil _⟩

theorem Handleable.setLoop (h : Handleable s) (i : ℕ)
    (hph : ∀ t ∈ ph.toVisit, t.handlerType ∈ s.registry) : Handleable (s.setLoop i ph) := by
  refine ⟨h.queue, fun q hq => ?_, h.found⟩
  rcases List.mem_or_eq_of_mem_set hq with hq | rfl
  · exact h.loops q hq
  · exact hph

/-- **One step** of a client that registers the handler first, or of another party. -/
theorem Handleable.step (h : Handleable s) (hl : s.HandlerFirst l) (hs : s.step p l = some s') :
    Handleable s' := by
  cases l with
  | tick | create | shutdown =>
    cases hs
    exact ⟨h.queue, h.loops, h.found⟩
  | registerHandler =>
    cases hs
    exact ⟨fun t ht => List.mem_cons_of_mem _ (h.queue t ht),
      fun ph hph t ht => List.mem_cons_of_mem _ (h.loops ph hph t ht), h.found⟩
  | add task =>
    obtain ⟨-, -, rfl⟩ := QueueState.step_add hs
    refine ⟨fun t ht => ?_, h.loops, List.forall_mem_cons.mpr ⟨rfl, h.found⟩⟩
    rcases List.mem_append.mp ht with ht | ht
    · exact h.queue t ht
    · rw [List.mem_singleton.mp ht]
      exact hl
  | remove id =>
    obtain ⟨-, rfl⟩ := QueueState.step_remove hs
    exact h.shrink fun t ht => List.mem_of_mem_eraseP ht
  | start =>
    cases hs
    split_ifs
    · exact h
    · refine ⟨h.queue, fun ph hph => ?_, h.found⟩
      rcases List.mem_append.mp hph with hph | hph
      · exact h.loops ph hph
      · rw [List.mem_singleton.mp hph]
        exact List.forall_mem_nil _
  | worker i =>
    obtain ⟨ph, hi, hph⟩ := Option.bind_eq_some_iff.mp hs
    obtain ⟨s₁, ph', hmove, rfl⟩ := QueueState.workerStep_cases hph
    obtain ⟨h₁, hvisit⟩ := h.move hmove (h.loops ph (List.mem_of_getElem? hi))
    exact h₁.setLoop i hvisit

end Handlers

end ChimesUtils
