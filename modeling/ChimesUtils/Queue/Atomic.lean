import ChimesUtils.Lib.Simulation
import ChimesUtils.Queue.Pass

/-!
# Passes as one step

A pass visits the tasks of its snapshot one by one, while the clock goes on and handlers are registered.

* `AtomicQueue`: a queue whose passes are one step each, between the calls of the clients;
* `refines_atomic`: a single worker refines it.
-/

namespace ChimesUtils

open Lib

/-- The task and the clock reading of a `process_task`. -/
def QueueEvent.execution : QueueEvent → Option (ℕ × ProcessTask)
  | executed task cur _ _ => some (cur, task)
  | _ => none

/-- The tasks that have been processed, the last one first. -/
def executions (log : List QueueEvent) : List (ℕ × ProcessTask) :=
  log.filterMap QueueEvent.execution

/-- The tasks that pass the due test. -/
def dueTasksOf (p : Profile) (cur : ℕ) (tasks : List ProcessTask) : List ProcessTask :=
  tasks.filter fun t => t.due p cur = some true

/-- The tasks that a pass has finished. -/
def doneTasksOf (p : Profile) (cur : ℕ) (tasks : List ProcessTask) : List ProcessTask :=
  (dueTasksOf p cur tasks).filter fun t => !t.cyclicity

/-- The due test of the task does not panic. -/
def ProcessTask.testable (p : Profile) (cur : ℕ) (t : ProcessTask) : Bool := (t.due p cur).isSome

/-! ## The queue with passes as one step -/

/-- The tasks, those that the last pass is to remove, and those that have been processed. -/
structure AtomicQueue where
  queue : List ProcessTask
  finished : List ProcessTask
  executed : List (ℕ × ProcessTask)

inductive AtomicLabel where
  | add (task : ProcessTask)
  | remove (id : Text)
  /-- A pass, with its clock reading. -/
  | pass (cur : ℕ)
  /-- The next of the finished tasks is removed. -/
  | removeDone

/-- The calls of clients. -/
def AtomicLabel.call : AtomicLabel → Option (ProcessTask ⊕ Text)
  | add task => some (.inl task)
  | remove id => some (.inr id)
  | _ => none

def QueueLabel.call : QueueLabel → Option (ProcessTask ⊕ Text)
  | add task => some (.inl task)
  | remove id => some (.inr id)
  | _ => none

namespace AtomicQueue

def new : AtomicQueue := ⟨[], [], []⟩

/-- A pass processes what is due, up to a task whose due test panics; then it removes nothing. -/
def pass (p : Profile) (a : AtomicQueue) (cur : ℕ) : AtomicQueue where
  queue := (a.queue.takeWhile (ProcessTask.testable p cur)).map (visited p cur) ++
    a.queue.dropWhile (ProcessTask.testable p cur)
  finished := if (a.queue.dropWhile (ProcessTask.testable p cur)).isEmpty then
    doneTasksOf p cur a.queue else []
  executed := ((dueTasksOf p cur (a.queue.takeWhile (ProcessTask.testable p cur))).map
    fun t => (cur, t)).reverse ++ a.executed

def step (p : Profile) (a : AtomicQueue) : AtomicLabel → Option AtomicQueue
  | .add task => some { a with queue := a.queue ++ [task] }
  | .remove id => some { a with queue := queueRemove a.queue id }
  | .pass cur => if a.finished.isEmpty then some (a.pass p cur) else none
  | .removeDone =>
    match a.finished with
    | [] => none
    | rct :: finished => some { a with queue := queueRemove a.queue rct.taskId, finished := finished }

end AtomicQueue

/-! ## The simulation -/

/-- A task that is added has a new id. -/
def NewId (s : QueueState) : QueueLabel → Prop
  | .add task => task.taskId ∉ addedIds s.log
  | _ => True

/-- One worker at a time, and new ids. -/
def Orderly (s : QueueState) (l : QueueLabel) : Prop := s.StartAfter (·.ended = true) l ∧ NewId s l

instance (s : QueueState) : ∀ l, Decidable (NewId s l)
  | .add task => inferInstanceAs (Decidable (task.taskId ∉ addedIds s.log))
  | .tick _ | .create .. | .remove _ | .registerHandler _ | .start | .shutdown | .worker _ =>
    isTrue trivial

instance (s : QueueState) (l : QueueLabel) : Decidable (Orderly s l) :=
  inferInstanceAs (Decidable (s.StartAfter (·.ended = true) l ∧ NewId s l))

/-- How the queue, the log and the phase of the worker stand for the queue with passes as one step: in
a pass, what has been done is still to come. -/
def Stands (p : Profile) (queue : List ProcessTask) (log : List QueueEvent) (a : AtomicQueue) :
    LoopPhase → Prop
  | .passing cur todo remove => ∃ done, a.queue = done ++ todo ∧
      queue = done.map (visited p cur) ++ todo ∧ (∀ t ∈ done, t.testable p cur) ∧
      remove = doneTasksOf p cur done ∧ a.finished = [] ∧
      executions log = ((dueTasksOf p cur done).map fun t => (cur, t)).reverse ++ a.executed
  | .removing _ remove =>
    queue = a.queue ∧ a.finished = remove ∧ executions log = a.executed
  | _ => queue = a.queue ∧ a.finished = [] ∧ executions log = a.executed

/-- The tasks of the queue have distinct ids, and these have been added. -/
structure IdsInv (queue : List ProcessTask) (log : List QueueEvent) : Prop where
  ids : (queue.map ProcessTask.taskId).Nodup
  added : ∀ t ∈ queue, t.taskId ∈ addedIds log

structure Atomizes (p : Profile) (s : QueueState) (a : AtomicQueue) : Prop where
  alone : s.Alone (·.ended = true)
  fresh : IdsInv s.queue s.log
  stands : Stands p s.queue s.log a s.current

section Visits

variable {p : Profile} {cur : ℕ} {ct : ProcessTask} {done todo remove : List ProcessTask}
  {queue : List ProcessTask} {log : List QueueEvent} {a : AtomicQueue}

theorem dueTasksOf_concat (p : Profile) (cur : ℕ) (done : List ProcessTask) (ct : ProcessTask) :
    dueTasksOf p cur (done ++ [ct]) =
      dueTasksOf p cur done ++ if ct.due p cur = some true then [ct] else [] := by
  rw [dueTasksOf, dueTasksOf, List.filter_append, List.filter_singleton]
  by_cases hdue : ct.due p cur = some true <;> simp [hdue]

theorem doneTasksOf_concat (p : Profile) (cur : ℕ) (done : List ProcessTask) (ct : ProcessTask) :
    doneTasksOf p cur (done ++ [ct]) = doneTasksOf p cur done ++
      if ct.due p cur = some true ∧ ct.cyclicity = false then [ct] else [] := by
  rw [doneTasksOf, doneTasksOf, dueTasksOf_concat, List.filter_append]
  by_cases hdue : ct.due p cur = some true
  · cases hcyc : ct.cyclicity <;> simp [hdue, hcyc]
  · simp [hdue]

theorem Stands.skip (h : Stands p queue log a (.passing cur (ct :: todo) remove))
    (hdue : ct.due p cur = some false) :
    Stands p queue (.tested cur ct :: log) a (.passing cur todo remove) := by
  obtain ⟨done, hqueue, hmarked, htest, rfl, hfin, hexec⟩ := h
  refine ⟨done ++ [ct], ?_, ?_, ?_, ?_, hfin, ?_⟩
  · rw [hqueue, List.append_assoc, List.singleton_append]
  · rw [hmarked, List.map_append, List.map_singleton, visited, if_neg (by simp [hdue]),
      List.append_assoc, List.singleton_append]
  · rw [List.forall_mem_append, List.forall_mem_singleton]
    exact ⟨htest, by rw [ProcessTask.testable, hdue]; rfl⟩
  · rw [doneTasksOf_concat, if_neg (by simp [hdue]), List.append_nil]
  · rw [dueTasksOf_concat, if_neg (by simp [hdue]), List.append_nil]
    exact hexec

theorem Stands.execute (h : Stands p queue log a (.passing cur (ct :: todo) remove))
    (hids : (queue.map ProcessTask.taskId).Nodup) (hdue : ct.due p cur = some true) (now : ℕ)
    (invoked : Bool) :
    Stands p (updateTaskLasttime queue ct cur) (.executed ct cur now invoked :: .tested cur ct :: log)
      a (.passing cur todo (if ct.cyclicity then remove else remove ++ [ct])) := by
  obtain ⟨done, hqueue, hmarked, htest, rfl, hfin, hexec⟩ := h
  refine ⟨done ++ [ct], ?_, ?_, ?_, ?_, hfin, ?_⟩
  · rw [hqueue, List.append_assoc, List.singleton_append]
  · rw [hmarked] at hids ⊢
    rw [updateTaskLasttime_append hids, List.map_append, List.map_singleton, visited, if_pos hdue,
      List.append_assoc, List.singleton_append]
  · rw [List.forall_mem_append, List.forall_mem_singleton]
    exact ⟨htest, by rw [ProcessTask.testable, hdue]; rfl⟩
  · rw [doneTasksOf_concat]
    cases ct.cyclicity <;> simp [hdue]
  · have hlog : executions (.executed ct cur now invoked :: .tested cur ct :: log) =
        (cur, ct) :: executions log := rfl
    rw [hlog, hexec, dueTasksOf_concat, if_pos hdue, List.map_append, List.reverse_append]
    rfl

theorem takeWhile_testable (htest : ∀ t ∈ done, t.testable p cur)
    (hct : ∀ t ∈ todo.head?, t.testable p cur = false) :
    (done ++ todo).takeWhile (ProcessTask.testable p cur) = done ∧
      (done ++ todo).dropWhile (ProcessTask.testable p cur) = todo := by
  rw [List.takeWhile_append_of_pos htest, List.dropWhile_append_of_pos htest]
  cases todo with
  | nil => simp
  | cons ct todo =>
    have hbad := hct ct rfl
    simp [hbad]

/-- The end of a pass, with the tasks that it has visited and those that are left. -/
theorem Stands.pass (h : Stands p queue log a (.passing cur todo remove))
    (hct : ∀ t ∈ todo.head?, t.testable p cur = false) :
    a.step p (.pass cur) = some (a.pass p cur) ∧ queue = (a.pass p cur).queue ∧
      (a.pass p cur).finished = (if todo.isEmpty then remove else []) ∧
      executions log = (a.pass p cur).executed := by
  obtain ⟨done, hqueue, hmarked, htest, rfl, hfin, hexec⟩ := h
  obtain ⟨htake, hdrop⟩ := takeWhile_testable htest hct
  refine ⟨by rw [AtomicQueue.step, hfin]; rfl, ?_, ?_, ?_⟩
  · rw [AtomicQueue.pass, hqueue, htake, hdrop]
    exact hmarked
  · rw [AtomicQueue.pass, hqueue, hdrop]
    cases todo with
    | nil => exact congrArg (doneTasksOf p cur) (List.append_nil done)
    | cons => rfl
  · rw [AtomicQueue.pass, hqueue, htake]
    exact hexec

end Visits

/-! ## One step -/

section Steps

variable {p : Profile} {s s₁ s' : QueueState} {a : AtomicQueue} {ph ph' : LoopPhase}
  {l : QueueLabel}

theorem Stands.removeDone {cur : ℕ} {rct : ProcessTask} {remove : List ProcessTask}
    (h : Stands p s.queue s.log a (.removing cur (rct :: remove))) :
    ∃ a', a.step p .removeDone = some a' ∧
      Stands p (s.removeDone rct).queue (s.removeDone rct).log a' (.removing cur remove) := by
  obtain ⟨hqueue, hfin, hexec⟩ := h
  refine ⟨_, by rw [AtomicQueue.step, hfin], ?_⟩
  rcases QueueState.removeDone_cases s rct with ⟨t, -, -, heq⟩ | ⟨hnone, heq⟩
  · rw [heq, ← hqueue]
    exact ⟨rfl, rfl, hexec⟩
  · have hsame : queueRemove s.queue rct.taskId = s.queue :=
      List.eraseP_of_forall_not fun t ht => by simpa using hnone t ht
    rw [heq, ← hqueue, hsame]
    exact ⟨rfl, rfl, hexec⟩

/-- **A move of the worker** is a pass, a removal, or nothing yet. -/
theorem Stands.move (h : Stands p s.queue s.log a ph)
    (hids : (s.queue.map ProcessTask.taskId).Nodup) (hmove : QueueState.Move p s ph s₁ ph') :
    Stands p s₁.queue s₁.log a ph' ∨
      ∃ k a', k.call = none ∧ a.step p k = some a' ∧ Stands p s₁.queue s₁.log a' ph' := by
  cases hmove with
  | enter | leave | readClock | lock | wake => exact Or.inl h
  | take =>
    obtain ⟨hqueue, hfin, hexec⟩ := h
    exact Or.inl ⟨[], hqueue.symm, rfl, List.forall_mem_nil _, rfl, hfin, hexec⟩
  | @panic cur ct todo remove hdue =>
    have hct : ∀ t ∈ (ct :: todo).head?, t.testable p cur = false := by
      intro t ht
      cases ht
      rw [ProcessTask.testable, hdue]
      rfl
    exact Or.inr ⟨_, _, rfl, Stands.pass h hct⟩
  | skip hdue => exact Or.inl (h.skip hdue)
  | execute hdue => exact Or.inl (h.execute hids hdue s.now _)
  | release =>
    obtain ⟨hstep, hqueue, hfin, hexec⟩ := Stands.pass h fun _ ht => by cases ht
    exact Or.inr ⟨_, _, rfl, hstep, hqueue, hfin, hexec⟩
  | removeDone =>
    obtain ⟨a', hstep, hstands⟩ := Stands.removeDone h
    exact Or.inr ⟨_, a', rfl, hstep, hstands⟩
  | wait => exact Or.inl h

theorem Stands.withQueue {f : List ProcessTask → List ProcessTask} {log : List QueueEvent}
    (h : Stands p s.queue s.log a ph) (hreads : ph.reads = false)
    (hlog : executions log = executions s.log) :
    Stands p (f s.queue) log { a with queue := f a.queue } ph := by
  cases ph with
  | passing => cases hreads
  | removing cur remove =>
    obtain ⟨hqueue, hfin, hexec⟩ := h
    exact ⟨congrArg f hqueue, hfin, hlog.trans hexec⟩
  | atHead | entered | timed | locked | waiting | left | panicked =>
    obtain ⟨hqueue, hfin, hexec⟩ := h
    exact ⟨congrArg f hqueue, hfin, hlog.trans hexec⟩

theorem IdsInv.sublist {queue queue' : List ProcessTask} {log : List QueueEvent} (h : IdsInv queue log)
    (hsub : queue'.Sublist queue) : IdsInv queue' log :=
  ⟨h.ids.sublist (hsub.map _), fun t ht => h.added t (hsub.subset ht)⟩

theorem IdsInv.congr {queue : List ProcessTask} {log log' : List QueueEvent} (h : IdsInv queue log)
    (hlog : addedIds log' = addedIds log) : IdsInv queue log' :=
  ⟨h.ids, fun t ht => hlog ▸ h.added t ht⟩

theorem IdsInv.move (h : IdsInv s.queue s.log) (hmove : QueueState.Move p s ph s₁ ph') :
    IdsInv s₁.queue s₁.log := by
  cases hmove with
  | @execute cur ct =>
    exact ⟨map_updateTaskLasttime_taskId s.queue ct cur ▸ h.ids, taskId_mem_addedIds_update h.added ct cur⟩
  | @removeDone cur rct =>
    rcases QueueState.removeDone_cases s rct with ⟨t, -, -, heq⟩ | ⟨-, heq⟩
    · rw [heq]
      exact (h.sublist List.eraseP_sublist).congr rfl
    · rwa [heq]
  | take | panic | skip => exact h.congr rfl
  | _ => exact h

/-- The ids stay distinct, whatever the workers do. -/
theorem IdsInv.step (h : IdsInv s.queue s.log) (hnew : NewId s l) (hs : s.step p l = some s') :
    IdsInv s'.queue s'.log := by
  cases l with
  | add task =>
    obtain ⟨-, -, rfl⟩ := QueueState.step_add hs
    exact ⟨nodup_taskId_append h.added h.ids hnew, taskId_mem_addedIds_append h.added task⟩
  | remove id =>
    obtain ⟨-, rfl⟩ := QueueState.step_remove hs
    exact h.sublist List.eraseP_sublist
  | start =>
    cases hs
    split_ifs <;> exact h
  | tick | create | registerHandler | shutdown =>
    cases hs
    exact h
  | worker i =>
    obtain ⟨ph, -, hph⟩ := Option.bind_eq_some_iff.mp hs
    obtain ⟨s₁, ph', hmove, rfl⟩ := QueueState.workerStep_cases hph
    have hmoved : IdsInv s₁.queue s₁.log := h.move hmove
    exact hmoved

theorem Atomizes.matched (h : Atomizes p s a) (hl : Orderly s l) (hs : s.step p l = some s') :
    ∃ ks a', runAll (AtomicQueue.step p) ks a = some a' ∧
      ks.filterMap AtomicLabel.call = l.call.toList ∧ Atomizes p s' a' := by
  have halone' := h.alone.step (fun _ => id) hl.1 hs
  have hfresh' := h.fresh.step hl.2 hs
  have hreads := h.alone.readLocked_eq fun _ => id
  have hnext : ∀ a', Stands p s'.queue s'.log a' s'.current → Atomizes p s' a' :=
    fun a' hstands => ⟨halone', hfresh', hstands⟩
  cases l with
  | tick | create | registerHandler | shutdown =>
    cases hs
    exact stutter rfl (hnext a h.stands)
  | add task =>
    obtain ⟨-, hfree, rfl⟩ := QueueState.step_add hs
    exact match_step (k := .add task) rfl rfl
      (hnext _ (h.stands.withQueue (f := (· ++ [task])) (hreads ▸ hfree) rfl))
  | remove id =>
    obtain ⟨hfree, rfl⟩ := QueueState.step_remove hs
    exact match_step (k := .remove id) rfl rfl
      (hnext _ (h.stands.withQueue (f := (queueRemove · id)) (hreads ▸ hfree) rfl))
  | start =>
    refine stutter rfl (hnext a ?_)
    have hstands := h.stands
    cases hs
    by_cases hst : s.started = true
    · rwa [if_pos hst]
    · rw [if_neg hst]
      have hended : s.current.ended = true := by
        rw [QueueState.current]
        cases hlast : s.loops.getLast? with
        | none => rfl
        | some ph => exact hl.1 (by simpa using hst) ph (List.mem_of_getLast? hlast)
      have hnow : Stands p s.queue s.log a .atHead := by
        cases hcurrent : s.current with
        | left | panicked => rwa [hcurrent] at hstands
        | _ =>
          rw [hcurrent] at hended
          cases hended
      exact (QueueState.current_append { s with started := true } .atHead).symm ▸ hnow
  | worker i =>
    obtain ⟨s₁, ph, hmove, hi, rfl⟩ := h.alone.worker (fun _ => id) hs
    have hcurrent := QueueState.current_setLoop hi ph
    rcases h.stands.move h.fresh.ids hmove with hstands | ⟨k, a', hk, ha', hstands⟩
    · exact stutter rfl (hnext a (hcurrent.symm ▸ hstands))
    · exact match_step ha' hk (hnext a' (hcurrent.symm ▸ hstands))

end Steps

theorem forwardSimulation (p : Profile) :
    ForwardSimulation (Under Orderly (Steps (QueueState.step p))) (AtomicQueue.step p)
      QueueLabel.call AtomicLabel.call (Atomizes p) where
  step _ _ _ _ h hs := h.matched hs.1 hs.2

end ChimesUtils
