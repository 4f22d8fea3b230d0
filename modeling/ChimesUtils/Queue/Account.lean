import ChimesUtils.Lib.Ledger
import ChimesUtils.Queue.Pass

/-!
# What becomes of the tasks

Any number of workers and clients change the queue by ids: they mark tasks, remove tasks, and add them.

* `tasks_accounted`: over all runs, with or without equal ids, what has been added is in the queue, has
  been removed by a worker, or has been removed by a client.
-/

namespace ChimesUtils

open Lib

/-- The id of the task that a worker removes. -/
def QueueEvent.removedId : QueueEvent → Option Text
  | removed task => some task.taskId
  | _ => none

def removedIds (log : List QueueEvent) : List Text := log.filterMap QueueEvent.removedId

/-- The ids in a queue. -/
def idsOf (queue : List ProcessTask) : Multiset Text := ↑(queue.map ProcessTask.taskId)

/-- What a removal by id takes out of a queue. -/
def takenOut (queue : List ProcessTask) (id : Text) : Multiset Text :=
  if (queue.map ProcessTask.taskId).contains id then {id} else 0

namespace QueueState

/-- The ids that are in the queue or have been removed by a worker. -/
def held (s : QueueState) : Multiset Text := idsOf s.queue + ↑(removedIds s.log)

def addedBy (_ : QueueState) : QueueLabel → Multiset Text
  | .add task => {task.taskId}
  | _ => 0

/-- What a client takes out. -/
def takenBy (s : QueueState) : QueueLabel → Multiset Text
  | .remove id => takenOut s.queue id
  | _ => 0

end QueueState

section Queues

variable {queue : List ProcessTask} {id : Text}

theorem takenOut_eq_singleton {t : ProcessTask} (ht : t ∈ queue) (hid : id = t.taskId) :
    takenOut queue id = {id} :=
  if_pos (List.contains_iff_mem.mpr (hid ▸ List.mem_map_of_mem ht))

theorem idsOf_queueRemove (queue : List ProcessTask) (id : Text) :
    idsOf (queueRemove queue id) + takenOut queue id = idsOf queue := by
  induction queue with
  | nil => rfl
  | cons t queue ih =>
    have hcons : ∀ queue, idsOf (t :: queue) = {t.taskId} + idsOf queue := fun _ => rfl
    by_cases hid : id = t.taskId
    · rw [takenOut_eq_singleton List.mem_cons_self hid, queueRemove,
        List.eraseP_cons_of_pos (by simpa using hid), hcons, add_comm, hid]
    · have htaken : takenOut (t :: queue) id = takenOut queue id := by simp [takenOut, hid]
      rw [queueRemove, List.eraseP_cons_of_neg (by simpa using hid), hcons, htaken, add_assoc,
        hcons]
      exact congrArg ({t.taskId} + ·) ih

theorem idsOf_updateTaskLasttime (queue : List ProcessTask) (ct : ProcessTask) (cur : ℕ) :
    idsOf (updateTaskLasttime queue ct cur) = idsOf queue :=
  congrArg (fun ids : List Text => (ids : Multiset Text)) (map_updateTaskLasttime_taskId queue ct cur)

end Queues

namespace QueueState

variable {p : Profile} {s s₁ s' : QueueState} {l : QueueLabel} {ls : List QueueLabel}
  {ph ph' : LoopPhase}

theorem Move.held (h : Move p s ph s₁ ph') : s₁.held = s.held := by
  cases h with
  | enter | leave | readClock | lock | take | panic | skip | release | wait | wake => rfl
  | execute => exact congrArg (· + _) (idsOf_updateTaskLasttime _ _ _)
  | @removeDone cur rct remove =>
    rcases removeDone_cases s rct with ⟨t, ht, hid, heq⟩ | ⟨-, heq⟩
    · have hlog : ((removedIds (.removed t :: s.log) : List Text) : Multiset Text) =
          {rct.taskId} + ↑(removedIds s.log) := by
        rw [hid]
        rfl
      have htaken := idsOf_queueRemove s.queue rct.taskId
      rw [takenOut_eq_singleton ht hid] at htaken
      rw [heq]
      show idsOf (queueRemove s.queue rct.taskId) + ↑(removedIds (.removed t :: s.log)) = _
      rw [hlog, ← add_assoc, htaken]
      rfl
    · rw [heq]

theorem step_held (hs : s.step p l = some s') : s.held + s.addedBy l = s'.held + s.takenBy l := by
  cases l with
  | add task =>
    obtain ⟨-, -, rfl⟩ := step_add hs
    have hqueue : idsOf (s.queue ++ [task]) = idsOf s.queue + {task.taskId} := by
      rw [idsOf, List.map_append]
      exact (Multiset.coe_add _ _).symm
    show idsOf s.queue + ↑(removedIds s.log) + {task.taskId} =
      idsOf (s.queue ++ [task]) + ↑(removedIds s.log) + 0
    rw [hqueue, add_zero, add_right_comm]
  | remove id =>
    obtain ⟨-, rfl⟩ := step_remove hs
    show idsOf s.queue + ↑(removedIds s.log) + 0 =
      idsOf (queueRemove s.queue id) + ↑(removedIds s.log) + takenOut s.queue id
    rw [add_zero, add_right_comm, idsOf_queueRemove]
  | start =>
    cases hs
    split_ifs <;> rfl
  | tick | create | registerHandler | shutdown =>
    cases hs
    rfl
  | worker i =>
    obtain ⟨ph, -, hph⟩ := Option.bind_eq_some_iff.mp hs
    obtain ⟨s₁, ph', hmove, rfl⟩ := workerStep_cases hph
    exact congrArg (· + 0) hmove.held.symm

theorem balanced_held (p : Profile) :
    Balanced (fun _ => True) held addedBy takenBy (step p) where
  keeps _ _ _ _ _ := trivial
  balance _ _ _ _ := step_held

/-- **Conservation.** In every run, with any number of workers, and with ids that may be equal, the ids
of the tasks that have been added are those of the tasks in the queue, of those that workers have
removed, and of those that clients have removed. -/
theorem tasks_accounted (p : Profile) {t : ℕ} (h : runAll (step p) ls (new t) = some s) :
    collect addedBy (step p) ls (new t) =
      idsOf s.queue + ↑(removedIds s.log) + collect takenBy (step p) ls (new t) :=
  (zero_add _).symm.trans ((balanced_held p).runAll trivial h)

/-- Two workers, and a client that removes a task that both have found due. -/
def twoWorkersRemove : List QueueLabel :=
  ([.create false 5 [] ['h'] ['a'], .add (.new false 5 [] ['h'] ['a'] 0), .tick 10, .start, .shutdown,
    .start] : List QueueLabel) ++ [.worker 0, .worker 1, .worker 0, .worker 1] ++
    [.worker 0, .worker 0, .worker 0, .worker 0, .remove ['a']]

theorem tasks_accounted_twoWorkersRemove : ∃ s,
    runAll (step .release) twoWorkersRemove (new 0) = some s ∧ s.queue = [] ∧
    collect addedBy (step .release) twoWorkersRemove (new 0) =
      idsOf s.queue + ↑(removedIds s.log) +
        collect takenBy (step .release) twoWorkersRemove (new 0) := by
  have hview : (runAll (step .release) twoWorkersRemove (new 0)).map queue = some [] := by
    decide +kernel
  obtain ⟨s, hs, hqueue⟩ := Option.map_eq_some_iff.mp hview
  exact ⟨s, hs, hqueue, tasks_accounted .release hs⟩

end QueueState

end ChimesUtils
