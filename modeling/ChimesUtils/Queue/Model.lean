import ChimesUtils.Rust
import ChimesUtils.Lib.Run

/-!
# The task queue

Clients create tasks, add and remove them, register handlers, start and shut down the queue; the
worker loops that `start` spawns pass over the queue. Each section of a worker between two points
where another party can act is one step:

* the test of `started`, the reading of the clock, the acquisition of the read lock, the snapshot;
* each task of the snapshot: the due test, the new `last_time`, the handler;
* the release of the lock, and the removal of each finished one-shot task.

A section under the write lock is one step as well, and waits until no worker holds the read lock.
-/

namespace ChimesUtils

open Lib

/-- `ProcessTask`. The field `created` is not in the source: it keeps the time of the creation, which
`last_time` starts with. -/
structure ProcessTask where
  taskId : Text
  handlerType : Text
  cyclicity : Bool
  lastTime : ℕ
  period : ℕ
  cookie : Option Text
  created : ℕ
  deriving DecidableEq

namespace ProcessTask

/-- `ProcessTask::new`, with the random id and the time of the call. -/
def new (h : Bool) (p : ℕ) (ck hfn id : Text) (now : ℕ) : ProcessTask where
  taskId := id
  handlerType := hfn
  cyclicity := h
  lastTime := now
  period := p
  cookie := some ck
  created := now

/-- `ProcessTask::new_with_cookie_fn`. -/
def newWithCookieFn (ck : Text) (cycle : Bool) (p : ℕ) (hfn id : Text) (now : ℕ) : ProcessTask where
  taskId := id
  handlerType := hfn
  cyclicity := cycle
  lastTime := now
  period := p
  cookie := some ck
  created := now

theorem newWithCookieFn_eq (ck : Text) (cycle : Bool) (p : ℕ) (hfn id : Text) (now : ℕ) :
    newWithCookieFn ck cycle p hfn id now = new cycle p ck hfn id now := rfl

/-- The due test `current_time - last_time > period`. -/
def due (p : Profile) (cur : ℕ) (ct : ProcessTask) : Option Bool :=
  (p.subU64 cur ct.lastTime).map fun d => decide (ct.period < d)

def touch (cur : ℕ) (ct : ProcessTask) : ProcessTask := { ct with lastTime := cur }

end ProcessTask

/-! ## The queue -/

/-- `update_task_lasttime`. -/
def updateTaskLasttime (queue : List ProcessTask) (ct : ProcessTask) (nsec : ℕ) : List ProcessTask :=
  queue.map fun t => if ct.taskId = t.taskId then t.touch nsec else t

/-- `queue_remove`: the first task with the id is removed. -/
def queueRemove (queue : List ProcessTask) (id : Text) : List ProcessTask :=
  queue.eraseP fun t => id = t.taskId

/-! ## Workers -/

/-- Where a worker is in its loop. -/
inductive LoopPhase where
  /-- About to test `started`. -/
  | atHead
  | entered
  /-- It has read the clock and waits for the read lock. -/
  | timed (cur : ℕ)
  | locked (cur : ℕ)
  /-- It holds the read lock; `todo` is what is left of the snapshot. -/
  | passing (cur : ℕ) (todo remove : List ProcessTask)
  /-- It has released the lock and removes tasks. -/
  | removing (cur : ℕ) (remove : List ProcessTask)
  /-- It waits for a notification or a second. -/
  | waiting
  /-- It has left its loop. -/
  | left
  | panicked
  deriving DecidableEq

namespace LoopPhase

/-- Whether the worker holds the read lock. -/
def reads : LoopPhase → Bool
  | locked _ => true
  | passing .. => true
  | _ => false

/-- Whether the worker has ended. -/
def ended : LoopPhase → Bool
  | left => true
  | panicked => true
  | _ => false

/-- Whether the worker is past a test of `started` that held, and not yet done with that pass. -/
def inPass : LoopPhase → Bool
  | entered => true
  | timed _ => true
  | locked _ => true
  | passing .. => true
  | removing .. => true
  | _ => false

end LoopPhase

/-- What has happened. -/
inductive QueueEvent where
  | added (task : ProcessTask)
  /-- The snapshot of a worker, and its clock reading. -/
  | took (cur : ℕ) (snapshot : List ProcessTask)
  /-- The due test of a task. -/
  | tested (cur : ℕ) (task : ProcessTask)
  /-- `process_task`, and whether it has found a handler to invoke. -/
  | executed (task : ProcessTask) (cur now : ℕ) (invoked : Bool)
  /-- A worker has removed the task. -/
  | removed (task : ProcessTask)
  deriving DecidableEq

/-- Whether the event is the invocation of a handler. -/
def QueueEvent.invokes : QueueEvent → Bool
  | executed _ _ _ invoked => invoked
  | _ => false

/-- What holds at every removal, of the log before it, holds of a longer log when it holds at a new
removal. -/
theorem forall_removed_cons {P : List QueueEvent → ProcessTask → Prop} {log : List QueueEvent}
    (h : ∀ newer history q, log = newer ++ .removed q :: history → P history q) {e : QueueEvent}
    (he : ∀ q, e = .removed q → P log q) :
    ∀ newer history q, e :: log = newer ++ .removed q :: history → P history q := by
  intro newer history q heq
  cases newer with
  | nil =>
    obtain ⟨rfl, rfl⟩ := List.cons_eq_cons.mp heq
    exact he q rfl
  | cons e' newer => exact h newer history q (List.cons_eq_cons.mp heq).2

/-- The queue with its workers, the clock, the tasks that clients hold, the handlers, and what has
happened, the newest event first. -/
structure QueueState where
  queue : List ProcessTask
  started : Bool
  loops : List LoopPhase
  now : ℕ
  made : List ProcessTask
  registry : List Text
  log : List QueueEvent

/-- A step of the system. -/
inductive QueueLabel where
  /-- The clock shows another time. -/
  | tick (t : ℕ)
  /-- A client creates a task. -/
  | create (h : Bool) (p : ℕ) (ck hfn id : Text)
  | add (task : ProcessTask)
  | remove (id : Text)
  | registerHandler (handlerType : Text)
  | start
  | shutdown
  /-- The next step of worker `i`. -/
  | worker (i : ℕ)

namespace QueueState

/-- The empty queue at time `t`. -/
def new (t : ℕ) : QueueState := ⟨[], false, [], t, [], [], []⟩

def setLoop (s : QueueState) (i : ℕ) (ph : LoopPhase) : QueueState :=
  { s with loops := s.loops.set i ph }

def record (s : QueueState) (e : QueueEvent) : QueueState := { s with log := e :: s.log }

/-- Whether a worker holds the read lock. -/
def readLocked (s : QueueState) : Bool := s.loops.any LoopPhase.reads

/-- `update_task_lasttime` and `process_task` for a task that is due. -/
def execute (s : QueueState) (cur : ℕ) (ct : ProcessTask) : QueueState :=
  { s with queue := updateTaskLasttime s.queue ct cur }.record
    (.executed ct cur s.now (ct.handlerType ∈ s.registry))

/-- A handler is registered for the task. -/
def handles (s : QueueState) (ct : ProcessTask) : Bool := ct.handlerType ∈ s.registry

/-- The removal of a finished task by a worker. -/
def removeDone (s : QueueState) (rct : ProcessTask) : QueueState :=
  match s.queue.find? fun t => rct.taskId = t.taskId with
  | some t => { s with queue := queueRemove s.queue rct.taskId }.record (.removed t)
  | none => s

/-- One task of the snapshot. -/
def visit (p : Profile) (s : QueueState) (i cur : ℕ) (ct : ProcessTask)
    (todo remove : List ProcessTask) : QueueState :=
  match ct.due p cur with
  | none => (s.record (.tested cur ct)).setLoop i .panicked
  | some false => (s.record (.tested cur ct)).setLoop i (.passing cur todo remove)
  | some true => ((s.record (.tested cur ct)).execute cur ct).setLoop i
      (.passing cur todo (if ct.cyclicity then remove else remove ++ [ct]))

/-- The next step of worker `i`, which is in the given phase. -/
def workerStep (p : Profile) (s : QueueState) (i : ℕ) : LoopPhase → Option QueueState
  | .atHead => some (s.setLoop i (if s.started then .entered else .left))
  | .entered => some (s.setLoop i (.timed s.now))
  | .timed cur => some (s.setLoop i (.locked cur))
  | .locked cur => some ((s.record (.took cur s.queue)).setLoop i (.passing cur s.queue []))
  | .passing cur (ct :: todo) remove => some (s.visit p i cur ct todo remove)
  | .passing cur [] remove => some (s.setLoop i (.removing cur remove))
  | .removing cur (rct :: remove) =>
    if s.readLocked then none else some ((s.removeDone rct).setLoop i (.removing cur remove))
  | .removing _ [] => some (s.setLoop i .waiting)
  | .waiting => some (s.setLoop i .atHead)
  | .left => none
  | .panicked => none

/-- One step. -/
def step (p : Profile) (s : QueueState) : QueueLabel → Option QueueState
  | .tick t => some { s with now := t }
  | .create h period ck hfn id =>
    some { s with made := ProcessTask.new h period ck hfn id s.now :: s.made }
  | .add task =>
    if task ∈ s.made ∧ s.readLocked = false then
      some ({ s with queue := s.queue ++ [task] }.record (.added task))
    else none
  | .remove id => if s.readLocked then none else some { s with queue := queueRemove s.queue id }
  | .registerHandler handlerType => some { s with registry := handlerType :: s.registry }
  | .start =>
    some (if s.started then s else { s with started := true, loops := s.loops ++ [.atHead] })
  | .shutdown => some { s with started := false }
  | .worker i => s.loops[i]?.bind (s.workerStep p i)

/-- The due task that the next step of worker `i` processes, and the clock reading of its pass. -/
def processes (p : Profile) (s : QueueState) (i : ℕ) : Option (ℕ × ProcessTask) :=
  match s.loops[i]? with
  | some (.passing cur (ct :: _) _) => if ct.due p cur = some true then some (cur, ct) else none
  | _ => none

/-! ## The moves of a worker -/

/-- What the next step of a worker in a phase can do: the state it leads to, up to the worker's own
phase, and the next phase. -/
inductive Move (p : Profile) (s : QueueState) : LoopPhase → QueueState → LoopPhase → Prop
  | enter : s.started = true → Move p s .atHead s .entered
  | leave : s.started = false → Move p s .atHead s .left
  | readClock : Move p s .entered s (.timed s.now)
  | lock {cur : ℕ} : Move p s (.timed cur) s (.locked cur)
  | take {cur : ℕ} :
      Move p s (.locked cur) (s.record (.took cur s.queue)) (.passing cur s.queue [])
  | panic {cur : ℕ} {ct : ProcessTask} {todo remove : List ProcessTask} : ct.due p cur = none →
      Move p s (.passing cur (ct :: todo) remove) (s.record (.tested cur ct)) .panicked
  | skip {cur : ℕ} {ct : ProcessTask} {todo remove : List ProcessTask} : ct.due p cur = some false →
      Move p s (.passing cur (ct :: todo) remove) (s.record (.tested cur ct))
        (.passing cur todo remove)
  | execute {cur : ℕ} {ct : ProcessTask} {todo remove : List ProcessTask} :
      ct.due p cur = some true →
      Move p s (.passing cur (ct :: todo) remove) ((s.record (.tested cur ct)).execute cur ct)
        (.passing cur todo (if ct.cyclicity then remove else remove ++ [ct]))
  | release {cur : ℕ} {remove : List ProcessTask} :
      Move p s (.passing cur [] remove) s (.removing cur remove)
  | removeDone {cur : ℕ} {rct : ProcessTask} {remove : List ProcessTask} : s.readLocked = false →
      Move p s (.removing cur (rct :: remove)) (s.removeDone rct) (.removing cur remove)
  | wait {cur : ℕ} : Move p s (.removing cur []) s .waiting
  | wake : Move p s .waiting s .atHead

section Moves

variable {p : Profile} {s s₁ s' : QueueState} {i : ℕ} {ph ph' : LoopPhase}

/-- **Inversion of a worker's step.** -/
theorem workerStep_cases (h : s.workerStep p i ph = some s') :
    ∃ s₁ ph', Move p s ph s₁ ph' ∧ s' = s₁.setLoop i ph' := by
  cases ph with
  | atHead =>
    cases h
    cases hst : s.started
    · exact ⟨s, .left, .leave hst, rfl⟩
    · exact ⟨s, .entered, .enter hst, rfl⟩
  | entered => exact ⟨_, _, .readClock, (Option.some.inj h).symm⟩
  | timed cur => exact ⟨_, _, .lock, (Option.some.inj h).symm⟩
  | locked cur => exact ⟨_, _, .take, (Option.some.inj h).symm⟩
  | passing cur todo remove =>
    cases todo with
    | nil => exact ⟨_, _, .release, (Option.some.inj h).symm⟩
    | cons ct todo =>
      rw [workerStep, Option.some.injEq] at h
      unfold visit at h
      split at h
      next hdue => exact ⟨_, _, .panic hdue, h.symm⟩
      next hdue => exact ⟨_, _, .skip hdue, h.symm⟩
      next hdue => exact ⟨_, _, .execute hdue, h.symm⟩
  | removing cur remove =>
    cases remove with
    | nil => exact ⟨_, _, .wait, (Option.some.inj h).symm⟩
    | cons rct remove =>
      rw [workerStep] at h
      split_ifs at h with hlock
      exact ⟨_, _, .removeDone (by simpa using hlock), (Option.some.inj h).symm⟩
  | waiting => exact ⟨_, _, .wake, (Option.some.inj h).symm⟩
  | left => cases h
  | panicked => cases h

theorem Move.not_ended (h : Move p s ph s₁ ph') : ph.ended = false := by cases h <;> rfl

/-- A finished task is removed, unless the queue has none with its id. -/
theorem removeDone_cases (s : QueueState) (rct : ProcessTask) :
    (∃ t ∈ s.queue, rct.taskId = t.taskId ∧
      s.removeDone rct = { s with queue := queueRemove s.queue rct.taskId }.record (.removed t)) ∨
    (∀ t ∈ s.queue, rct.taskId ≠ t.taskId) ∧ s.removeDone rct = s := by
  unfold removeDone
  cases hfind : s.queue.find? fun t => rct.taskId = t.taskId with
  | some t =>
    have hid : rct.taskId = t.taskId := by simpa using List.find?_some hfind
    exact Or.inl ⟨t, List.mem_of_find?_eq_some hfind, hid, rfl⟩
  | none => exact Or.inr ⟨fun t ht => by simpa using List.find?_eq_none.mp hfind t ht, rfl⟩

theorem removeDone_loops (s : QueueState) (rct : ProcessTask) :
    (s.removeDone rct).loops = s.loops := by
  rcases removeDone_cases s rct with ⟨t, -, -, heq⟩ | ⟨-, heq⟩
  · rw [heq]
    rfl
  · rw [heq]

theorem Move.loops (h : Move p s ph s₁ ph') : s₁.loops = s.loops := by
  cases h with
  | removeDone => exact removeDone_loops s _
  | _ => rfl

theorem removeDone_log (s : QueueState) (rct : ProcessTask) : s.log <:+ (s.removeDone rct).log := by
  rcases removeDone_cases s rct with ⟨t, -, -, heq⟩ | ⟨-, heq⟩
  · rw [heq]
    exact List.suffix_cons _ _
  · rw [heq]

theorem Move.log (h : Move p s ph s₁ ph') : s.log <:+ s₁.log := by
  cases h with
  | take => exact List.suffix_cons _ _
  | panic => exact List.suffix_cons _ _
  | skip => exact List.suffix_cons _ _
  | execute => exact List.suffix_append [_, _] _
  | removeDone => exact removeDone_log s _
  | _ => exact List.suffix_rfl

theorem processes_eq_some {cur : ℕ} {ct : ProcessTask} :
    s.processes p i = some (cur, ct) ↔
      ∃ todo remove, s.loops[i]? = some (.passing cur (ct :: todo) remove) ∧
        ct.due p cur = some true := by
  unfold processes
  constructor
  · intro h
    split at h
    next todo remove hi =>
      split_ifs at h with hdue
      cases h
      exact ⟨todo, remove, hi, hdue⟩
    next => cases h
  · rintro ⟨todo, remove, hi, hdue⟩
    rw [hi]
    exact if_pos hdue

theorem step_add {task : ProcessTask} (h : s.step p (.add task) = some s') :
    task ∈ s.made ∧ s.readLocked = false ∧
      s' = { s with queue := s.queue ++ [task] }.record (.added task) := by
  rw [step] at h
  split_ifs at h with hadd
  exact ⟨hadd.1, hadd.2, (Option.some.inj h).symm⟩

theorem step_remove {id : Text} (h : s.step p (.remove id) = some s') :
    s.readLocked = false ∧ s' = { s with queue := queueRemove s.queue id } := by
  rw [step] at h
  split_ifs at h with hlocked
  exact ⟨by simpa using hlocked, (Option.some.inj h).symm⟩

theorem step_getElem? {l : QueueLabel} (h : s.step p l = some s') (hl : l ≠ .worker i)
    (hi : s.loops[i]? = some ph) : s'.loops[i]? = some ph := by
  cases l with
  | worker j =>
    obtain ⟨ph₁, -, hph⟩ := Option.bind_eq_some_iff.mp h
    obtain ⟨s₁, ph', hmove, rfl⟩ := workerStep_cases hph
    have hij : j ≠ i := fun heq => hl (heq ▸ rfl)
    rw [setLoop, List.getElem?_set_ne hij, hmove.loops, hi]
  | add task =>
    obtain ⟨-, -, rfl⟩ := step_add h
    exact hi
  | remove id =>
    obtain ⟨-, rfl⟩ := step_remove h
    exact hi
  | start =>
    cases h
    split_ifs
    · exact hi
    · have hlt := (List.getElem?_eq_some_iff.mp hi).1
      exact (List.getElem?_append_left hlt).trans hi
  | tick | create | registerHandler | shutdown =>
    cases h
    exact hi

theorem step_log {l : QueueLabel} (h : s.step p l = some s') : s.log <:+ s'.log := by
  cases l with
  | worker i =>
    obtain ⟨ph, -, hph⟩ := Option.bind_eq_some_iff.mp h
    obtain ⟨s₁, ph', hmove, rfl⟩ := workerStep_cases hph
    exact hmove.log
  | add task =>
    obtain ⟨-, -, rfl⟩ := step_add h
    exact List.suffix_cons _ _
  | remove id =>
    obtain ⟨-, rfl⟩ := step_remove h
    exact List.suffix_rfl
  | start =>
    cases h
    split_ifs <;> exact List.suffix_rfl
  | tick | create | registerHandler | shutdown =>
    cases h
    exact List.suffix_rfl

end Moves

end QueueState

end ChimesUtils
