import ChimesUtils.Queue.Worker

/-!
# The due test

The worker reads the clock, waits for the read lock, and only then takes its snapshot. A task that is
created and added in between can be stamped later than the reading: then `current_time - last_time`
underflows.

* `DueInv`: until the snapshot, every task in the queue is stamped no later than the reading;
* `due_in_time`: when no such task comes in between, the subtraction never underflows and no task is
  executed before its period has passed since its creation.
-/

namespace ChimesUtils

open Lib

/-- The due test does not underflow, and an execution comes after the period. -/
def QueueEvent.Timely : QueueEvent → Prop
  | tested cur task => task.lastTime ≤ cur
  | executed task _ now _ => task.created + task.period < now
  | _ => True

/-- The stamp of the task lies between its creation and the given time. -/
def ProcessTask.StampedBy (c : ℕ) (t : ProcessTask) : Prop :=
  t.created ≤ t.lastTime ∧ t.lastTime ≤ c

/-- The clock reading of a worker that waits for the read lock. -/
def LoopPhase.reading : LoopPhase → Option ℕ
  | timed cur => some cur
  | _ => none

namespace QueueState

/-- The clock never decreases. -/
def ForwardClock (s : QueueState) : QueueLabel → Prop
  | .tick t => s.now ≤ t
  | _ => True

/-- A task that is added while the worker waits for the read lock is stamped no later than the
worker's clock reading. -/
def InTime (s : QueueState) : QueueLabel → Prop
  | .add task => ∀ cur ∈ s.current.reading, task.lastTime ≤ cur
  | _ => True

/-- One worker loop at a time, and a clock that never decreases. -/
def Setting (s : QueueState) (l : QueueLabel) : Prop :=
  s.StartAfter (fun ph => ph.ended = true) l ∧ s.ForwardClock l

instance (s : QueueState) : ∀ l, Decidable (s.ForwardClock l)
  | .tick t => inferInstanceAs (Decidable (s.now ≤ t))
  | .create .. | .add _ | .remove _ | .registerHandler _ | .start | .shutdown | .worker _ =>
    isTrue trivial

instance (s : QueueState) : ∀ l, Decidable (s.InTime l)
  | .add task => inferInstanceAs (Decidable (∀ cur ∈ s.current.reading, task.lastTime ≤ cur))
  | .tick _ | .create .. | .remove _ | .registerHandler _ | .start | .shutdown | .worker _ =>
    isTrue trivial

instance (s : QueueState) (l : QueueLabel) : Decidable (s.Setting l) :=
  inferInstanceAs (Decidable (_ ∧ _))

end QueueState

/-! ## The invariant -/

/-- From the clock reading on, every task the pass can see is stamped no later than it. -/
def ReadingOk (queue : List ProcessTask) (now : ℕ) : LoopPhase → Prop
  | .timed cur => cur ≤ now ∧ ∀ t ∈ queue, t.StampedBy cur
  | .locked cur => cur ≤ now ∧ ∀ t ∈ queue, t.StampedBy cur
  | .passing cur todo _ => cur ≤ now ∧ (∀ t ∈ queue, t.StampedBy cur) ∧ ∀ t ∈ todo, t.StampedBy cur
  | _ => True

structure DueInv (s : QueueState) (ph : LoopPhase) : Prop where
  made : ∀ t ∈ s.made, t.StampedBy s.now
  queue : ∀ t ∈ s.queue, t.StampedBy s.now
  reading : ReadingOk s.queue s.now ph
  log : ∀ e ∈ s.log, e.Timely

section Invariant

variable {p : Profile} {s s' : QueueState} {ph : LoopPhase} {cur c c' : ℕ} {ct : ProcessTask}
  {todo remove : List ProcessTask} {l : QueueLabel} {i : ℕ}

theorem ProcessTask.StampedBy.mono (h : ct.StampedBy c) (hc : c ≤ c') : ct.StampedBy c' :=
  ⟨h.1, h.2.trans hc⟩

theorem ProcessTask.StampedBy.touch (h : ct.StampedBy cur) : (ct.touch cur).StampedBy cur :=
  ⟨h.1.trans h.2, le_rfl⟩

theorem stampedBy_updateTaskLasttime {queue : List ProcessTask}
    (h : ∀ t ∈ queue, t.StampedBy cur) (ct : ProcessTask) :
    ∀ t ∈ updateTaskLasttime queue ct cur, t.StampedBy cur := by
  intro t ht
  obtain ⟨t', ht', rfl⟩ := List.mem_map.mp ht
  split_ifs
  · exact (h t' ht').touch
  · exact h t' ht'

theorem timely_of_due (h : ct.StampedBy cur) (hdue : ct.due p cur = some true) {now : ℕ}
    (hnow : cur ≤ now) : ct.created + ct.period < now := by
  obtain ⟨hcreated, hlast⟩ := h
  rw [ProcessTask.due, Profile.subU64_of_le hlast, Option.map_some, Option.some.injEq,
    decide_eq_true_eq] at hdue
  omega

theorem DueInv.goto (h : DueInv s ph) {ph' : LoopPhase} (hph : ReadingOk s.queue s.now ph') :
    DueInv s ph' := { h with reading := hph }

theorem DueInv.setLoop (h : DueInv s ph) (hi : i + 1 = s.loops.length) :
    DueInv (s.setLoop i ph) (s.setLoop i ph).current :=
  (QueueState.current_setLoop hi ph).symm ▸ ⟨h.made, h.queue, h.reading, h.log⟩

theorem DueInv.record (h : DueInv s ph) {e : QueueEvent} (he : e.Timely) :
    DueInv (s.record e) ph :=
  { h with log := List.forall_mem_cons.mpr ⟨he, h.log⟩ }

theorem DueInv.tick (h : DueInv s ph) {t : ℕ} (ht : s.now ≤ t) : DueInv { s with now := t } ph := by
  refine ⟨fun q hq => (h.made q hq).mono ht, fun q hq => (h.queue q hq).mono ht, ?_, h.log⟩
  have hreading := h.reading
  cases ph with
  | timed | locked | passing => exact ⟨hreading.1.trans ht, hreading.2⟩
  | _ => trivial

/-- A task is added in time. -/
theorem DueInv.add (h : DueInv s ph) {task : ProcessTask} (hmade : task ∈ s.made)
    (hreads : ph.reads = false) (hintime : ∀ cur ∈ ph.reading, task.lastTime ≤ cur) :
    DueInv ({ s with queue := s.queue ++ [task] }.record (.added task)) ph := by
  have hstamped := h.made task hmade
  have happend : ∀ c, (∀ t ∈ s.queue, t.StampedBy c) → task.StampedBy c →
      ∀ t ∈ s.queue ++ [task], t.StampedBy c := by
    intro c hqueue htask
    rw [List.forall_mem_append, List.forall_mem_singleton]
    exact ⟨hqueue, htask⟩
  refine ⟨h.made, happend _ h.queue hstamped, ?_, List.forall_mem_cons.mpr ⟨trivial, h.log⟩⟩
  have hreading := h.reading
  cases ph with
  | timed cur =>
    exact ⟨hreading.1, happend cur hreading.2 ⟨hstamped.1, hintime cur rfl⟩⟩
  | locked => cases hreads
  | passing => cases hreads
  | _ => trivial

theorem DueInv.shrink (h : DueInv s ph) {queue : List ProcessTask} (hsub : queue ⊆ s.queue) :
    DueInv { s with queue := queue } ph := by
  refine ⟨h.made, fun t ht => h.queue t (hsub ht), ?_, h.log⟩
  have hreading := h.reading
  cases ph with
  | timed | locked => exact ⟨hreading.1, fun t ht => hreading.2 t (hsub ht)⟩
  | passing => exact ⟨hreading.1, fun t ht => hreading.2.1 t (hsub ht), hreading.2.2⟩
  | _ => trivial

theorem DueInv.removeDone (h : DueInv s ph) (rct : ProcessTask) : DueInv (s.removeDone rct) ph := by
  rcases QueueState.removeDone_cases s rct with ⟨t, -, -, heq⟩ | ⟨-, heq⟩
  · rw [heq]
    exact (h.shrink List.eraseP_subset).record trivial
  · rw [heq]
    exact h

/-- The visit of a task that is due. -/
theorem DueInv.execute (h : DueInv s (.passing cur (ct :: todo) remove))
    (hdue : ct.due p cur = some true) (remove' : List ProcessTask) :
    DueInv (s.execute cur ct) (.passing cur todo remove') := by
  obtain ⟨hnow, hqueue, htodo⟩ := h.reading
  obtain ⟨hct, htodo⟩ := List.forall_mem_cons.mp htodo
  have hupdated := stampedBy_updateTaskLasttime hqueue ct
  exact ⟨h.made, fun t ht => (hupdated t ht).mono hnow, ⟨hnow, hupdated, htodo⟩,
    List.forall_mem_cons.mpr ⟨timely_of_due hct hdue hnow, h.log⟩⟩

theorem DueInv.move {s₁ : QueueState} {ph' : LoopPhase} (h : DueInv s ph)
    (hmove : QueueState.Move p s ph s₁ ph') : DueInv s₁ ph' := by
  have htested : ∀ {cur ct todo remove}, ph = .passing cur (ct :: todo) remove →
      QueueEvent.Timely (.tested cur ct) := by
    rintro cur ct todo remove rfl
    exact (h.reading.2.2 ct List.mem_cons_self).2
  cases hmove with
  | enter => exact h.goto trivial
  | leave => exact h.goto trivial
  | readClock => exact h.goto ⟨le_rfl, h.queue⟩
  | lock => exact h.goto h.reading
  | @take cur =>
    have htook : DueInv (s.record (.took cur s.queue)) (.locked cur) := h.record trivial
    exact htook.goto ⟨h.reading.1, h.reading.2, h.reading.2⟩
  | panic => exact (h.record (htested rfl)).goto trivial
  | skip =>
    obtain ⟨hnow, hqueue, htodo⟩ := h.reading
    exact (h.record (htested rfl)).goto ⟨hnow, hqueue, (List.forall_mem_cons.mp htodo).2⟩
  | execute hdue => exact (h.record (htested rfl)).execute hdue _
  | release => exact h.goto trivial
  | removeDone => exact (h.removeDone _).goto trivial
  | wait => exact h.goto trivial
  | wake => exact h.goto trivial

/-- **One step** under the condition. -/
theorem DueInv.step (halone : s.Alone fun ph => ph.ended = true) (h : DueInv s s.current)
    (hset : s.Setting l) (hintime : s.InTime l) (hs : s.step p l = some s') :
    DueInv s' s'.current := by
  have hreads := halone.readLocked_eq fun _ => id
  cases l with
  | tick t =>
    cases hs
    exact h.tick (hset.2)
  | create hcyc period ck hfn id =>
    cases hs
    exact { h with made := List.forall_mem_cons.mpr ⟨⟨le_rfl, le_rfl⟩, h.made⟩ }
  | registerHandler | shutdown =>
    cases hs
    exact ⟨h.made, h.queue, h.reading, h.log⟩
  | add task =>
    obtain ⟨hmade, hfree, rfl⟩ := QueueState.step_add hs
    exact h.add hmade (hreads ▸ hfree) hintime
  | remove id =>
    obtain ⟨-, rfl⟩ := QueueState.step_remove hs
    exact h.shrink List.eraseP_subset
  | start =>
    cases hs
    by_cases hst : s.started = true
    · rwa [if_pos hst]
    · rw [if_neg hst]
      have hinv : DueInv { s with started := true, loops := s.loops ++ [.atHead] } .atHead :=
        ⟨h.made, h.queue, trivial, h.log⟩
      exact (QueueState.current_append { s with started := true } .atHead).symm ▸ hinv
  | worker i =>
    obtain ⟨s₁, ph, hmove, hi, rfl⟩ := halone.worker (fun _ => id) hs
    exact (h.move hmove).setLoop hi

end Invariant

/-- The invariant of a run. -/
def DueRun (s : QueueState) : Prop :=
  (s.Alone fun ph => ph.ended = true) ∧ DueInv s s.current

theorem DueRun.new (t : ℕ) : DueRun (QueueState.new t) :=
  ⟨QueueState.Alone.new t, List.forall_mem_nil _, List.forall_mem_nil _, trivial,
    List.forall_mem_nil _⟩

/-- **No underflow.** In every run of one worker under a forward clock, in which no task stamped later
than the worker's clock reading is added while the worker waits for the read lock, the due test never
underflows, and no task is executed before more than its period has passed since its creation. -/
theorem due_in_time (p : Profile) {t : ℕ} {ls : List QueueLabel} {s : QueueState}
    (h : Run (Under (fun s l => s.Setting l ∧ s.InTime l) (Steps (QueueState.step p)))
      (QueueState.new t) ls s) : ∀ e ∈ s.log, e.Timely := by
  have hinv : DueRun s := by
    refine h.invariant (DueRun.new t) fun s l s' hi hs => ?_
    obtain ⟨⟨hset, hintime⟩, hs⟩ := hs
    exact ⟨hi.1.step (fun _ => id) hset.1 hs, hi.2.step hi.1 hset hintime hs⟩
  exact hinv.2.log

/-! ## The converse -/

section Converse

variable {p : Profile} {s : QueueState} {i cur : ℕ} {todo remove : List ProcessTask}

theorem run_worker_cons {Q : QueueState → Prop} {s₁ : QueueState}
    (hs : s.step p (.worker i) = some s₁)
    (h : ∃ n s', Run (Steps (QueueState.step p)) s₁ (List.replicate n (.worker i)) s' ∧ Q s') :
    ∃ n s', Run (Steps (QueueState.step p)) s (List.replicate n (.worker i)) s' ∧ Q s' := by
  obtain ⟨n, s', hrun, hQ⟩ := h
  exact ⟨n + 1, s', hrun.cons hs, hQ⟩

theorem underflow_of_passing (hi : s.loops[i]? = some (.passing cur todo remove))
    (hlate : ∃ t ∈ todo, cur < t.lastTime) :
    ∃ n s', Run (Steps (QueueState.step p)) s (List.replicate n (.worker i)) s' ∧
      ∃ t, .tested cur t ∈ s'.log ∧ cur < t.lastTime := by
  induction todo generalizing s remove with
  | nil =>
    obtain ⟨t, ht, -⟩ := hlate
    cases ht
  | cons ct todo ih =>
    obtain ⟨hlt, -⟩ := List.getElem?_eq_some_iff.mp hi
    have hs : s.step p (.worker i) = some (s.visit p i cur ct todo remove) := by
      rw [QueueState.step, hi, Option.bind_some, QueueState.workerStep]
    refine run_worker_cons hs ?_
    by_cases hct : cur < ct.lastTime
    · refine ⟨0, _, .refl, ct, ?_, hct⟩
      unfold QueueState.visit
      split
      · exact List.mem_cons_self
      · exact List.mem_cons_self
      · exact List.mem_cons_of_mem _ List.mem_cons_self
    · have hrest : ∃ t ∈ todo, cur < t.lastTime := by
        obtain ⟨t, ht, htl⟩ := hlate
        rcases List.mem_cons.mp ht with rfl | ht
        · exact absurd htl hct
        · exact ⟨t, ht, htl⟩
      unfold QueueState.visit
      split
      next hdue =>
        rw [ProcessTask.due, Profile.subU64_of_le (not_lt.mp hct)] at hdue
        cases hdue
      · exact ih (List.getElem?_set_self hlt) hrest
      · exact ih (List.getElem?_set_self hlt) hrest

/-- **Late tasks.** When a task stamped later than the reading is in the queue of a worker that waits
for the read lock, and no client acts, the worker comes to a due test that underflows. -/
theorem underflow_of_late (hi : s.loops[i]? = some (.timed cur))
    (hlate : ∃ t ∈ s.queue, cur < t.lastTime) :
    ∃ n s', Run (Steps (QueueState.step p)) s (List.replicate n (.worker i)) s' ∧
      ∃ t, .tested cur t ∈ s'.log ∧ cur < t.lastTime := by
  obtain ⟨hlt, -⟩ := List.getElem?_eq_some_iff.mp hi
  have hlocked : s.step p (.worker i) = some (s.setLoop i (.locked cur)) := by
    rw [QueueState.step, hi, Option.bind_some, QueueState.workerStep]
  have hget : (s.setLoop i (.locked cur)).loops[i]? = some (.locked cur) :=
    List.getElem?_set_self hlt
  refine run_worker_cons hlocked (run_worker_cons (by
    rw [QueueState.step, hget, Option.bind_some, QueueState.workerStep]) ?_)
  refine underflow_of_passing (List.getElem?_set_self ?_) hlate
  exact (List.getElem?_eq_some_iff.mp hget).1

end Converse

/-! ## Runs -/

/-- A one-shot task of period `5`, created at the time `1`. -/
def taskAtOne : ProcessTask := .new false 5 [] ['h'] ['a'] 1

def addAtOne : List QueueLabel :=
  [.registerHandler ['h'], .tick 1, .create false 5 [] ['h'] ['a'], .add taskAtOne]

/-- The task comes before the clock reading of the worker. -/
def earlyAdd : List QueueLabel := addAtOne ++ [.tick 10, .start] ++ List.replicate 5 (.worker 0)

theorem due_in_time_earlyAdd : ∃ s,
    Run (Under (fun s l => s.Setting l ∧ s.InTime l) (Steps (QueueState.step .debug)))
      (QueueState.new 0) earlyAdd s ∧
    .executed taskAtOne 10 10 true ∈ s.log ∧ ∀ e ∈ s.log, e.Timely := by
  have hview : ∃ s ∈ runAll (QueueState.step .debug) earlyAdd (QueueState.new 0),
      .executed taskAtOne 10 10 true ∈ s.log := by decide +kernel
  obtain ⟨s, hs, hexecuted⟩ := hview
  have hgood : AllSteps (fun s l => s.Setting l ∧ s.InTime l) (QueueState.step .debug) earlyAdd
      (QueueState.new 0) := by decide +kernel
  have hrun := run_under_of_runAll hgood hs
  exact ⟨s, hrun, hexecuted, due_in_time .debug hrun⟩

/-- The worker reads the clock at the time `0`, and the task comes before the snapshot. -/
def lateAdd : List QueueLabel :=
  [.start, .worker 0, .worker 0] ++ addAtOne ++ List.replicate 3 (.worker 0)

theorem due_lateAdd :
    (∃ s, Run (Under QueueState.Setting (Steps (QueueState.step .release))) (QueueState.new 0)
      lateAdd s ∧ .tested 0 taskAtOne ∈ s.log ∧ .executed taskAtOne 0 1 true ∈ s.log ∧
      ¬ ∀ e ∈ s.log, e.Timely) ∧
    ∃ s, Run (Under QueueState.Setting (Steps (QueueState.step .debug))) (QueueState.new 0)
      lateAdd s ∧ s.loops = [.panicked] := by
  have hgood : ∀ p, AllSteps QueueState.Setting (QueueState.step p) lateAdd (QueueState.new 0) := by
    rintro (_ | _)
    · decide +kernel
    · decide +kernel
  constructor
  · have hview : ∃ s ∈ runAll (QueueState.step .release) lateAdd (QueueState.new 0),
        .tested 0 taskAtOne ∈ s.log ∧ .executed taskAtOne 0 1 true ∈ s.log := by decide +kernel
    obtain ⟨s, hs, htested, hexecuted⟩ := hview
    refine ⟨s, run_under_of_runAll (hgood .release) hs, htested, hexecuted, fun h => ?_⟩
    have htimely : taskAtOne.created + taskAtOne.period < 1 := h _ hexecuted
    simp [taskAtOne, ProcessTask.new] at htimely
  · have hview : ∃ s ∈ runAll (QueueState.step .debug) lateAdd (QueueState.new 0),
        s.loops = [.panicked] := by decide +kernel
    obtain ⟨s, hs, hloops⟩ := hview
    exact ⟨s, run_under_of_runAll (hgood .debug) hs, hloops⟩

end ChimesUtils
