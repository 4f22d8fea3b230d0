import ChimesUtils.Queue.Due
import ChimesUtils.Queue.Pass

/-!
# Time between executions

A pass reads the clock once. All tasks that it finds due are stamped with this reading, however long
the handlers in front of them take.

* `SpacingInv`: what the queue still has of a task that has been executed carries the reading of the
  last such pass;
* `passes_apart`: the passes that execute a task read the clock more than its period apart.
-/

namespace ChimesUtils

open Lib

namespace QueueEvent

/-- The task that is executed. -/
def executedId : QueueEvent → Option Text
  | executed task _ _ _ => some task.taskId
  | _ => none

/-- Of two executions of one task, the newer one first: its pass has read the clock more than the
period after the pass of the older one did, and it starts after that. -/
def PassesApart : QueueEvent → QueueEvent → Prop
  | executed ct₂ cur₂ now₂ _, executed ct₁ cur₁ _ _ =>
    ct₁.taskId = ct₂.taskId →
      ct₁.period = ct₂.period ∧ cur₁ + ct₂.period < cur₂ ∧ cur₂ ≤ now₂
  | _, _ => True

/-- Of two executions of one cyclic task, the newer one first: they start more than the period
apart. -/
def StartsApart : QueueEvent → QueueEvent → Prop
  | executed ct₂ _ now₂ _, executed ct₁ _ now₁ _ =>
    ct₁.taskId = ct₂.taskId → ct₂.cyclicity = true → now₁ + ct₂.period < now₂
  | _, _ => True

instance : ∀ e₂ e₁ : QueueEvent, Decidable (e₂.StartsApart e₁)
  | executed ct₂ _ now₂ _, executed ct₁ _ now₁ _ =>
    inferInstanceAs (Decidable
      (ct₁.taskId = ct₂.taskId → ct₂.cyclicity = true → now₁ + ct₂.period < now₂))
  | executed .., added _ | executed .., took .. | executed .., tested .. | executed .., removed _ =>
    isTrue trivial
  | added _, _ | took .., _ | tested .., _ | removed _, _ => isTrue trivial

/-- What an execution leaves of its task in the queue: a stamp between the reading of its pass and the
given time. -/
def Stamps (c : ℕ) (t : ProcessTask) : QueueEvent → Prop
  | executed ct cur _ _ =>
    ct.taskId = t.taskId → ct.period = t.period ∧ cur ≤ t.lastTime ∧ t.lastTime ≤ c
  | _ => True

end QueueEvent

/-- The reading of the current pass, or the time where no pass has read the clock. -/
def LoopPhase.bound (now : ℕ) : LoopPhase → ℕ
  | timed cur => cur
  | locked cur => cur
  | passing cur _ _ => cur
  | _ => now

/-- In a pass, what is left of the snapshot is the rest of the queue. -/
def RestOfQueue (queue : List ProcessTask) : LoopPhase → Prop
  | .passing _ todo _ => ∃ front, queue = front ++ todo
  | _ => True

structure SpacingInv (queue : List ProcessTask) (log : List QueueEvent) (now : ℕ)
    (ph : LoopPhase) : Prop where
  ids : (queue.map ProcessTask.taskId).Nodup
  added : ∀ t ∈ queue, t.taskId ∈ addedIds log
  executed : ∀ e ∈ log, ∀ id ∈ e.executedId, id ∈ addedIds log
  reading : ph.bound now ≤ now
  stamps : ∀ t ∈ queue, ∀ e ∈ log, e.Stamps (ph.bound now) t
  rest : RestOfQueue queue ph
  apart : log.Pairwise QueueEvent.PassesApart

section Invariant

variable {p : Profile} {queue : List ProcessTask} {log : List QueueEvent} {now cur c c' : ℕ}
  {ph ph' : LoopPhase} {ct t : ProcessTask} {todo remove : List ProcessTask} {e : QueueEvent}

theorem QueueEvent.Stamps.mono (h : e.Stamps c t) (hc : c ≤ c') : e.Stamps c' t := by
  cases e with
  | executed =>
    intro hid
    obtain ⟨hperiod, hcur, hlast⟩ := h hid
    exact ⟨hperiod, hcur, hlast.trans hc⟩
  | _ => trivial

theorem QueueEvent.Stamps.touch (h : e.Stamps cur ct) : e.Stamps cur (ct.touch cur) := by
  cases e with
  | executed ct₁ cur₁ now₁ invoked₁ =>
    intro hid
    obtain ⟨hperiod, hcur, hlast⟩ := h hid
    exact ⟨hperiod, hcur.trans hlast, le_rfl⟩
  | _ => trivial

theorem QueueEvent.Stamps.passesApart (h : e.Stamps cur ct) (hdue : ct.due p cur = some true)
    (hnow : cur ≤ now) (invoked : Bool) : (executed ct cur now invoked).PassesApart e := by
  cases e with
  | executed ct₁ cur₁ now₁ invoked₁ =>
    intro hid
    obtain ⟨hperiod, hcur, hlast⟩ := h hid
    rw [ProcessTask.due, Profile.subU64_of_le hlast, Option.map_some, Option.some.injEq,
      decide_eq_true_eq] at hdue
    exact ⟨hperiod, by omega, hnow⟩
  | _ => trivial

theorem stamps_of_executedId_eq_none (h : e.executedId = none) : e.Stamps c t := by
  cases e with
  | executed => cases h
  | _ => trivial

theorem passesApart_of_executedId_eq_none (h : e.executedId = none) (e' : QueueEvent) :
    e.PassesApart e' := by
  cases e with
  | executed => cases h
  | _ => trivial

theorem SpacingInv.nil (now : ℕ) (hph : ph.bound now ≤ now) (hrest : RestOfQueue [] ph) :
    SpacingInv [] [] now ph where
  ids := List.nodup_nil
  added := List.forall_mem_nil _
  executed := List.forall_mem_nil _
  reading := hph
  stamps := List.forall_mem_nil _
  rest := hrest
  apart := .nil

theorem SpacingInv.goto (h : SpacingInv queue log now ph) (hbound : ph.bound now ≤ ph'.bound now)
    (hnow : ph'.bound now ≤ now) (hrest : RestOfQueue queue ph') :
    SpacingInv queue log now ph' :=
  { h with
    reading := hnow
    stamps := fun t ht e he => (h.stamps t ht e he).mono hbound
    rest := hrest }

theorem SpacingInv.tick (h : SpacingInv queue log now ph) {now' : ℕ} (hnow : now ≤ now') :
    SpacingInv queue log now' ph := by
  have hbound : ph.bound now ≤ ph.bound now' ∧ ph.bound now' ≤ now' := by
    have hreading := h.reading
    cases ph with
    | timed | locked | passing => exact ⟨le_rfl, hreading.trans hnow⟩
    | _ => exact ⟨hnow, le_rfl⟩
  exact { h with
    reading := hbound.2
    stamps := fun t ht e he => (h.stamps t ht e he).mono hbound.1 }

theorem SpacingInv.record (h : SpacingInv queue log now ph) (hadded : e.addedId = none)
    (hexecuted : e.executedId = none) : SpacingInv queue (e :: log) now ph := by
  have hids : addedIds (e :: log) = addedIds log := List.filterMap_cons_none hadded
  refine ⟨h.ids, hids.symm ▸ h.added, ?_, h.reading, fun t ht => ?_, h.rest, ?_⟩
  · rw [hids, List.forall_mem_cons]
    refine ⟨fun id hid => ?_, h.executed⟩
    rw [hexecuted] at hid
    cases hid
  · rw [List.forall_mem_cons]
    exact ⟨stamps_of_executedId_eq_none hexecuted, h.stamps t ht⟩
  · exact List.pairwise_cons.mpr
      ⟨fun e' _ => passesApart_of_executedId_eq_none hexecuted e', h.apart⟩

theorem SpacingInv.add (h : SpacingInv queue log now ph) {task : ProcessTask}
    (hreads : ph.reads = false) (hnew : task.taskId ∉ addedIds log) :
    SpacingInv (queue ++ [task]) (.added task :: log) now ph := by
  have hids : addedIds (.added task :: log) = task.taskId :: addedIds log := rfl
  have hstamps : ∀ e ∈ log, e.Stamps (ph.bound now) task := by
    intro e he
    cases e with
    | executed ct =>
      intro hid
      exact absurd (hid ▸ h.executed _ he ct.taskId rfl) hnew
    | _ => trivial
  refine ⟨nodup_taskId_append h.added h.ids hnew, taskId_mem_addedIds_append h.added task, ?_,
    h.reading, ?_, ?_, ?_⟩
  · rw [hids, List.forall_mem_cons]
    refine ⟨fun id hid => (by cases hid), fun e he id hid => ?_⟩
    exact List.mem_cons_of_mem _ (h.executed e he id hid)
  · rw [List.forall_mem_append, List.forall_mem_singleton]
    refine ⟨fun t ht => ?_, ?_⟩
    · rw [List.forall_mem_cons]
      exact ⟨trivial, h.stamps t ht⟩
    · rw [List.forall_mem_cons]
      exact ⟨trivial, hstamps⟩
  · cases ph with
    | passing => cases hreads
    | _ => trivial
  · exact List.pairwise_cons.mpr ⟨fun _ _ => trivial, h.apart⟩

theorem SpacingInv.shrink (h : SpacingInv queue log now ph) (hreads : ph.reads = false)
    {queue' : List ProcessTask} (hsub : queue'.Sublist queue) : SpacingInv queue' log now ph := by
  refine { h with
    ids := h.ids.sublist (hsub.map _)
    added := fun t ht => h.added t (hsub.subset ht)
    stamps := fun t ht => h.stamps t (hsub.subset ht)
    rest := ?_ }
  cases ph with
  | passing => cases hreads
  | _ => trivial

theorem SpacingInv.tested (h : SpacingInv queue log now (.passing cur todo remove)) :
    SpacingInv queue (.tested cur ct :: log) now (.passing cur todo remove) := h.record rfl rfl

theorem SpacingInv.skip (h : SpacingInv queue log now (.passing cur (ct :: todo) remove)) :
    SpacingInv queue log now (.passing cur todo remove) := by
  obtain ⟨front, hqueue⟩ := h.rest
  refine { h with rest := ⟨front ++ [ct], ?_⟩ }
  rw [hqueue, List.append_assoc, List.singleton_append]

/-- **A visit to a task that is due.** The readings of the earlier executions are more than the period
before the reading of this pass. -/
theorem SpacingInv.execute (h : SpacingInv queue log now (.passing cur (ct :: todo) remove))
    (hdue : ct.due p cur = some true) (invoked : Bool) (remove' : List ProcessTask) :
    SpacingInv (updateTaskLasttime queue ct cur) (.executed ct cur now invoked :: log) now
      (.passing cur todo remove') := by
  obtain ⟨front, hqueue⟩ := h.rest
  have hct : ct ∈ queue := hqueue ▸ List.mem_append_right _ List.mem_cons_self
  have hmap := map_updateTaskLasttime_taskId queue ct cur
  have hupdate : updateTaskLasttime queue ct cur = front ++ ct.touch cur :: todo := by
    have hids := h.ids
    rw [hqueue] at hids ⊢
    exact updateTaskLasttime_append hids cur
  have hids : addedIds (.executed ct cur now invoked :: log) = addedIds log := rfl
  refine ⟨hmap ▸ h.ids, taskId_mem_addedIds_update h.added ct cur, ?_, h.reading,
    fun t ht => ?_, ⟨front ++ [ct.touch cur], ?_⟩, ?_⟩
  · rw [hids, List.forall_mem_cons]
    refine ⟨fun id hid => ?_, h.executed⟩
    exact Option.some.inj hid ▸ h.added ct hct
  · obtain ⟨t', ht', rfl⟩ := List.mem_map.mp ht
    rw [List.forall_mem_cons]
    by_cases hid : ct.taskId = t'.taskId
    · rw [if_pos hid]
      have hsame : t' = ct := List.inj_on_of_nodup_map h.ids ht' hct hid.symm
      rw [hsame]
      exact ⟨fun _ => ⟨rfl, le_rfl, le_rfl⟩, fun e he => (h.stamps ct hct e he).touch⟩
    · rw [if_neg hid]
      exact ⟨fun hid' => absurd hid' hid, h.stamps t' ht'⟩
  · rw [hupdate, List.append_assoc, List.singleton_append]
  · refine List.pairwise_cons.mpr ⟨fun e he => ?_, h.apart⟩
    exact (h.stamps ct hct e he).passesApart hdue h.reading invoked

theorem SpacingInv.move {s s₁ : QueueState} (h : SpacingInv s.queue s.log s.now ph)
    (hmove : QueueState.Move p s ph s₁ ph') : SpacingInv s₁.queue s₁.log s₁.now ph' := by
  cases hmove with
  | enter => exact h.goto le_rfl le_rfl trivial
  | leave => exact h.goto le_rfl le_rfl trivial
  | readClock => exact h.goto le_rfl le_rfl trivial
  | lock => exact h.goto le_rfl h.reading trivial
  | @take cur =>
    have htook : SpacingInv s.queue (.took cur s.queue :: s.log) s.now (.locked cur) :=
      h.record rfl rfl
    exact htook.goto le_rfl h.reading ⟨[], rfl⟩
  | panic => exact h.tested.goto h.reading le_rfl trivial
  | skip => exact h.tested.skip
  | execute hdue => exact h.tested.execute hdue _ _
  | release => exact h.goto h.reading le_rfl trivial
  | @removeDone cur rct remove =>
    rcases QueueState.removeDone_cases s rct with ⟨t, -, -, heq⟩ | ⟨-, heq⟩
    · rw [heq]
      have hshrunk := h.shrink rfl (List.eraseP_sublist (p := fun t => rct.taskId = t.taskId))
      exact (hshrunk.record rfl rfl).goto le_rfl le_rfl trivial
    · rw [heq]
      exact h.goto le_rfl le_rfl trivial
  | wait => exact h.goto le_rfl le_rfl trivial
  | wake => exact h.goto le_rfl le_rfl trivial

/-- **One step** of the system, under which the added ids stay distinct. -/
theorem SpacingInv.step {s s' : QueueState} {l : QueueLabel}
    (halone : s.Alone fun ph => ph.ended = true) (h : SpacingInv s.queue s.log s.now s.current)
    (hset : s.Setting l) (hs : s.step p l = some s') (hids : (addedIds s'.log).Nodup) :
    SpacingInv s'.queue s'.log s'.now s'.current := by
  have hreads := halone.readLocked_eq fun _ => id
  cases l with
  | tick t =>
    cases hs
    exact h.tick hset.2
  | create | registerHandler | shutdown =>
    cases hs
    exact h
  | add task =>
    obtain ⟨-, hfree, rfl⟩ := QueueState.step_add hs
    exact h.add (hreads ▸ hfree) (List.nodup_cons.mp hids).1
  | remove id =>
    obtain ⟨hfree, rfl⟩ := QueueState.step_remove hs
    exact h.shrink (hreads ▸ hfree) List.eraseP_sublist
  | start =>
    cases hs
    by_cases hst : s.started = true
    · rwa [if_pos hst]
    · rw [if_neg hst]
      have hinv : SpacingInv s.queue s.log s.now .atHead := h.goto h.reading le_rfl trivial
      exact (QueueState.current_append { s with started := true } .atHead).symm ▸ hinv
  | worker i =>
    obtain ⟨s₁, ph, hmove, hi, rfl⟩ := halone.worker (fun _ => id) hs
    have hmoved : SpacingInv s₁.queue s₁.log s₁.now ph := h.move hmove
    exact (QueueState.current_setLoop hi ph).symm ▸ hmoved

end Invariant

/-- The invariant of a run. -/
def SpacingRun (s : QueueState) : Prop :=
  (s.Alone fun ph => ph.ended = true) ∧
    ((addedIds s.log).Nodup → SpacingInv s.queue s.log s.now s.current)

/-- **Passes.** In every run of one worker under a forward clock, in which the ids of the added tasks are
distinct, the pass of an execution has read the clock more than the period of the task after the pass of
every earlier execution of the same task, and the execution starts after that. -/
theorem passes_apart (p : Profile) {t : ℕ} {ls : List QueueLabel} {s : QueueState}
    (h : Run (Under QueueState.Setting (Steps (QueueState.step p))) (QueueState.new t) ls s)
    (hids : (addedIds s.log).Nodup) : s.log.Pairwise QueueEvent.PassesApart := by
  have hnew : SpacingRun (QueueState.new t) :=
    ⟨QueueState.Alone.new t, fun _ => .nil t le_rfl trivial⟩
  have hinv : SpacingRun s := by
    refine h.invariant hnew fun s l s' hi hs => ?_
    obtain ⟨hset, hs⟩ := hs
    refine ⟨hi.1.step (fun _ => id) hset.1 hs, fun hids' => ?_⟩
    have hsub : (addedIds s.log).Sublist (addedIds s'.log) :=
      (QueueState.step_log hs).sublist.filterMap _
    exact (hi.2 (hids'.sublist hsub)).step hi.1 hset hs hids'
  exact (hinv.2 hids).apart

/-! ## Runs -/

/-- A one-shot task and a cyclic one of period `10`, both due at the time `11`. -/
def twoTasks : List QueueLabel :=
  [.registerHandler ['h'], .create false 5 [] ['h'] ['a'], .create true 10 [] ['h'] ['b'],
    .add (.new false 5 [] ['h'] ['a'] 0), .add (.new true 10 [] ['h'] ['b'] 0), .start, .tick 11]

/-- The handler of the one-shot task takes 100 seconds. The cyclic task starts at the time `111`, and
again in the next pass, at the time `112`. -/
def longHandler : List QueueLabel :=
  twoTasks ++ List.replicate 5 (.worker 0) ++ [.tick 111] ++ List.replicate 5 (.worker 0) ++
    [.tick 112] ++ List.replicate 6 (.worker 0)

theorem passes_apart_longHandler : ∃ s,
    Run (Under QueueState.Setting (Steps (QueueState.step .release))) (QueueState.new 0) longHandler s ∧
      .executed ((ProcessTask.new true 10 [] ['h'] ['b'] 0).touch 11) 112 112 true ∈ s.log ∧
      s.log.Pairwise QueueEvent.PassesApart := by
  have hview : ∃ s ∈ runAll (QueueState.step .release) longHandler (QueueState.new 0),
      .executed ((ProcessTask.new true 10 [] ['h'] ['b'] 0).touch 11) 112 112 true ∈ s.log ∧
        (addedIds s.log).Nodup := by decide +kernel
  obtain ⟨s, hs, hexecuted, hids⟩ := hview
  have hgood : AllSteps QueueState.Setting (QueueState.step .release) longHandler
      (QueueState.new 0) := by decide +kernel
  have hrun := run_under_of_runAll hgood hs
  exact ⟨s, hrun, hexecuted, passes_apart .release hrun hids⟩

/-- A cyclic task that is added twice. -/
def addedTwice : List QueueLabel :=
  [.create true 10 [] ['h'] ['b'], .add (.new true 10 [] ['h'] ['b'] 0),
    .add (.new true 10 [] ['h'] ['b'] 0), .start, .tick 11] ++ List.replicate 6 (.worker 0)

/-- The cyclic task starts one second after it has started, and a task that is added twice starts twice
in a pass. -/
theorem not_startsApart_longHandler :
    (∃ s, Run (Under QueueState.Setting (Steps (QueueState.step .release))) (QueueState.new 0)
      longHandler s ∧ (addedIds s.log).Nodup ∧ ¬ s.log.Pairwise QueueEvent.StartsApart) ∧
    ∃ s, Run (Under QueueState.Setting (Steps (QueueState.step .release))) (QueueState.new 0)
      addedTwice s ∧ ¬ s.log.Pairwise QueueEvent.StartsApart := by
  constructor
  · have hview : ∃ s ∈ runAll (QueueState.step .release) longHandler (QueueState.new 0),
        (addedIds s.log).Nodup ∧ ¬ s.log.Pairwise QueueEvent.StartsApart := by decide +kernel
    obtain ⟨s, hs, hids, hapart⟩ := hview
    have hgood : AllSteps QueueState.Setting (QueueState.step .release) longHandler
        (QueueState.new 0) := by decide +kernel
    exact ⟨s, run_under_of_runAll hgood hs, hids, hapart⟩
  · have hview : ∃ s ∈ runAll (QueueState.step .release) addedTwice (QueueState.new 0),
        ¬ s.log.Pairwise QueueEvent.StartsApart := by decide +kernel
    obtain ⟨s, hs, hapart⟩ := hview
    have hgood : AllSteps QueueState.Setting (QueueState.step .release) addedTwice
        (QueueState.new 0) := by decide +kernel
    exact ⟨s, run_under_of_runAll hgood hs, hapart⟩

end ChimesUtils
