import ChimesUtils.Queue.Model

/-!
# One-shot tasks and their handlers

`process_task` looks the handler up and says nothing when there is none. The worker marks the task
before, and takes a one-shot task as finished after it, in either case.

* `HandlerKnown`: when a due one-shot task is processed, its handler is registered;
* `removed_handled`: then a worker removes only tasks whose handler it has invoked, and no task that
  was due without a handler.

A queue may hold two copies of one task: `Same` says that two tasks agree up to `last_time`.
-/

namespace ChimesUtils

open Lib

/-- Two copies of one task. -/
def ProcessTask.Same (t u : ProcessTask) : Prop := t.touch 0 = u.touch 0

namespace LoopPhase

/-- The finished one-shot tasks that the worker is going to remove. -/
def finished : LoopPhase → List ProcessTask
  | passing _ _ remove => remove
  | removing _ remove => remove
  | _ => []

/-- The rest of the snapshot. -/
def toVisit : LoopPhase → List ProcessTask
  | passing _ todo _ => todo
  | _ => []

end LoopPhase

/-- The handler of the task has been invoked, as that of a one-shot task. -/
def Invoked (log : List QueueEvent) (ct : ProcessTask) : Prop :=
  ct.cyclicity = false ∧ ∃ cur now, .executed ct cur now true ∈ log

/-- A worker removes a task only after the handler has been invoked for it. -/
def RemovedHandled (log : List QueueEvent) : Prop :=
  ∀ newer history q, log = newer ++ .removed q :: history → ∃ ct, Invoked history ct ∧ ct.Same q

/-- No worker removes a task that was due without a handler. -/
def UnhandledStays (log : List QueueEvent) : Prop :=
  ∀ ct cur now q, .executed ct cur now false ∈ log → .removed q ∈ log → ¬ ct.Same q

namespace QueueState

/-- A created task gets an id of its own, and the handler of a one-shot task is registered when a
worker processes it. -/
def HandlerKnown (p : Profile) (s : QueueState) : QueueLabel → Prop
  | .create _ _ _ _ id => id ∉ s.made.map ProcessTask.taskId
  | .worker i => ∀ v ∈ s.processes p i, v.2.cyclicity = false → v.2.handlerType ∈ s.registry
  | _ => True

instance (p : Profile) (s : QueueState) : ∀ l, Decidable (s.HandlerKnown p l)
  | .create _ _ _ _ id => inferInstanceAs (Decidable (id ∉ s.made.map ProcessTask.taskId))
  | .worker i => inferInstanceAs
      (Decidable (∀ v ∈ s.processes p i, v.2.cyclicity = false → v.2.handlerType ∈ s.registry))
  | .tick _ | .add _ | .remove _ | .registerHandler _ | .start | .shutdown => isTrue trivial

end QueueState

/-! ## Copies -/

namespace ProcessTask

variable {t u v : ProcessTask}

theorem Same.refl (t : ProcessTask) : t.Same t := rfl

theorem Same.symm (h : t.Same u) : u.Same t := Eq.symm h

theorem Same.trans (h : t.Same u) (h' : u.Same v) : t.Same v := Eq.trans h h'

theorem touch_same (cur : ℕ) (t : ProcessTask) : (t.touch cur).Same t := rfl

theorem Same.taskId_eq (h : t.Same u) : t.taskId = u.taskId := by
  have htouch : t.touch 0 = u.touch 0 := h
  show (t.touch 0).taskId = (u.touch 0).taskId
  rw [htouch]

theorem Same.cyclicity_eq (h : t.Same u) : t.cyclicity = u.cyclicity := by
  have htouch : t.touch 0 = u.touch 0 := h
  show (t.touch 0).cyclicity = (u.touch 0).cyclicity
  rw [htouch]

end ProcessTask

/-- The task is a copy of one of these. -/
def CopyOf (made : List ProcessTask) (t : ProcessTask) : Prop := ∃ m ∈ made, t.Same m

section Copies

variable {made : List ProcessTask} {t u : ProcessTask}

theorem CopyOf.cons (h : CopyOf made t) (m : ProcessTask) : CopyOf (m :: made) t := by
  obtain ⟨m', hm', hsame⟩ := h
  exact ⟨m', List.mem_cons_of_mem _ hm', hsame⟩

theorem CopyOf.of_mem (h : t ∈ made) : CopyOf made t := ⟨t, h, .refl t⟩

theorem CopyOf.of_same (h : CopyOf made u) (hsame : t.Same u) : CopyOf made t := by
  obtain ⟨m, hm, hu⟩ := h
  exact ⟨m, hm, hsame.trans hu⟩

theorem CopyOf.same (hids : (made.map ProcessTask.taskId).Nodup) (ht : CopyOf made t)
    (hu : CopyOf made u) (hid : t.taskId = u.taskId) : t.Same u := by
  obtain ⟨m, hm, htm⟩ := ht
  obtain ⟨m', hm', hum⟩ := hu
  have hmm : m = m' := by
    refine List.inj_on_of_nodup_map hids hm hm' ?_
    rw [← htm.taskId_eq, ← hum.taskId_eq, hid]
  exact htm.trans (hmm ▸ hum.symm)

end Copies

/-! ## The invariant -/

/-- What a worker has in hand: copies of created tasks, and finished tasks whose handler has been
invoked. -/
structure InHand (made : List ProcessTask) (log : List QueueEvent) (ph : LoopPhase) : Prop where
  toVisit : ∀ t ∈ ph.toVisit, CopyOf made t
  finished : ∀ t ∈ ph.finished, CopyOf made t ∧ Invoked log t

structure HandledInv (s : QueueState) : Prop where
  ids : (s.made.map ProcessTask.taskId).Nodup
  queue : ∀ t ∈ s.queue, CopyOf s.made t
  loops : ∀ ph ∈ s.loops, InHand s.made s.log ph
  executed : ∀ ct cur now b, .executed ct cur now b ∈ s.log →
    CopyOf s.made ct ∧ (ct.cyclicity = false → b = true)
  removed : RemovedHandled s.log

section Invariant

variable {p : Profile} {s s₁ s' : QueueState} {made : List ProcessTask} {log log' : List QueueEvent}
  {ph ph' : LoopPhase} {ct : ProcessTask}

theorem Invoked.mono (h : Invoked log ct) (hsub : log ⊆ log') : Invoked log' ct := by
  obtain ⟨hcyc, cur, now, hmem⟩ := h
  exact ⟨hcyc, cur, now, hsub hmem⟩

theorem InHand.mono (h : InHand made log ph) (hsub : log ⊆ log') : InHand made log' ph :=
  ⟨h.toVisit, fun t ht => ⟨(h.finished t ht).1, (h.finished t ht).2.mono hsub⟩⟩

theorem InHand.of_nil (hv : ph.toVisit = []) (hf : ph.finished = []) : InHand made log ph where
  toVisit := hv ▸ List.forall_mem_nil _
  finished := hf ▸ List.forall_mem_nil _

theorem RemovedHandled.cons (h : RemovedHandled log) {e : QueueEvent}
    (he : ∀ q, e = .removed q → ∃ ct, Invoked log ct ∧ ct.Same q) : RemovedHandled (e :: log) :=
  forall_removed_cons h he

theorem HandledInv.record (h : HandledInv s) {e : QueueEvent}
    (hexec : ∀ ct cur now b, e ≠ .executed ct cur now b) (hrem : ∀ q, e ≠ .removed q) :
    HandledInv (s.record e) where
  ids := h.ids
  queue := h.queue
  loops ph hph := (h.loops ph hph).mono (List.subset_cons_self _ _)
  executed ct cur now b hmem := by
    rcases List.mem_cons.mp hmem with heq | hmem
    · exact absurd heq.symm (hexec ct cur now b)
    · exact h.executed ct cur now b hmem
  removed := h.removed.cons fun q hq => absurd hq (hrem q)

theorem HandledInv.withQueue (h : HandledInv s) {queue : List ProcessTask}
    (hqueue : ∀ t ∈ queue, CopyOf s.made t) : HandledInv { s with queue := queue } :=
  ⟨h.ids, hqueue, h.loops, h.executed, h.removed⟩

theorem HandledInv.setLoop (h : HandledInv s) (i : ℕ) (hph : InHand s.made s.log ph) :
    HandledInv (s.setLoop i ph) := by
  refine ⟨h.ids, h.queue, fun q hq => ?_, h.executed, h.removed⟩
  rcases List.mem_or_eq_of_mem_set hq with hq | rfl
  · exact h.loops q hq
  · exact hph

theorem HandledInv.execute (h : HandledInv s) (cur : ℕ) (hct : CopyOf s.made ct)
    (hknown : ct.cyclicity = false → ct.handlerType ∈ s.registry) :
    HandledInv (s.execute cur ct) where
  ids := h.ids
  queue t ht := by
    obtain ⟨t', ht', rfl⟩ := List.mem_map.mp ht
    split_ifs
    · exact (h.queue t' ht').of_same (ProcessTask.touch_same cur t')
    · exact h.queue t' ht'
  loops ph hph := (h.loops ph hph).mono (List.subset_cons_self _ _)
  executed ct' cur' now b hmem := by
    rcases List.mem_cons.mp hmem with heq | hmem
    · cases heq
      exact ⟨hct, fun hcyc => decide_eq_true (hknown hcyc)⟩
    · exact h.executed ct' cur' now b hmem
  removed := h.removed.cons fun q hq => by cases hq

theorem HandledInv.removeDone (h : HandledInv s) {rct : ProcessTask} (hrct : CopyOf s.made rct)
    (hinvoked : Invoked s.log rct) : HandledInv (s.removeDone rct) := by
  rcases QueueState.removeDone_cases s rct with ⟨t, ht, hid, heq⟩ | ⟨-, heq⟩
  · have hsub : ∀ u ∈ queueRemove s.queue rct.taskId, CopyOf s.made u :=
      fun u hu => h.queue u (List.mem_of_mem_eraseP hu)
    rw [heq]
    refine ⟨h.ids, hsub, fun ph hph => (h.loops ph hph).mono (List.subset_cons_self _ _),
      fun ct cur now b hmem => ?_, h.removed.cons fun q hq => ?_⟩
    · rcases List.mem_cons.mp hmem with heq | hmem
      · cases heq
      · exact h.executed ct cur now b hmem
    · cases hq
      exact ⟨rct, hinvoked, hrct.same h.ids (h.queue t ht) hid⟩
  · rw [heq]
    exact h

theorem removeDone_made (s : QueueState) (rct : ProcessTask) : (s.removeDone rct).made = s.made := by
  rcases QueueState.removeDone_cases s rct with ⟨t, -, -, heq⟩ | ⟨-, heq⟩
  · rw [heq]
    rfl
  · rw [heq]

/-- A move of a worker. -/
theorem HandledInv.move (h : HandledInv s) (hph : InHand s.made s.log ph)
    (hmove : QueueState.Move p s ph s₁ ph')
    (hknown : ∀ cur ct todo remove, ph = .passing cur (ct :: todo) remove →
      ct.due p cur = some true → ct.cyclicity = false → ct.handlerType ∈ s.registry) :
    HandledInv s₁ ∧ InHand s₁.made s₁.log ph' := by
  cases hmove with
  | enter => exact ⟨h, .of_nil rfl rfl⟩
  | leave => exact ⟨h, .of_nil rfl rfl⟩
  | readClock => exact ⟨h, .of_nil rfl rfl⟩
  | lock => exact ⟨h, .of_nil rfl rfl⟩
  | take =>
    exact ⟨h.record (fun _ _ _ _ => by simp) (fun _ => by simp), h.queue, List.forall_mem_nil _⟩
  | panic => exact ⟨h.record (fun _ _ _ _ => by simp) (fun _ => by simp), .of_nil rfl rfl⟩
  | skip =>
    refine ⟨h.record (fun _ _ _ _ => by simp) (fun _ => by simp), fun t ht => ?_, fun t ht => ?_⟩
    · exact hph.toVisit t (List.mem_cons_of_mem _ ht)
    · obtain ⟨hcopy, hinvoked⟩ := hph.finished t ht
      exact ⟨hcopy, hinvoked.mono (List.subset_cons_self _ _)⟩
  | @execute cur ct todo remove hdue =>
    have hct : CopyOf s.made ct := hph.toVisit ct List.mem_cons_self
    have hreg := hknown cur ct todo remove rfl hdue
    have hrec := h.record (e := .tested cur ct) (fun _ _ _ _ => by simp) (fun _ => by simp)
    refine ⟨hrec.execute cur hct hreg, fun t ht => hph.toVisit t (List.mem_cons_of_mem _ ht),
      fun t ht => ?_⟩
    have hold : ∀ t ∈ remove, CopyOf s.made t ∧
        Invoked ((s.record (.tested cur ct)).execute cur ct).log t := by
      intro t ht
      obtain ⟨hcopy, hinvoked⟩ := hph.finished t ht
      exact ⟨hcopy, hinvoked.mono fun e he =>
        List.mem_cons_of_mem _ (List.mem_cons_of_mem _ he)⟩
    cases hcyc : ct.cyclicity with
    | true =>
      simp only [LoopPhase.finished, hcyc, if_true] at ht
      exact hold t ht
    | false =>
      simp only [LoopPhase.finished, hcyc, Bool.false_eq_true, if_false, List.mem_append,
        List.mem_singleton] at ht
      rcases ht with ht | rfl
      · exact hold t ht
      · refine ⟨hct, hcyc, cur, s.now, ?_⟩
        have hfound : decide (t.handlerType ∈ s.registry) = true := decide_eq_true (hreg hcyc)
        exact List.mem_cons.mpr (Or.inl (hfound ▸ rfl))
  | release => exact ⟨h, List.forall_mem_nil _, hph.finished⟩
  | @removeDone cur rct remove hlock =>
    obtain ⟨hcopy, hinvoked⟩ := hph.finished rct List.mem_cons_self
    refine ⟨h.removeDone hcopy hinvoked, List.forall_mem_nil _, fun t ht => ?_⟩
    obtain ⟨hcopy', hinvoked'⟩ := hph.finished t (List.mem_cons_of_mem _ ht)
    rw [removeDone_made]
    exact ⟨hcopy', hinvoked'.mono (QueueState.removeDone_log s rct).subset⟩
  | wait => exact ⟨h, .of_nil rfl rfl⟩
  | wake => exact ⟨h, .of_nil rfl rfl⟩

/-- **One step** in which the handler of a processed one-shot task is registered. -/
theorem HandledInv.step {l : QueueLabel} (h : HandledInv s) (hknown : s.HandlerKnown p l)
    (hs : s.step p l = some s') : HandledInv s' := by
  cases l with
  | tick => cases hs; exact ⟨h.ids, h.queue, h.loops, h.executed, h.removed⟩
  | registerHandler => cases hs; exact ⟨h.ids, h.queue, h.loops, h.executed, h.removed⟩
  | shutdown => cases hs; exact ⟨h.ids, h.queue, h.loops, h.executed, h.removed⟩
  | create cyc period ck hfn id =>
    cases hs
    refine ⟨List.nodup_cons.mpr ⟨hknown, h.ids⟩, fun t ht => (h.queue t ht).cons _,
      fun ph hph => ?_, fun ct cur now b hmem => ?_, h.removed⟩
    · have hin := h.loops ph hph
      exact ⟨fun t ht => (hin.toVisit t ht).cons _,
        fun t ht => ⟨(hin.finished t ht).1.cons _, (hin.finished t ht).2⟩⟩
    · obtain ⟨hcopy, htrue⟩ := h.executed ct cur now b hmem
      exact ⟨hcopy.cons _, htrue⟩
  | add task =>
    obtain ⟨hmade, -, rfl⟩ := QueueState.step_add hs
    refine (h.withQueue fun t ht => ?_).record (fun _ _ _ _ => by simp) (fun _ => by simp)
    rcases List.mem_append.mp ht with ht | ht
    · exact h.queue t ht
    · exact .of_mem (List.mem_singleton.mp ht ▸ hmade)
  | remove id =>
    obtain ⟨-, rfl⟩ := QueueState.step_remove hs
    exact h.withQueue fun t ht => h.queue t (List.mem_of_mem_eraseP ht)
  | start =>
    cases hs
    split_ifs
    · exact h
    · refine ⟨h.ids, h.queue, fun ph hph => ?_, h.executed, h.removed⟩
      rcases List.mem_append.mp hph with hph | hph
      · exact h.loops ph hph
      · rw [List.mem_singleton.mp hph]
        exact .of_nil rfl rfl
  | worker i =>
    obtain ⟨ph, hi, hph⟩ := Option.bind_eq_some_iff.mp hs
    obtain ⟨s₁, ph', hmove, rfl⟩ := QueueState.workerStep_cases hph
    have hreg : ∀ cur ct todo remove, ph = .passing cur (ct :: todo) remove →
        ct.due p cur = some true → ct.cyclicity = false → ct.handlerType ∈ s.registry := by
      rintro cur ct todo remove rfl hdue
      exact hknown (cur, ct) (QueueState.processes_eq_some.mpr ⟨todo, remove, hi, hdue⟩)
    obtain ⟨hinv, hin⟩ := h.move (h.loops ph (List.mem_of_getElem? hi)) hmove hreg
    exact hinv.setLoop i hin

theorem HandledInv.new (t : ℕ) : HandledInv (QueueState.new t) where
  ids := List.nodup_nil
  queue := List.forall_mem_nil _
  loops := List.forall_mem_nil _
  executed _ _ _ _ hmem := by cases hmem
  removed newer history q h := by simp [QueueState.new] at h

theorem HandledInv.unhandledStays (h : HandledInv s) : UnhandledStays s.log := by
  intro ct cur now q hexec hrem hsame
  obtain ⟨newer, history, hlog⟩ := List.append_of_mem hrem
  obtain ⟨ct', ⟨hcyc, -⟩, hsame'⟩ := h.removed newer history q hlog
  have hone : ct.cyclicity = false := by
    rw [hsame.cyclicity_eq, ← hsame'.cyclicity_eq, hcyc]
  exact Bool.false_ne_true ((h.executed ct cur now false hexec).2 hone)

end Invariant

/-- **Removal after the handler.** In every run, with any number of workers, in which created tasks
get ids of their own and the handler of a one-shot task is registered whenever a worker processes it,
a worker removes a task only after its handler has been invoked for it, and never one that was due
without a handler. -/
theorem removed_handled (p : Profile) {t : ℕ} {ls : List QueueLabel} {s : QueueState}
    (h : Run (Under (QueueState.HandlerKnown p) (Steps (QueueState.step p))) (QueueState.new t) ls s) :
    RemovedHandled s.log ∧ UnhandledStays s.log := by
  have hinv : HandledInv s :=
    h.invariant (HandledInv.new t) fun _ _ _ hi hs => hi.step hs.1 hs.2
  exact ⟨hinv.removed, hinv.unhandledStays⟩

/-- A one-shot task and a cyclic one are due in one pass of a worker. -/
def dueTasks : List QueueLabel :=
  ([.start, .create false 5 [] ['h'] ['a'], .create true 5 [] ['g'] ['b'],
    .add (.new false 5 [] ['h'] ['a'] 0), .add (.new true 5 [] ['g'] ['b'] 0), .tick 10] :
    List QueueLabel) ++ List.replicate 8 (.worker 0)

/-- The handler of the one-shot task comes first; the cyclic task has none, and stays. -/
theorem removed_handled_registered : ∃ s,
    Run (Under (QueueState.HandlerKnown .release) (Steps (QueueState.step .release)))
      (QueueState.new 0) (.registerHandler ['h'] :: dueTasks) s ∧
    s.queue.map ProcessTask.taskId = [['b']] ∧
    .removed (.touch 10 (.new false 5 [] ['h'] ['a'] 0)) ∈ s.log ∧
    .executed (.new true 5 [] ['g'] ['b'] 0) 10 10 false ∈ s.log ∧
    RemovedHandled s.log ∧ UnhandledStays s.log := by
  have hview : ∃ s ∈ runAll (QueueState.step .release) (.registerHandler ['h'] :: dueTasks)
      (QueueState.new 0), s.queue.map ProcessTask.taskId = [['b']] ∧
      .removed (.touch 10 (.new false 5 [] ['h'] ['a'] 0)) ∈ s.log ∧
      .executed (.new true 5 [] ['g'] ['b'] 0) 10 10 false ∈ s.log := by decide +kernel
  obtain ⟨s, hs, hqueue, hremoved, hexecuted⟩ := hview
  have hgood : AllSteps (QueueState.HandlerKnown .release) (QueueState.step .release)
      (.registerHandler ['h'] :: dueTasks) (QueueState.new 0) := by decide +kernel
  have hrun := run_under_of_runAll hgood hs
  exact ⟨s, hrun, hqueue, hremoved, hexecuted, removed_handled .release hrun⟩

/-- Without the handler, the one-shot task is removed all the same. -/
theorem removed_unhandled : ∃ s,
    Run (Steps (QueueState.step .release)) (QueueState.new 0) dueTasks s ∧
    s.registry = [] ∧ .executed (.new false 5 [] ['h'] ['a'] 0) 10 10 false ∈ s.log ∧
    s.queue.map ProcessTask.taskId = [['b']] ∧ ¬ RemovedHandled s.log ∧ ¬ UnhandledStays s.log := by
  have hview : ∃ s ∈ runAll (QueueState.step .release) dueTasks (QueueState.new 0),
      s.registry = [] ∧ .executed (.new false 5 [] ['h'] ['a'] 0) 10 10 false ∈ s.log ∧
      s.queue.map ProcessTask.taskId = [['b']] ∧
      .removed (.touch 10 (.new false 5 [] ['h'] ['a'] 0)) ∈ s.log ∧
      ∀ e ∈ s.log, e.invokes = false := by decide +kernel
  obtain ⟨s, hs, hregistry, hexecuted, hqueue, hremoved, hnone⟩ := hview
  refine ⟨s, run_of_runAll hs, hregistry, hexecuted, hqueue, fun h => ?_, fun h => ?_⟩
  · obtain ⟨newer, history, hlog⟩ := List.append_of_mem hremoved
    obtain ⟨ct, ⟨-, cur, now, hmem⟩, -⟩ := h newer history _ hlog
    have hinvoked := hnone _ (hlog ▸ List.mem_append_right _ (List.mem_cons_of_mem _ hmem))
    cases hinvoked
  · exact h _ 10 10 _ hexecuted hremoved rfl

end ChimesUtils
