import ChimesUtils.Queue.Model

/-!
# Handlers that call the queue

`process_task` runs the handler by `block_on` in the middle of the pass: the worker holds the read lock
of the queue and, from the look-up to the return of the handler, the mutex of the registry. A handler
may call `queue_add` and `queue_remove`, which take the write lock of the queue, and
`queue_registry_handler`, which takes the mutex. Neither lock is reentrant.

* `HandlerState.step`: the system of `QueueState.step`, in which a handler takes its time and makes
  calls;
* `base_run`: as long as no worker waits in the middle of a pass, the queue goes through a run of
  that system;
* `unblocked_iff`: when no worker waits for one of the locks that needs the other one or itself;
* `blocked_forever`: a handler that waits waits for good.
-/

namespace ChimesUtils

open Lib

/-- A call of a handler. -/
inductive HandlerCall where
  | add (task : ProcessTask)
  | remove (id : Text)
  | registerHandler (handlerType : Text)
  deriving DecidableEq

namespace HandlerCall

def label : HandlerCall → QueueLabel
  | add task => .add task
  | remove id => .remove id
  | registerHandler handlerType => .registerHandler handlerType

/-- Whether the call takes the write lock of the queue; otherwise it takes the mutex. -/
def writes : HandlerCall → Bool
  | registerHandler _ => false
  | _ => true

/-- A handler adds only tasks that have been created. -/
def Possible (s : QueueState) : HandlerCall → Prop
  | add task => task ∈ s.made
  | _ => True

instance (s : QueueState) : ∀ c : HandlerCall, Decidable (c.Possible s)
  | add task => inferInstanceAs (Decidable (task ∈ s.made))
  | remove _ | registerHandler _ => isTrue trivial

end HandlerCall

/-- The handler that a worker runs, and the call it waits in. Its worker holds the mutex. -/
structure Running where
  worker : ℕ
  task : ProcessTask
  call : Option HandlerCall
  deriving DecidableEq

/-- A worker that waits for the mutex in `process_task`. -/
structure Seeker where
  worker : ℕ
  cur : ℕ
  task : ProcessTask
  deriving DecidableEq

structure HandlerState where
  base : QueueState
  running : Option Running
  seeking : List Seeker

inductive HandlerLabel where
  /-- A step of a client, of the clock, or of a worker. -/
  | queue (l : QueueLabel)
  /-- The handler that worker `i` runs makes a call. -/
  | call (i : ℕ) (c : HandlerCall)
  /-- The handler that worker `i` runs returns. -/
  | ret (i : ℕ)

/-- `update_task_lasttime` for a due task, before the mutex is acquired. -/
def QueueState.mark (s : QueueState) (i : ℕ) : QueueState :=
  match s.loops[i]? with
  | some (.passing cur (ct :: todo) remove) =>
    { s.record (.tested cur ct) with queue := updateTaskLasttime s.queue ct cur }.setLoop i
      (.passing cur todo (if ct.cyclicity then remove else remove ++ [ct]))
  | _ => s

namespace HandlerState

def new (t : ℕ) : HandlerState := ⟨.new t, none, []⟩

/-- The worker has the mutex: it runs the handler, if there is one. -/
def invoke (s : HandlerState) (i : ℕ) (ct : ProcessTask) : HandlerState :=
  { s with running := if s.base.handles ct then some ⟨i, ct, none⟩ else none }

/-- Whether the lock that a call takes is free. -/
def free (s : HandlerState) (c : HandlerCall) : Bool :=
  if c.writes then !s.base.readLocked else s.running.isNone

/-- A call of the handler, which is performed or waits. -/
def perform (p : Profile) (s : HandlerState) (r : Running) (c : HandlerCall) :
    Option HandlerState :=
  if s.free c then
    (s.base.step p c.label).map fun b => { s with base := b, running := some { r with call := none } }
  else some { s with running := some { r with call := some c } }

/-- The next step of worker `i`. -/
def workerStep (p : Profile) (s : HandlerState) (i : ℕ) : Option HandlerState :=
  match s.running.filter fun r => r.worker = i with
  | some r =>
    -- it is in its handler
    r.call.bind fun c => if s.free c then s.perform p r c else none
  | none =>
    match s.seeking.find? fun k => k.worker = i with
    | some k =>
      if s.running.isNone then
        some (invoke { s with
          base := s.base.record (.executed k.task k.cur s.base.now (s.base.handles k.task))
          seeking := s.seeking.filter fun k' => k'.worker ≠ i } i k.task)
      else none
    | none =>
      match s.base.processes p i with
      | some (cur, ct) =>
        if s.running.isNone then
          (s.base.step p (.worker i)).map fun b => invoke { s with base := b } i ct
        else some { s with base := s.base.mark i, seeking := s.seeking ++ [⟨i, cur, ct⟩] }
      | none => (s.base.step p (.worker i)).map fun b => { s with base := b }

/-- One step. A client that registers a handler waits for the mutex. -/
def step (p : Profile) (s : HandlerState) : HandlerLabel → Option HandlerState
  | .queue (.worker i) => s.workerStep p i
  | .queue (.registerHandler handlerType) =>
    if s.running.isNone then
      (s.base.step p (.registerHandler handlerType)).map fun b => { s with base := b }
    else none
  | .queue l => (s.base.step p l).map fun b => { s with base := b }
  | .call i c =>
    (s.running.filter fun r => r.worker = i ∧ r.call = none ∧ c.Possible s.base).bind fun r =>
      s.perform p r c
  | .ret i =>
    (s.running.filter fun r => r.worker = i ∧ r.call = none).map fun _ => { s with running := none }

/-! ## Who holds and who waits -/

def HoldsRead (s : HandlerState) (i : ℕ) : Prop :=
  ∃ ph, s.base.loops[i]? = some ph ∧ ph.reads = true

def HoldsRegistry (s : HandlerState) (i : ℕ) : Prop := ∃ r, s.running = some r ∧ r.worker = i

/-- Worker `i` waits for the write lock: in a call of its handler, or to remove a finished task. -/
def WaitsWrite (s : HandlerState) (i : ℕ) : Prop :=
  (∃ r c, s.running = some r ∧ r.worker = i ∧ r.call = some c ∧ c.writes = true) ∨
    ∃ cur rct remove, s.base.loops[i]? = some (.removing cur (rct :: remove)) ∧
      s.base.readLocked = true

/-- Worker `i` waits for the mutex: in a call of its handler, or in `process_task`. -/
def WaitsRegistry (s : HandlerState) (i : ℕ) : Prop :=
  (∃ r c, s.running = some r ∧ r.worker = i ∧ r.call = some c ∧ c.writes = false) ∨
    ∃ k ∈ s.seeking, k.worker = i

/-- A worker waits for the write lock or the mutex while it holds the read lock or the mutex. -/
def Blocked (s : HandlerState) : Prop :=
  ∃ i, (s.WaitsWrite i ∨ s.WaitsRegistry i) ∧ (s.HoldsRead i ∨ s.HoldsRegistry i)

/-- No handler makes a call, and no worker comes to a due task while another one runs a handler. -/
def Quiet (p : Profile) (s : HandlerState) : HandlerLabel → Prop
  | .call i c => ∀ r ∈ s.running, ¬ (r.worker = i ∧ r.call = none ∧ c.Possible s.base)
  | .queue (.worker i) => ∀ r ∈ s.running, r.worker ≠ i → s.base.processes p i = none
  | _ => True

instance (p : Profile) (s : HandlerState) : ∀ l, Decidable (s.Quiet p l)
  | .call i c => inferInstanceAs
      (Decidable (∀ r ∈ s.running, ¬ (r.worker = i ∧ r.call = none ∧ c.Possible s.base)))
  | .queue (.worker i) => inferInstanceAs
      (Decidable (∀ r ∈ s.running, r.worker ≠ i → s.base.processes p i = none))
  | .queue (.tick _) | .queue (.create ..) | .queue (.add _) | .queue (.remove _)
  | .queue (.registerHandler _) | .queue .start | .queue .shutdown | .ret _ => isTrue trivial

/-! ## What a step does -/

/-- What a step can do. -/
inductive Move (p : Profile) (s : HandlerState) : HandlerLabel → HandlerState → Prop
  /-- A step of the queue that is not one of the worker of the running handler. -/
  | base {l : QueueLabel} {b : QueueState} : s.base.step p l = some b →
      (∀ r ∈ s.running, l ≠ .worker r.worker) → Move p s (.queue l) { s with base := b }
  /-- A call that has waited is performed. -/
  | resume {r : Running} {c : HandlerCall} {s' : HandlerState} : s.running = some r →
      r.call = some c → s.free c = true → s.perform p r c = some s' →
      Move p s (.queue (.worker r.worker)) s'
  /-- A worker that has waited for the mutex acquires it. -/
  | acquire {i : ℕ} {k : Seeker} : s.running = none → k ∈ s.seeking →
      Move p s (.queue (.worker i)) (invoke { s with
        base := s.base.record (.executed k.task k.cur s.base.now (s.base.handles k.task))
        seeking := s.seeking.filter fun k' => k'.worker ≠ i } i k.task)
  | invoke {i cur : ℕ} {ct : ProcessTask} {b : QueueState} : s.running = none →
      s.base.processes p i = some (cur, ct) → s.base.step p (.worker i) = some b →
      Move p s (.queue (.worker i)) (invoke { s with base := b } i ct)
  /-- A worker comes to a due task while another one runs a handler. -/
  | seek {i cur : ℕ} {ct : ProcessTask} {r : Running} : s.running = some r → r.worker ≠ i →
      s.base.processes p i = some (cur, ct) → Move p s (.queue (.worker i))
        { s with base := s.base.mark i, seeking := s.seeking ++ [⟨i, cur, ct⟩] }
  | call {r : Running} {c : HandlerCall} {s' : HandlerState} : s.running = some r →
      r.call = none → c.Possible s.base → s.perform p r c = some s' → Move p s (.call r.worker c) s'
  | ret {r : Running} : s.running = some r → r.call = none →
      Move p s (.ret r.worker) { s with running := none }

/-! ## Steps without waiting -/

/-- No worker waits for the mutex, no handler waits, and the worker of a handler holds the read
lock. -/
structure QuietInv (s : HandlerState) : Prop where
  seeking : s.seeking = []
  call : ∀ r ∈ s.running, r.call = none
  reads : ∀ r ∈ s.running, s.HoldsRead r.worker

/-- What a step can do when no worker waits. -/
inductive QuietMove (p : Profile) (s : HandlerState) : HandlerLabel → HandlerState → Prop
  | other {l : QueueLabel} {b : QueueState} : s.base.step p l = some b →
      (∀ r ∈ s.running, l ≠ .worker r.worker) → QuietMove p s (.queue l) { s with base := b }
  | invoke {i cur : ℕ} {ct : ProcessTask} {b : QueueState} : s.running = none →
      s.base.processes p i = some (cur, ct) → s.base.step p (.worker i) = some b →
      QuietMove p s (.queue (.worker i)) (invoke { s with base := b } i ct)
  | ret {i : ℕ} : QuietMove p s (.ret i) { s with running := none }

section Quiet

variable {p : Profile} {s s' : HandlerState} {l : HandlerLabel} {i : ℕ}

theorem filter_running_of_ne (h : ∀ r ∈ s.running, r.worker ≠ i) :
    s.running.filter (fun r => decide (r.worker = i)) = none := by
  cases hr : s.running with
  | none => rfl
  | some r =>
    have hne := h r hr
    rw [Option.filter_some, if_neg (by simpa using hne)]

theorem eq_of_mem_invoke {ct : ProcessTask} {r : Running} (h : r ∈ (s.invoke i ct).running) :
    r = ⟨i, ct, none⟩ := by
  unfold invoke at h
  split_ifs at h
  · exact (Option.some.inj h).symm
  · cases h

/-- **Inversion of a step.** -/
theorem step_cases (hs : s.step p l = some s') : Move p s l s' := by
  have hmap : ∀ l : QueueLabel, (∀ r ∈ s.running, l ≠ .worker r.worker) →
      (s.base.step p l).map (fun b => { s with base := b }) = some s' → Move p s (.queue l) s' := by
    intro l hl hs
    obtain ⟨b, hb, rfl⟩ := Option.map_eq_some_iff.mp hs
    exact .base hb hl
  cases l with
  | ret i =>
    obtain ⟨r, hr, rfl⟩ := Option.map_eq_some_iff.mp hs
    obtain ⟨hrun, hidle⟩ := Option.filter_eq_some_iff.mp hr
    obtain ⟨rfl, hcall⟩ := of_decide_eq_true hidle
    exact .ret hrun hcall
  | call i c =>
    obtain ⟨r, hr, hperform⟩ := Option.bind_eq_some_iff.mp hs
    obtain ⟨hrun, hidle⟩ := Option.filter_eq_some_iff.mp hr
    obtain ⟨rfl, hcall, hpossible⟩ := of_decide_eq_true hidle
    exact .call hrun hcall hpossible hperform
  | queue l =>
    cases l with
    | registerHandler handlerType =>
      rw [step] at hs
      split_ifs at hs
      exact hmap _ (fun _ _ heq => by cases heq) hs
    | tick | create | add | remove | start | shutdown =>
      exact hmap _ (fun _ _ heq => by cases heq) hs
    | worker i =>
      rw [step, workerStep] at hs
      split at hs
      next r hr =>
        -- the worker is in its handler
        obtain ⟨hrun, hi⟩ := Option.filter_eq_some_iff.mp hr
        obtain rfl := of_decide_eq_true hi
        obtain ⟨c, hcall, hs⟩ := Option.bind_eq_some_iff.mp hs
        split_ifs at hs with hfree
        exact .resume hrun hcall hfree hs
      next hr =>
        have hne : ∀ r ∈ s.running, r.worker ≠ i := by
          intro r hrun heq
          rw [hrun, Option.filter_some, if_pos (by simpa using heq)] at hr
          cases hr
        split at hs
        next k hk =>
          split_ifs at hs with hnone
          cases hs
          exact .acquire (Option.isNone_iff_eq_none.mp hnone) (List.mem_of_find?_eq_some hk)
        next =>
          split at hs
          next cur ct hproc =>
            split_ifs at hs with hnone
            · obtain ⟨b, hb, rfl⟩ := Option.map_eq_some_iff.mp hs
              exact .invoke (Option.isNone_iff_eq_none.mp hnone) hproc hb
            · obtain ⟨r, hrun⟩ : ∃ r, s.running = some r :=
                Option.ne_none_iff_exists'.mp (by simpa using hnone)
              cases hs
              exact .seek hrun (hne r hrun) hproc
          next =>
            refine hmap _ (fun r hrun heq => ?_) hs
            cases heq
            exact hne r hrun rfl

/-- **Inversion of a step without waiting.** -/
theorem quiet_cases (h : s.QuietInv) (hq : s.Quiet p l) (hs : s.step p l = some s') :
    QuietMove p s l s' := by
  cases step_cases hs with
  | base hb hl => exact .other hb hl
  | resume hrun hcall =>
    rw [h.call _ hrun] at hcall
    cases hcall
  | acquire _ hk =>
    rw [h.seeking] at hk
    cases hk
  | invoke hnone hproc hb => exact .invoke hnone hproc hb
  | seek hrun hne hproc =>
    rw [hq _ hrun hne] at hproc
    cases hproc
  | call hrun hcall hpossible => exact absurd ⟨rfl, hcall, hpossible⟩ (hq _ hrun)
  | ret => exact .ret

theorem reads_of_processes {s b : QueueState} {cur : ℕ} {ct : ProcessTask}
    (hproc : s.processes p i = some (cur, ct)) (hb : s.step p (.worker i) = some b) :
    ∃ ph, b.loops[i]? = some ph ∧ ph.reads = true := by
  obtain ⟨todo, remove, hi, hdue⟩ := QueueState.processes_eq_some.mp hproc
  obtain ⟨hlt, -⟩ := List.getElem?_eq_some_iff.mp hi
  rw [QueueState.step, hi, Option.bind_some, QueueState.workerStep, QueueState.visit, hdue,
    Option.some.injEq] at hb
  subst hb
  exact ⟨_, List.getElem?_set_self hlt, rfl⟩

theorem QuietInv.move (h : s.QuietInv) (hmove : QuietMove p s l s') : s'.QuietInv := by
  cases hmove with
  | @other l b hb hl =>
    refine ⟨h.seeking, h.call, fun r hr => ?_⟩
    obtain ⟨ph, hi, hph⟩ := h.reads r hr
    exact ⟨ph, QueueState.step_getElem? hb (hl r hr) hi, hph⟩
  | @invoke i cur ct b hnone hproc hb =>
    refine ⟨h.seeking, fun r hr => ?_, fun r hr => ?_⟩
    · rw [eq_of_mem_invoke hr]
    · rw [eq_of_mem_invoke hr]
      exact reads_of_processes hproc hb
  | ret => exact ⟨h.seeking, fun _ hr => (by cases hr), fun _ hr => (by cases hr)⟩

theorem QuietInv.new (t : ℕ) : (new t).QuietInv :=
  ⟨rfl, fun _ hr => (by cases hr), fun _ hr => (by cases hr)⟩

theorem QuietInv.not_blocked (h : s.QuietInv) : ¬ s.Blocked := by
  rintro ⟨i, hwaits, hholds⟩
  have hreads : s.HoldsRead i := by
    rcases hholds with hread | ⟨r, hr, rfl⟩
    · exact hread
    · exact h.reads r hr
  rcases hwaits with (⟨r, c, hr, -, hc, -⟩ | ⟨cur, rct, remove, hi, -⟩) |
    ⟨r, c, hr, -, hc, -⟩ | ⟨k, hk, -⟩
  · rw [h.call r hr] at hc
    cases hc
  · obtain ⟨ph, hi', hph⟩ := hreads
    rw [hi] at hi'
    cases hi'
    cases hph
  · rw [h.call r hr] at hc
    cases hc
  · rw [h.seeking] at hk
    cases hk

theorem readLocked_of_holdsRead (h : s.HoldsRead i) : s.base.readLocked = true := by
  obtain ⟨ph, hi, hph⟩ := h
  exact List.any_eq_true.mpr ⟨ph, List.mem_of_getElem? hi, hph⟩

theorem not_free_of_running {r : Running} (hr : s.running = some r) (hread : s.HoldsRead r.worker)
    (c : HandlerCall) : s.free c = false := by
  unfold free
  split_ifs
  · rw [readLocked_of_holdsRead hread]
    rfl
  · rw [hr]
    rfl

theorem blocked_of_not_quiet (h : s.QuietInv) (hq : ¬ s.Quiet p l) :
    ∃ s', s.step p l = some s' ∧ s'.Blocked := by
  cases l with
  | ret => exact absurd trivial hq
  | call i c =>
    simp only [Quiet, not_forall, not_not] at hq
    obtain ⟨r, hr, hcalls⟩ := hq
    have hfilter : s.running.filter (fun r => r.worker = i ∧ r.call = none ∧ c.Possible s.base) =
        some r := Option.filter_eq_some_iff.mpr ⟨hr, by simpa using hcalls⟩
    refine ⟨{ s with running := some { r with call := some c } }, ?_, i, ?_, ?_⟩
    · rw [step, hfilter, Option.bind_some, perform, not_free_of_running hr (h.reads r hr),
        if_neg Bool.false_ne_true]
    · cases hw : c.writes with
      | true => exact Or.inl (Or.inl ⟨_, c, rfl, hcalls.1, rfl, hw⟩)
      | false => exact Or.inr (Or.inl ⟨_, c, rfl, hcalls.1, rfl, hw⟩)
    · exact Or.inr ⟨_, rfl, hcalls.1⟩
  | queue l =>
    cases l with
    | worker i => ?_
    | _ => exact absurd trivial hq
    simp only [Quiet, not_forall] at hq
    obtain ⟨r, hr, hne, hproc⟩ := hq
    obtain ⟨⟨cur, ct⟩, hproc⟩ := Option.ne_none_iff_exists'.mp hproc
    obtain ⟨todo, remove, hi, hdue⟩ := QueueState.processes_eq_some.mp hproc
    have hfilter : s.running.filter (fun r => decide (r.worker = i)) = none := by
      refine filter_running_of_ne fun r' hr' => ?_
      rw [Option.mem_unique hr' hr]
      exact hne
    have hrun : s.running.isNone = false := by rw [Option.mem_def.mp hr]; rfl
    refine ⟨{ s with base := s.base.mark i, seeking := s.seeking ++ [⟨i, cur, ct⟩] }, ?_, i,
      Or.inr (Or.inr ⟨⟨i, cur, ct⟩, by simp, rfl⟩), Or.inl ?_⟩
    · rw [step, workerStep, hfilter]
      simp only [h.seeking, List.find?_nil, hproc, hrun, Bool.false_eq_true, if_false]
    · have hlt := (List.getElem?_eq_some_iff.mp hi).1
      refine ⟨.passing cur todo (if ct.cyclicity then remove else remove ++ [ct]), ?_, rfl⟩
      rw [QueueState.mark, hi]
      exact List.getElem?_set_self hlt

end Quiet

/-! ## Runs -/

/-- **No worker waits for itself.** For every sequence of steps from the new queue, with any number of
workers and any handlers, no worker ever waits for the write lock or the mutex while it holds the read
lock or the mutex just when no handler makes a call and no worker comes to a due task while another
one runs a handler. -/
theorem unblocked_iff (p : Profile) (t : ℕ) (ls : List HandlerLabel) :
    Throughout (fun s => ¬ s.Blocked) (step p) ls (new t) ↔
      AllSteps (Quiet p) (step p) ls (new t) := by
  refine throughout_iff_allSteps (fun s (h : QuietInv s) => h.not_blocked) ?_ ?_ (.new t)
  · intro s l s' h hq hs
    exact h.move (quiet_cases h hq hs)
  · intro s l h hq
    obtain ⟨s', hs, hblocked⟩ := blocked_of_not_quiet h hq
    exact ⟨s', hs, not_not.mpr hblocked⟩

/-- The step of the queue that a step contains. -/
def queueLabel : HandlerLabel → Option QueueLabel
  | .queue l => some l
  | _ => none

/-- **Refinement.** As long as no worker waits, the queue goes through a run of the system in which
a handler is one step. -/
theorem base_run {p : Profile} {t : ℕ} {ls : List HandlerLabel} {s : HandlerState}
    (h : Run (Under (Quiet p) (Steps (step p))) (new t) ls s) :
    Run (Steps (QueueState.step p)) (.new t) (ls.filterMap queueLabel) s.base := by
  suffices hinv : s.QuietInv ∧
      Run (Steps (QueueState.step p)) (.new t) (ls.filterMap queueLabel) s.base from hinv.2
  induction h with
  | refl => exact ⟨.new t, .refl⟩
  | @snoc ls s s' l _ hs ih =>
    have hmove := quiet_cases ih.1 hs.1 hs.2
    refine ⟨ih.1.move hmove, ?_⟩
    rw [List.filterMap_append]
    cases hmove with
    | other hb => exact .snoc ih.2 hb
    | invoke _ _ hb => exact .snoc ih.2 hb
    | ret =>
      rw [List.filterMap_cons_none rfl, List.filterMap_nil, List.append_nil]
      exact ih.2

/-- A handler waits in a call, in the pass of its worker. -/
def Stuck (r : Running) (s : HandlerState) : Prop :=
  s.running = some r ∧ r.call.isSome = true ∧ s.HoldsRead r.worker

theorem Stuck.step {p : Profile} {r : Running} {s s' : HandlerState} {l : HandlerLabel}
    (h : Stuck r s) (hs : s.step p l = some s') : Stuck r s' := by
  obtain ⟨hrun, hcall, ph, hi, hph⟩ := h
  cases step_cases hs with
  | base hb hl => exact ⟨hrun, hcall, ph, QueueState.step_getElem? hb (hl r hrun) hi, hph⟩
  | @resume r' c _ hrun' _ hfree =>
    obtain rfl : r = r' := Option.some.inj (hrun.symm.trans hrun')
    rw [not_free_of_running hrun ⟨ph, hi, hph⟩] at hfree
    cases hfree
  | acquire hnone | invoke hnone =>
    rw [hrun] at hnone
    cases hnone
  | @seek i cur ct r' hrun' hne =>
    obtain rfl : r = r' := Option.some.inj (hrun.symm.trans hrun')
    refine ⟨hrun, hcall, ph, ?_, hph⟩
    show (s.base.mark i).loops[r.worker]? = some ph
    unfold QueueState.mark
    split
    · exact (List.getElem?_set_ne hne.symm).trans hi
    · exact hi
  | @call r' _ _ hrun' hidle | @ret r' hrun' hidle =>
    obtain rfl : r = r' := Option.some.inj (hrun.symm.trans hrun')
    rw [hidle] at hcall
    cases hcall

/-- **For good.** A handler that waits in the pass of its worker waits in every later state. -/
theorem blocked_forever {p : Profile} {r : Running} {s s' : HandlerState} {ls : List HandlerLabel}
    (h : Stuck r s) (hrun : Run (Steps (step p)) s ls s') : Stuck r s' :=
  hrun.invariant h fun _ _ _ hi hs => hi.step hs

/-- The handler of the first task adds the second one. -/
def addsInHandler : List HandlerLabel :=
  ([.queue (.registerHandler ['h']), .queue .start, .queue (.create false 5 [] ['h'] ['a']),
    .queue (.create false 5 [] ['h'] ['b']), .queue (.add (.new false 5 [] ['h'] ['a'] 0)),
    .queue (.tick 10)] : List HandlerLabel) ++ List.replicate 5 (.queue (.worker 0)) ++
    [.call 0 (.add (.new false 5 [] ['h'] ['b'] 0))]

theorem addsInHandler_blocked : ∃ s, Run (Steps (step .release)) (new 0) addsInHandler s ∧
    s.Blocked ∧ ∀ ls s', Run (Steps (step .release)) s ls s' → s'.Blocked := by
  have hview : ∃ s ∈ runAll (step .release) addsInHandler (new 0),
      s.running = some ⟨0, .new false 5 [] ['h'] ['a'] 0,
        some (.add (.new false 5 [] ['h'] ['b'] 0))⟩ ∧
      s.base.loops = [.passing 10 [] [.new false 5 [] ['h'] ['a'] 0]] := by decide +kernel
  obtain ⟨s, hs, hrunning, hloops⟩ := hview
  have hstuck : Stuck _ s := ⟨hrunning, rfl, _, by rw [hloops]; rfl, rfl⟩
  have hblocked : ∀ s', Stuck ⟨0, .new false 5 [] ['h'] ['a'] 0,
      some (.add (.new false 5 [] ['h'] ['b'] 0))⟩ s' → s'.Blocked :=
    fun s' h => ⟨0, Or.inl (Or.inl ⟨_, _, h.1, rfl, rfl, rfl⟩), Or.inr ⟨_, h.1, rfl⟩⟩
  exact ⟨s, run_of_runAll hs, hblocked s hstuck,
    fun ls s' hrun => hblocked s' (blocked_forever hstuck hrun)⟩

end HandlerState

end ChimesUtils
