import ChimesUtils.Lib.Simulation
import ChimesUtils.Mail.Account

/-!
# The workers of the e-mail queue

`start` after a `shutdown` spawns a worker, also when an earlier one has not seen the shutdown. The
workers share the queue, and each goes the way of the one in `EmailSendingQueue`.

* `simulates_queue`: with one worker at a time, the system takes the steps of `EmailSendingQueue`;
* `emails_accounted`: over all runs, every e-mail that is queued has been handed to the mailer, is with a
  worker, waits in the queue, or was with a worker when a step failed;
* `stalled`: after a failure that ends the last worker, e-mails only wait, until a shutdown.
-/

namespace ChimesUtils

open Lib

/-- A worker, with the e-mail that it has and what this left in the queue. -/
structure MailWorker where
  point : EmailWorker
  held : Option (Ticket EmailBody × List (Ticket EmailBody))
  deriving DecidableEq

/-- The queue with all the workers that have been spawned. -/
structure EmailSystem where
  queue : List (Ticket EmailBody)
  /-- How many e-mails have been queued. -/
  count : ℕ
  clientConf : EmailServerConfig
  started : Bool
  workers : List MailWorker
  /-- What has been handed to the mailer, each e-mail with the queue at that time. -/
  out : List (Ticket EmailBody × List (Ticket EmailBody))
  deriving DecidableEq

inductive EmailSystemLabel where
  | config (conf : EmailServerConfig)
  | queueSend (emb : EmailBody)
  | start
  | shutdown
  /-- A step of the worker that was spawned as the `i`-th. -/
  | worker (i : ℕ) (l : EmailLabel)
  deriving DecidableEq

/-- The call or the step of a worker. -/
def EmailSystemLabel.see : EmailSystemLabel → EmailLabel
  | config conf => .config conf
  | queueSend emb => .queueSend emb
  | start => .start
  | shutdown => .shutdown
  | worker _ l => l

/-- The e-mail that the worker has. -/
def MailWorker.inHand (w : MailWorker) : Multiset (Ticket EmailBody) := ↑(w.held.toList.map Prod.fst)

namespace EmailSystem

def new : EmailSystem := ⟨[], 0, ⟨[], [], [], [], false⟩, false, [], []⟩

/-- What a worker has to do with. -/
def view (s : EmailSystem) (w : MailWorker) : EmailSendingQueue where
  queue := ⟨s.queue, s.count, w.held, s.out, []⟩
  clientConf := s.clientConf
  started := s.started
  worker := w.point

/-- What a step of the `i`-th worker leaves behind. -/
def put (s : EmailSystem) (i : ℕ) (q : EmailSendingQueue) : EmailSystem :=
  { s with
    queue := q.queue.queue
    out := q.queue.out
    workers := s.workers.set i ⟨q.worker, q.queue.held⟩ }

def step (s : EmailSystem) : EmailSystemLabel → Option EmailSystem
  | .config conf => some { s with clientConf := conf }
  | .queueSend emb => some { s with
      queue := s.queue ++ [⟨s.count, { emb with mineEmail := s.clientConf.mineEmail }⟩]
      count := s.count + 1 }
  | .start =>
    if s.started then some s
    else some { s with
      started := true
      workers := s.workers ++
        [⟨.head ⟨s.clientConf.mineEmail, s.clientConf.password⟩, none⟩] }
  | .shutdown => some { s with started := false }
  | .worker i l => s.workers[i]?.bind fun w => ((s.view w).workerStep l).map (s.put i)

/-- The e-mails that have been handed to the mailer. -/
def handed (s : EmailSystem) : Multiset (Ticket EmailBody) := ↑(s.out.map Prod.fst)

/-- The e-mails that the workers have. -/
def inHands (s : EmailSystem) : Multiset (Ticket EmailBody) := (s.workers.map MailWorker.inHand).sum

/-- The e-mails in the queue. -/
def waiting (s : EmailSystem) : Multiset (Ticket EmailBody) := ↑s.queue

/-- The e-mail that a step queues, with the sender of the configuration. -/
def queued (s : EmailSystem) : EmailSystemLabel → Multiset (Ticket EmailBody)
  | .queueSend emb => {⟨s.count, { emb with mineEmail := s.clientConf.mineEmail }⟩}
  | _ => 0

/-- The e-mail that a step loses. -/
def lost (s : EmailSystem) : EmailSystemLabel → Multiset (Ticket EmailBody)
  | .worker i l => if l.fails then (s.workers[i]?.map MailWorker.inHand).getD 0 else 0
  | _ => 0

/-- Only busy workers have an e-mail. -/
def Holding (s : EmailSystem) : Prop := ∀ w ∈ s.workers, w.point.busy = false → w.held = none

/-- All workers have ended, and the queue still counts as started. -/
def Stalled (s : EmailSystem) : Prop := (∀ w ∈ s.workers, w.point = .off) ∧ s.started = true

end EmailSystem

/-! ## The steps of one worker -/

namespace EmailSendingQueue

variable {s s' : EmailSendingQueue} {l : EmailLabel}

theorem step_of_workerStep (h : s.workerStep l = some s') : s.step l = some s' := by
  cases l with
  | config | queueSend | start | shutdown => cases h
  | check | relay | send | next | wake => exact h

theorem queued_of_workerStep (h : s.workerStep l = some s') : s.queued l = 0 := by
  cases l with
  | queueSend => cases h
  | _ => rfl

theorem workerStep_off (h : s.worker = .off) : s.workerStep l = none := by
  cases l <;> simp [workerStep, h]

/-- What a worker leaves as it is. -/
theorem workerStep_frame (h : s.workerStep l = some s') :
    s'.clientConf = s.clientConf ∧ s'.started = s.started ∧ s'.queue.count = s.queue.count ∧
      s'.queue.back = s.queue.back := by
  cases l with
  | config | queueSend | start | shutdown => cases h
  | check =>
    simp only [workerStep] at h
    split at h
    · cases h
      split_ifs <;> exact ⟨rfl, rfl, rfl, rfl⟩
    · cases h
  | relay ok =>
    simp only [workerStep] at h
    split at h
    · cases h
      split_ifs <;> exact ⟨rfl, rfl, rfl, rfl⟩
    · cases h
  | send outcome =>
    simp only [workerStep] at h
    split at h
    · cases h
      cases outcome with
      | invalid | panicked => exact ⟨rfl, rfl, rfl, rfl⟩
      | handed => exact ⟨rfl, rfl, Line.count_deliver _, Line.back_deliver _⟩
    · cases h
  | next | wake =>
    simp only [workerStep] at h
    split at h
    · cases h
      exact ⟨rfl, rfl, rfl, rfl⟩
    · cases h

theorem workerStep_kills (h : s.workerStep l = some s') (hkills : l.kills = true) :
    s'.worker = .off ∧ s'.queue.queue = s.queue.queue ∧ s'.queue.out = s.queue.out := by
  cases l with
  | relay ok =>
    simp only [workerStep] at h
    split at h
    · cases ok with
      | true => cases hkills
      | false =>
        cases h
        exact ⟨rfl, rfl, rfl⟩
    · cases h
  | send outcome =>
    simp only [workerStep] at h
    split at h
    · cases outcome with
      | invalid | handed => cases hkills
      | panicked =>
        cases h
        exact ⟨rfl, rfl, rfl⟩
    · cases h
  | config | queueSend | start | shutdown | check | next | wake => cases hkills

end EmailSendingQueue

namespace EmailSystem

variable {s s₁ s' : EmailSystem} {l : EmailSystemLabel} {ls : List EmailSystemLabel}

theorem worker_cases {i : ℕ} {l : EmailLabel} (h : s.step (.worker i l) = some s') :
    ∃ w q, s.workers[i]? = some w ∧ (s.view w).workerStep l = some q ∧ s' = s.put i q := by
  obtain ⟨w, hw, hput⟩ := Option.bind_eq_some_iff.mp h
  obtain ⟨q, hq, rfl⟩ := Option.map_eq_some_iff.mp hput
  exact ⟨w, q, hw, hq, rfl⟩

/-! ## One worker at a time -/

/-- The system shows the queue, with its last worker for the one of the queue. The others have
ended. -/
structure Shows (q : EmailSendingQueue) (s : EmailSystem) : Prop where
  line : q.queue = ⟨s.queue, s.count, q.queue.held, s.out, []⟩
  clientConf : q.clientConf = s.clientConf
  started : q.started = s.started
  holding : q.Holding
  workers : (q.worker = .off ∧ ∀ w ∈ s.workers, w.point = .off) ∨
    ∃ ended, (∀ w ∈ ended, w.point = .off) ∧ s.workers = ended ++ [⟨q.worker, q.queue.held⟩]

theorem shows_new : Shows .new new :=
  ⟨rfl, rfl, rfl, fun _ => rfl, Or.inl ⟨rfl, List.forall_mem_nil _⟩⟩

theorem Shows.view_eq {q : EmailSendingQueue} (h : Shows q s) :
    s.view ⟨q.worker, q.queue.held⟩ = q := by
  rw [view, ← h.line, ← h.clientConf, ← h.started]

/-- A step of the worker is one of the last worker. -/
theorem Shows.worker {q q' : EmailSendingQueue} {l : EmailLabel} (h : Shows q s)
    (hstep : q.step l = some q') (hl : q.step l = q.workerStep l) :
    ∃ i s', s.step (.worker i l) = some s' ∧ Shows q' s' := by
  have hq := hl.symm.trans hstep
  rcases h.workers with ⟨hoff, -⟩ | ⟨ended, hended, hworkers⟩
  · rw [EmailSendingQueue.workerStep_off hoff] at hq
    cases hq
  · obtain ⟨hconf, hstarted, hcount, hback⟩ := EmailSendingQueue.workerStep_frame hq
    have hlast : s.workers[ended.length]? = some ⟨q.worker, q.queue.held⟩ := by
      rw [hworkers]
      exact List.getElem?_concat_length
    refine ⟨ended.length, s.put ended.length q', ?_, ?_⟩
    · rw [step, hlast, Option.bind_some, h.view_eq, hq]
      rfl
    · have hcount' : q'.queue.count = s.count := hcount.trans (congrArg Line.count h.line)
      have hback' : q'.queue.back = [] := hback.trans (congrArg Line.back h.line)
      refine ⟨?_, hconf.trans h.clientConf, hstarted.trans h.started, h.holding.step hstep,
        Or.inr ⟨ended, hended, ?_⟩⟩
      · show q'.queue = ⟨q'.queue.queue, s.count, q'.queue.held, q'.queue.out, []⟩
        rw [← hcount', ← hback']
      · show s.workers.set ended.length _ = _
        rw [hworkers]
        simp

theorem Shows.step {q q' : EmailSendingQueue} {l : EmailLabel} (h : Shows q s)
    (hq : q.step l = some q') : ∃ k s', s.step k = some s' ∧ k.see = l ∧ Shows q' s' := by
  have hholding := h.holding.step hq
  cases l with
  | config conf =>
    cases hq
    exact ⟨.config conf, _, rfl, rfl, h.line, rfl, h.started, hholding, h.workers⟩
  | queueSend emb =>
    cases hq
    refine ⟨.queueSend emb, _, rfl, rfl, ?_, h.clientConf, h.started, hholding, h.workers⟩
    rw [EmailSendingQueue.queueSend, Line.push, h.line, h.clientConf]
  | start =>
    rw [EmailSendingQueue.step] at hq
    split_ifs at hq with hstarted hoff
    · cases hq
      exact ⟨.start, s, if_pos (h.started ▸ hstarted), rfl, h⟩
    · cases hq
      have hends : ∀ w ∈ s.workers, w.point = .off := by
        rcases h.workers with ⟨-, hall⟩ | ⟨ended, hended, hworkers⟩
        · exact hall
        · intro w hw
          rw [hworkers] at hw
          rcases List.mem_append.mp hw with hw | hw
          · exact hended w hw
          · rw [List.mem_singleton.mp hw]
            exact hoff
      have hheld : q.queue.held = none := h.holding (congrArg EmailWorker.busy hoff)
      refine ⟨.start, _, if_neg (h.started ▸ hstarted), rfl, h.line, h.clientConf, rfl, hholding,
        Or.inr ⟨s.workers, hends, ?_⟩⟩
      show s.workers ++ [_] = s.workers ++ [_]
      rw [hheld, h.clientConf]
  | shutdown =>
    cases hq
    exact ⟨.shutdown, _, rfl, rfl, h.line, h.clientConf, rfl, hholding, h.workers⟩
  | check | relay ok | send outcome | next | wake =>
    obtain ⟨i, s', hs', hshows⟩ := h.worker hq rfl
    exact ⟨.worker i _, s', hs', rfl, hshows⟩

/-- **One worker at a time.** The system takes every step of `EmailSendingQueue`. -/
theorem simulates_queue :
    ForwardSimulation (Steps EmailSendingQueue.step) step some (fun k => some k.see) Shows where
  step q l q' s h hq := by
    obtain ⟨k, s', hs', hsee, hshows⟩ := h.step hq
    exact match_step hs' (congrArg some hsee) hshows

/-! ## The balance -/

theorem holding_new : new.Holding := List.forall_mem_nil _

theorem Holding.view {w : MailWorker} (h : s.Holding) (hw : w ∈ s.workers) : (s.view w).Holding :=
  h w hw

theorem Holding.step (h : s.Holding) (hs : s.step l = some s') : s'.Holding := by
  cases l with
  | config | queueSend | shutdown =>
    cases hs
    exact h
  | start =>
    rw [EmailSystem.step] at hs
    split_ifs at hs
    · cases hs
      exact h
    · cases hs
      intro w hw
      rcases List.mem_append.mp hw with hw | hw
      · exact h w hw
      · rw [List.mem_singleton.mp hw]
        exact fun _ => rfl
  | worker i l =>
    obtain ⟨w, q, hw, hq, rfl⟩ := worker_cases hs
    have hview := (h.view (List.mem_of_getElem? hw)).step (EmailSendingQueue.step_of_workerStep hq)
    intro w' hw'
    rcases List.mem_or_eq_of_mem_set hw' with hw' | rfl
    · exact h w' hw'
    · exact hview

theorem inHands_put {i : ℕ} {w : MailWorker} (hw : s.workers[i]? = some w) (q : EmailSendingQueue) :
    (s.put i q).inHands + w.inHand = s.inHands + q.queue.inHand :=
  sum_map_set MailWorker.inHand hw ⟨q.worker, q.queue.held⟩

theorem inHands_spawn (s : EmailSystem) {w : MailWorker} (hw : w.held = none) :
    { s with started := true, workers := s.workers ++ [w] }.inHands = s.inHands := by
  have hzero : w.inHand = 0 := by
    rw [MailWorker.inHand, hw]
    rfl
  rw [inHands, List.map_append, List.sum_append, List.map_singleton, List.sum_singleton, hzero,
    add_zero]
  rfl

theorem balanced_emails :
    Balanced Holding (fun s => s.handed + s.inHands + s.waiting) queued lost step where
  keeps _ _ _ := Holding.step
  balance s l s' h hs := by
    cases l with
    | config | shutdown =>
      cases hs
      rfl
    | queueSend emb =>
      cases hs
      have hwaiting : ∀ t : Ticket EmailBody, s.waiting + {t} = ↑(s.queue ++ [t]) := fun t =>
        Multiset.coe_add s.queue [t]
      rw [queued, add_assoc, hwaiting]
      exact (add_zero _).symm
    | start =>
      rw [EmailSystem.step] at hs
      split_ifs at hs
      · cases hs
        rfl
      · cases hs
        exact congrArg (fun hands => s.handed + hands + s.waiting + 0) (inHands_spawn s rfl).symm
    | worker i l =>
      obtain ⟨w, q, hw, hq, rfl⟩ := worker_cases hs
      have hview := EmailSendingQueue.balanced_tickets.balance (s.view w) l q
        (h.view (List.mem_of_getElem? hw)) (EmailSendingQueue.step_of_workerStep hq)
      rw [EmailSendingQueue.queued_of_workerStep hq, add_zero] at hview
      have hlost : s.lost (.worker i l) = (s.view w).lost l := by
        rw [lost, hw]
        rfl
      have hhands := inHands_put hw q
      have htickets : (s.view w).queue.tickets = s.handed + w.inHand + s.waiting := rfl
      have htickets' : q.queue.tickets =
          (s.put i q).handed + q.queue.inHand + (s.put i q).waiting := rfl
      rw [htickets, htickets'] at hview
      rw [hlost]
      refine add_right_cancel (b := w.inHand) ?_
      calc s.handed + s.inHands + s.waiting + 0 + w.inHand
          = s.handed + w.inHand + s.waiting + s.inHands := by abel
        _ = (s.put i q).handed + (s.put i q).waiting + (s.view w).lost l +
              (s.inHands + q.queue.inHand) := by
          rw [hview]
          abel
        _ = _ := by
          rw [← hhands]
          abel

theorem balanced_serials : Balanced (fun _ => True) (fun s => Multiset.range s.count)
    (fun s l => (s.queued l).map Ticket.serial) (fun _ _ => 0) step where
  keeps _ _ _ _ _ := trivial
  balance s l s' _ hs := by
    cases l with
    | config | shutdown =>
      cases hs
      rfl
    | queueSend emb =>
      cases hs
      show Multiset.range s.count + {s.count} = Multiset.range (s.count + 1) + 0
      rw [Multiset.range_succ, add_zero, add_comm]
      rfl
    | start =>
      rw [EmailSystem.step] at hs
      split_ifs at hs <;> cases hs <;> rfl
    | worker i l =>
      obtain ⟨w, q, -, -, rfl⟩ := worker_cases hs
      rfl

/-! ## All runs -/

/-- **Conservation.** In every run, with any number of workers, the e-mails that have been queued are
those that have been handed to the mailer, those that the workers have, those that wait in the queue, and
those that a worker had at a step that failed: each is in one of these, once. -/
theorem emails_accounted (h : runAll step ls new = some s) :
    collect queued step ls new =
        s.handed + s.inHands + s.waiting + collect lost step ls new ∧
      (collect queued step ls new).map Ticket.serial = Multiset.range s.count := by
  have hall := balanced_emails.runAll holding_new h
  have hserials := balanced_serials.runAll trivial h
  rw [collect_eq_zero fun _ _ _ => rfl, add_zero] at hserials
  refine ⟨(zero_add _).symm.trans hall, ?_⟩
  exact (map_collect (Multiset.mapAddMonoidHom Ticket.serial) queued ls new).trans
    ((zero_add _).symm.trans hserials)

/-- A second worker is spawned before the first one sees the shutdown, and its mailer cannot be
built. -/
def twoMailers : List EmailSystemLabel :=
  [.queueSend ⟨['a'], [], [], [], false⟩, .queueSend ⟨['b'], [], [], [], false⟩, .start,
    .worker 0 .check, .shutdown, .start, .worker 1 .check, .worker 0 (.relay true),
    .worker 1 (.relay false), .worker 0 (.send .handed)]

theorem emails_accounted_twoMailers : ∃ s, runAll step twoMailers new = some s ∧
    collect queued step twoMailers new =
        s.handed + s.inHands + s.waiting + collect lost step twoMailers new ∧
      (collect queued step twoMailers new).map Ticket.serial = Multiset.range s.count :=
  ⟨_, rfl, emails_accounted rfl⟩

/-! ## After a failure -/

theorem Stalled.of_step (h : s.Stalled) (hl : l ≠ .shutdown) (hs : s.step l = some s') :
    s'.Stalled ∧ s'.out = s.out ∧ s'.waiting = s.waiting + s.queued l := by
  cases l with
  | config conf =>
    cases hs
    exact ⟨h, rfl, (add_zero _).symm⟩
  | queueSend emb =>
    cases hs
    exact ⟨h, rfl, (Multiset.coe_add _ _).symm⟩
  | start =>
    -- the flag says that there is a worker
    rw [EmailSystem.step, if_pos h.2] at hs
    cases hs
    exact ⟨h, rfl, (add_zero _).symm⟩
  | shutdown => exact absurd rfl hl
  | worker i l =>
    obtain ⟨w, q, hw, hq, -⟩ := worker_cases hs
    have hoff : (s.view w).worker = .off := h.1 w (List.mem_of_getElem? hw)
    rw [EmailSendingQueue.workerStep_off hoff] at hq
    cases hq

theorem Stalled.of_runAll (h : s.Stalled) (hls : .shutdown ∉ ls)
    (hs : runAll step ls s = some s') :
    s'.Stalled ∧ s'.out = s.out ∧ s'.waiting = s.waiting + collect queued step ls s := by
  induction ls generalizing s with
  | nil =>
    cases hs
    exact ⟨h, rfl, (add_zero _).symm⟩
  | cons l ls ih =>
    rw [List.mem_cons, not_or] at hls
    obtain ⟨s₁, hl, hs'⟩ := Option.bind_eq_some_iff.mp hs
    obtain ⟨h₁, hout₁, hwaiting₁⟩ := h.of_step (Ne.symm hls.1) hl
    obtain ⟨h', hout', hwaiting'⟩ := ih h₁ hls.2 hs'
    rw [collect_cons queued hl, ← add_assoc, ← hwaiting₁]
    exact ⟨h', hout'.trans hout₁, hwaiting'⟩

theorem stalled_of_kills {i : ℕ} {l : EmailLabel} (hkills : l.kills = true)
    (hstarted : s.started = true)
    (hothers : ∀ j w, s.workers[j]? = some w → j ≠ i → w.point = .off)
    (hs : s.step (.worker i l) = some s') :
    s'.Stalled ∧ s'.out = s.out ∧ s'.waiting = s.waiting := by
  obtain ⟨w, q, -, hq, rfl⟩ := worker_cases hs
  obtain ⟨hoff, hqueue, hout⟩ := EmailSendingQueue.workerStep_kills hq hkills
  refine ⟨⟨fun w' hw' => ?_, hstarted⟩, hout,
    congrArg (fun queue : List (Ticket EmailBody) => (queue : Multiset (Ticket EmailBody))) hqueue⟩
  obtain ⟨j, hj⟩ := List.getElem?_of_mem hw'
  by_cases hji : j = i
  · subst hji
    have hset : (s.workers.set j ⟨q.worker, q.queue.held⟩)[j]? = some w' := hj
    rw [List.getElem?_set_self'] at hset
    obtain ⟨-, -, rfl⟩ := Option.map_eq_some_iff.mp hset
    exact hoff
  · have hset : (s.workers.set i ⟨q.worker, q.queue.held⟩)[j]? = some w' := hj
    rw [List.getElem?_set_ne (Ne.symm hji)] at hset
    exact hothers j w' hset hji

/-- **After a panic.** When the mailer or the message cannot be built while the queue is started, and no
other worker lives, then in every run that follows without a shutdown, with `start` called or not, no
e-mail is handed over, and all that are queued wait. -/
theorem stalled {i : ℕ} {l : EmailLabel} (hkills : l.kills = true) (hstarted : s.started = true)
    (hothers : ∀ j w, s.workers[j]? = some w → j ≠ i → w.point = .off)
    (hs : s.step (.worker i l) = some s₁) (hls : .shutdown ∉ ls)
    (hrun : runAll step ls s₁ = some s') :
    s'.out = s.out ∧ s'.waiting = s.waiting + collect queued step ls s₁ := by
  obtain ⟨h₁, hout₁, hwaiting₁⟩ := stalled_of_kills hkills hstarted hothers hs
  obtain ⟨-, hout, hwaiting⟩ := h₁.of_runAll hls hrun
  exact ⟨hout.trans hout₁, hwaiting₁ ▸ hwaiting⟩

/-- The one worker cannot build its mailer. -/
def relayFails : List EmailSystemLabel :=
  [.queueSend ⟨['a'], [], [], [], false⟩, .start, .worker 0 .check]

/-- A restart is tried, and another e-mail comes. -/
theorem stalled_relayFails : ∃ s s₁ s', runAll step relayFails new = some s ∧
    s.step (.worker 0 (.relay false)) = some s₁ ∧
    runAll step [.start, .queueSend ⟨['c'], [], [], [], false⟩] s₁ = some s' ∧
    s'.out = s.out ∧ s'.waiting = s.waiting +
      collect queued step [.start, .queueSend ⟨['c'], [], [], [], false⟩] s₁ := by
  have hothers : ∀ j w, (⟨[], 1, ⟨[], [], [], [], false⟩, true,
      [⟨.building ⟨[], []⟩, some (⟨0, ⟨['a'], [], [], [], false⟩⟩, [])⟩], []⟩ :
        EmailSystem).workers[j]? = some w → j ≠ 0 → w.point = .off := by
    intro j w hw hj
    cases j with
    | zero => exact absurd rfl hj
    | succ j => cases hw
  exact ⟨_, _, _, rfl, rfl, rfl, stalled (l := .relay false) rfl rfl hothers rfl (by decide) rfl⟩

end EmailSystem

end ChimesUtils
