import ChimesUtils.Lib.Line
import ChimesUtils.Lib.Run
import ChimesUtils.Rust

/-!
# The e-mail queue

A worker takes e-mails out of the queue and hands them to the mailer, while others queue. Here there is
one worker at a time.

* `EmailSendingQueue.step`: the calls, and the steps of the worker between two operations on the queue;
* `handed_inOrder_iff`: when no e-mail is handed over before one that was queued earlier.
-/

namespace ChimesUtils

open Lib

structure EmailBody where
  emailReceiver : Text
  mineEmail : Text
  subject : Text
  content : Text
  htmlEmail : Bool
  deriving DecidableEq

structure EmailServerConfig where
  smtpServer : Text
  password : Text
  port : Text
  mineEmail : Text
  ssl : Bool
  deriving DecidableEq

structure Credentials where
  user : Text
  secret : Text
  deriving DecidableEq

/-- The mailer that the worker builds for the e-mails it finds. -/
structure SmtpTransport where
  relay : Text
  credentials : Credentials
  deriving DecidableEq

/-- How `send_email` ends. -/
inductive SendOutcome where
  /-- An address is not one. -/
  | invalid
  /-- `mailer.send` has the message. -/
  | handed
  /-- The message cannot be built. -/
  | panicked
  deriving DecidableEq

/-- Where the worker is. -/
inductive EmailWorker where
  | off
  /-- At `while msq.started`. -/
  | head (creds : Credentials)
  /-- With an e-mail, before the mailer is built. -/
  | building (creds : Credentials)
  /-- With an e-mail and the mailer. -/
  | sending (mailer : SmtpTransport)
  /-- Before the next pop of the inner loop. -/
  | draining (mailer : SmtpTransport)
  /-- In the wait for a notification. -/
  | waiting (creds : Credentials)
  deriving DecidableEq

/-- `EmailSendingQueue` with its worker. -/
structure EmailSendingQueue where
  queue : Line EmailBody
  clientConf : EmailServerConfig
  started : Bool
  worker : EmailWorker
  deriving DecidableEq

inductive EmailLabel where
  | config (conf : EmailServerConfig)
  | queueSend (emb : EmailBody)
  | start
  | shutdown
  /-- The worker looks at `started`, and pops. -/
  | check
  /-- `starttls_relay` is over. -/
  | relay (ok : Bool)
  /-- `send_email` is over. -/
  | send (outcome : SendOutcome)
  /-- The worker pops in the inner loop. -/
  | next
  /-- The wait is over, with a notification or without. -/
  | wake
  deriving DecidableEq

namespace EmailSendingQueue

def new : EmailSendingQueue := ⟨.empty, ⟨[], [], [], [], false⟩, false, .off⟩

def queueSend (s : EmailSendingQueue) (emb : EmailBody) : EmailSendingQueue :=
  { s with queue := s.queue.push { emb with mineEmail := s.clientConf.mineEmail } }

/-- `msq.queue.pop()`, with where the worker goes with an e-mail and without one. -/
def popFirst (s : EmailSendingQueue) (found none : EmailWorker) : EmailSendingQueue :=
  { s with queue := s.queue.pop, worker := if s.queue.pop.held.isSome then found else none }

/-- The end of `send_email`. -/
def onSend (s : EmailSendingQueue) (mailer : SmtpTransport) : SendOutcome → EmailSendingQueue
  | .invalid => { s with queue := s.queue.drop, worker := .draining mailer }
  | .handed => { s with queue := s.queue.deliver, worker := .draining mailer }
  | .panicked => { s with queue := s.queue.drop, worker := .off }

/-- The task of `start_email_queue`. -/
def workerStep (s : EmailSendingQueue) : EmailLabel → Option EmailSendingQueue
  | .check =>
    match s.worker with
    | .head creds =>
      some (if s.started then s.popFirst (.building creds) (.waiting creds)
        else { s with worker := .off })
    | _ => none
  | .relay ok =>
    match s.worker with
    | .building creds =>
      some (if ok then { s with worker := .sending ⟨s.clientConf.smtpServer, creds⟩ }
        else { s with queue := s.queue.drop, worker := .off })
    | _ => none
  | .send outcome =>
    match s.worker with
    | .sending mailer => some (s.onSend mailer outcome)
    | _ => none
  | .next =>
    match s.worker with
    | .draining mailer => some (s.popFirst (.sending mailer) (.head mailer.credentials))
    | _ => none
  | .wake =>
    match s.worker with
    | .waiting creds => some { s with worker := .head creds }
    | _ => none
  | _ => none

/-- One step. A worker is only started after the one before has ended. -/
def step (s : EmailSendingQueue) : EmailLabel → Option EmailSendingQueue
  | .config conf => some { s with clientConf := conf }
  | .queueSend emb => some (s.queueSend emb)
  | .start =>
    if s.started then some s
    else if s.worker = .off then
      some { s with started := true, worker := .head ⟨s.clientConf.mineEmail, s.clientConf.password⟩ }
    else none
  | .shutdown => some { s with started := false }
  | l => s.workerStep l

/-- The e-mails have been handed to the mailer in the order in which they were queued, and none before
one that was still in the queue. -/
def InOrder (s : EmailSendingQueue) : Prop := s.queue.InOrder

/-- An e-mail that is handed to the mailer was alone in the queue when the worker popped it. -/
def Alone (s : EmailSendingQueue) (l : EmailLabel) : Prop :=
  (∃ mailer, s.worker = .sending mailer) ∧ l = .send .handed → s.queue.AloneHeld

/-! ## One step -/

variable {s s' : EmailSendingQueue} {l : EmailLabel}

/-- What a step does to the queue. -/
theorem step_queue (h : s.step l = some s') :
    s.queue.Move s'.queue ∨
      ((∃ mailer, s.worker = .sending mailer) ∧ l = .send .handed) ∧ s'.queue = s.queue.deliver := by
  cases l with
  | config conf | shutdown =>
    cases h
    exact Or.inl .stay
  | queueSend emb =>
    cases h
    exact Or.inl (.push _)
  | start =>
    simp only [step] at h
    split_ifs at h <;> cases h <;> exact Or.inl .stay
  | check =>
    simp only [step, workerStep] at h
    split at h
    · cases h
      split_ifs
      · exact Or.inl .pop
      · exact Or.inl .stay
    · cases h
  | relay ok =>
    simp only [step, workerStep] at h
    split at h
    · cases h
      split_ifs
      · exact Or.inl .stay
      · exact Or.inl .drop
    · cases h
  | send outcome =>
    simp only [step, workerStep] at h
    split at h
    next mailer hworker =>
      cases h
      cases outcome with
      | invalid | panicked => exact Or.inl .drop
      | handed => exact Or.inr ⟨⟨⟨mailer, hworker⟩, rfl⟩, rfl⟩
    next => cases h
  | next =>
    simp only [step, workerStep] at h
    split at h
    · cases h
      exact Or.inl .pop
    · cases h
  | wake =>
    simp only [step, workerStep] at h
    split at h
    · cases h
      exact Or.inl .stay
    · cases h

/-- The queue of a running system. -/
structure Inv (s : EmailSendingQueue) : Prop where
  queue : s.queue.Inv
  sorted : s.queue.Sorted

theorem inv_new : new.Inv := ⟨Line.inv_empty, Line.sorted_empty⟩

theorem Inv.step (h : s.Inv) (hgood : s.Alone l) (hs : s.step l = some s') : s'.Inv := by
  rcases step_queue hs with hmove | ⟨hl, hq⟩
  · exact ⟨h.queue.move hmove, h.sorted.move hmove⟩
  · have hfirst := h.sorted.firstHeld_iff.mpr (hgood hl)
    exact ⟨hq ▸ h.queue.deliver hfirst, hq ▸ h.sorted.deliver⟩

theorem not_inOrder_of_not_alone (h : s.Inv) (hbad : ¬ s.Alone l) :
    ∃ s', s.step l = some s' ∧ ¬ s'.InOrder := by
  unfold Alone at hbad
  rw [Classical.not_imp] at hbad
  obtain ⟨⟨⟨mailer, hworker⟩, rfl⟩, halone⟩ := hbad
  refine ⟨s.onSend mailer .handed, ?_, ?_⟩
  · show s.workerStep (.send .handed) = _
    rw [workerStep, hworker]
  · exact Line.not_inOrder_deliver h.queue fun hfirst => halone (h.sorted.firstHeld_iff.mp hfirst)

/-! ## All runs -/

/-- **Order.** In every run of the worker, with e-mails queued between any two of its steps, the mailer
gets the e-mails in the order in which they were queued, just when each of them was alone in the queue
when the worker popped it. -/
theorem handed_inOrder_iff (ls : List EmailLabel) :
    Throughout InOrder step ls new ↔ AllSteps Alone step ls new :=
  throughout_iff_allSteps (fun _ (h : Inv _) => h.queue.inOrder) (fun _ _ _ => Inv.step)
    (fun _ _ => not_inOrder_of_not_alone) inv_new

/-- The worker starts when two e-mails are in the queue. -/
def twoEmails : List EmailLabel :=
  [.queueSend ⟨['a'], [], [], [], false⟩, .queueSend ⟨['b'], [], [], [], false⟩, .start, .check,
    .relay true, .send .handed]

/-- The second e-mail is handed over first. -/
theorem not_inOrder_twoEmails : ¬ Throughout InOrder step twoEmails new := by
  intro h
  have hlast := (h.2 _ rfl).2 _ rfl |>.2 _ rfl |>.2 _ rfl |>.2 _ rfl |>.2 _ rfl
  have hlt := hlast.2 _ (List.mem_singleton.mpr rfl) _ (List.mem_singleton.mpr rfl)
  exact absurd hlt (by decide)

end EmailSendingQueue

end ChimesUtils
