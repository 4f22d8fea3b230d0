import ChimesUtils.Lib.Ledger
import ChimesUtils.Mail.Queue

/-!
# What a step does to the e-mails

* `step_effect`: a step queues an e-mail, pops one, hands one over, gives one up, or leaves the queue as
  it is;
* `balanced_tickets`: with what a step queues and gives up, it balances the e-mails.
-/

namespace ChimesUtils

open Lib

/-- The worker has an e-mail. -/
def EmailWorker.busy : EmailWorker → Bool
  | building _ => true
  | sending _ => true
  | _ => false

namespace EmailLabel

/-- The step gives up the e-mail that the worker has: no mailer, no address, or no message. -/
def fails : EmailLabel → Bool
  | relay ok => !ok
  | send outcome => decide (outcome ≠ .handed)
  | _ => false

/-- The failure is a panic of the worker. -/
def kills : EmailLabel → Bool
  | relay ok => !ok
  | send outcome => decide (outcome = .panicked)
  | _ => false

end EmailLabel

namespace EmailSendingQueue

/-- The e-mail that a step queues, with the sender of the configuration. -/
def queued (s : EmailSendingQueue) : EmailLabel → Multiset (Ticket EmailBody)
  | .queueSend emb => {⟨s.queue.count, { emb with mineEmail := s.clientConf.mineEmail }⟩}
  | _ => 0

/-- The e-mail that a step loses. -/
def lost (s : EmailSendingQueue) (l : EmailLabel) : Multiset (Ticket EmailBody) :=
  if l.fails then s.queue.inHand else 0

/-- Only a busy worker has an e-mail. -/
def Holding (s : EmailSendingQueue) : Prop := s.worker.busy = false → s.queue.held = none

variable {s s' : EmailSendingQueue} {l : EmailLabel}

/-! ## One step -/

theorem holding_new : new.Holding := fun _ => rfl

/-- What a step does to the queue, and whether the worker has an e-mail before and afterwards. -/
inductive Effect (s : EmailSendingQueue) : EmailLabel → Line EmailBody → Bool → Prop
  | queue (emb : EmailBody) :
      Effect s (.queueSend emb) (s.queue.push { emb with mineEmail := s.clientConf.mineEmail })
        s.worker.busy
  | stay {l : EmailLabel} {busy : Bool} : (∀ s : EmailSendingQueue, s.queued l = 0) →
      l.fails = false → s.worker.busy = busy → Effect s l s.queue busy
  | pop {l : EmailLabel} : (∀ s : EmailSendingQueue, s.queued l = 0) → l.fails = false →
      s.worker.busy = false → Effect s l s.queue.pop s.queue.pop.held.isSome
  | fail {l : EmailLabel} : (∀ s : EmailSendingQueue, s.queued l = 0) → l.fails = true →
      Effect s l s.queue.drop false
  | hand : Effect s (.send .handed) s.queue.deliver false

theorem effect_popFirst (hqueued : ∀ s : EmailSendingQueue, s.queued l = 0) (hok : l.fails = false)
    (hidle : s.worker.busy = false) {found none : EmailWorker} (hfound : found.busy = true)
    (hnone : none.busy = false) :
    s.Effect l (s.popFirst found none).queue (s.popFirst found none).worker.busy := by
  have hbusy : (s.popFirst found none).worker.busy = s.queue.pop.held.isSome := by
    rw [popFirst]
    cases hheld : s.queue.pop.held.isSome with
    | false => exact hnone
    | true => exact hfound
  rw [hbusy]
  exact .pop hqueued hok hidle

/-- **Inversion of a step.** -/
theorem step_effect (hs : s.step l = some s') : s.Effect l s'.queue s'.worker.busy := by
  cases l with
  | config conf | shutdown =>
    cases hs
    exact .stay (fun _ => rfl) rfl rfl
  | queueSend emb =>
    cases hs
    exact .queue emb
  | start =>
    simp only [step] at hs
    split_ifs at hs with hstarted hoff
    · cases hs
      exact .stay (fun _ => rfl) rfl rfl
    · cases hs
      have hidle : s.worker.busy = false := congrArg EmailWorker.busy hoff
      exact .stay (fun _ => rfl) rfl hidle
  | check =>
    simp only [step, workerStep] at hs
    split at hs
    next creds hworker =>
      have hidle : s.worker.busy = false := congrArg EmailWorker.busy hworker
      cases hs
      split_ifs
      · exact effect_popFirst (fun _ => rfl) rfl hidle rfl rfl
      · exact .stay (fun _ => rfl) rfl hidle
    next => cases hs
  | relay ok =>
    simp only [step, workerStep] at hs
    split at hs
    next creds hworker =>
      cases hs
      cases ok with
      | true =>
        have hbusy : s.worker.busy = true := congrArg EmailWorker.busy hworker
        exact .stay (fun _ => rfl) rfl hbusy
      | false => exact .fail (fun _ => rfl) rfl
    next => cases hs
  | send outcome =>
    simp only [step, workerStep] at hs
    split at hs
    · cases hs
      cases outcome with
      | invalid | panicked => exact .fail (fun _ => rfl) rfl
      | handed => exact .hand
    · cases hs
  | next =>
    simp only [step, workerStep] at hs
    split at hs
    next mailer hworker =>
      have hidle : s.worker.busy = false := congrArg EmailWorker.busy hworker
      cases hs
      exact effect_popFirst (fun _ => rfl) rfl hidle rfl rfl
    next => cases hs
  | wake =>
    simp only [step, workerStep] at hs
    split at hs
    next creds hworker =>
      have hidle : s.worker.busy = false := congrArg EmailWorker.busy hworker
      cases hs
      exact .stay (fun _ => rfl) rfl hidle
    next => cases hs

/-! ## The balance -/

theorem Holding.step (h : s.Holding) (hs : s.step l = some s') : s'.Holding := by
  have heff := step_effect hs
  unfold Holding at h ⊢
  generalize s'.queue = queue, s'.worker.busy = busy at heff ⊢
  cases heff with
  | queue emb => exact h
  | stay _ _ hbusy => exact hbusy ▸ h
  | pop => exact fun hnone => Option.not_isSome_iff_eq_none.mp (by rw [hnone]; exact Bool.false_ne_true)
  | fail => exact fun _ => rfl
  | hand => exact fun _ => Line.held_deliver s.queue

theorem balanced_tickets : Balanced Holding (fun s => s.queue.tickets) queued lost step where
  keeps _ _ _ := Holding.step
  balance s l s' h hs := by
    have heff := step_effect hs
    generalize s'.queue = queue, s'.worker.busy = busy at heff ⊢
    cases heff with
    | queue emb => exact (Line.tickets_push _ _).symm.trans (add_zero _).symm
    | stay hqueued hok => rw [hqueued, lost, if_neg (by rw [hok]; exact Bool.false_ne_true)]
    | pop hqueued hok hidle =>
      rw [hqueued, lost, if_neg (by rw [hok]; exact Bool.false_ne_true), Line.tickets_pop (h hidle)]
    | fail hqueued hfails => rw [hqueued, lost, if_pos hfails, add_zero, Line.tickets_drop]
    | hand => exact congrArg (· + 0) (Line.tickets_deliver _).symm

end EmailSendingQueue

end ChimesUtils
