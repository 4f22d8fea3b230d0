import ChimesUtils.Lib.Ledger
import ChimesUtils.WebSocket.Order

/-!
# What becomes of the messages

A message leaves `send_queue` to be sent, and comes back at the front when it does not go out.

* `messages_accounted`: over all sessions, every message has gone out, is at `conn.send`, or is in
  `send_queue`.
-/

namespace ChimesUtils

open Lib

namespace Session

/-- The message that a step queues. -/
def queued (s : Session) : SessionLabel → Multiset (Ticket Text)
  | .send body => {⟨s.sendQueue.count, body⟩}
  | _ => 0

/-- A message is out of `send_queue` only at `conn.send`. -/
def Holding (s : Session) : Prop := s.point ≠ .sending → s.sendQueue.held = none

variable {s s' : Session} {l : SessionLabel} {ls : List SessionLabel}

/-! ## One step -/

theorem holding_popTop (s : Session) : s.popTop.Holding := by
  intro hpoint
  rw [popTop] at hpoint
  cases hheld : s.sendQueue.pop.held with
  | none => exact hheld
  | some p =>
    rw [hheld] at hpoint
    exact absurd rfl hpoint

/-- What a step does to the messages. -/
theorem step_tickets (h : s.Holding) (hs : s.step l = some s') :
    s'.Holding ∧ s.sendQueue.tickets + s.queued l = s'.sendQueue.tickets ∧
      s'.sendQueue.count = s.sendQueue.count + (s.queued l).card := by
  cases l with
  | send body =>
    cases hs
    exact ⟨h, (Line.tickets_push _ _).symm, rfl⟩
  | start =>
    simp only [step] at hs
    split_ifs at hs with hpoint
    cases hs
    exact ⟨fun _ => h (by rw [hpoint]; decide), add_zero _, rfl⟩
  | refused =>
    simp only [step] at hs
    split_ifs at hs
    cases hs
    exact ⟨h, add_zero _, rfl⟩
  | arrival item =>
    simp only [step] at hs
    split_ifs at hs with hpoint
    cases hs
    have hheld := h (by rw [hpoint]; decide)
    rw [Holding, onArrival_sendQueue]
    exact ⟨fun _ => hheld, add_zero _, rfl⟩
  | ended timedOut =>
    simp only [step] at hs
    split_ifs at hs with hpoint htimed
    · cases hs
      exact ⟨fun _ => h (by rw [hpoint]; decide), add_zero _, rfl⟩
    · cases hs
      refine ⟨holding_popTop s, ?_, rfl⟩
      exact (add_zero _).trans (Line.tickets_pop (h (by rw [hpoint]; decide))).symm
  | connSend ok =>
    simp only [step] at hs
    split_ifs at hs
    cases hs
    cases ok with
    | true =>
      refine ⟨holding_popTop _, ?_, Line.count_deliver _⟩
      exact (add_zero _).trans ((Line.tickets_pop (Line.held_deliver _)).trans
        (Line.tickets_deliver _)).symm
    | false =>
      exact ⟨fun _ => Line.held_giveBack _, (add_zero _).trans (Line.tickets_giveBack _).symm,
        Line.count_giveBack _⟩

/-! ## All runs -/

theorem balanced_tickets :
    Balanced Holding (fun s => s.sendQueue.tickets) queued (fun _ _ => 0) step where
  keeps _ _ _ h hs := (step_tickets h hs).1
  balance _ _ _ h hs := (step_tickets h hs).2.1.trans (add_zero _).symm

theorem balanced_serials : Balanced Holding (fun s => Multiset.range s.sendQueue.count)
    (fun s l => (s.queued l).map Ticket.serial) (fun _ _ => 0) step where
  keeps _ _ _ h hs := (step_tickets h hs).1
  balance s l s' h hs := by
    rw [(step_tickets h hs).2.2, add_zero]
    cases l with
    | send body =>
      show Multiset.range _ + {s.sendQueue.count} = Multiset.range (s.sendQueue.count + 1)
      rw [Multiset.range_succ, add_comm]
      rfl
    | _ => exact add_zero _

/-- **Conservation.** In every session, with messages queued between any two steps, and every outcome of
the connections and of `conn.send`, the messages that have been queued are those that have gone out, the
one at `conn.send`, and those in `send_queue`: each is in one of these, once. -/
theorem messages_accounted (h : runAll step ls newWebsocket = some s) :
    collect queued step ls newWebsocket =
        s.sendQueue.delivered + s.sendQueue.inHand + s.sendQueue.waiting ∧
      (collect queued step ls newWebsocket).map Ticket.serial =
        Multiset.range s.sendQueue.count := by
  have hnew : newWebsocket.Holding := fun _ => rfl
  have hall := balanced_tickets.runAll hnew h
  have hserials := balanced_serials.runAll hnew h
  have hzero : ∀ {M : Type} [AddCommMonoid M],
      collect (fun _ _ => (0 : M)) step ls newWebsocket = 0 :=
    fun {M} _ => collect_eq_zero (fun _ _ _ => rfl) _
  rw [hzero, add_zero] at hall hserials
  refine ⟨(zero_add _).symm.trans hall, ?_⟩
  exact (map_collect (Multiset.mapAddMonoidHom Ticket.serial) queued ls newWebsocket).trans
    ((zero_add _).symm.trans hserials)

/-- The second send fails. -/
def secondFails : List SessionLabel :=
  [.send ['a'], .send ['b'], .start, .ended false, .send ['c'], .connSend true, .connSend false]

theorem messages_accounted_secondFails : ∃ s, runAll step secondFails newWebsocket = some s ∧
    collect queued step secondFails newWebsocket =
        s.sendQueue.delivered + s.sendQueue.inHand + s.sendQueue.waiting ∧
      (collect queued step secondFails newWebsocket).map Ticket.serial =
        Multiset.range s.sendQueue.count :=
  ⟨_, rfl, messages_accounted rfl⟩

end Session

end ChimesUtils
