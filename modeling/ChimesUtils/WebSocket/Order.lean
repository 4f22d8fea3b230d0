import ChimesUtils.Lib.Line
import ChimesUtils.Lib.Run
import ChimesUtils.WebSocket.Client

/-!
# The order of the messages

`start` again, one await at a time, so that messages can be queued between any two of them.

* `Session.step`: what the caller and the server do to the client, with `send_queue` as a line;
* `inOrder_iff`: when no message goes out while an earlier one is in `send_queue`;
* `runAll_start`: a run without calls in between is `start`.
-/

namespace ChimesUtils

open Lib

/-- Where `start` is. -/
inductive StartPoint where
  | off
  | connecting
  /-- In the sending loop, at `conn.send`. -/
  | sending
  deriving DecidableEq

/-- `ChimesWebSocketClient` between two awaits. -/
structure Session where
  sendQueue : Line Text
  recvQueue : List Text
  looping : Bool
  point : StartPoint
  deriving DecidableEq

inductive SessionLabel where
  | send (body : Text)
  | start
  /-- `connect` fails. -/
  | refused
  /-- `conn.next` gives an item. -/
  | arrival (item : Arrival)
  /-- The stream is at its end, and the wait there is over. -/
  | ended (timedOut : Bool)
  /-- `conn.send` is over. -/
  | connSend (ok : Bool)
  deriving DecidableEq

namespace Session

/-- The client of a session. -/
def client (s : Session) : ChimesWebSocketClient :=
  ⟨s.sendQueue.queue.map Ticket.item, s.recvQueue, s.looping, s.sendQueue.out.map fun p => p.1.item⟩

def newWebsocket : Session := ⟨.empty, [], false, .off⟩

/-- `top_msg = self.send_queue.pop()` and the head of the sending loop. -/
def popTop (s : Session) : Session :=
  { s with
    sendQueue := s.sendQueue.pop
    point := if s.sendQueue.pop.held.isSome then .sending else .off }

/-- What `start` does with an item. A panic leaves the client as it is. -/
def onArrival (s : Session) : Arrival → Session
  | none => s
  | some frame =>
    match s.client.onFrame frame with
    | .goOn c => { s with recvQueue := c.recvQueue }
    | .leave c => { s with recvQueue := c.recvQueue, point := .off }
    | .panic => { s with point := .off }

/-- The end of `conn.send`. -/
def onSend (s : Session) (ok : Bool) : Session :=
  if ok then { s with sendQueue := s.sendQueue.deliver }.popTop
  else { s with sendQueue := s.sendQueue.giveBack, point := .off }

/-- One step. While `start` runs, nothing sets `looping` to false: `stop` takes the client itself. -/
def step (s : Session) : SessionLabel → Option Session
  | .send body => some { s with sendQueue := s.sendQueue.push body }
  | .start => if s.point = .off then some { s with looping := true, point := .connecting } else none
  | .refused => if s.point = .connecting then some s else none
  | .arrival item => if s.point = .connecting then some (s.onArrival item) else none
  | .ended timedOut =>
    if s.point = .connecting then some (if timedOut then { s with point := .off } else s.popTop)
    else none
  | .connSend ok => if s.point = .sending then some (s.onSend ok) else none

/-- Messages have gone out in the order in which they were queued, and none while one queued before it
was in `send_queue`. -/
def InOrder (s : Session) : Prop := s.sendQueue.InOrder

/-- Before a message goes out, each message that stood before it in `send_queue` has been put back more
often beside it than it beside that message. -/
def Outlasted (s : Session) (l : SessionLabel) : Prop :=
  s.point = .sending ∧ l = .connSend true → s.sendQueue.OutlastedHeld

/-- It was the only one. -/
def Alone (s : Session) (l : SessionLabel) : Prop :=
  s.point = .sending ∧ l = .connSend true → s.sendQueue.AloneHeld

/-! ## One step -/

variable {s s' : Session} {l : SessionLabel} {ls : List SessionLabel}

theorem onArrival_sendQueue (s : Session) (item : Arrival) :
    (s.onArrival item).sendQueue = s.sendQueue := by
  unfold onArrival
  split
  · rfl
  · split <;> rfl

/-- What a step does to `send_queue`. -/
theorem step_sendQueue (h : s.step l = some s') :
    s.sendQueue.Move s'.sendQueue ∨
      (s.point = .sending ∧ l = .connSend true ∧ s'.sendQueue = s.sendQueue.deliver.pop) ∨
      l = .connSend false ∧ s'.sendQueue = s.sendQueue.giveBack := by
  cases l with
  | send body =>
    cases h
    exact Or.inl (.push body)
  | start | refused =>
    simp only [step] at h
    split_ifs at h
    cases h
    exact Or.inl .stay
  | arrival item =>
    simp only [step] at h
    split_ifs at h
    cases h
    rw [onArrival_sendQueue]
    exact Or.inl .stay
  | ended timedOut =>
    simp only [step] at h
    split_ifs at h
    · cases h
      exact Or.inl .stay
    · cases h
      exact Or.inl .pop
  | connSend ok =>
    simp only [step] at h
    split_ifs at h with hpoint
    cases h
    cases ok with
    | true => exact Or.inr (Or.inl ⟨hpoint, rfl, rfl⟩)
    | false => exact Or.inr (Or.inr ⟨rfl, rfl⟩)

/-- `send_queue` of a running session. -/
structure Inv (s : Session) : Prop where
  sendQueue : s.sendQueue.Inv
  ranked : s.sendQueue.Ranked

theorem inv_newWebsocket : newWebsocket.Inv := ⟨Line.inv_empty, Line.ranked_empty⟩

theorem Inv.step (h : s.Inv) (hgood : s.Outlasted l) (hs : s.step l = some s') : s'.Inv := by
  rcases step_sendQueue hs with hmove | ⟨hpoint, hl, hq⟩ | ⟨-, hq⟩
  · exact ⟨h.sendQueue.move hmove, h.ranked.move hmove⟩
  · have hfirst := h.ranked.firstHeld_iff.mpr (hgood ⟨hpoint, hl⟩)
    exact ⟨hq ▸ (h.sendQueue.deliver hfirst).pop, hq ▸ h.ranked.deliver.pop⟩
  · exact ⟨hq ▸ h.sendQueue.giveBack, hq ▸ h.ranked.giveBack⟩

theorem back_step (h : s.sendQueue.back = []) (hl : l ≠ .connSend false) (hs : s.step l = some s') :
    s'.sendQueue.back = [] := by
  rcases step_sendQueue hs with hmove | ⟨-, -, hq⟩ | ⟨hfail, -⟩
  · exact hmove.back.trans h
  · rw [hq]
    exact (Line.back_deliver _).trans h
  · exact absurd hfail hl

theorem not_inOrder_of_not_outlasted (h : s.Inv) (hbad : ¬ s.Outlasted l) :
    ∃ s', s.step l = some s' ∧ ¬ s'.InOrder := by
  unfold Outlasted at hbad
  rw [Classical.not_imp] at hbad
  obtain ⟨⟨hpoint, rfl⟩, hout⟩ := hbad
  refine ⟨s.onSend true, if_pos hpoint, ?_⟩
  exact Line.not_inOrder_deliver h.sendQueue fun hfirst => hout (h.ranked.firstHeld_iff.mp hfirst)

/-! ## All runs -/

/-- **Order.** In every run, with messages queued between any two steps and every outcome of the
connections and of `conn.send`, the messages go out in order, and none while an earlier one is in
`send_queue`, just when every message that goes out has been outlasted: each message that stood before it
in `send_queue` has been put back more often beside it than it beside that message. -/
theorem inOrder_iff (ls : List SessionLabel) :
    Throughout InOrder step ls newWebsocket ↔ AllSteps Outlasted step ls newWebsocket :=
  throughout_iff_allSteps (fun _ (h : Inv _) => h.sendQueue.inOrder) (fun _ _ _ => Inv.step)
    (fun _ _ => not_inOrder_of_not_outlasted) inv_newWebsocket

/-- Two messages are queued, and sent without a failure. -/
def twoQueued : List SessionLabel :=
  [.send ['a'], .send ['b'], .start, .ended false, .connSend true]

/-- The second message goes out first. -/
theorem not_inOrder_twoQueued : ¬ Throughout InOrder step twoQueued newWebsocket := by
  intro h
  have hlast := (h.2 _ rfl).2 _ rfl |>.2 _ rfl |>.2 _ rfl |>.2 _ rfl
  have hlt := hlast.2 (⟨1, ['b']⟩, [⟨0, ['a']⟩]) (List.mem_singleton.mpr rfl) ⟨0, ['a']⟩
    (List.mem_singleton.mpr rfl)
  exact absurd hlt (by decide)

/-- Where no `conn.send` fails, the messages go out in order just when each was alone in
`send_queue`. -/
theorem inOrder_iff_alone (hok : SessionLabel.connSend false ∉ ls) :
    Throughout InOrder step ls newWebsocket ↔ AllSteps Alone step ls newWebsocket := by
  have hout : Throughout InOrder step ls newWebsocket ↔ AllSteps Outlasted step ls newWebsocket :=
    throughout_iff_allSteps (fun _ (h : Inv _) => h.sendQueue.inOrder) (fun _ _ _ => Inv.step)
      (fun _ _ => not_inOrder_of_not_outlasted) inv_newWebsocket
  rw [hout]
  have hiff : ∀ (s : Session) l, s.sendQueue.back = [] → (s.Outlasted l ↔ s.Alone l) :=
    fun _ _ h => forall_congr' fun _ => Line.outlastedHeld_iff_alone h
  exact allSteps_congr (fun _ _ _ => back_step) hiff (fun l hl he => hok (he ▸ hl)) rfl

/-! ## Runs of `start` -/

/-- The state is where `start` has ended, or goes on with the next attempt. -/
def Ends (s : Session) : StartOutcome → Prop
  | .returned c => s.point = .off ∧ s.client = c
  | .looping c => s.point = .connecting ∧ s.client = c
  | .panicked => s.point = .off

/-- The ends of `conn.send` for `n` messages, from the `k`-th. -/
def sends (ok : ℕ → Bool) : ℕ → ℕ → List SessionLabel
  | _, 0 => []
  | k, n + 1 => .connSend (ok k) :: if ok k then sends ok (k + 1) n else []

theorem step_send (s : Session) (body : Text) :
    ∃ s', s.step (.send body) = some s' ∧ s'.client = s.client.send body :=
  ⟨_, rfl, by simp [client, Line.push, ChimesWebSocketClient.send]⟩

theorem popTop_nil (hs : s.sendQueue.queue = []) :
    s.popTop = { s with sendQueue := { s.sendQueue with held := none }, point := .off } := by
  simp [popTop, Line.pop, hs]

theorem popTop_concat {below : List (Ticket Text)} {msg : Ticket Text}
    (hs : s.sendQueue.queue = below ++ [msg]) :
    s.popTop = { s with
      sendQueue := { s.sendQueue with queue := below, held := some (msg, below) }
      point := .sending } := by
  simp [popTop, Line.pop, hs]

theorem runAll_sends (ok : ℕ → Bool) {stack : List (Ticket Text)} {k : ℕ}
    (hs : s.sendQueue.queue = stack.reverse) :
    ∃ s', runAll step (sends ok k stack.length) s.popTop = some s' ∧ s'.point = .off ∧
      s'.client = { s.client with
        sendQueue := (ChimesWebSocketClient.drain ok k (stack.map Ticket.item)).1
        sent := s.client.sent ++
          (ChimesWebSocketClient.drain ok k (stack.map Ticket.item)).2 } := by
  induction stack generalizing s k with
  | nil =>
    rw [popTop_nil hs]
    refine ⟨_, rfl, rfl, ?_⟩
    simp [client, hs, ChimesWebSocketClient.drain]
  | cons msg below ih =>
    rw [List.reverse_cons] at hs
    rw [popTop_concat hs, List.length_cons, sends, List.map_cons, ChimesWebSocketClient.drain]
    cases hok : ok k with
    | true =>
      -- the next message is popped in the same step
      obtain ⟨s', hrun, hpoint, hclient⟩ := ih (k := k + 1)
        (s := { s with
          sendQueue := { s.sendQueue with
            queue := below.reverse
            held := none
            out := s.sendQueue.out ++ [(msg, below.reverse)] }
          point := .sending }) rfl
      refine ⟨s', hrun, hpoint, hclient.trans ?_⟩
      simp [client]
    | false =>
      refine ⟨_, rfl, rfl, ?_⟩
      simp [client, onSend, Line.giveBack]

theorem send_notMem_sends (ok : ℕ → Bool) (body : Text) (k n : ℕ) : .send body ∉ sends ok k n := by
  induction n generalizing k with
  | zero => exact List.not_mem_nil
  | succ n ih =>
    rw [sends, List.mem_cons, not_or]
    refine ⟨by simp, ?_⟩
    by_cases hok : ok k = true
    · rw [if_pos hok]
      exact ih (k + 1)
    · rw [if_neg hok]
      exact List.not_mem_nil

theorem onFrame_frame (c : ChimesWebSocketClient) (frame : Frame) :
    match c.onFrame frame with
    | .goOn c' | .leave c' => c' = { c with recvQueue := c'.recvQueue }
    | .panic => True := by
  cases frame with
  | text payload | binary payload | ping payload | pong payload =>
    rw [ChimesWebSocketClient.onFrame]
    cases fromUtf8 payload with
    | none => trivial
    | some _ => rfl
  | continuation _ => rfl
  | close => rfl

theorem runAll_round (hpoint : s.point = .connecting) (a : Attempt) :
    ∃ ls s', (∀ body, .send body ∉ ls) ∧ runAll step ls s = some s' ∧
      match s.client.round a with
      | .goOn c => s'.point = .connecting ∧ s'.client = c
      | .leave c => s'.point = .off ∧ s'.client = c
      | .panic => s'.point = .off := by
  cases a with
  | refused =>
    exact ⟨[.refused], s, by simp, by simp [runAll, step, hpoint], hpoint, rfl⟩
  | connected arrivals timedOut ok =>
    cases arrivals with
    | nil =>
      cases timedOut with
      | true =>
        exact ⟨[.ended true], { s with point := .off }, by simp, by simp [runAll, step, hpoint], rfl,
          rfl⟩
      | false =>
        obtain ⟨s', hrun, hoff, hclient⟩ := runAll_sends (s := s) (k := 0) ok
          (List.reverse_reverse s.sendQueue.queue).symm
        refine ⟨.ended false :: sends ok 0 s.sendQueue.queue.reverse.length, s', ?_, ?_, hoff, ?_⟩
        · intro body
          rw [List.mem_cons, not_or]
          exact ⟨by simp, send_notMem_sends ok body 0 _⟩
        · simpa [runAll, step, hpoint] using hrun
        · rw [hclient, List.map_reverse]
          rfl
    | cons item rest =>
      refine ⟨[.arrival item], s.onArrival item, by simp, by simp [runAll, step, hpoint], ?_⟩
      cases item with
      | none => exact ⟨hpoint, rfl⟩
      | some frame =>
        have hframe := onFrame_frame s.client frame
        rw [ChimesWebSocketClient.round, onArrival]
        cases hround : s.client.onFrame frame with
        | goOn c =>
          rw [hround] at hframe
          exact ⟨hpoint, hframe.symm⟩
        | leave c =>
          rw [hround] at hframe
          exact ⟨rfl, hframe.symm⟩
        | panic => rfl

theorem runAll_loop (hpoint : s.point = .connecting) (hloop : s.client.looping = true)
    (attempts : List Attempt) :
    ∃ ls s', (∀ body, .send body ∉ ls) ∧ runAll step ls s = some s' ∧
      s'.Ends (s.client.loop attempts) := by
  induction attempts generalizing s with
  | nil => exact ⟨[], s, by simp, rfl, hpoint, rfl⟩
  | cons a attempts ih =>
    obtain ⟨ls, s₁, hls, hrun, hround⟩ := runAll_round hpoint a
    rw [ChimesWebSocketClient.loop, if_pos hloop]
    cases hr : s.client.round a with
    | goOn c =>
      rw [hr] at hround
      obtain ⟨hpoint₁, hclient⟩ := hround
      have hloop₁ : s₁.client.looping = true := by
        rcases ChimesWebSocketClient.round_cases s.client a with ⟨-, h⟩ | ⟨-, c', hc', -, h⟩
        · cases hr.symm.trans h
        · rw [hr] at h
          split_ifs at h
          · rw [hclient, Round.goOn.inj h, hc', hloop]
      obtain ⟨ls', s', hls', hrun', hends⟩ := ih hpoint₁ hloop₁
      refine ⟨ls ++ ls', s', fun body hmem => ?_, ?_, hclient ▸ hends⟩
      · exact (List.mem_append.mp hmem).elim (hls body) (hls' body)
      · rw [runAll_append, hrun]
        exact hrun'
    | leave c =>
      rw [hr] at hround
      exact ⟨ls, s₁, hls, hrun, hround⟩
    | panic =>
      rw [hr] at hround
      exact ⟨ls, s₁, hls, hrun, hround⟩

/-- **Refinement.** However `start` ends, the session ends so by steps between which nothing is
queued. -/
theorem runAll_start (hs : s.point = .off) (attempts : List Attempt) :
    ∃ ls s', (∀ body, .send body ∉ ls) ∧ runAll step (.start :: ls) s = some s' ∧
      s'.Ends (s.client.start attempts) := by
  obtain ⟨ls, s', hls, hrun, hends⟩ :=
    runAll_loop (s := { s with looping := true, point := .connecting }) rfl rfl attempts
  refine ⟨ls, s', hls, ?_, hends⟩
  rw [runAll, step, hs]
  exact hrun

end Session

end ChimesUtils
