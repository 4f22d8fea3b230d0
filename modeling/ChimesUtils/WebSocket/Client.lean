import ChimesUtils.Rust

/-!
# The websocket client

`start` connects, reads one item of the stream, and lets the connection go: the next round connects
again. It ends at the end of a stream, where it sends what is queued, and at a close frame.

* `Attempt`: an attempt to connect, with everything the server delivers on the connection;
* `start`: the connect loop over the attempts;
* `delivers_iff`: when every text and every binary frame ends up in `recv_queue`.
-/

namespace ChimesUtils

/-- `ws::Frame`. -/
inductive Frame where
  | text (payload : Bytes)
  | binary (payload : Bytes)
  | continuation (payload : Bytes)
  | ping (payload : Bytes)
  | pong (payload : Bytes)
  | close
  deriving DecidableEq

/-- An item of the stream: a frame or a protocol error. -/
abbrev Arrival := Option Frame

/-- An attempt to connect. -/
inductive Attempt where
  | refused
  /-- The items of the stream up to its end; whether the wait at its end times out, and which of the
  messages sent there go out. -/
  | connected (arrivals : List Arrival) (timedOut : Bool) (ok : ℕ → Bool)

/-- `ChimesWebSocketClient`, with the messages that have gone out. -/
structure ChimesWebSocketClient where
  sendQueue : List Text
  recvQueue : List Text
  looping : Bool
  sent : List Text
  deriving DecidableEq

/-- How a round of the loop ends. -/
inductive Round where
  | goOn (c : ChimesWebSocketClient)
  | leave (c : ChimesWebSocketClient)
  | panic

/-- How `start` ends, if it does. -/
inductive StartOutcome where
  | returned (c : ChimesWebSocketClient)
  /-- It goes on with the next attempt. -/
  | looping (c : ChimesWebSocketClient)
  | panicked
  deriving DecidableEq

namespace ChimesWebSocketClient

/-- `new_websocket`. -/
def newWebsocket : ChimesWebSocketClient := ⟨[], [], false, []⟩

def send (c : ChimesWebSocketClient) (body : Text) : ChimesWebSocketClient :=
  { c with sendQueue := c.sendQueue ++ [body] }

/-- The sending loop over the queue from its end, and what it leaves. The `k`-th message comes first;
one that does not go out is inserted at the front. -/
def drain (ok : ℕ → Bool) : ℕ → List Text → List Text × List Text
  | _, [] => ([], [])
  | k, msg :: below =>
    if ok k then ((drain ok (k + 1) below).1, msg :: (drain ok (k + 1) below).2)
    else (msg :: below.reverse, [])

/-- The end of the stream. -/
def streamEnd (c : ChimesWebSocketClient) (timedOut : Bool) (ok : ℕ → Bool) :
    ChimesWebSocketClient :=
  if timedOut then c
  else
    let (queue, out) := drain ok 0 c.sendQueue.reverse
    { c with sendQueue := queue, sent := c.sent ++ out }

/-- One frame. -/
def onFrame (c : ChimesWebSocketClient) : Frame → Round
  | .text payload | .binary payload =>
    match fromUtf8 payload with
    | some s => .goOn { c with recvQueue := c.recvQueue ++ [s] }
    | none => .panic
  | .continuation _ => .goOn c
  | .ping payload | .pong payload =>
    match fromUtf8 payload with
    | some _ => .goOn c
    | none => .panic
  | .close => .leave c

/-- One round: the item that `conn.next` gives first. -/
def round (c : ChimesWebSocketClient) : Attempt → Round
  | .refused => .goOn c
  | .connected [] timedOut ok => .leave (c.streamEnd timedOut ok)
  | .connected (none :: _) _ _ => .goOn c
  | .connected (some frame :: _) _ _ => c.onFrame frame

def loop : List Attempt → ChimesWebSocketClient → StartOutcome
  | [], c => .looping c
  | a :: attempts, c =>
    if c.looping then
      match c.round a with
      | .goOn c' => loop attempts c'
      | .leave c' => .returned c'
      | .panic => .panicked
    else .returned c

/-- `start`. -/
def start (attempts : List Attempt) (c : ChimesWebSocketClient) : StartOutcome :=
  loop attempts { c with looping := true }

end ChimesWebSocketClient

/-! ## What is delivered -/

namespace Frame

/-- The payload that belongs into `recv_queue`. -/
def message : Frame → List Bytes
  | text payload => [payload]
  | binary payload => [payload]
  | _ => []

/-- The payload that the client converts. -/
def converted : Frame → List Bytes
  | continuation _ => []
  | text payload | binary payload | ping payload | pong payload => [payload]
  | close => []

/-- What the client converts is valid UTF-8. -/
def Readable (frame : Frame) : Prop := ∀ payload ∈ frame.converted, (fromUtf8 payload).isSome

instance (frame : Frame) : Decidable frame.Readable :=
  inferInstanceAs (Decidable (∀ payload ∈ frame.converted, (fromUtf8 payload).isSome))

end Frame

/-- The payloads of the text and binary frames before the close. -/
def payloads : List Arrival → List Bytes
  | [] => []
  | none :: arrivals => payloads arrivals
  | some .close :: _ => []
  | some frame :: arrivals => frame.message ++ payloads arrivals

namespace Attempt

def arrivals : Attempt → List Arrival
  | refused => []
  | connected arrivals _ _ => arrivals

/-- The loop goes on after the attempt. -/
def goesOn : Attempt → Bool
  | refused => true
  | connected [] _ _ => false
  | connected (none :: _) _ _ => true
  | connected (some frame :: _) _ _ => decide (frame ≠ .close ∧ frame.Readable)

/-- The first item is valid where it is converted, and no text or binary frame comes after it and
before the close. -/
def Single (a : Attempt) : Prop :=
  match a.arrivals with
  | [] => True
  | none :: rest => payloads rest = []
  | some frame :: rest => frame.Readable ∧ (frame = .close ∨ payloads rest = [])

end Attempt

/-- The attempts that `start` makes. -/
def made : List Attempt → List Attempt
  | [] => []
  | a :: attempts => a :: if a.goesOn then made attempts else []

namespace ChimesWebSocketClient

/-- `start` has not panicked, and has received every text and binary frame of the connections it has
made. -/
def Delivers (attempts : List Attempt) (c : ChimesWebSocketClient) : Prop :=
  ∃ c', (start attempts c = .returned c' ∨ start attempts c = .looping c') ∧
    c'.recvQueue.map utf8 =
      c.recvQueue.map utf8 ++ (made attempts).flatMap fun a => payloads a.arrivals

end ChimesWebSocketClient

/-! ## One round -/

namespace Attempt

/-- The payload that the round puts into `recv_queue`. -/
def received (a : Attempt) : List Bytes :=
  match a.arrivals with
  | some frame :: _ => frame.message
  | _ => []

/-- The first frame is valid where it is converted. -/
def HeadReadable (a : Attempt) : Prop :=
  match a.arrivals with
  | some frame :: _ => frame.Readable
  | _ => True

theorem received_prefix (a : Attempt) : a.received <+: payloads a.arrivals := by
  unfold received
  split
  next frame rest harr =>
    rw [harr]
    cases frame with
    | close => exact List.prefix_rfl
    | _ => exact List.prefix_append _ _
  next => exact List.nil_prefix

theorem single_iff (a : Attempt) : a.Single ↔ a.HeadReadable ∧ a.received = payloads a.arrivals := by
  unfold Single HeadReadable received
  cases a.arrivals with
  | nil => exact iff_of_true trivial ⟨trivial, rfl⟩
  | cons item rest =>
    cases item with
    | none =>
      show payloads rest = [] ↔ True ∧ [] = payloads rest
      rw [true_and, eq_comm]
    | some frame =>
      refine and_congr_right fun _ => ?_
      cases frame with
      | close => exact iff_of_true (Or.inl rfl) rfl
      | text | binary =>
        show _ ∨ payloads rest = [] ↔ [_] = [_] ++ payloads rest
        simp
      | continuation | ping | pong =>
        show _ ∨ payloads rest = [] ↔ [] = [] ++ payloads rest
        simp [eq_comm]

end Attempt

namespace ChimesWebSocketClient

variable {c : ChimesWebSocketClient} {a : Attempt} {attempts : List Attempt}

theorem streamEnd_looping (c : ChimesWebSocketClient) (timedOut : Bool) (ok : ℕ → Bool) :
    (c.streamEnd timedOut ok).looping = c.looping := by
  unfold streamEnd
  split_ifs <;> rfl

theorem streamEnd_recvQueue (c : ChimesWebSocketClient) (timedOut : Bool) (ok : ℕ → Bool) :
    (c.streamEnd timedOut ok).recvQueue = c.recvQueue := by
  unfold streamEnd
  split_ifs <;> rfl

theorem not_readable {frame : Frame} {payload : Bytes} (hmem : payload ∈ frame.converted)
    (hs : fromUtf8 payload = none) : ¬ frame.Readable := by
  intro h
  have hsome := h payload hmem
  rw [hs] at hsome
  cases hsome

/-- What a frame does: it panics, or adds its message and goes on unless it is a close. -/
theorem onFrame_cases (c : ChimesWebSocketClient) (frame : Frame) :
    (¬ frame.Readable ∧ c.onFrame frame = .panic) ∨
      frame.Readable ∧ ∃ c', c'.looping = c.looping ∧
        c'.recvQueue.map utf8 = c.recvQueue.map utf8 ++ frame.message ∧
        c.onFrame frame = if frame = .close then .leave c' else .goOn c' := by
  cases frame with
  | text payload | binary payload =>
    cases hs : fromUtf8 payload with
    | none => exact Or.inl ⟨not_readable List.mem_cons_self hs, by rw [onFrame, hs]⟩
    | some s =>
      refine Or.inr ⟨fun b hb => ?_, { c with recvQueue := c.recvQueue ++ [s] }, rfl, ?_, ?_⟩
      · rw [List.mem_singleton.mp hb, hs]
        rfl
      · rw [List.map_append, List.map_singleton, utf8_of_fromUtf8 hs]
        rfl
      · rw [onFrame, hs, if_neg (by simp)]
  | ping payload | pong payload =>
    cases hs : fromUtf8 payload with
    | none => exact Or.inl ⟨not_readable List.mem_cons_self hs, by rw [onFrame, hs]⟩
    | some s =>
      refine Or.inr ⟨fun b hb => ?_, c, rfl, (List.append_nil _).symm, ?_⟩
      · rw [List.mem_singleton.mp hb, hs]
        rfl
      · rw [onFrame, hs, if_neg (by simp)]
  | continuation payload =>
    exact Or.inr ⟨List.forall_mem_nil _, c, rfl, (List.append_nil _).symm, rfl⟩
  | close => exact Or.inr ⟨List.forall_mem_nil _, c, rfl, (List.append_nil _).symm, rfl⟩

/-- **One round** panics, or adds what it has received. -/
theorem round_cases (c : ChimesWebSocketClient) (a : Attempt) :
    (¬ a.HeadReadable ∧ c.round a = .panic) ∨
      a.HeadReadable ∧ ∃ c', c'.looping = c.looping ∧
        c'.recvQueue.map utf8 = c.recvQueue.map utf8 ++ a.received ∧
        c.round a = if a.goesOn then .goOn c' else .leave c' := by
  cases a with
  | refused => exact Or.inr ⟨trivial, c, rfl, (List.append_nil _).symm, rfl⟩
  | connected arrivals timedOut ok =>
    cases arrivals with
    | nil =>
      refine Or.inr ⟨trivial, c.streamEnd timedOut ok, streamEnd_looping c timedOut ok, ?_, rfl⟩
      rw [streamEnd_recvQueue]
      exact (List.append_nil _).symm
    | cons item rest =>
      cases item with
      | none => exact Or.inr ⟨trivial, c, rfl, (List.append_nil _).symm, rfl⟩
      | some frame =>
        rcases onFrame_cases c frame with hpanic | ⟨hread, c', hloop, hrecv, hround⟩
        · exact Or.inl hpanic
        · refine Or.inr ⟨hread, c', hloop, hrecv, hround.trans ?_⟩
          by_cases hclose : frame = .close
          · simp [Attempt.goesOn, hclose]
          · simp [Attempt.goesOn, hclose, hread]

/-! ## The loop -/

/-- **All rounds.** Without a panic, `recv_queue` has what the rounds have received. -/
theorem loop_received (hc : c.looping = true) (h : ∀ a ∈ made attempts, a.HeadReadable) :
    ∃ c', (loop attempts c = .returned c' ∨ loop attempts c = .looping c') ∧
      c'.recvQueue.map utf8 = c.recvQueue.map utf8 ++ (made attempts).flatMap Attempt.received := by
  induction attempts generalizing c with
  | nil => exact ⟨c, Or.inr rfl, (List.append_nil _).symm⟩
  | cons a attempts ih =>
    rw [loop, if_pos hc, made, List.flatMap_cons]
    rw [made, List.forall_mem_cons] at h
    rcases round_cases c a with ⟨hpanic, -⟩ | ⟨-, c₁, hloop, hrecv, hround⟩
    · exact absurd h.1 hpanic
    · cases hgo : a.goesOn with
      | false =>
        rw [hround, hgo, if_neg Bool.false_ne_true]
        refine ⟨c₁, Or.inl rfl, ?_⟩
        rw [hrecv, if_neg Bool.false_ne_true, List.flatMap_nil, List.append_nil]
      | true =>
        rw [hgo, if_pos rfl] at h
        obtain ⟨c', hc', hrecv'⟩ := ih (hloop.trans hc) h.2
        rw [hround, hgo, if_pos rfl]
        refine ⟨c', hc', ?_⟩
        rw [hrecv', hrecv, if_pos rfl, List.append_assoc]

theorem loop_panicked (hc : c.looping = true) (h : ∃ a ∈ made attempts, ¬ a.HeadReadable) :
    loop attempts c = .panicked := by
  induction attempts generalizing c with
  | nil => simp [made] at h
  | cons a attempts ih =>
    rw [loop, if_pos hc]
    rcases round_cases c a with ⟨-, hround⟩ | ⟨hread, c₁, hloop, -, hround⟩
    · rw [hround]
    · obtain ⟨b, hb, hbad⟩ := h
      rw [made] at hb
      rcases List.mem_cons.mp hb with rfl | hb
      · exact absurd hread hbad
      · split_ifs at hb with hgo
        · rw [hround, hgo, if_pos rfl]
          exact ih (hloop.trans hc) ⟨b, hb, hbad⟩
        · cases hb

theorem flatMap_eq_flatMap_iff_of_prefix {α β : Type} {f g : α → List β} {l : List α}
    (h : ∀ a ∈ l, f a <+: g a) : l.flatMap f = l.flatMap g ↔ ∀ a ∈ l, f a = g a := by
  induction l with
  | nil => simp
  | cons a l ih =>
    rw [List.forall_mem_cons] at h ⊢
    obtain ⟨rest, hrest⟩ := h.1
    rw [List.flatMap_cons, List.flatMap_cons, ← ih h.2]
    constructor
    · intro heq
      have hlen : ∀ l' : List α, (∀ b ∈ l', f b <+: g b) →
          (l'.flatMap f).length ≤ (l'.flatMap g).length := by
        intro l' hl'
        induction l' with
        | nil => exact le_rfl
        | cons b l' ih' =>
          rw [List.forall_mem_cons] at hl'
          rw [List.flatMap_cons, List.flatMap_cons, List.length_append, List.length_append]
          exact Nat.add_le_add hl'.1.length_le (ih' hl'.2)
      have htotal := congrArg List.length heq
      have hle := hlen l h.2
      rw [← hrest, List.length_append, List.length_append, List.length_append] at htotal
      have hnil : rest = [] := List.length_eq_zero_iff.mp (by omega)
      rw [hnil, List.append_nil] at hrest
      rw [hrest] at heq ⊢
      exact ⟨rfl, List.append_cancel_left heq⟩
    · rintro ⟨ha, hl⟩
      rw [ha, hl]

/-- **Delivery.** For every sequence of attempts and every client, `start` does not panic and
`recv_queue` gets the payloads of all text and binary frames before the close of each connection, in
order, just when on each connection the first frame is valid UTF-8 where the client converts it, and no
text or binary frame comes after it and before the close. -/
theorem delivers_iff (attempts : List Attempt) (c : ChimesWebSocketClient) :
    c.Delivers attempts ↔ ∀ a ∈ made attempts, a.Single := by
  have hloop : ({ c with looping := true } : ChimesWebSocketClient).looping = true := rfl
  by_cases hread : ∀ a ∈ made attempts, a.HeadReadable
  · obtain ⟨c', hc', hrecv⟩ := loop_received hloop hread
    have hone : ∀ a ∈ made attempts, (a.Single ↔ a.received = payloads a.arrivals) :=
      fun a ha => (Attempt.single_iff a).trans (and_iff_right (hread a ha))
    rw [forall₂_congr hone, ← flatMap_eq_flatMap_iff_of_prefix fun a _ => a.received_prefix]
    constructor
    · rintro ⟨c'', hc'', hall⟩
      have hsame : c' = c'' := by
        rcases hc' with h | h
        · rcases hc'' with h' | h'
          · exact StartOutcome.returned.inj (h.symm.trans h')
          · cases h.symm.trans h'
        · rcases hc'' with h' | h'
          · cases h.symm.trans h'
          · exact StartOutcome.looping.inj (h.symm.trans h')
      rw [hsame] at hrecv
      exact List.append_cancel_left (hrecv.symm.trans hall)
    · intro hall
      exact ⟨c', hc', by rw [hrecv, hall]⟩
  · have hbad : ∃ a ∈ made attempts, ¬ a.HeadReadable := by simpa using hread
    refine iff_of_false ?_ fun h => hread fun a ha => ((Attempt.single_iff a).mp (h a ha)).1
    rintro ⟨c', hc', -⟩
    rw [start, loop_panicked hloop hbad] at hc'
    rcases hc' with h | h <;> cases h

/-- Two messages on one connection. -/
def twoMessages : List Attempt :=
  [.connected [some (.text (utf8 ['a'])), some (.text (utf8 ['b'])), some .close] false fun _ => true]

/-- The second message is lost; a ping that is no text makes `start` panic. -/
theorem not_delivers_twoMessages :
    start twoMessages newWebsocket = .looping ⟨[], [['a']], true, []⟩ ∧
    ¬ newWebsocket.Delivers twoMessages ∧
    start [.connected [some (.ping [255])] false fun _ => true] newWebsocket = .panicked := by
  have hstart : start twoMessages newWebsocket = .looping ⟨[], [['a']], true, []⟩ := by
    decide +kernel
  refine ⟨hstart, ?_, by decide +kernel⟩
  rintro ⟨c', hc', hrecv⟩
  rw [hstart] at hc'
  rcases hc' with h | h
  · cases h
  · cases h
    exact absurd hrecv (by decide +kernel)

end ChimesWebSocketClient

end ChimesUtils
