import ChimesUtils.WebSocket.Client

/-!
# A failure in the sending loop

The loop takes its messages from the end of `send_queue`, and puts one that does not go out back at the
front.

* `drain_eq`: what the loop leaves when a send fails;
* `streamEnd_restores_iff`: when that is the queue as it was before the message was taken out.
-/

namespace ChimesUtils

namespace ChimesWebSocketClient

/-- The sends before the `j`-th one succeed, and this one fails. -/
def FailsAt (ok : ℕ → Bool) (j : ℕ) : Prop := (∀ i < j, ok i = true) ∧ ok j = false

/-- The queue before the `j`-th message is taken out. -/
def before (c : ChimesWebSocketClient) (j : ℕ) : List Text :=
  c.sendQueue.take (c.sendQueue.length - j)

/-- The messages that are taken out before the `j`-th one, in this order. -/
def taken (c : ChimesWebSocketClient) (j : ℕ) : List Text := c.sendQueue.reverse.take j

/-- **The loop.** The messages in front of the failing one go out; this one is put before all others. -/
theorem drain_eq {ok : ℕ → Bool} {k : ℕ} {out below : List Text} {msg : Text}
    (hok : ∀ i < out.length, ok (k + i) = true) (hfail : ok (k + out.length) = false) :
    drain ok k (out ++ msg :: below) = (msg :: below.reverse, out) := by
  induction out generalizing k with
  | nil =>
    have hk : ok k = false := hfail
    rw [List.nil_append, drain, if_neg (by rw [hk]; exact Bool.false_ne_true)]
  | cons top out ih =>
    have hk : ok k = true := hok 0 (Nat.succ_pos _)
    have hrest : drain ok (k + 1) (out ++ msg :: below) = (msg :: below.reverse, out) := by
      refine ih (fun i hi => ?_) ?_
      · rw [Nat.add_right_comm]
        exact hok (i + 1) (Nat.succ_lt_succ hi)
      · rw [Nat.add_right_comm]
        exact hfail
    rw [List.cons_append, drain, if_pos hk, hrest]

theorem cons_eq_append_singleton_iff {α : Type} {a : α} {l : List α} :
    a :: l = l ++ [a] ↔ ∀ b ∈ l, b = a := by
  induction l with
  | nil => simp
  | cons b l ih =>
    rw [List.cons_append, List.cons_eq_cons, List.forall_mem_cons]
    constructor
    · rintro ⟨rfl, h⟩
      exact ⟨rfl, ih.mp h⟩
    · rintro ⟨rfl, h⟩
      exact ⟨rfl, ih.mpr h⟩

section Failure

variable {c : ChimesWebSocketClient} {ok : ℕ → Bool} {j : ℕ} {msg : Text}

theorem reverse_sendQueue (h : c.sendQueue.reverse[j]? = some msg) :
    c.sendQueue.reverse = c.taken j ++ msg :: c.sendQueue.reverse.drop (j + 1) := by
  obtain ⟨hj, hmsg⟩ := List.getElem?_eq_some_iff.mp h
  rw [taken, ← hmsg, List.getElem_cons_drop, List.take_append_drop]

theorem before_eq (h : c.sendQueue.reverse[j]? = some msg) :
    c.before j = (c.sendQueue.reverse.drop (j + 1)).reverse ++ [msg] := by
  obtain ⟨hj, hmsg⟩ := List.getElem?_eq_some_iff.mp h
  have hdrop : c.sendQueue.reverse.drop j = msg :: c.sendQueue.reverse.drop (j + 1) := by
    rw [← hmsg, List.getElem_cons_drop]
  rw [← List.reverse_cons, ← hdrop, List.drop_reverse, List.reverse_reverse]
  rfl

theorem streamEnd_eq (h : c.sendQueue.reverse[j]? = some msg) (hfail : FailsAt ok j) :
    c.streamEnd false ok =
      { c with sendQueue := msg :: (c.sendQueue.reverse.drop (j + 1)).reverse,
               sent := c.sent ++ c.taken j } := by
  have hlength : (c.taken j).length = j := by
    obtain ⟨hj, -⟩ := List.getElem?_eq_some_iff.mp h
    rw [taken, List.length_take]
    omega
  have hdrain : drain ok 0 c.sendQueue.reverse =
      (msg :: (c.sendQueue.reverse.drop (j + 1)).reverse, c.taken j) := by
    rw [reverse_sendQueue h]
    refine (drain_eq (fun i hi => ?_) ?_).trans ?_
    · rw [Nat.zero_add]
      exact hfail.1 i (hlength ▸ hi)
    · rw [Nat.zero_add, hlength]
      exact hfail.2
    · rw [← reverse_sendQueue h]
  unfold streamEnd
  rw [if_neg Bool.false_ne_true, hdrain]

/-- **A failing send.** The queue is as it was before the message was taken out, and what went out is
gone, just when all messages before the failing one are equal to it. -/
theorem streamEnd_restores_iff (h : c.sendQueue.reverse[j]? = some msg) (hfail : FailsAt ok j) :
    (c.streamEnd false ok).sendQueue = c.before j ∧
        (c.streamEnd false ok).sent = c.sent ++ c.taken j ↔
      ∀ m ∈ c.before j, m = msg := by
  have hall : (∀ m ∈ c.before j, m = msg) ↔
      ∀ m ∈ (c.sendQueue.reverse.drop (j + 1)).reverse, m = msg := by
    rw [before_eq h, List.forall_mem_append]
    simp
  rw [hall, streamEnd_eq h hfail, before_eq h]
  show msg :: _ = _ ∧ c.sent ++ c.taken j = c.sent ++ c.taken j ↔ _
  rw [cons_eq_append_singleton_iff]
  exact and_iff_left rfl

end Failure

/-- Three messages of which the last two are equal. -/
def threeMessages : ChimesWebSocketClient := ⟨[['a'], ['b'], ['b']], [], true, []⟩

theorem streamEnd_restores_iff_three :
    (threeMessages.streamEnd false fun _ => false).sendQueue = threeMessages.before 0 ∧
        (threeMessages.streamEnd false fun _ => false).sent =
          threeMessages.sent ++ threeMessages.taken 0 ↔
      ∀ m ∈ threeMessages.before 0, m = ['b'] :=
  streamEnd_restores_iff rfl ⟨fun i hi => absurd hi (Nat.not_lt_zero i), rfl⟩

/-- The first send fails: its message, the last of the queue, is now the first. -/
theorem streamEnd_threeMessages_ne :
    FailsAt (fun _ => false) 0 ∧
      (threeMessages.streamEnd false fun _ => false).sendQueue = [['b'], ['a'], ['b']] ∧
      (threeMessages.streamEnd false fun _ => false).sendQueue ≠ threeMessages.before 0 :=
  ⟨⟨fun i hi => absurd hi (Nat.not_lt_zero i), rfl⟩, by decide, by decide⟩

end ChimesWebSocketClient

end ChimesUtils
